import ShaderLoom.Proofs.Outcome
import ShaderLoom.Proofs.Program.Cache
import ShaderLoom.Proofs.Table

/-!
# Handles on cached programs

`Cache.Serves` ties a cache to the handles that are out, whoever has them: the cache counts them,
and each of them is on the program that is cached under its key. Each operation of the cache keeps
this, with one handle more or one handle less. A program that is given back is removed when no other
handle on it is out (`Cache.Serves.mem_programs_release_iff`), and it is the one program that can be
removed, since it is the one that is cached under its key.

A compiler need not answer the same texts alike each time, so the runs here name the compiler that
answers in each step. **`Holders.isFaithful_runEach`**: whatever the holders have done, what they
hold is cached, the compiler is called for absent keys and for nothing else, and only giving back
the last handle removes a program.
-/

namespace ShaderLoom

variable {p q : Program} {texts : StageTexts} {held held' : List Program}

namespace Cache

variable {c : Cache} {key : String}

/-- The handles that are out are those on `held`, and all of them are on cached programs. No two
cached programs have one key or one identity. -/
structure Serves (c : Cache) (held : List Program) : Prop where
  /-- the cache counts the handles -/
  handles : c.handles.Perm (held.map Program.id)
  /-- what is held is cached -/
  cached : ∀ p ∈ held, p ∈ c.programs
  /-- programs have keys of their own -/
  keys : (c.programs.map Program.key).Nodup
  /-- programs have identities of their own -/
  ids : (c.programs.map Program.id).Nodup
  /-- the next identity is free -/
  fresh : ∀ p ∈ c.programs, p.id < c.compiles

theorem serves_nil (compiler : Compiler) : ({ compiler } : Cache).Serves [] :=
  ⟨List.Perm.nil, fun _ hp => absurd hp List.not_mem_nil, List.nodup_nil, List.nodup_nil,
    fun _ hp => absurd hp List.not_mem_nil⟩

namespace Serves

theorem of_perm (h : c.Serves held) (hperm : held.Perm held') : c.Serves held' :=
  ⟨h.handles.trans (hperm.map _), fun p hp => h.cached p (hperm.mem_iff.mpr hp), h.keys, h.ids,
    h.fresh⟩

/-- **A cached program** is found under its key. -/
theorem find?_eq_some_iff (h : c.Serves held) :
    c.find? key = some p ↔ p ∈ c.programs ∧ p.key = key := by
  constructor
  · exact find?_eq_some
  · rintro ⟨hp, rfl⟩
    cases hfind : c.find? p.key with
    | none => simpa using List.find?_eq_none.mp hfind p hp
    | some q =>
      obtain ⟨hq, hkey⟩ := find?_eq_some hfind
      rw [List.inj_on_of_nodup_map h.keys hq hp hkey]

/-- A cached program has a handle out if it is held. -/
theorem mem_handles_iff (h : c.Serves held) (hp : p ∈ c.programs) :
    p.id ∈ c.handles ↔ p ∈ held := by
  rw [h.handles.mem_iff, List.mem_map]
  constructor
  · rintro ⟨q, hq, hid⟩
    rwa [← List.inj_on_of_nodup_map h.ids (h.cached q hq) hp hid]
  · exact fun hheld => ⟨p, hheld, rfl⟩

/-! ### One operation -/

theorem hold (h : c.Serves held) (hp : p ∈ c.programs) : (c.hold p).Serves (p :: held) :=
  ⟨h.handles.cons p.id, List.forall_mem_cons.mpr ⟨hp, h.cached⟩, h.keys, h.ids, h.fresh⟩

theorem drop (h : c.Serves (p :: held)) : (c.drop p).Serves held := by
  refine ⟨?_, fun q hq => h.cached q (List.mem_cons_of_mem p hq), h.keys, h.ids, h.fresh⟩
  have hhandles := h.handles.erase p.id
  rwa [List.map_cons, List.erase_cons_head] at hhandles

/-- **Giving a handle back** removes its program, unless another handle on it is out. -/
theorem release_eq (h : c.Serves (p :: held)) :
    (p ∈ held ∧ c.release p = c.drop p) ∨
      (p ∉ held ∧ c.release p = (c.drop p).evict p.key) := by
  have hp : p ∈ c.programs := h.cached p (List.mem_cons_self ..)
  have hfind : c.find? p.key = some p := h.find?_eq_some_iff.mpr ⟨hp, rfl⟩
  have hheld : p.id ∈ (c.drop p).handles ↔ p ∈ held := h.drop.mem_handles_iff hp
  rcases c.release_cases p with ⟨cached, hcached, hout, he⟩ | ⟨hin, he⟩
  · obtain rfl := Option.some.inj (hfind.symm.trans hcached)
    exact .inr ⟨fun hmem => hout (hheld.mpr hmem), he⟩
  · exact .inl ⟨hheld.mp (hin p hfind), he⟩

theorem mem_programs_release_iff (h : c.Serves (p :: held)) :
    q ∈ (c.release p).programs ↔ q ∈ c.programs ∧ (q = p → p ∈ held) := by
  have hp : p ∈ c.programs := h.cached p (List.mem_cons_self ..)
  rcases h.release_eq with ⟨hheld, he⟩ | ⟨hout, he⟩
  · rw [he]
    exact ⟨fun hq => ⟨hq, fun _ => hheld⟩, fun hq => hq.1⟩
  · rw [he, evict, programs_drop, List.mem_filter]
    refine and_congr_right fun hq => ?_
    have hkey : q.key = p.key ↔ q = p :=
      ⟨fun heq => List.inj_on_of_nodup_map h.keys hq hp heq, fun heq => heq ▸ rfl⟩
    simp [hkey, hout]

theorem release (h : c.Serves (p :: held)) : (c.release p).Serves held := by
  rcases h.release_eq with ⟨-, he⟩ | ⟨hout, he⟩
  · rw [he]
    exact h.drop
  · have hsub : ((c.drop p).evict p.key).programs.Sublist c.programs := List.filter_sublist
    rw [he]
    refine ⟨h.drop.handles, fun q hq => ?_, h.keys.sublist (hsub.map _), h.ids.sublist (hsub.map _),
      fun q hq => h.fresh q (hsub.subset hq)⟩
    rw [← he]
    refine h.mem_programs_release_iff.mpr ⟨h.drop.cached q hq, ?_⟩
    rintro rfl
    exact absurd hq hout

/-- **A request that succeeds** hands out one more handle. -/
theorem get_ok (h : c.Serves held) (hget : (c.get texts).1 = .ok p) :
    (c.get texts).2.Serves (p :: held) := by
  rcases c.get_cases texts with ⟨q, hq, he⟩ | ⟨-, fault, -, he⟩ | ⟨hnone, reflection, -, he⟩
  · rw [he] at hget ⊢
    cases hget
    exact h.hold (find?_eq_some hq).1
  · rw [he] at hget
    cases hget
  · rw [he] at hget ⊢
    cases hget
    have habsent : ∀ q ∈ c.programs, q.key ≠ texts.key := by
      simpa [find?] using hnone
    refine ⟨h.handles.cons _, List.forall_mem_cons.mpr
      ⟨List.mem_append_right _ (List.mem_singleton_self _),
        fun q hq => List.mem_append_left _ (h.cached q hq)⟩, ?_, ?_, fun q hq => ?_⟩
    · rw [List.map_append, List.nodup_append']
      refine ⟨h.keys, List.nodup_singleton _, ?_⟩
      simpa [Program.key] using habsent
    · rw [List.map_append, List.nodup_append']
      refine ⟨h.ids, List.nodup_singleton _, ?_⟩
      simpa using fun q hq => Nat.ne_of_lt (h.fresh q hq)
    · rcases List.mem_append.mp hq with hq | hq
      · exact Nat.lt_succ_of_lt (h.fresh q hq)
      · obtain rfl := List.mem_singleton.mp hq
        exact Nat.lt_succ_self _

/-- **A request that fails** hands nothing out. -/
theorem get_error (h : c.Serves held) {fault : CompileFault}
    (hget : (c.get texts).1 = .error fault) : (c.get texts).2.Serves held := by
  rcases c.get_cases texts with ⟨q, -, he⟩ | ⟨-, fault, -, he⟩ | ⟨-, reflection, -, he⟩
  · rw [he] at hget
    cases hget
  · rw [he]
    exact ⟨h.handles, h.cached, h.keys, h.ids, fun q hq => Nat.lt_succ_of_lt (h.fresh q hq)⟩
  · rw [he] at hget
    cases hget

end Serves

/-! ### Calls of the compiler -/

/-- **The compiler is called** for an absent key, and for no other. -/
theorem compiles_get (c : Cache) (texts : StageTexts) :
    (c.get texts).2.compiles = c.compiles + if (c.find? texts.key).isNone then 1 else 0 := by
  rcases c.get_cases texts with ⟨q, hq, he⟩ | ⟨hnone, fault, -, he⟩ | ⟨hnone, reflection, -, he⟩
  · rw [he, hq]
    rfl
  · rw [he, hnone]
    rfl
  · rw [he, hnone]
    rfl

@[simp] theorem compiles_drop : (c.drop p).compiles = c.compiles := rfl

@[simp] theorem compiles_hold : (c.hold p).compiles = c.compiles := rfl

@[simp] theorem compiles_release : (c.release p).compiles = c.compiles := by
  rcases c.release_cases p with ⟨cached, -, -, he⟩ | ⟨-, he⟩ <;> rw [he] <;> rfl

/-- **A request that fails** counts a call of the compiler and changes nothing else. -/
theorem get_of_error {fault : CompileFault} (hget : (c.get texts).1 = .error fault) :
    (c.get texts).2 = { c with compiles := c.compiles + 1 } := by
  rcases c.get_cases texts with ⟨q, -, he⟩ | ⟨-, fault, -, he⟩ | ⟨-, reflection, -, he⟩
  · rw [he] at hget
    cases hget
  · rw [he]
  · rw [he] at hget
    cases hget

/-- **A request** brings what it hands out into the cache, and changes nothing else there. -/
theorem mem_programs_get_iff :
    p ∈ (c.get texts).2.programs ↔ p ∈ c.programs ∨ (c.get texts).1 = .ok p := by
  rcases c.get_cases texts with ⟨q, hq, he⟩ | ⟨-, fault, -, he⟩ | ⟨-, reflection, -, he⟩
  · rw [he]
    refine (or_iff_left_of_imp fun hok => ?_).symm
    cases hok
    exact (find?_eq_some hq).1
  · rw [he]
    simp
  · rw [he]
    simp [eq_comm]

/-- Another compiler behind the cache. -/
def withCompiler (c : Cache) (compiler : Compiler) : Cache := { c with compiler }

theorem Serves.withCompiler (h : c.Serves held) (compiler : Compiler) :
    (c.withCompiler compiler).Serves held :=
  ⟨h.handles, h.cached, h.keys, h.ids, h.fresh⟩

end Cache

/-! ## Holders -/

namespace Holders

variable {h : Holders} {holder : String} {action : Action}

/-- The handles that are out are those of the holders. -/
structure IsAccounted (h : Holders) : Prop where
  /-- a holder has one handle -/
  keyed : Table.IsKeyed h.held
  /-- and the cache knows it -/
  serves : h.cache.Serves (Table.values h.held)

theorem isAccounted_start (compiler : Compiler) : (start compiler).IsAccounted :=
  ⟨Table.isKeyed_nil, Cache.serves_nil compiler⟩

/-- What a holder stores was handed out, and what it held is dropped. -/
theorem isAccounted_store (hkeyed : Table.IsKeyed h.held)
    (hserves : h.cache.Serves (p :: Table.values h.held)) : (h.store holder p).IsAccounted := by
  refine ⟨hkeyed.insert holder p, ?_⟩
  have hvalues : Table.values (h.store holder p).held = p :: (h.held.erase holder).values := rfl
  rw [hvalues, store]
  cases hold : h.held.find? holder with
  | none => rwa [Table.erase_eq_self hold]
  | some old =>
    apply Cache.Serves.drop
    exact hserves.of_perm (((Table.perm_values hkeyed hold).cons p).trans (List.Perm.swap ..))

namespace IsAccounted

theorem get (hh : h.IsAccounted) (holder : String) (texts : StageTexts) :
    (h.get holder texts).2.IsAccounted := by
  rw [Holders.get]
  split
  · next fault cache he =>
    refine ⟨hh.keyed, ?_⟩
    have hserves := hh.serves.get_error (congrArg Prod.fst he)
    rwa [he] at hserves
  · next p cache he =>
    refine isAccounted_store (h := ⟨cache, h.held⟩) hh.keyed ?_
    have hserves := hh.serves.get_ok (congrArg Prod.fst he)
    rwa [he] at hserves

/-- What a holder holds is held. -/
theorem mem_values (hh : h.IsAccounted) (hp : h.held.find? holder = some p) :
    p ∈ Table.values h.held :=
  (Table.mem_values_iff hh.keyed).mpr ⟨holder, hp⟩

theorem clone (hh : h.IsAccounted) (holder target : String) :
    (h.clone holder target).2.IsAccounted := by
  rw [Holders.clone]
  split
  · exact hh
  · next p hp =>
    exact isAccounted_store (h := ⟨h.cache.hold p, h.held⟩) hh.keyed
      (hh.serves.hold (hh.serves.cached p (hh.mem_values hp)))

/-- The handle of a holder, in front of the others. -/
theorem serves_erase (hh : h.IsAccounted) (hp : h.held.find? holder = some p) :
    h.cache.Serves (p :: (h.held.erase holder).values) :=
  hh.serves.of_perm (Table.perm_values hh.keyed hp)

theorem release (hh : h.IsAccounted) (holder : String) :
    (h.release holder).2.IsAccounted := by
  rw [Holders.release]
  split
  · exact hh
  · next p hp => exact ⟨hh.keyed.erase holder, (hh.serves_erase hp).release⟩

theorem drop (hh : h.IsAccounted) (holder : String) : (h.drop holder).2.IsAccounted := by
  rw [Holders.drop]
  split
  · exact hh
  · next p hp => exact ⟨hh.keyed.erase holder, (hh.serves_erase hp).drop⟩

/-- **Every action** keeps the accounts. -/
theorem act (hh : h.IsAccounted) (action : Action) : (h.act action).IsAccounted := by
  cases action with
  | get holder texts => exact hh.get holder texts
  | clone holder target => exact hh.clone holder target
  | release holder => exact hh.release holder
  | drop holder => exact hh.drop holder

end IsAccounted

/-! ### What an action does to the cache -/

/-- Does an action ask for a key that is not cached? -/
def misses (h : Holders) (action : Action) : Bool :=
  action.request?.any fun texts => (h.cache.find? texts.key).isNone

@[simp] theorem compiles_store : (h.store holder p).cache.compiles = h.cache.compiles := by
  rw [store]
  split <;> rfl

/-- **The compiler is called** by requests of absent keys, and by nothing else. -/
theorem compiles_act (h : Holders) (action : Action) :
    (h.act action).cache.compiles = h.cache.compiles + if h.misses action then 1 else 0 := by
  cases action with
  | get holder texts =>
    have hcompiles := Cache.compiles_get h.cache texts
    rw [act, get]
    split
    · next he =>
      rw [he] at hcompiles
      exact hcompiles
    · next he =>
      rw [he] at hcompiles
      rw [compiles_store]
      exact hcompiles
  | clone holder target =>
    rw [act, clone]
    split <;> simp [misses, Action.request?]
  | release holder =>
    rw [act, release]
    split <;> simp [misses, Action.request?]
  | drop holder =>
    rw [act, drop]
    split <;> simp [misses, Action.request?]

/-- A request removes nothing. -/
theorem mem_programs_get (hp : p ∈ h.cache.programs) :
    p ∈ (h.get holder texts).2.cache.programs := by
  rw [programs_get]
  exact Cache.mem_programs_get_iff.mpr (.inl hp)

/-- A program is held by one holder only. -/
def IsLastOf (h : Holders) (p : Program) (holder : String) : Prop :=
  h.held.find? holder = some p ∧ ∀ other, other ≠ holder → h.held.find? other ≠ some p

/-- **A program is removed** when its last holder gives it back, and at no other time. -/
theorem IsAccounted.not_mem_programs_act_iff (hh : h.IsAccounted) (hp : p ∈ h.cache.programs) :
    p ∉ (h.act action).cache.programs ↔
      ∃ holder, action = .release holder ∧ h.IsLastOf p holder := by
  cases action with
  | get holder texts =>
    refine iff_of_false (not_not_intro (mem_programs_get hp)) ?_
    rintro ⟨_, hrelease, -⟩
    cases hrelease
  | clone holder target =>
    refine iff_of_false (not_not_intro ?_) ?_
    · rw [Holders.act, Holders.clone]
      split
      · exact hp
      · rwa [programs_store]
    · rintro ⟨_, hrelease, -⟩
      cases hrelease
  | drop holder =>
    refine iff_of_false (not_not_intro ?_) ?_
    · rw [Holders.act, Holders.drop]
      split <;> exact hp
    · rintro ⟨_, hrelease, -⟩
      cases hrelease
  | release holder =>
    -- another holder of the program is one whose handle is left when this one is erased
    have hothers : ∀ q, h.held.find? holder = some q →
        (q ∈ (h.held.erase holder).values ↔
          ∃ other, other ≠ holder ∧ h.held.find? other = some q) := by
      intro q _
      rw [Table.mem_values_iff (hh.keyed.erase holder)]
      simp [Table.find?_erase]
    rw [Holders.act, Holders.release]
    cases hfind : h.held.find? holder with
    | none =>
      refine iff_of_false (not_not_intro hp) ?_
      rintro ⟨_, hrelease, hlast⟩
      cases hrelease
      rw [hlast.1] at hfind
      cases hfind
    | some q =>
      rw [(hh.serves_erase hfind).mem_programs_release_iff, hothers q hfind]
      constructor
      · intro hremoved
        obtain ⟨rfl, hnone⟩ : p = q ∧ ¬∃ other, other ≠ holder ∧ h.held.find? other = some q := by
          simpa [hp] using hremoved
        exact ⟨holder, rfl, hfind, fun other hne heq => hnone ⟨other, hne, heq⟩⟩
      · rintro ⟨_, hrelease, hlast⟩ ⟨-, hother⟩
        cases hrelease
        obtain rfl := Option.some.inj (hlast.1.symm.trans hfind)
        obtain ⟨other, hne, heq⟩ := hother rfl
        exact hlast.2 other hne heq

/-! ### Runs -/

/-- Another compiler behind the cache. -/
def withCompiler (h : Holders) (compiler : Compiler) : Holders :=
  { h with cache := h.cache.withCompiler compiler }

/-- The holders after a sequence of actions, each with the compiler that answers in it. -/
def runEach (h : Holders) (script : List (Compiler × Action)) : Holders :=
  script.foldl (fun h entry => (h.withCompiler entry.1).act entry.2) h

/-- A run whose compiler is the same in all its steps. -/
theorem run_eq_runEach (h : Holders) (actions : List Action) :
    h.run actions = h.runEach (actions.map (h.cache.compiler, ·)) := by
  induction actions generalizing h with
  | nil => rfl
  | cons action actions ih =>
    rw [run, List.foldl_cons, ← run, ih, compiler_act]
    rfl

theorem IsAccounted.withCompiler (hh : h.IsAccounted) (compiler : Compiler) :
    (h.withCompiler compiler).IsAccounted :=
  ⟨hh.keyed, hh.serves.withCompiler compiler⟩

/-- **Every run** keeps the accounts. -/
theorem IsAccounted.runEach (hh : h.IsAccounted) (script : List (Compiler × Action)) :
    (h.runEach script).IsAccounted :=
  foldl_preserves (fun entry _ _ hh => (hh.withCompiler entry.1).act entry.2) hh

/-- What holders may rely on. -/
structure IsFaithful (h : Holders) : Prop where
  /-- the program that a holder holds is the one that is cached under its key -/
  find?_held : ∀ holder p, h.held.find? holder = some p → h.cache.find? p.key = some p
  /-- a cached program is cached under its own key -/
  find?_cached : ∀ p ∈ h.cache.programs, h.cache.find? p.key = some p
  /-- programs with one identity are one program -/
  identity : ∀ p ∈ h.cache.programs, ∀ q ∈ h.cache.programs, p.id = q.id → p = q
  /-- holders of programs with one key hold one program -/
  shared : ∀ holder p other q, h.held.find? holder = some p → h.held.find? other = some q →
    p.key = q.key → p = q
  /-- the compiler is called by a request of an absent key, and by nothing else -/
  compiles : ∀ action,
    (h.act action).cache.compiles = h.cache.compiles + if h.misses action then 1 else 0
  /-- a request that fails leaves what is cached and what is held -/
  failed : ∀ holder texts fault, (h.get holder texts).1 = .error fault →
    (h.get holder texts).2 = { h with cache := { h.cache with compiles := h.cache.compiles + 1 } }
  /-- a cached program is removed when its last holder gives it back, and at no other time -/
  removed : ∀ action, ∀ p ∈ h.cache.programs, p ∉ (h.act action).cache.programs ↔
    ∃ holder, action = .release holder ∧ h.IsLastOf p holder

theorem get_of_error {fault : CompileFault} (hget : (h.get holder texts).1 = .error fault) :
    (h.get holder texts).2 =
      { h with cache := { h.cache with compiles := h.cache.compiles + 1 } } := by
  rw [get_fst] at hget
  have hcache := Cache.get_of_error hget
  rw [get]
  split
  · next he =>
    rw [he] at hcache
    rw [← hcache]
  · next he =>
    rw [he] at hget
    cases hget

theorem IsAccounted.isFaithful (hh : h.IsAccounted) : h.IsFaithful := by
  have hcached : ∀ p ∈ h.cache.programs, h.cache.find? p.key = some p := fun p hp =>
    hh.serves.find?_eq_some_iff.mpr ⟨hp, rfl⟩
  have hheld : ∀ holder p, h.held.find? holder = some p → h.cache.find? p.key = some p :=
    fun holder p hp => hcached p (hh.serves.cached p (hh.mem_values hp))
  refine ⟨hheld, hcached, fun p hp q hq hid => List.inj_on_of_nodup_map hh.serves.ids hp hq hid,
    fun holder p other q hp hq hkey => ?_, compiles_act h, fun _ _ _ => get_of_error,
    fun action p hp => hh.not_mem_programs_act_iff hp⟩
  have hfind := hheld holder p hp
  rw [hkey, hheld other q hq] at hfind
  exact (Option.some.inj hfind).symm

/-- **A live handle is on the cached program**, after every run of requests, clones, releases and
drops, and whatever compiler answers next. -/
theorem isFaithful_runEach (compiler next : Compiler) (script : List (Compiler × Action)) :
    (((start compiler).runEach script).withCompiler next).IsFaithful :=
  (((isAccounted_start compiler).runEach script).withCompiler next).isFaithful

end Holders

end ShaderLoom
