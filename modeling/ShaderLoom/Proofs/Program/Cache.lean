import Mathlib.Data.Set.Defs
import ShaderLoom.Program.Holders

/-!
# What a cache hands out

A request ends in one of three ways (`Cache.get_cases`): it finds a cached program, the compiler
refuses it, or a new program is compiled. No other action brings a program into the cache, so after
any run every cached program was made by the compiler from texts that someone requested
(`Holders.mem_programs_run`).

A cached program is found by its key alone. The key of a program does not say where one stage ends
and the next begins, nor whether there is more than one. So what is handed out has the requested
key, but is the requested program only where the key tells the requests apart.

**`Holders.isMadeOf_get_iff`**: a cache hands out what is asked for, over every run of requests from
a set of texts, exactly when no two of them share a key, unless none of the two compiles.
-/

namespace ShaderLoom

variable {texts : StageTexts} {p : Program} {holder : String}

/-! ## Texts -/

/-- Texts are known by their stages. -/
theorem StageTexts.text?_injective {a b : StageTexts} (h : ∀ stage, a.text? stage = b.text? stage) :
    a = b := by
  have hvertex := h .vertex
  have hfragment := h .fragment
  have hcompute := h .compute
  cases a with
  | graphics v f =>
    cases b with
    | graphics v' f' =>
      cases hvertex
      cases hfragment
      rfl
    | compute c => cases hcompute
  | compute c =>
    cases b with
    | graphics v f => cases hcompute
    | compute c' =>
      cases hcompute
      rfl

/-- The program has the stages of `texts`, each with its text, and the reflection that the compiler
gives for `texts`. -/
def Program.IsMadeOf (compiler : Compiler) (texts : StageTexts) (p : Program) : Prop :=
  (∀ stage, p.texts.text? stage = texts.text? stage) ∧
    compiler.compile texts = .ok p.reflection

/-! ## Requests -/

namespace Cache

variable {c : Cache} {key : String}

@[simp] theorem programs_hold : (c.hold p).programs = c.programs := rfl

@[simp] theorem programs_drop : (c.drop p).programs = c.programs := rfl

@[simp] theorem compiler_hold : (c.hold p).compiler = c.compiler := rfl

@[simp] theorem compiler_drop : (c.drop p).compiler = c.compiler := rfl

/-- What is found is cached, and has the key. -/
theorem find?_eq_some (h : c.find? key = some p) : p ∈ c.programs ∧ p.key = key := by
  refine ⟨List.mem_of_find?_eq_some h, ?_⟩
  simpa using List.find?_some h

/-- **A request** finds a program, fails, or compiles a new program. -/
theorem get_cases (c : Cache) (texts : StageTexts) :
    (∃ p, c.find? texts.key = some p ∧ c.get texts = (.ok p, c.hold p)) ∨
      (c.find? texts.key = none ∧ ∃ fault, c.compiler.compile texts = .error fault ∧
        c.get texts = (.error fault, { c with compiles := c.compiles + 1 })) ∨
      c.find? texts.key = none ∧ ∃ reflection, c.compiler.compile texts = .ok reflection ∧
        c.get texts = (.ok ⟨c.compiles, texts, reflection⟩,
          { c with
            compiles := c.compiles + 1
            programs := c.programs ++ [⟨c.compiles, texts, reflection⟩]
            handles := c.compiles :: c.handles }) := by
  rw [get]
  cases hfind : c.find? texts.key with
  | some p => exact .inl ⟨p, rfl, rfl⟩
  | none =>
    cases hcompile : c.compiler.compile texts with
    | error fault => exact .inr (.inl ⟨rfl, fault, rfl, by simp⟩)
    | ok reflection => exact .inr (.inr ⟨rfl, reflection, rfl, by simp [hold]⟩)

/-- What is handed out was cached under the key, or has just been compiled. -/
theorem of_get_eq_ok (h : (c.get texts).1 = .ok p) :
    c.find? texts.key = some p ∨
      c.find? texts.key = none ∧ p.texts = texts ∧ c.compiler.compile texts = .ok p.reflection := by
  rcases c.get_cases texts with ⟨q, hq, he⟩ | ⟨-, fault, -, he⟩ | ⟨hnone, r, hr, he⟩
  · rw [he] at h
    cases h
    exact .inl hq
  · rw [he] at h
    cases h
  · rw [he] at h
    cases h
    exact .inr ⟨hnone, rfl, hr⟩

/-- A request brings no program into the cache but the one that it compiles. -/
theorem mem_programs_get (h : p ∈ (c.get texts).2.programs) :
    p ∈ c.programs ∨ p.texts = texts ∧ c.compiler.compile texts = .ok p.reflection := by
  rcases c.get_cases texts with ⟨q, -, he⟩ | ⟨-, fault, -, he⟩ | ⟨-, r, hr, he⟩
  · rw [he] at h
    exact .inl h
  · rw [he] at h
    exact .inl h
  · rw [he] at h
    rcases List.mem_append.mp h with h | h
    · exact .inl h
    · obtain rfl := List.mem_singleton.mp h
      exact .inr ⟨rfl, hr⟩

@[simp] theorem compiler_get : (c.get texts).2.compiler = c.compiler := by
  rcases c.get_cases texts with ⟨q, -, he⟩ | ⟨-, fault, -, he⟩ | ⟨-, r, -, he⟩
  · rw [he]
    rfl
  · rw [he]
  · rw [he]

/-- **Giving a handle back** removes the program that is cached under its key, or only the
handle. -/
theorem release_cases (c : Cache) (p : Program) :
    (∃ cached, c.find? p.key = some cached ∧ cached.id ∉ (c.drop p).handles ∧
        c.release p = (c.drop p).evict p.key) ∨
      (∀ cached, c.find? p.key = some cached → cached.id ∈ (c.drop p).handles) ∧
        c.release p = c.drop p := by
  have hdrop : (c.drop p).find? p.key = c.find? p.key := rfl
  rw [release]
  simp only [hdrop]
  cases hfind : c.find? p.key with
  | none =>
    refine .inr ⟨fun q hq => ?_, rfl⟩
    cases hq
  | some cached =>
    by_cases hheld : cached.id ∈ (c.drop p).handles
    · refine .inr ⟨fun q hq => ?_, if_pos hheld⟩
      cases hq
      exact hheld
    · exact .inl ⟨cached, rfl, hheld, if_neg hheld⟩

theorem programs_release_subset (c : Cache) (p : Program) :
    (c.release p).programs ⊆ c.programs := by
  rcases c.release_cases p with ⟨cached, -, -, he⟩ | ⟨-, he⟩
  · rw [he]
    exact List.filter_sublist.subset
  · rw [he]
    exact List.Subset.refl _

@[simp] theorem compiler_release (c : Cache) (p : Program) :
    (c.release p).compiler = c.compiler := by
  rcases c.release_cases p with ⟨cached, -, -, he⟩ | ⟨-, he⟩ <;> rw [he] <;> rfl

end Cache

/-! ## Runs -/

namespace Holders

variable {h : Holders} {action : Action} {actions : List Action}

/-- The texts that an action requests. -/
def Action.request? : Action → Option StageTexts
  | .get _ texts => some texts
  | .clone _ _ | .release _ | .drop _ => none

/-- The texts that a run requests. -/
def requests (actions : List Action) : List StageTexts := actions.filterMap Action.request?

/-- Holders that hold nothing, and an empty cache. -/
def start (compiler : Compiler) : Holders := { cache := { compiler } }

@[simp] theorem programs_store : (h.store holder p).cache.programs = h.cache.programs := by
  rw [store]
  split <;> rfl

@[simp] theorem compiler_store : (h.store holder p).cache.compiler = h.cache.compiler := by
  rw [store]
  split <;> rfl

/-- A holder gets what the cache hands out. -/
theorem get_fst (h : Holders) (holder : String) (texts : StageTexts) :
    (h.get holder texts).1 = (h.cache.get texts).1 := by
  rw [get]
  split <;> next he => rw [he]

theorem programs_get (h : Holders) (holder : String) (texts : StageTexts) :
    (h.get holder texts).2.cache.programs = (h.cache.get texts).2.programs := by
  rw [get]
  split
  · next he => rw [he]
  · next he => rw [programs_store, he]

theorem compiler_get (h : Holders) (holder : String) (texts : StageTexts) :
    (h.get holder texts).2.cache.compiler = h.cache.compiler := by
  have hcompiler : (h.cache.get texts).2.compiler = h.cache.compiler := Cache.compiler_get
  rw [get]
  split
  · next he =>
    rw [he] at hcompiler
    exact hcompiler
  · next he =>
    rw [he] at hcompiler
    rw [compiler_store]
    exact hcompiler

/-- **An action** brings no program into the cache but one that it requests and that the compiler
makes. -/
theorem mem_programs_act (hp : p ∈ (h.act action).cache.programs) :
    p ∈ h.cache.programs ∨
      action.request? = some p.texts ∧ h.cache.compiler.compile p.texts = .ok p.reflection := by
  cases action with
  | get holder texts =>
    rw [act, programs_get] at hp
    refine (Cache.mem_programs_get hp).imp_right ?_
    rintro ⟨rfl, hcompile⟩
    exact ⟨rfl, hcompile⟩
  | clone holder target =>
    refine .inl ?_
    simp only [act, clone] at hp
    split at hp
    · exact hp
    · rwa [programs_store] at hp
  | release holder =>
    refine .inl ?_
    simp only [act, release] at hp
    split at hp
    · exact hp
    · exact Cache.programs_release_subset _ _ hp
  | drop holder =>
    refine .inl ?_
    simp only [act, drop] at hp
    split at hp <;> exact hp

/-- The compiler stays. -/
@[simp] theorem compiler_act : (h.act action).cache.compiler = h.cache.compiler := by
  cases action with
  | get holder texts => exact compiler_get h holder texts
  | clone holder target =>
    simp only [act, clone]
    split
    · rfl
    · rw [compiler_store]
      rfl
  | release holder =>
    simp only [act, release]
    split
    · rfl
    · exact Cache.compiler_release _ _
  | drop holder =>
    simp only [act, drop]
    split <;> rfl

@[simp] theorem compiler_run : (h.run actions).cache.compiler = h.cache.compiler := by
  induction actions generalizing h with
  | nil => rfl
  | cons action actions ih => rw [run, List.foldl_cons, ← run, ih, compiler_act]

/-- **Every cached program was requested and compiled**, or was there from the beginning. -/
theorem mem_programs_run (hp : p ∈ (h.run actions).cache.programs) :
    p ∈ h.cache.programs ∨
      p.texts ∈ requests actions ∧ h.cache.compiler.compile p.texts = .ok p.reflection := by
  induction actions generalizing h with
  | nil => exact .inl hp
  | cons action actions ih =>
    rw [run, List.foldl_cons, ← run] at hp
    rcases ih hp with hp | ⟨hmem, hcompile⟩
    · rcases mem_programs_act hp with hp | ⟨hrequest, hcompile⟩
      · exact .inl hp
      · exact .inr ⟨List.mem_filterMap.mpr ⟨action, List.mem_cons_self .., hrequest⟩, hcompile⟩
    · rw [compiler_act] at hcompile
      obtain ⟨a, ha, hrequest⟩ := List.mem_filterMap.mp hmem
      exact .inr ⟨List.mem_filterMap.mpr ⟨a, List.mem_cons_of_mem _ ha, hrequest⟩, hcompile⟩

/-! ## What is asked for -/

/-- **What is handed out**, after any run: a program with the requested key, made by the compiler
from texts that were requested. -/
theorem of_get_run_eq_ok {compiler : Compiler}
    (hp : (((start compiler).run actions).get holder texts).1 = .ok p) :
    p.key = texts.key ∧ compiler.compile p.texts = .ok p.reflection ∧
      (p.texts = texts ∨ p.texts ∈ requests actions) := by
  rw [get_fst] at hp
  rcases Cache.of_get_eq_ok hp with hfind | ⟨-, rfl, hcompile⟩
  · obtain ⟨hmem, hkey⟩ := Cache.find?_eq_some hfind
    rcases mem_programs_run hmem with hstart | ⟨hrequest, hcompile⟩
    · cases hstart
    · exact ⟨hkey, hcompile, .inr hrequest⟩
  · rw [compiler_run] at hcompile
    exact ⟨rfl, hcompile, .inl rfl⟩

/-- After a request of a program that compiles, its key is a hit. -/
theorem exists_get_after_get {compiler : Compiler} {a b : StageTexts} {reflection : Reflection}
    (hcompile : compiler.compile a = .ok reflection) (hkey : a.key = b.key) (holder : String) :
    (((start compiler).run [.get holder a]).get holder b).1 = .ok ⟨0, a, reflection⟩ := by
  have hfirst : ((start compiler).run [.get holder a]).cache.programs = [⟨0, a, reflection⟩] := by
    rw [run, List.foldl_cons, List.foldl_nil, act, programs_get]
    rcases (start compiler).cache.get_cases a with ⟨q, hq, -⟩ | ⟨-, fault, hf, -⟩ | ⟨-, r, hr, he⟩
    · cases hq
    · rw [start, hcompile] at hf
      cases hf
    · rw [start, hcompile] at hr
      cases hr
      rw [he]
      rfl
  have hfind : ((start compiler).run [.get holder a]).cache.find? b.key =
      some ⟨0, a, reflection⟩ := by
    rw [Cache.find?, hfirst, List.find?_cons_of_pos]
    exact decide_eq_true hkey
  rw [get_fst]
  rcases Cache.get_cases _ b with ⟨q, hq, he⟩ | ⟨hnone, -⟩ | ⟨hnone, -⟩
  · rw [hfind] at hq
    cases hq
    rw [he]
  · rw [hfind] at hnone
    cases hnone
  · rw [hfind] at hnone
    cases hnone

/-- **A cache hands out what is asked for** exactly where the key tells requests apart. Over all
runs that request texts from `S`, every program that is handed out is the one made of the requested
texts if and only if no texts in `S` share the key of others in `S` that compile. -/
theorem isMadeOf_get_iff (compiler : Compiler) (S : Set StageTexts) :
    (∀ (actions : List Action) (holder : String) (texts : StageTexts) (p : Program),
      (∀ a ∈ requests actions, a ∈ S) → texts ∈ S →
        (((start compiler).run actions).get holder texts).1 = .ok p →
          p.IsMadeOf compiler texts) ↔
      ∀ a ∈ S, ∀ b ∈ S, (∃ reflection, compiler.compile a = .ok reflection) → a.key = b.key →
        a = b := by
  constructor
  · rintro h a ha b hb ⟨reflection, hcompile⟩ hkey
    apply StageTexts.text?_injective
    refine (h [.get "" a] "" b ⟨0, a, reflection⟩ ?_ hb
      (exists_get_after_get hcompile hkey "")).1
    intro t ht
    obtain rfl := List.mem_singleton.mp ht
    exact ha
  · intro h actions holder texts p hactions htexts hp
    obtain ⟨hkey, hcompile, hrequested⟩ := of_get_run_eq_ok hp
    have hS : p.texts ∈ S := by
      rcases hrequested with heq | hmem
      · rwa [heq]
      · exact hactions _ hmem
    obtain rfl := h p.texts hS texts htexts ⟨_, hcompile⟩ hkey
    exact ⟨fun _ => rfl, hcompile⟩

/-- Two splits of one text: the second request gets the program of the first. -/
theorem isMadeOf_get_split :
    let compiler : Compiler := ⟨"driver", fun _ => .ok ⟨some [], none, none⟩⟩
    ∃ p, (((start compiler).run [.get "a" (.graphics "ab" "c")]).get "b" (.graphics "a" "bc")).1 =
        .ok p ∧ ¬ p.IsMadeOf compiler (.graphics "a" "bc") := by
  refine ⟨⟨0, .graphics "ab" "c", ⟨some [], none, none⟩⟩, rfl, ?_⟩
  intro h
  have hvertex := h.1 .vertex
  revert hvertex
  decide

end Holders

end ShaderLoom
