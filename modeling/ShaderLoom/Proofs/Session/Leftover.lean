import ShaderLoom.Proofs.Session.Owners

/-!
# Programs that stay behind

Releasing a session asks whether the program can go. Dropping resources does not ask: a program that
only resources hold stays in the cache when they are dropped, until a session gets it again and
releases it.

So the order in which the owners let go decides. A program that nobody holds is cached exactly when
resources were the last to hold it (`Workspace.mem_programs_and_not_isHeld_iff`), and a workspace in
which everything was given back has an empty cache exactly when no program was last held by
resources alone: **`Workspace.programs_eq_nil_iff`**.
-/

namespace ShaderLoom.Workspace

variable {w : Workspace} {s : Session} {p : Program} {slot : Nat}

/-! ## Giving everything back -/

/-- Everything was given back: the sessions are released, and the resources are dropped. -/
structure IsQuiet (w : Workspace) : Prop where
  /-- no session is left that is not released -/
  sessions : ∀ slot s, w.session? slot = some s → s.state = .released
  /-- no resources are left -/
  resources : ∀ slot, w.resources? slot = none

/-- A workspace is quiet if its tables are. -/
theorem isQuiet_of_forall (hsessions : ∀ entry ∈ w.sessions, entry.2.state = .released)
    (hresources : w.resources.isEmpty = true) : w.IsQuiet := by
  refine ⟨fun slot s hs => ?_, fun slot => ?_⟩
  · obtain ⟨entry, hentry, rfl⟩ := Option.map_eq_some_iff.mp hs
    exact hsessions entry (List.mem_of_find?_eq_some hentry)
  · rw [resources?, List.isEmpty_iff.mp hresources]
    rfl

/-- Where everything was given back, nothing is held. -/
theorem IsAccounted.not_isHeld (h : w.IsAccounted []) (hquiet : w.IsQuiet) : ¬ w.IsHeld p := by
  rintro (⟨slot, s, hs, hp⟩ | ⟨slot, r, hr, -⟩)
  · rw [(h.isLegal hs).released (hquiet.sessions slot s hs)] at hp
    cases hp
  · cases (hquiet.resources slot).symm.trans hr

/-! ## One step -/

/-- What a change of a workspace does to programs that nobody holds behind it: those that a session
held are gone, the others are cached as before. -/
def Clears (before after : Workspace) : Prop :=
  ∀ p, p ∉ after.owned → (p ∈ after.context.cache.programs ↔
    p ∈ before.context.cache.programs ∧ p ∉ heldBySessions before.sessions)

/-- A change that takes no program from a session. -/
theorem clears_of_subset {before after : Workspace}
    (hsessions : heldBySessions before.sessions ⊆ heldBySessions after.sessions)
    (hprograms : ∀ p, p ∉ after.owned →
      (p ∈ after.context.cache.programs ↔ p ∈ before.context.cache.programs)) :
    Clears before after := by
  intro p hp
  rw [hprograms p hp, iff_self_and]
  exact fun _ hheld => hp (List.mem_append_left _ (hsessions hheld))

theorem clears_refl (w : Workspace) : Clears w w :=
  clears_of_subset (List.Subset.refl _) fun _ _ => Iff.rfl

/-- What happens afterwards to owners that hold nothing does not matter. -/
theorem Clears.of_perm {before between after : Workspace} (h : Clears before between)
    (hperm : after.owned.Perm between.owned)
    (hprograms : after.context.cache.programs = between.context.cache.programs) :
    Clears before after := by
  intro p hp
  rw [hprograms]
  exact h p fun hheld => hp (hperm.mem_iff.mpr hheld)

theorem clears_release (h : w.IsAccounted []) (slot : Nat) : Clears w (w.release slot) := by
  rw [release]
  split
  · exact clears_refl w
  · next s hs =>
    intro p hp
    have howned : ({ w with context := (s.release w.context).2 }.setSession slot
        (s.release w.context).1).owned = w.ownedByOthers slot := by
      have hnone := Session.program_release (h.isLegal hs) w.context
      rw [owned, setSession, heldBySessions, Table.values_insert, List.flatMap_cons, hnone]
      rfl
    rw [howned] at hp
    refine (Session.mem_programs_release_iff (h.isLegal hs) (h.serves_session hs)).trans
      (and_congr_right fun _ => ?_)
    rw [(perm_heldBySessions h.sessions hs).mem_iff, List.mem_append, Option.mem_toList]
    have hothers : p ∉ heldBySessions (w.sessions.erase slot) :=
      fun hheld => hp (List.mem_append_left _ hheld)
    simp [hp, hothers]

theorem clears_close (h : w.IsAccounted []) (slot : Nat) : Clears w (w.close slot) :=
  (clears_release h slot).of_perm
    ((h.release slot).eraseSession slot fun _ hs => h.program_release hs).2 rfl

theorem clears_create (h : w.IsAccounted []) (slot : Nat) : Clears w (w.create slot) := by
  refine (clears_close h slot).of_perm ?_ rfl
  refine ((h.close slot).eraseSession slot fun s hs => ?_).2
  rw [close, session?, Table.find?_erase, if_pos rfl] at hs
  cases hs

theorem clears_dropResources (w : Workspace) (slot : Nat) : Clears w (w.dropResources slot) := by
  rw [dropResources]
  split
  · exact clears_refl w
  · exact clears_of_subset (List.Subset.refl _) fun _ _ => Iff.rfl

theorem clears_declare (h : w.IsAccounted []) (slot : Nat) (batch : Declarations) :
    Clears w (w.declare slot batch).2 := by
  rw [declare]
  split
  · exact clears_refl w
  · next s hs =>
    split
    · exact clears_refl w
    · next s' hs' =>
      refine clears_of_subset (fun p hp => ?_) fun _ _ => Iff.rfl
      rw [(perm_heldBySessions h.sessions hs).mem_iff, ← Session.program_declare hs'] at hp
      exact hp

/-- Building takes no program from a session, and brings none in that nobody holds. -/
theorem clears_build (h : w.IsAccounted []) (slot : Nat) (bodies : ProgramBodies) :
    Clears w (w.build slot bodies).2 := by
  rw [build]
  split
  · exact clears_refl w
  · next s hs =>
    have hsessions : heldBySessions w.sessions ⊆
        heldBySessions (w.sessions.insert slot (s.build w.context bodies).2.1) := by
      intro p hp
      rw [(perm_heldBySessions h.sessions hs).mem_iff, List.mem_append, Option.mem_toList] at hp
      refine List.mem_append.mpr (hp.imp_left fun hp => ?_)
      rw [Option.mem_toList]
      exact Session.program_build (h.isLegal hs) hp
    have hprograms : ∀ p, p ∉ heldBySessions
        (w.sessions.insert slot (s.build w.context bodies).2.1) →
          (p ∈ (s.build w.context bodies).2.2.cache.programs ↔
            p ∈ w.context.cache.programs) := by
      intro p hp
      refine (Session.mem_programs_build_iff (h.serves_session hs)).trans
        (or_iff_left fun hbuilt => hp ?_)
      refine List.mem_append_left _ ?_
      rwa [Option.mem_toList]
    dsimp only
    split
    · exact clears_of_subset hsessions fun p hp =>
        hprograms p fun hheld => hp (List.mem_append_left _ hheld)
    · rw [setResources, dropResources]
      split <;> exact clears_of_subset hsessions fun p hp =>
        hprograms p fun hheld => hp (List.mem_append_left _ hheld)

/-- **Every step**: what nobody holds any more was evicted if a session held it, and else stays as
it was. -/
theorem mem_programs_act_iff (h : w.IsAccounted []) (step : Step)
    (hp : ¬ (w.act step).IsHeld p) :
    p ∈ (w.act step).context.cache.programs ↔
      p ∈ w.context.cache.programs ∧ ¬ w.IsHeldBySession p := by
  have hclears : Clears w (w.act step) := by
    cases step with
    | create slot => exact clears_create h slot
    | declare slot batch => exact clears_declare h slot batch
    | build slot bodies => exact clears_build h slot bodies
    | release slot => exact clears_release h slot
    | close slot => exact clears_close h slot
    | dropResources slot => exact clears_dropResources w slot
  rw [← (h.act step).mem_owned_iff] at hp
  refine (hclears p hp).trans (and_congr_right fun _ => not_congr ?_)
  exact mem_heldBySessions_iff h.sessions

/-! ## Runs -/

variable {script : List (Compiler × Step)} {entry : Compiler × Step}

/-- In a run, resources were the last to hold the program: there was a step before which they alone
held it, and since which nobody has. -/
def IsLeftBehind (w : Workspace) (script : List (Compiler × Step)) (p : Program) : Prop :=
  ∃ before entry after, script = before ++ entry :: after ∧
    (w.runEach before).IsHeldByResources p ∧ ¬ (w.runEach before).IsHeldBySession p ∧
      ∀ mid, mid <+: after → ¬ (w.runEach (before ++ entry :: mid)).IsHeld p

/-- One step more. -/
theorem isLeftBehind_append_singleton :
    w.IsLeftBehind (script ++ [entry]) p ↔
      ¬ (w.runEach (script ++ [entry])).IsHeld p ∧
        ((w.runEach script).IsHeldByResources p ∧ ¬ (w.runEach script).IsHeldBySession p ∨
          w.IsLeftBehind script p) := by
  constructor
  · rintro ⟨before, first, after, hscript, hresources, hsession, hafter⟩
    cases after using List.reverseRecOn with
    | nil =>
      obtain ⟨rfl, rfl⟩ := List.append_singleton_inj.mp hscript
      exact ⟨hafter [] (List.prefix_refl []), .inl ⟨hresources, hsession⟩⟩
    | append_singleton after last =>
      rw [← List.cons_append, ← List.append_assoc] at hscript
      obtain ⟨rfl, rfl⟩ := List.append_singleton_inj.mp hscript
      refine ⟨?_, .inr ⟨before, first, after, rfl, hresources, hsession, fun mid hmid => ?_⟩⟩
      · rw [List.append_assoc, List.cons_append]
        exact hafter _ (List.prefix_refl _)
      · exact hafter mid (hmid.trans (List.prefix_append after _))
  · rintro ⟨hheld, ⟨hresources, hsession⟩ |
      ⟨before, first, after, rfl, hresources, hsession, hafter⟩⟩
    · refine ⟨script, entry, [], rfl, hresources, hsession, fun mid hmid => ?_⟩
      rwa [List.prefix_nil.mp hmid]
    · refine ⟨before, first, after ++ [entry], by simp, hresources, hsession, fun mid hmid => ?_⟩
      rcases List.prefix_concat_iff.mp hmid with rfl | hmid
      · rwa [List.append_assoc, List.cons_append] at hheld
      · exact hafter mid hmid

/-- **A program that nobody holds** is cached exactly when resources were the last to hold it. -/
theorem mem_programs_and_not_isHeld_iff (target : Target) (compiler : Compiler)
    (script : List (Compiler × Step)) (p : Program) :
    p ∈ ((start target compiler).runEach script).context.cache.programs ∧
        ¬ ((start target compiler).runEach script).IsHeld p ↔
      (start target compiler).IsLeftBehind script p := by
  induction script using List.reverseRecOn with
  | nil =>
    refine iff_of_false (fun h => ?_) ?_
    · cases h.1
    · rintro ⟨before, entry, after, hscript, -⟩
      simp at hscript
  | append_singleton script entry ih =>
    have hbefore := isAccounted_runEach target compiler script
    rw [isLeftBehind_append_singleton, runEach_append_singleton, and_comm]
    refine and_congr_right fun hp => ?_
    refine (mem_programs_act_iff (hbefore.withCompiler entry.1) entry.2 hp).trans ?_
    rw [← ih]
    -- if no session held the program before the step, resources held it or nobody did
    constructor
    · rintro ⟨hcached, hsession⟩
      by_cases hresources : ((start target compiler).runEach script).IsHeldByResources p
      · exact .inl ⟨hresources, hsession⟩
      · exact .inr ⟨hcached, fun hheld => hheld.elim hsession hresources⟩
    · rintro (⟨hresources, hsession⟩ | ⟨hcached, hheld⟩)
      · exact ⟨hbefore.mem_programs (.inr hresources), hsession⟩
      · exact ⟨hcached, fun hsession => hheld (.inl hsession)⟩

/-- **Where everything was given back**, the cache is empty exactly if no program was last held by
resources alone. -/
theorem programs_eq_nil_iff (target : Target) (compiler : Compiler)
    (script : List (Compiler × Step))
    (hquiet : ((start target compiler).runEach script).IsQuiet) :
    ((start target compiler).runEach script).context.cache.programs = [] ↔
      ∀ p, ¬ (start target compiler).IsLeftBehind script p := by
  have hheld : ∀ p, ¬ ((start target compiler).runEach script).IsHeld p :=
    fun p => (isAccounted_runEach target compiler script).not_isHeld hquiet
  rw [List.eq_nil_iff_forall_not_mem]
  refine forall_congr' fun p => not_congr ?_
  rw [← mem_programs_and_not_isHeld_iff]
  exact (and_iff_left (hheld p)).symm

/-- Nothing stays behind where resources never hold a program without a session. -/
theorem programs_eq_nil_of_shared {target : Target} {compiler : Compiler}
    (hquiet : ((start target compiler).runEach script).IsQuiet)
    (hshared : ∀ before, before <+: script → ∀ p,
      ((start target compiler).runEach before).IsHeldByResources p →
        ((start target compiler).runEach before).IsHeldBySession p) :
    ((start target compiler).runEach script).context.cache.programs = [] := by
  apply List.eq_nil_iff_forall_not_mem.mpr
  intro p hcached
  have hheld : ¬ ((start target compiler).runEach script).IsHeld p :=
    (isAccounted_runEach target compiler script).not_isHeld hquiet
  obtain ⟨before, entry, after, rfl, hresources, hsession, -⟩ :=
    (mem_programs_and_not_isHeld_iff target compiler script p).mp ⟨hcached, hheld⟩
  exact hsession (hshared before (List.prefix_append ..) p hresources)

/-- A run of one session that makes a program, and then gives everything back in some order. -/
def givingBack (order : List Step) : List (Compiler × Step) :=
  (.create 0 :: .build 0 (.compute "void main() \x7b\x7d\n") :: order).map
    (readingCompiler "reader", ·)

/-- The session goes last. -/
theorem programs_eq_nil_iff_session_last :
    ((start { api := .openGl, version := 430 } (readingCompiler "reader")).runEach
        (givingBack [.dropResources 0, .release 0])).IsQuiet ∧
      (((start { api := .openGl, version := 430 } (readingCompiler "reader")).runEach
          (givingBack [.dropResources 0, .release 0])).context.cache.programs = [] ↔
        ∀ p, ¬ (start { api := .openGl, version := 430 } (readingCompiler "reader")).IsLeftBehind
          (givingBack [.dropResources 0, .release 0]) p) := by
  have hquiet : ((start { api := .openGl, version := 430 } (readingCompiler "reader")).runEach
      (givingBack [.dropResources 0, .release 0])).IsQuiet :=
    isQuiet_of_forall (by decide +kernel) (by decide +kernel)
  exact ⟨hquiet, programs_eq_nil_iff _ _ _ hquiet⟩

/-- **The resources go last**: everything was given back, and the program is still cached. -/
theorem programs_ne_nil_resources_last :
    ((start { api := .openGl, version := 430 } (readingCompiler "reader")).runEach
        (givingBack [.release 0, .dropResources 0])).IsQuiet ∧
      ((start { api := .openGl, version := 430 } (readingCompiler "reader")).runEach
        (givingBack [.release 0, .dropResources 0])).context.cache.programs ≠ [] := by
  have hsize : ((start { api := .openGl, version := 430 } (readingCompiler "reader")).runEach
      (givingBack [.release 0, .dropResources 0])).context.cache.size = 1 := by
    decide +kernel
  refine ⟨isQuiet_of_forall (by decide +kernel) (by decide +kernel), fun hempty => ?_⟩
  rw [Cache.size, hempty] at hsize
  cases hsize

end ShaderLoom.Workspace
