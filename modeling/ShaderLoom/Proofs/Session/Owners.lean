import ShaderLoom.Proofs.Session.Lifecycle
import ShaderLoom.Proofs.Session.Run

/-!
# Who holds programs

Two kinds of owners hold programs outside the cache: sessions, and resources. In a workspace all
of them are in view, so the handles that are out can be listed (`Workspace.owned`), and the cache
counts exactly these. A step may hand out a handle before the slot for it is free, so the accounts
also have a list of **loose** handles; between steps there are none.

**`Workspace.isAccounted_runEach`**: every run keeps the accounts, whatever compiler answers in each
of its steps.
-/

namespace ShaderLoom

variable {s : Session} {c : Context} {bodies : ProgramBodies} {p : Program}
  {held loose : List Program}

/-! ## Sessions -/

namespace Session

/-- What a build hands out, apart from the handle that the session keeps. -/
def handedOut : Except Error Resources → List Program
  | .ok r => [r.program]
  | .error _ => []

/-- **Building** accounts for the handles that it takes. -/
theorem serves_build (hlegal : s.IsLegal) (h : c.cache.Serves (s.program.toList ++ held)) :
    (s.build c bodies).2.2.cache.Serves
      (handedOut (s.build c bodies).1 ++ ((s.build c bodies).2.1.program.toList ++ held)) := by
  have hend := s.buildEnds c bodies
  generalize s.build c bodies = outcome at hend
  cases hend with
  | refused | unsuited | unassembled => exact h
  | uncompiled _ _ _ hget => exact h.get_error hget
  | unresolved hopen _ _ hget =>
    rw [hlegal.unbuilt hopen] at h
    exact h.get_ok hget
  | resolved hopen _ _ hget =>
    rw [hlegal.unbuilt hopen] at h
    have hserves := h.get_ok hget
    exact hserves.hold (hserves.cached _ (List.mem_cons_self ..))

/-- **Releasing** accounts for the handle that it gives back. -/
theorem serves_release (h : c.cache.Serves (s.program.toList ++ held)) :
    (s.release c).2.cache.Serves ((s.release c).1.program.toList ++ held) := by
  rw [release]
  split
  · exact h
  · cases hp : s.program with
    | none => rwa [hp] at h
    | some p =>
      rw [hp] at h
      exact h.release

/-- A session that is released holds nothing. -/
theorem program_release (hlegal : s.IsLegal) (c : Context) : (s.release c).1.program = none := by
  rw [release]
  split
  · next hreleased => rw [hlegal.released hreleased]
  · rfl

/-- What remains cached when a session is released. -/
theorem mem_programs_release_iff (hlegal : s.IsLegal)
    (h : c.cache.Serves (s.program.toList ++ held)) :
    p ∈ (s.release c).2.cache.programs ↔
      p ∈ c.cache.programs ∧ (s.program = some p → p ∈ held) := by
  rw [release]
  split
  · next hreleased => simp [hlegal.released hreleased]
  · cases hp : s.program with
    | none => simp
    | some q =>
      rw [hp] at h
      refine (Cache.Serves.mem_programs_release_iff h).trans (and_congr_right fun _ => ?_)
      constructor
      · rintro hheld heq
        cases heq
        exact hheld rfl
      · rintro hheld rfl
        exact hheld rfl

/-- Declaring changes no handle. -/
theorem program_declare {s' : Session} {batch : Declarations} (h : s.declare batch = .ok s') :
    s'.program = s.program := by
  rw [Session.declare] at h
  split at h <;> cases h
  rfl

/-- A build lets go of no program. -/
theorem program_build (hlegal : s.IsLegal) (hp : s.program = some p) :
    (s.build c bodies).2.1.program = some p := by
  have hclosed : s.isOpen = false := by
    cases hopen : s.isOpen with
    | false => rfl
    | true =>
      rw [hlegal.unbuilt hopen] at hp
      cases hp
  rw [build_of_not_isOpen hclosed]
  exact hp

/-- What is cached when a session has been built. -/
theorem mem_programs_build_iff (h : c.cache.Serves (s.program.toList ++ held)) :
    p ∈ (s.build c bodies).2.2.cache.programs ↔
      p ∈ c.cache.programs ∨ (s.build c bodies).2.1.program = some p := by
  have hkept : s.program = some p → p ∈ c.cache.programs := by
    intro hp
    exact h.cached p (by simp [hp])
  have hend := s.buildEnds c bodies
  generalize s.build c bodies = outcome at hend
  cases hend with
  | refused | unsuited | unassembled => exact (or_iff_left_of_imp hkept).symm
  | uncompiled _ _ _ hget =>
    rw [requested, Cache.get_of_error hget]
    exact (or_iff_left_of_imp hkept).symm
  | unresolved _ _ _ hget =>
    exact Cache.mem_programs_get_iff.trans (by rw [hget]; simp [fail, adopt])
  | resolved _ _ _ hget =>
    exact Cache.mem_programs_get_iff.trans (by rw [hget]; simp [settle, adopt])

end Session

/-! ## Workspaces -/

namespace Workspace

variable {w : Workspace} {slot : Nat} {r : Resources}

/-- What the sessions of a table hold. -/
def heldBySessions (sessions : Table Nat Session) : List Program :=
  (Table.values sessions).flatMap fun s => s.program.toList

/-- What the resources of a table hold. -/
def heldByResources (resources : Table Nat Resources) : List Program :=
  (Table.values resources).map Resources.program

/-- What is held in a workspace. -/
def owned (w : Workspace) : List Program :=
  heldBySessions w.sessions ++ heldByResources w.resources

/-- What is held in a workspace by others than the session in a slot. -/
def ownedByOthers (w : Workspace) (slot : Nat) : List Program :=
  heldBySessions (w.sessions.erase slot) ++ heldByResources w.resources

/-- What a session holds, in front of the others. -/
theorem perm_heldBySessions {sessions : Table Nat Session} (h : Table.IsKeyed sessions)
    (hs : sessions.find? slot = some s) :
    (heldBySessions sessions).Perm (s.program.toList ++ heldBySessions (sessions.erase slot)) :=
  (Table.perm_values h hs).flatMap_right _

/-- What resources hold, in front of the others. -/
theorem perm_heldByResources {resources : Table Nat Resources} (h : Table.IsKeyed resources)
    (hr : resources.find? slot = some r) :
    (heldByResources resources).Perm (r.program :: heldByResources (resources.erase slot)) :=
  (Table.perm_values h hr).map _

theorem mem_heldBySessions_iff {sessions : Table Nat Session} (h : Table.IsKeyed sessions) :
    p ∈ heldBySessions sessions ↔
      ∃ slot s, sessions.find? slot = some s ∧ s.program = some p := by
  simp only [heldBySessions, List.mem_flatMap, Table.mem_values_iff h, Option.mem_toList]
  constructor
  · rintro ⟨s, ⟨slot, hs⟩, hp⟩
    exact ⟨slot, s, hs, hp⟩
  · rintro ⟨slot, s, hs, hp⟩
    exact ⟨s, ⟨slot, hs⟩, hp⟩

theorem mem_heldByResources_iff {resources : Table Nat Resources} (h : Table.IsKeyed resources) :
    p ∈ heldByResources resources ↔
      ∃ slot r, resources.find? slot = some r ∧ r.program = p := by
  simp only [heldByResources, List.mem_map, Table.mem_values_iff h]
  constructor
  · rintro ⟨r, ⟨slot, hr⟩, hp⟩
    exact ⟨slot, r, hr, hp⟩
  · rintro ⟨slot, r, hr, hp⟩
    exact ⟨r, ⟨slot, hr⟩, hp⟩

/-- The handles that are out are those of the sessions and the resources, and the loose ones. -/
structure IsAccounted (w : Workspace) (loose : List Program) : Prop where
  /-- a slot has one session -/
  sessions : Table.IsKeyed w.sessions
  /-- and one set of resources -/
  resources : Table.IsKeyed w.resources
  /-- the sessions are what sessions can be -/
  legal : ∀ s ∈ Table.values w.sessions, s.IsLegal
  /-- the cache knows what they hold -/
  serves : w.context.cache.Serves (loose ++ w.owned)

theorem isAccounted_start (target : Target) (compiler : Compiler) :
    (start target compiler).IsAccounted [] :=
  ⟨Table.isKeyed_nil, Table.isKeyed_nil, fun _ hs => absurd hs List.not_mem_nil,
    Cache.serves_nil compiler⟩

namespace IsAccounted

theorem isLegal (h : w.IsAccounted loose) (hs : w.session? slot = some s) : s.IsLegal :=
  h.legal s ((Table.mem_values_iff h.sessions).mpr ⟨slot, hs⟩)

/-- What is held, with the session in a slot in front. -/
theorem perm_owned (h : w.IsAccounted loose) (hs : w.session? slot = some s) :
    w.owned.Perm (s.program.toList ++ w.ownedByOthers slot) := by
  rw [owned, ownedByOthers, ← List.append_assoc]
  exact (perm_heldBySessions h.sessions hs).append_right _

theorem serves_session (h : w.IsAccounted []) (hs : w.session? slot = some s) :
    w.context.cache.Serves (s.program.toList ++ w.ownedByOthers slot) :=
  h.serves.of_perm (h.perm_owned hs)

/-! ### Changes of a slot -/

/-- A session comes into a slot, with its handle. -/
theorem setSession (h : w.IsAccounted []) (context : Context) (hlegal : s.IsLegal)
    (hserves : context.cache.Serves (loose ++ (s.program.toList ++ w.ownedByOthers slot))) :
    ({ w with context }.setSession slot s).IsAccounted loose := by
  refine ⟨h.sessions.insert slot s, h.resources, ?_, ?_⟩
  · refine List.forall_mem_cons.mpr ⟨hlegal, fun t ht => h.legal t ?_⟩
    exact (List.filter_sublist.map Prod.snd).subset ht
  · have howned : ({ w with context }.setSession slot s).owned =
        s.program.toList ++ w.ownedByOthers slot := List.append_assoc ..
    rwa [howned]

/-- A session that holds nothing leaves its slot. -/
theorem eraseSession (h : w.IsAccounted loose) (slot : Nat)
    (hnone : ∀ s, w.session? slot = some s → s.program = none) :
    { w with sessions := w.sessions.erase slot }.IsAccounted loose ∧
      (w.ownedByOthers slot).Perm w.owned := by
  have hperm : (w.ownedByOthers slot).Perm w.owned := by
    cases hs : w.session? slot with
    | none => rw [ownedByOthers, Table.erase_eq_self hs, owned]
    | some s =>
      have howned := h.perm_owned hs
      rw [hnone s hs] at howned
      exact howned.symm
  refine ⟨⟨h.sessions.erase slot, h.resources, fun t ht => h.legal t ?_, ?_⟩, hperm⟩
  · exact (List.filter_sublist.map Prod.snd).subset ht
  · exact h.serves.of_perm (hperm.symm.append_left loose)

theorem dropResources (h : w.IsAccounted loose) (slot : Nat) :
    (w.dropResources slot).IsAccounted loose := by
  rw [Workspace.dropResources]
  split
  · exact h
  · next r hr =>
    refine ⟨h.sessions, h.resources.erase slot, h.legal, ?_⟩
    apply Cache.Serves.drop
    refine h.serves.of_perm ?_
    -- the handle of the resources moves to the front of the list
    have hperm := (perm_heldByResources h.resources hr).append_left
      (loose ++ heldBySessions w.sessions)
    rw [List.append_assoc, List.append_assoc] at hperm
    refine hperm.trans ?_
    rw [← List.append_assoc]
    refine List.perm_middle.trans (.cons _ ?_)
    rw [List.append_assoc]
    exact .refl _

/-- Resources come into a slot, with the handle that is loose. -/
theorem setResources (h : w.IsAccounted [r.program]) (slot : Nat) :
    (w.setResources slot r).IsAccounted [] := by
  have hdropped := h.dropResources slot
  have hfree : (w.dropResources slot).resources.find? slot = none := by
    rw [Workspace.dropResources]
    split
    · next hnone => exact hnone
    · rw [Table.find?_erase, if_pos rfl]
  refine ⟨hdropped.sessions, hdropped.resources.insert slot r, hdropped.legal, ?_⟩
  have hresources : heldByResources ((w.dropResources slot).resources.insert slot r) =
      r.program :: heldByResources (w.dropResources slot).resources := by
    rw [heldByResources, Table.values_insert, Table.erase_eq_self hfree]
    rfl
  refine hdropped.serves.of_perm ?_
  have howned : (w.setResources slot r).owned = heldBySessions (w.dropResources slot).sessions ++
      r.program :: heldByResources (w.dropResources slot).resources := by
    rw [← hresources]
    rfl
  rw [List.nil_append, howned, owned, List.singleton_append]
  exact List.perm_middle.symm

/-! ### Steps -/

theorem release (h : w.IsAccounted []) (slot : Nat) : (w.release slot).IsAccounted [] := by
  rw [Workspace.release]
  split
  · exact h
  · next s hs =>
    exact h.setSession _ ((h.isLegal hs).answer w.context .release)
      (Session.serves_release (h.serves_session hs))

/-- The session in a slot that was released holds nothing. -/
theorem program_release (h : w.IsAccounted []) (hs : (w.release slot).session? slot = some s) :
    s.program = none := by
  rw [Workspace.release] at hs
  split at hs
  · next hnone => cases hnone.symm.trans hs
  · next t ht =>
    rw [session?_setSession, if_pos rfl] at hs
    obtain rfl := Option.some.inj hs
    exact Session.program_release (h.isLegal ht) w.context

theorem close (h : w.IsAccounted []) (slot : Nat) : (w.close slot).IsAccounted [] :=
  ((h.release slot).eraseSession slot fun _ hs => h.program_release hs).1

theorem create (h : w.IsAccounted []) (slot : Nat) : (w.create slot).IsAccounted [] := by
  have hclosed := h.close slot
  have hnone : ∀ s, (w.close slot).session? slot = some s → s.program = none := by
    intro s hs
    rw [Workspace.close, session?, Table.find?_erase, if_pos rfl] at hs
    cases hs
  have hserves := hclosed.serves.of_perm ((hclosed.eraseSession slot hnone).2.symm.append_left [])
  exact hclosed.setSession _ Session.isLegal_new hserves

theorem declare (h : w.IsAccounted []) (slot : Nat) (batch : Declarations) :
    (w.declare slot batch).2.IsAccounted [] := by
  rw [Workspace.declare]
  split
  · exact h
  · next s hs =>
    split
    · exact h
    · next s' hs' =>
      have hdeclared : (s.answer w.context (.declare batch)).1 = s' := by
        rw [Session.answer, hs']
      refine h.setSession w.context ?_ ?_
      · rw [← hdeclared]
        exact (h.isLegal hs).answer ..
      · rw [Session.program_declare hs']
        exact h.serves_session hs

theorem build (h : w.IsAccounted []) (slot : Nat) (bodies : ProgramBodies) :
    (w.build slot bodies).2.IsAccounted [] := by
  rw [Workspace.build]
  split
  · exact h
  · next s hs =>
    have hbuilt : ({ w with context := (s.build w.context bodies).2.2 }.setSession slot
        (s.build w.context bodies).2.1).IsAccounted
          (Session.handedOut (s.build w.context bodies).1) :=
      h.setSession _ ((h.isLegal hs).answer w.context (.build bodies))
        (Session.serves_build (h.isLegal hs) (h.serves_session hs))
    dsimp only
    split
    · next he =>
      rw [he] at hbuilt
      exact hbuilt
    · next he =>
      rw [he] at hbuilt
      exact hbuilt.setResources slot

/-- **Every step** keeps the accounts. -/
theorem act (h : w.IsAccounted []) (step : Step) : (w.act step).IsAccounted [] := by
  cases step with
  | create slot => exact h.create slot
  | declare slot batch => exact h.declare slot batch
  | build slot bodies => exact h.build slot bodies
  | release slot => exact h.release slot
  | close slot => exact h.close slot
  | dropResources slot => exact h.dropResources slot

end IsAccounted

/-! ## Holding a program -/

/-- A session holds the program. -/
def IsHeldBySession (w : Workspace) (p : Program) : Prop :=
  ∃ slot s, w.session? slot = some s ∧ s.program = some p

/-- Resources hold the program. -/
def IsHeldByResources (w : Workspace) (p : Program) : Prop :=
  ∃ slot r, w.resources? slot = some r ∧ r.program = p

/-- Someone holds the program. -/
def IsHeld (w : Workspace) (p : Program) : Prop := w.IsHeldBySession p ∨ w.IsHeldByResources p

/-- Someone holds the program who is not the session in a slot. -/
def IsHeldByOthers (w : Workspace) (slot : Nat) (p : Program) : Prop :=
  (∃ other s, other ≠ slot ∧ w.session? other = some s ∧ s.program = some p) ∨
    w.IsHeldByResources p

namespace IsAccounted

variable (h : w.IsAccounted [])

include h

theorem mem_owned_iff : p ∈ w.owned ↔ w.IsHeld p := by
  rw [owned, List.mem_append, mem_heldBySessions_iff h.sessions,
    mem_heldByResources_iff h.resources]
  exact Iff.rfl

theorem mem_ownedByOthers_iff : p ∈ w.ownedByOthers slot ↔ w.IsHeldByOthers slot p := by
  rw [ownedByOthers, List.mem_append, mem_heldBySessions_iff (h.sessions.erase slot),
    mem_heldByResources_iff h.resources]
  refine or_congr ?_ Iff.rfl
  simp [Table.find?_erase, session?, and_assoc]

/-- What is held is cached. -/
theorem mem_programs (hp : w.IsHeld p) : p ∈ w.context.cache.programs :=
  h.serves.cached p (h.mem_owned_iff.mpr hp)

end IsAccounted

/-! ## Runs -/

/-- Another compiler behind the cache. -/
def withCompiler (w : Workspace) (compiler : Compiler) : Workspace :=
  { w with context := { w.context with cache := w.context.cache.withCompiler compiler } }

/-- The workspace after a sequence of steps, each with the compiler that answers in it. -/
def runEach (w : Workspace) (script : List (Compiler × Step)) : Workspace :=
  script.foldl (fun w entry => (w.withCompiler entry.1).act entry.2) w

theorem runEach_append_singleton (w : Workspace) (script : List (Compiler × Step))
    (entry : Compiler × Step) :
    w.runEach (script ++ [entry]) = ((w.runEach script).withCompiler entry.1).act entry.2 := by
  rw [runEach, List.foldl_append]
  rfl

theorem IsAccounted.withCompiler (h : w.IsAccounted loose) (compiler : Compiler) :
    (w.withCompiler compiler).IsAccounted loose :=
  ⟨h.sessions, h.resources, h.legal, h.serves.withCompiler compiler⟩

theorem IsAccounted.runEach (h : w.IsAccounted []) (script : List (Compiler × Step)) :
    (w.runEach script).IsAccounted [] :=
  foldl_preserves (P := (IsAccounted · []))
    (fun entry _ _ h => (h.withCompiler entry.1).act entry.2) h

/-- **Every run** keeps the accounts. -/
theorem isAccounted_runEach (target : Target) (compiler : Compiler)
    (script : List (Compiler × Step)) : ((start target compiler).runEach script).IsAccounted [] :=
  (isAccounted_start target compiler).runEach script

/-- A run whose compiler is the same in all its steps. -/
theorem run_eq_runEach (target : Target) (compiler : Compiler) (steps : List Step) :
    (start target compiler).run steps =
      (start target compiler).runEach (steps.map (compiler, ·)) := by
  have hself : ∀ w : Workspace, w.context.cache.compiler = compiler →
      w.withCompiler compiler = w := by
    rintro w rfl
    rfl
  induction steps using List.reverseRecOn with
  | nil => rfl
  | append_singleton steps step ih =>
    have hcompiler := (isSound_run target compiler steps).compiler_eq
    rw [List.map_append, List.map_singleton, runEach_append_singleton, ← ih, hself _ hcompiler,
      run, List.foldl_append]
    rfl

end Workspace

end ShaderLoom
