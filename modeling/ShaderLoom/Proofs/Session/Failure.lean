import ShaderLoom.Proofs.Session.Owners

/-!
# Builds that fail

The kind of an error tells where a build has failed, as long as a compiler does nothing worse than
fail to compile: on the way to the compiler, in the compiler, or behind it. Only a session that
fails behind the compiler has got a program, and it keeps it until it is released.

**`Workspace.isContained_build`**: wherever a build has failed, once its session is given back
nothing is cached that was not cached before, and what others hold is cached as before.
-/

namespace ShaderLoom

variable {s : Session} {c : Context} {bodies : ProgramBodies} {p : Program} {e : Error}

/-- The compiler does nothing worse than fail to compile. -/
def Compiler.OnlyFailsToCompile (compiler : Compiler) : Prop :=
  ∀ texts fault, compiler.compile texts = .error fault → fault.kind = .compilationFailed

namespace Cache

variable {cache : Cache} {texts : StageTexts} {fault : CompileFault}

/-- A request fails with what the compiler says. -/
theorem compile_of_get_eq_error (h : (cache.get texts).1 = .error fault) :
    cache.compiler.compile texts = .error fault := by
  rcases cache.get_cases texts with ⟨p, -, he⟩ | ⟨-, fault', hfault, he⟩ | ⟨-, r, -, he⟩
  · rw [he] at h
    cases h
  · rw [he] at h
    cases h
    exact hfault
  · rw [he] at h
    cases h

end Cache

/-! ## Sessions that fail -/

namespace Session

/-- How a build fails: on the way to the compiler, in the compiler, or behind it. -/
theorem build_fails (hcompiler : c.cache.compiler.OnlyFailsToCompile) (hlegal : s.IsLegal)
    (hopen : s.isOpen = true) (h : (s.build c bodies).1 = .error e) :
    (e.IsEarly ∧ (s.build c bodies).2.1.program = none ∧ (s.build c bodies).2.2 = c) ∨
      (e.kind = .compilationFailed ∧ (s.build c bodies).2.1.program = none ∧
        (s.build c bodies).2.2 =
          { c with cache := { c.cache with compiles := c.cache.compiles + 1 } }) ∨
      e.kind = .notFound ∧
        ∃ p, s.Obtains c bodies p ∧ (s.build c bodies).2.1.program = some p := by
  have hnone : s.program = none := hlegal.unbuilt hopen
  have hend := s.buildEnds c bodies
  generalize s.build c bodies = outcome at hend h
  cases hend with
  | refused hclosed => cases hopen.symm.trans hclosed
  | unsuited =>
    cases h
    exact .inl ⟨.inl rfl, hnone, rfl⟩
  | unassembled _ _ ha =>
    cases h
    exact .inl ⟨isEarly_of_assemble ha, hnone, rfl⟩
  | uncompiled _ _ _ hget =>
    cases h
    refine .inr (.inl ⟨hcompiler _ _ (Cache.compile_of_get_eq_error hget), hnone, ?_⟩)
    rw [requested, Cache.get_of_error hget]
  | unresolved _ hsuits ha hget hresolve =>
    cases h
    exact .inr (.inr ⟨kind_of_resolve hresolve, _, ⟨hsuits, _, ha, hget⟩, rfl⟩)
  | resolved => cases h

end Session

/-! ## Slots -/

namespace Workspace

variable {w : Workspace} {slot other : Nat}

/-- Does a step end the session in a slot? -/
def Step.Ends (slot : Nat) : Step → Prop
  | .create other | .release other | .close other => other = slot
  | .declare _ _ | .build _ _ | .dropResources _ => False

theorem session?_release_of_ne (h : other ≠ slot) :
    (w.release slot).session? other = w.session? other := by
  rw [release]
  split
  · rfl
  · rw [session?_setSession, if_neg h]
    rfl

theorem session?_close_of_ne (h : other ≠ slot) :
    (w.close slot).session? other = w.session? other := by
  rw [close, session?, Table.find?_erase, if_neg h]
  exact session?_release_of_ne h

theorem session?_create_of_ne (h : other ≠ slot) :
    (w.create slot).session? other = w.session? other := by
  rw [create, session?_setSession, if_neg h]
  exact session?_close_of_ne h

theorem session?_declare_of_ne {batch : Declarations} (h : other ≠ slot) :
    (w.declare slot batch).2.session? other = w.session? other := by
  rw [declare]
  split
  · rfl
  · split
    · rfl
    · rw [session?_setSession, if_neg h]

theorem session?_build_of_ne (h : other ≠ slot) :
    (w.build slot bodies).2.session? other = w.session? other := by
  cases hs : w.session? slot with
  | none => rw [build, hs]
  | some s => rw [session?_build_eq hs, if_neg h]

/-- A session that is not open stays as it is, until a step ends it. -/
theorem session?_act_of_not_isOpen {step : Step} (hs : w.session? slot = some s)
    (hclosed : s.isOpen = false) (hstep : ¬ step.Ends slot) :
    (w.act step).session? slot = some s := by
  cases step with
  | create other => exact (session?_create_of_ne (Ne.symm hstep)).trans hs
  | release other => exact (session?_release_of_ne (Ne.symm hstep)).trans hs
  | close other => exact (session?_close_of_ne (Ne.symm hstep)).trans hs
  | dropResources other => exact (session?_dropResources w other slot).trans hs
  | declare other batch =>
    by_cases hother : slot = other
    · subst hother
      rw [act, declare, hs]
      dsimp only
      rwa [Session.declare_of_not_isOpen hclosed]
    · exact (session?_declare_of_ne hother).trans hs
  | build other bodies =>
    by_cases hother : slot = other
    · subst hother
      rw [act, session?_build hs, Session.build_of_not_isOpen hclosed]
    · exact (session?_build_of_ne hother).trans hs

theorem session?_runEach_of_not_isOpen {script : List (Compiler × Step)}
    (hs : w.session? slot = some s) (hclosed : s.isOpen = false)
    (hscript : ∀ entry ∈ script, ¬ entry.2.Ends slot) :
    (w.runEach script).session? slot = some s :=
  foldl_preserves (P := (session? · slot = some s))
    (fun entry hentry _ h => session?_act_of_not_isOpen h hclosed (hscript entry hentry)) hs

/-! ## Builds that fail -/

/-- The workspace behind a build that has failed. -/
theorem build_of_eq_error (hs : w.session? slot = some s)
    (h : (s.build w.context bodies).1 = .error e) :
    w.build slot bodies = (some (.error e),
      { w with context := (s.build w.context bodies).2.2 }.setSession slot
        (s.build w.context bodies).2.1) := by
  rw [build, hs]
  dsimp only
  rw [h]

/-- What a build fails with, the session in the slot has failed with. -/
theorem build_eq_error_iff (hs : w.session? slot = some s) :
    (w.build slot bodies).1 = some (.error e) ↔ (s.build w.context bodies).1 = .error e := by
  constructor
  · intro h
    rw [build, hs] at h
    dsimp only at h
    split at h
    · next he =>
      cases h
      exact he
    · cases h
  · intro h
    rw [build_of_eq_error hs h]

/-- What an outcome has failed with. -/
def failure? : Except Error Resources → Option Error
  | .error e => some e
  | .ok _ => none

theorem eq_error_of_failure? {result : Option (Except Error Resources)}
    (h : result.bind failure? = some e) : result = some (.error e) := by
  obtain ⟨outcome, rfl, houtcome⟩ := Option.bind_eq_some_iff.mp h
  cases outcome with
  | error e' => rw [Option.some.inj houtcome]
  | ok r => cases houtcome

/-! ## Giving a failed session back -/

theorem context_release (hs : w.session? slot = some s) :
    (w.release slot).context = (s.release w.context).2 := by
  rw [release, hs]
  rfl

/-- What is cached once the session that has failed is given back: what was cached before, but for a
program that this session alone holds. -/
theorem IsAccounted.mem_programs_act_build_iff (h : w.IsAccounted []) {step : Step}
    (hstep : step = .release slot ∨ step = .close slot) (hs : w.session? slot = some s)
    (herror : (s.build w.context bodies).1 = .error e) :
    p ∈ ((w.build slot bodies).2.act step).context.cache.programs ↔
      p ∈ w.context.cache.programs ∧
        ((s.build w.context bodies).2.1.program = some p → w.IsHeldByOthers slot p) := by
  have hbuilt : (w.build slot bodies).2.IsAccounted [] := h.build slot bodies
  have ht : (w.build slot bodies).2.session? slot = some (s.build w.context bodies).2.1 :=
    session?_build hs
  have hcontext : ((w.build slot bodies).2.act step).context =
      ((s.build w.context bodies).2.1.release (w.build slot bodies).2.context).2 := by
    rcases hstep with rfl | rfl <;> exact context_release ht
  have hothers : (w.build slot bodies).2.ownedByOthers slot = w.ownedByOthers slot := by
    rw [build_of_eq_error hs herror, ownedByOthers, Workspace.setSession,
      Table.erase_insert_self]
    rfl
  have hserves := hbuilt.serves_session ht
  rw [hothers, build_of_eq_error hs herror] at hserves
  rw [hcontext, build_of_eq_error hs herror, ← h.mem_ownedByOthers_iff]
  refine (Session.mem_programs_release_iff (hbuilt.isLegal ht) hserves).trans ?_
  rw [Workspace.setSession, Session.mem_programs_build_iff (h.serves_session hs)]
  -- what others hold was cached before
  have hcached : p ∈ w.ownedByOthers slot → p ∈ w.context.cache.programs := fun hp =>
    (h.serves_session hs).cached p (List.mem_append_right _ hp)
  constructor
  · rintro ⟨hp | hp, hheld⟩
    · exact ⟨hp, hheld⟩
    · exact ⟨hcached (hheld hp), hheld⟩
  · rintro ⟨hp, hheld⟩
    exact ⟨.inl hp, hheld⟩

/-- What a failed build leaves, and what is left of it when its session is given back. -/
structure IsContained (w : Workspace) (slot : Nat) (s : Session) (bodies : ProgramBodies)
    (e : Error) : Prop where
  /-- the session has failed -/
  failed : ∃ t, (w.build slot bodies).2.session? slot = some t ∧ t.state = .failed
  /-- the kind of the error tells where it has failed -/
  kind : e.IsEarly ∨ e.kind = .compilationFailed ∨ e.kind = .notFound
  /-- on the way to the compiler it has changed nothing in the context -/
  early : e.IsEarly → (w.build slot bodies).2.context = w.context
  /-- in the compiler it has counted a call and changed nothing else -/
  uncompiled : e.kind = .compilationFailed → (w.build slot bodies).2.context =
    { w.context with cache :=
      { w.context.cache with compiles := w.context.cache.compiles + 1 } }
  /-- behind the compiler it has got a program, which it holds until it ends, and which is cached
  until then -/
  unresolved : e.kind = .notFound → ∃ p, s.Obtains w.context bodies p ∧
    ∀ script, (∀ entry ∈ script, ¬ entry.2.Ends slot) →
      (∃ t, ((w.build slot bodies).2.runEach script).session? slot = some t ∧
        t.program = some p) ∧
      ((w.build slot bodies).2.runEach script).context.cache.find? p.key = some p
  /-- once it is given back, nothing is cached that was not cached before -/
  returned : ∀ step, step = .release slot ∨ step = .close slot → ∀ key p,
    ((w.build slot bodies).2.act step).context.cache.find? key = some p →
      w.context.cache.find? key = some p
  /-- and what others hold is cached as before -/
  kept : ∀ step, step = .release slot ∨ step = .close slot → ∀ p, w.IsHeldByOthers slot p →
    ((w.build slot bodies).2.act step).context.cache.find? p.key = some p

theorem IsAccounted.isContained (h : w.IsAccounted [])
    (hcompiler : w.context.cache.compiler.OnlyFailsToCompile) (hs : w.session? slot = some s)
    (hopen : s.isOpen = true) (herror : (w.build slot bodies).1 = some (.error e)) :
    w.IsContained slot s bodies e := by
  rw [build_eq_error_iff hs] at herror
  have hlegal := h.isLegal hs
  have hbuilt : (w.build slot bodies).2.IsAccounted [] := h.build slot bodies
  have ht : (w.build slot bodies).2.session? slot = some (s.build w.context bodies).2.1 :=
    session?_build hs
  have hstate : (s.build w.context bodies).2.1.state = .failed := by
    obtain ⟨⟨-, r, hr⟩ | ⟨hstate, -⟩, -⟩ :=
      Session.build_of_isOpen hlegal hopen w.context bodies
    · cases hr.symm.trans herror
    · exact hstate
  have hclosed : (s.build w.context bodies).2.1.isOpen = false :=
    Session.isOpen_eq_false (by simp [hstate]) (by simp [hstate])
  have hcontext : (w.build slot bodies).2.context = (s.build w.context bodies).2.2 := by
    rw [build_of_eq_error hs herror]
    rfl
  have hfails := Session.build_fails hcompiler hlegal hopen herror
  refine
    { failed := ⟨_, ht, hstate⟩
      kind := hfails.imp And.left (Or.imp And.left And.left)
      early := fun hearly => ?_
      uncompiled := fun hkind => ?_
      unresolved := fun hkind => ?_
      returned := fun step hstep key p hp => ?_
      kept := fun step hstep p hp => ?_ }
  · rcases hfails with ⟨-, -, hsame⟩ | ⟨hkind, -⟩ | ⟨hkind, -⟩
    · exact hcontext.trans hsame
    · simp [Error.IsEarly, hkind] at hearly
    · simp [Error.IsEarly, hkind] at hearly
  · rcases hfails with ⟨hearly, -⟩ | ⟨-, -, hcounted⟩ | ⟨hkind', -⟩
    · simp [Error.IsEarly, hkind] at hearly
    · exact hcontext.trans hcounted
    · cases hkind.symm.trans hkind'
  · rcases hfails with ⟨hearly, -⟩ | ⟨hkind', -⟩ | ⟨-, p, hobtains, hprogram⟩
    · simp [Error.IsEarly, hkind] at hearly
    · cases hkind.symm.trans hkind'
    · refine ⟨p, hobtains, fun script hscript => ?_⟩
      have hkept := session?_runEach_of_not_isOpen ht hclosed hscript
      have hlater := hbuilt.runEach script
      exact ⟨⟨_, hkept, hprogram⟩, hlater.serves.find?_eq_some_iff.mpr
        ⟨hlater.mem_programs (.inl ⟨slot, _, hkept, hprogram⟩), rfl⟩⟩
  · obtain ⟨hp, hkey⟩ := Cache.find?_eq_some hp
    exact h.serves.find?_eq_some_iff.mpr
      ⟨((h.mem_programs_act_build_iff hstep hs herror).mp hp).1, hkey⟩
  · apply ((hbuilt.act step).serves.find?_eq_some_iff).mpr
    refine ⟨(h.mem_programs_act_build_iff hstep hs herror).mpr ⟨?_, fun _ => hp⟩, rfl⟩
    exact (h.serves_session hs).cached p
      (List.mem_append_right _ (h.mem_ownedByOthers_iff.mpr hp))

/-- **A build that fails leaks nothing**, whatever has happened in the workspace before, as long as
the compiler does nothing worse than fail to compile. -/
theorem isContained_build (target : Target) (first compiler : Compiler)
    (script : List (Compiler × Step)) (hcompiler : compiler.OnlyFailsToCompile)
    (hs : (((start target first).runEach script).withCompiler compiler).session? slot = some s)
    (hopen : s.isOpen = true)
    (herror : ((((start target first).runEach script).withCompiler compiler).build slot bodies).1 =
      some (.error e)) :
    (((start target first).runEach script).withCompiler compiler).IsContained slot s bodies e :=
  ((isAccounted_runEach target first script).withCompiler compiler).isContained hcompiler hs hopen
    herror

/-- A compiler that takes everything and tells nothing. -/
def silentCompiler : Compiler where
  name := "silent"
  compile _ := .ok ⟨none, none, none⟩

/-- A workspace with a session that has declared an attribute. -/
def attributeWorkspace : Workspace :=
  ((start { api := .openGl, version := 330 } silentCompiler).runEach
    [(silentCompiler, .create 0), (silentCompiler, .declare 0
      { attributes := [{ name := "position", ty := .vec3, format := .rgb32Float,
                         buffer := some { size := 36 } }] })]).withCompiler silentCompiler

/-- The session fails behind the compiler: the attribute has no place. -/
theorem isContained_build_attribute :
    silentCompiler.OnlyFailsToCompile ∧ ∃ s e,
      attributeWorkspace.session? 0 = some s ∧ s.isOpen = true ∧ e.kind = .notFound ∧
      (attributeWorkspace.build 0 (.graphics "void main() \x7b\x7d\n"
        "void main() \x7b\x7d\n")).1 = some (.error e) ∧
      attributeWorkspace.IsContained 0 s (.graphics "void main() \x7b\x7d\n"
        "void main() \x7b\x7d\n") e := by
  have hcompiler : silentCompiler.OnlyFailsToCompile := fun _ _ h => by cases h
  have herror : (attributeWorkspace.build 0 (.graphics "void main() \x7b\x7d\n"
      "void main() \x7b\x7d\n")).1 = some (.error (.unreflectedAttribute "position")) := by
    apply eq_error_of_failure?
    decide +kernel
  exact ⟨hcompiler, _, _, rfl, rfl, rfl, herror,
    isContained_build _ _ _ _ hcompiler rfl rfl herror⟩

end Workspace

end ShaderLoom
