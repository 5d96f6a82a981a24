import ShaderLoom.Proofs.Outcome
import ShaderLoom.Proofs.Program.Cache
import ShaderLoom.Proofs.Session.Build
import ShaderLoom.Workspace

/-!
# Runs of sessions

What a workspace does keeps its target and its compiler, brings no program into the cache but those
that the compiler makes, and leaves no texture expanded in a session that is still open. So this
holds in every workspace that a run reaches: **`Workspace.isSound_run`**.

A session that builds resources was open, and `Session.build_eq_ok_iff` says where they come from.
-/

namespace ShaderLoom

variable {c c' c'' : Context} {s : Session} {p : Program} {bodies : ProgramBodies} {slot : Nat}
  {w : Workspace} {r : Resources}

/-! ## Contexts -/

/-- The program is made by the compiler. -/
def Program.IsCompiled (compiler : Compiler) (p : Program) : Prop :=
  compiler.compile p.texts = .ok p.reflection

/-- What comes of a context: the target and the compiler are kept, and new programs are made by the
compiler. -/
structure Context.Keeps (before after : Context) : Prop where
  /-- the target is kept -/
  target : after.target = before.target
  /-- the compiler is kept -/
  compiler : after.cache.compiler = before.cache.compiler
  /-- a program was there before or is new -/
  programs : ∀ p ∈ after.cache.programs,
    p ∈ before.cache.programs ∨ p.IsCompiled before.cache.compiler

namespace Context.Keeps

theorem refl : Context.Keeps c c := ⟨rfl, rfl, fun _ hp => .inl hp⟩

theorem trans (h : Context.Keeps c c') (h' : Context.Keeps c' c'') : Context.Keeps c c'' := by
  refine ⟨h'.target.trans h.target, h'.compiler.trans h.compiler, fun p hp => ?_⟩
  rcases h'.programs p hp with hp | hp
  · exact h.programs p hp
  · rw [h.compiler] at hp
    exact .inr hp

/-- What takes no program in keeps a context. -/
theorem of_subset {cache : Cache} (hcompiler : cache.compiler = c.cache.compiler)
    (h : cache.programs ⊆ c.cache.programs) : Context.Keeps c { c with cache } :=
  ⟨rfl, hcompiler, fun _ hp => .inl (h hp)⟩

theorem get (c : Context) (texts : StageTexts) :
    Context.Keeps c { c with cache := (c.cache.get texts).2 } := by
  refine ⟨rfl, Cache.compiler_get, fun p hp => ?_⟩
  rcases Cache.mem_programs_get hp with hp | ⟨htexts, hcompile⟩
  · exact .inl hp
  · rw [← htexts] at hcompile
    exact .inr hcompile

end Context.Keeps

/-! ## Building -/

namespace Session

/-- **Building** keeps the context, and no session is open behind it. -/
theorem build_keeps (s : Session) (c : Context) (bodies : ProgramBodies) :
    Context.Keeps c (s.build c bodies).2.2 ∧ (s.build c bodies).2.1.isOpen = false := by
  have hend := s.buildEnds c bodies
  generalize s.build c bodies = outcome at hend
  cases hend with
  | refused hclosed => exact ⟨.refl, hclosed⟩
  | unsuited | unassembled => exact ⟨.refl, rfl⟩
  | uncompiled | unresolved => exact ⟨.get c _, rfl⟩
  | resolved => exact ⟨(Context.Keeps.get c _).trans (.of_subset rfl (List.Subset.refl _)), rfl⟩

/-- **What becomes of a session** that builds resources: it adopts the program and settles what the
program uses. -/
theorem settled_of_build {a : Assembly} (h : (s.build c bodies).1 = .ok r)
    (ha : s.assembly c.dialect bodies = .ok a) :
    (s.build c bodies).2.1 =
      ((s.expand c.dialect bodies.isGraphics).adopt r.program a.items).settle r.elements := by
  obtain ⟨hopen, hattributes, a', ha', hget, hresolve, -⟩ := build_eq_ok_iff.mp h
  cases ha.symm.trans ha'
  rw [build_eq hopen hattributes ha (Prod.ext hget rfl) hresolve]

/-- Building forgets no declaration. -/
theorem declarations_build (s : Session) (c : Context) (bodies : ProgramBodies) :
    (s.build c bodies).2.1.declarations = s.declarations := by
  have hend := s.buildEnds c bodies
  generalize s.build c bodies = outcome at hend
  cases hend <;> rfl

theorem release_keeps (s : Session) (c : Context) :
    Context.Keeps c (s.release c).2 ∧ ((s.release c).1.isOpen = true → (s.release c).1 = s) := by
  rw [release]
  split
  · exact ⟨.refl, fun _ => rfl⟩
  · refine ⟨?_, fun hopen => ?_⟩
    · cases s.program with
      | none => exact .of_subset rfl (List.Subset.refl _)
      | some p => exact .of_subset (Cache.compiler_release _ _) (Cache.programs_release_subset _ _)
    · cases hopen

end Session

/-! ## Workspaces -/

namespace Workspace

/-- What holds in every workspace for a target and a compiler. -/
structure IsSound (target : Target) (compiler : Compiler) (w : Workspace) : Prop where
  /-- the target is the one the workspace began with -/
  target_eq : w.context.target = target
  /-- so is the compiler -/
  compiler_eq : w.context.cache.compiler = compiler
  /-- the cached programs are made by the compiler -/
  programs : ∀ p ∈ w.context.cache.programs, p.IsCompiled compiler
  /-- no texture is expanded before its session is closed -/
  textures : ∀ slot s, w.session? slot = some s → s.isOpen = true → s.textures = []

variable {target : Target} {compiler : Compiler}

/-- What keeps the context keeps a workspace sound, if it does so with the open sessions. -/
theorem IsSound.of_keeps {w' : Workspace} (h : w.IsSound target compiler)
    (hkeeps : Context.Keeps w.context w'.context)
    (hsessions : ∀ slot s, w'.session? slot = some s → s.isOpen = true →
      w.session? slot = some s ∨ s.textures = []) : w'.IsSound target compiler := by
  refine ⟨hkeeps.target.trans h.target_eq, hkeeps.compiler.trans h.compiler_eq, fun p hp => ?_,
    fun slot s hs hopen => ?_⟩
  · rcases hkeeps.programs p hp with hp | hp
    · exact h.programs p hp
    · rwa [h.compiler_eq] at hp
  · rcases hsessions slot s hs hopen with hs | hs
    · exact h.textures slot s hs hopen
    · exact hs

theorem session?_setSession (w : Workspace) (slot : Nat) (s : Session) (other : Nat) :
    (w.setSession slot s).session? other = if other = slot then some s else w.session? other :=
  Table.find?_insert ..

theorem IsSound.release (h : w.IsSound target compiler) (slot : Nat) :
    (w.release slot).IsSound target compiler := by
  rw [Workspace.release]
  split
  · exact h
  · next s hs =>
    obtain ⟨hkeeps, hsame⟩ := s.release_keeps w.context
    refine h.of_keeps hkeeps fun other t ht hopen => ?_
    rw [session?_setSession] at ht
    split at ht
    · next he =>
      obtain rfl := Option.some.inj ht
      rw [hsame hopen, he]
      exact .inl hs
    · exact .inl ht

theorem IsSound.close (h : w.IsSound target compiler) (slot : Nat) :
    (w.close slot).IsSound target compiler := by
  refine (h.release slot).of_keeps .refl fun other t ht _ => ?_
  rw [Workspace.close, session?, Table.find?_erase] at ht
  split at ht
  · cases ht
  · exact .inl ht

theorem IsSound.create (h : w.IsSound target compiler) (slot : Nat) :
    (w.create slot).IsSound target compiler := by
  refine (h.close slot).of_keeps .refl fun other t ht _ => ?_
  rw [Workspace.create, session?_setSession] at ht
  split at ht
  · obtain rfl := Option.some.inj ht
    exact .inr rfl
  · exact .inl ht

theorem IsSound.dropResources (h : w.IsSound target compiler) (slot : Nat) :
    (w.dropResources slot).IsSound target compiler := by
  rw [Workspace.dropResources]
  split
  · exact h
  · exact h.of_keeps (.of_subset rfl (List.Subset.refl _)) fun other t ht _ => .inl ht

theorem IsSound.declare (h : w.IsSound target compiler) (slot : Nat) (batch : Declarations) :
    (w.declare slot batch).2.IsSound target compiler := by
  rw [Workspace.declare]
  split
  · exact h
  · next s hs =>
    split
    · exact h
    · next s' hs' =>
      refine h.of_keeps .refl fun other t ht _ => ?_
      rw [session?_setSession] at ht
      split at ht
      · obtain rfl := Option.some.inj ht
        rw [Session.declare] at hs'
        split at hs'
        · next hopen =>
          cases hs'
          exact .inr (h.textures slot s hs hopen)
        · cases hs'
      · exact .inl ht

theorem IsSound.build (h : w.IsSound target compiler) (slot : Nat) (bodies : ProgramBodies) :
    (w.build slot bodies).2.IsSound target compiler := by
  rw [Workspace.build]
  split
  · exact h
  · next s hs =>
    obtain ⟨hkeeps, hclosed⟩ := s.build_keeps w.context bodies
    have hbuilt : ({ w with context := (s.build w.context bodies).2.2 }.setSession slot
        (s.build w.context bodies).2.1).IsSound target compiler := by
      refine h.of_keeps hkeeps fun other t ht hopen => ?_
      rw [session?_setSession] at ht
      split at ht
      · obtain rfl := Option.some.inj ht
        rw [hclosed] at hopen
        cases hopen
      · exact .inl ht
    dsimp only
    split
    · exact hbuilt
    · exact (hbuilt.dropResources slot).of_keeps .refl fun other t ht _ => .inl ht

/-- **Every step** keeps a workspace sound. -/
theorem IsSound.act (h : w.IsSound target compiler) (step : Step) :
    (w.act step).IsSound target compiler := by
  cases step with
  | create slot => exact h.create slot
  | declare slot batch => exact h.declare slot batch
  | build slot bodies => exact h.build slot bodies
  | release slot => exact h.release slot
  | close slot => exact h.close slot
  | dropResources slot => exact h.dropResources slot

theorem isSound_start (target : Target) (compiler : Compiler) :
    (start target compiler).IsSound target compiler := by
  refine ⟨rfl, rfl, fun p hp => ?_, fun slot s hs _ => ?_⟩
  · cases hp
  · cases hs

/-- **Every run** reaches a sound workspace. -/
theorem isSound_run (target : Target) (compiler : Compiler) (steps : List Step) :
    ((start target compiler).run steps).IsSound target compiler :=
  foldl_preserves (fun step _ _ h => h.act step) (isSound_start target compiler)

/-- **What a workspace builds** was built by the session in the slot. -/
theorem build_eq_ok_iff : (w.build slot bodies).1 = some (.ok r) ↔
    ∃ s, w.session? slot = some s ∧ (s.build w.context bodies).1 = .ok r := by
  rw [Workspace.build]
  constructor
  · intro h
    split at h
    · cases h
    · next s hs =>
      refine ⟨s, hs, ?_⟩
      dsimp only at h
      split at h
      · cases h
      · next he =>
        cases h
        exact he
  · rintro ⟨s, hs, h⟩
    rw [hs]
    dsimp only
    rw [h]

theorem session?_dropResources (w : Workspace) (slot other : Nat) :
    (w.dropResources slot).session? other = w.session? other := by
  rw [dropResources]
  split <;> rfl

/-- The sessions after one of them was built. -/
theorem session?_build_eq (hs : w.session? slot = some s) (other : Nat) :
    (w.build slot bodies).2.session? other =
      if other = slot then some (s.build w.context bodies).2.1 else w.session? other := by
  have hset : ({ w with context := (s.build w.context bodies).2.2 }.setSession slot
      (s.build w.context bodies).2.1).session? other =
        if other = slot then some (s.build w.context bodies).2.1 else w.session? other :=
    session?_setSession ..
  rw [build, hs]
  dsimp only
  split
  · exact hset
  · exact (session?_dropResources _ _ _).trans hset

/-- The session in a slot after it was built. -/
theorem session?_build (hs : w.session? slot = some s) :
    (w.build slot bodies).2.session? slot = some (s.build w.context bodies).2.1 := by
  rw [session?_build_eq hs, if_pos rfl]

end Workspace

/-! ## Sessions that were built -/

/-- What a session resolved to when it was built, with the program that the cache handed out. -/
structure Session.IsBuilt (s : Session) (compiler : Compiler) (a : Assembly) (r : Resources) :
    Prop where
  /-- no texture was expanded before -/
  textures : s.textures = []
  /-- the program was made by the compiler -/
  compiled : r.program.IsCompiled compiler
  /-- what the texts declare is resolved against the program -/
  resolve : r.program.reflection.resolve (Declared.ofItems a.items) = .ok r.elements
  /-- the consolidated blocks -/
  uniformBlocks : r.uniformBlocks = a.items.filterMap Item.uniformBlock?

/-- **What the cache hands out** in a workspace that a run reaches was made by the compiler. -/
theorem Workspace.isCompiled_of_get {target : Target} {compiler : Compiler} {steps : List Step}
    {texts : StageTexts}
    (hget : (((start target compiler).run steps).context.cache.get texts).1 = .ok p) :
    p.IsCompiled compiler := by
  have hsound := isSound_run target compiler steps
  rcases Cache.of_get_eq_ok hget with hfind | ⟨-, htexts, hcompile⟩
  · exact hsound.programs _ (Cache.find?_eq_some hfind).1
  · rw [hsound.compiler_eq, ← htexts] at hcompile
    exact hcompile

/-- **In every workspace that a run reaches**, a session that builds resources has assembled its
texts, has resolved what they declare, and knows what it resolved to. -/
theorem Workspace.exists_isBuilt {target : Target} {compiler : Compiler} {steps : List Step}
    (hs : ((start target compiler).run steps).session? slot = some s)
    (hbuild : (((start target compiler).run steps).build slot bodies).1 = some (.ok r)) :
    ∃ a, s.assembly target.dialect bodies = .ok a ∧ s.IsBuilt compiler a r ∧
      (((start target compiler).run steps).build slot bodies).2.session? slot =
        some (((s.expand target.dialect bodies.isGraphics).adopt r.program a.items).settle
          r.elements) := by
  have hsound := isSound_run target compiler steps
  obtain ⟨s', hs', hbuilt⟩ := build_eq_ok_iff.mp hbuild
  obtain rfl := Option.some.inj (hs.symm.trans hs')
  obtain ⟨hopen, -, a, ha, hget, hresolve, hblocks⟩ := Session.build_eq_ok_iff.mp hbuilt
  have hdialect : Context.dialect ((start target compiler).run steps).context =
      target.dialect := by
    rw [Context.dialect, hsound.target_eq]
  have hsession : (((start target compiler).run steps).build slot bodies).2.session? slot =
      some _ := session?_build hs
  rw [Session.settled_of_build hbuilt ha, hdialect] at hsession
  rw [hdialect] at ha
  exact ⟨a, ha, ⟨hsound.textures slot s hs hopen, isCompiled_of_get hget, hresolve, hblocks⟩,
    hsession⟩

/-- What a session was built from, if its texts are known. -/
theorem Workspace.isBuilt_of_run {target : Target} {compiler : Compiler} {steps : List Step}
    {a : Assembly} (hs : ((start target compiler).run steps).session? slot = some s)
    (hbuild : (((start target compiler).run steps).build slot bodies).1 = some (.ok r))
    (ha : s.assembly target.dialect bodies = .ok a) :
    s.IsBuilt compiler a r ∧
      (((start target compiler).run steps).build slot bodies).2.session? slot =
        some (((s.expand target.dialect bodies.isGraphics).adopt r.program a.items).settle
          r.elements) := by
  obtain ⟨a', ha', hbuilt⟩ := exists_isBuilt hs hbuild
  cases ha.symm.trans ha'
  exact hbuilt

/-- The program of a session that was built is the one that the cache hands out for its texts. -/
theorem Workspace.get_of_build {target : Target} {compiler : Compiler} {steps : List Step}
    {a : Assembly} (hs : ((start target compiler).run steps).session? slot = some s)
    (hbuild : (((start target compiler).run steps).build slot bodies).1 = some (.ok r))
    (ha : s.assembly target.dialect bodies = .ok a) :
    (((start target compiler).run steps).context.cache.get a.texts).1 = .ok r.program := by
  obtain ⟨s', hs', hbuilt⟩ := build_eq_ok_iff.mp hbuild
  obtain rfl := Option.some.inj (hs.symm.trans hs')
  obtain ⟨-, -, a', ha', hget, -⟩ := Session.build_eq_ok_iff.mp hbuilt
  rw [Context.dialect, (isSound_run target compiler steps).target_eq, ha] at ha'
  cases ha'
  exact hget

/-! ## Programs made of their own texts -/

/-- The session was built, and its program is reflected by reading the texts of the session. -/
structure Session.IsRead (s : Session) (d : Dialect) (bodies : ProgramBodies) (a : Assembly)
    (ds : List Reading.Declaration) (r : Resources) : Prop where
  /-- no texture was expanded before -/
  textures : s.textures = []
  /-- the texts of the session -/
  assembly : s.assembly d bodies = .ok a
  /-- they are read -/
  read : Reading.readProgram a.texts = .ok ds
  /-- and what they declare is resolved against what was read -/
  resolve : (Reading.reflect ds).resolve (Declared.ofItems a.items) = .ok r.elements
  /-- the consolidated blocks -/
  uniformBlocks : r.uniformBlocks = a.items.filterMap Item.uniformBlock?

/-- **In every workspace that a run reaches**, a session is read if its program was made of its own
texts, and the session then knows what it resolved to. -/
theorem Workspace.exists_isRead {target : Target} {compilerName : String} {steps : List Step}
    {a : Assembly} (hs : ((start target (readingCompiler compilerName)).run steps).session? slot =
      some s)
    (hbuild : (((start target (readingCompiler compilerName)).run steps).build slot bodies).1 =
      some (.ok r))
    (ha : s.assembly target.dialect bodies = .ok a) (htexts : r.program.texts = a.texts) :
    ∃ ds, s.IsRead target.dialect bodies a ds r ∧
      (((start target (readingCompiler compilerName)).run steps).build slot bodies).2.session?
          slot = some (((s.expand target.dialect bodies.isGraphics).adopt r.program a.items).settle
            r.elements) := by
  obtain ⟨hbuilt, hsession⟩ := isBuilt_of_run hs hbuild ha
  obtain ⟨ds, hread, hreflect⟩ := map_eq_ok.mp hbuilt.compiled
  have hresolve := hbuilt.resolve
  rw [← hreflect] at hresolve
  rw [htexts] at hread
  exact ⟨ds, ⟨hbuilt.textures, ha, hread, hresolve, hbuilt.uniformBlocks⟩, hsession⟩

end ShaderLoom
