import ShaderLoom.Proofs.Resolution
import ShaderLoom.Proofs.Session.Bindings
import ShaderLoom.Proofs.Source.Program

/-!
# Programs with the same text

The cache looks a program up by its texts, one behind the other, and does not see where the first
one ends. So a second session gets the program of another one if it moves the beginning of the
fragment text behind the end of its vertex text. What stands in front of a body depends on the
declarations alone, and it may stand in a body too, so two sessions that declare the same can do so:
**`Workspace.exists_build_splitRun`**. The resources of the second session are then told by a
compiler that has seen some lines in the fragment stage that stand in the vertex stage.
-/

namespace ShaderLoom

open Text Reading

variable {target : Target} {s : Session} {colors : Nat} {vertex fragment : Draft}
  {vertexBody fragmentBody vertexText fragmentText : String}
  {vertexLowered fragmentLowered : Lowered}

/-! ## Lines in a body -/

/-- Lines that may stand in any body: they have no calls and declare nothing. -/
structure AreInert (ls : List Text) : Prop where
  /-- they are lines -/
  isLine : ∀ line ∈ ls, IsLine line
  /-- without calls -/
  callFree : ∀ line ∈ ls, CallFree line
  /-- whose braces are balanced -/
  isBalanced : IsBalanced (unlines ls)
  /-- and a reader passes over them -/
  read : ∀ vertex source rest, readLines vertex source (ls ++ rest) = readLines vertex source rest

theorem areInert_nil : AreInert [] := by
  refine ⟨fun line hline => ?_, fun line hline => ?_, isBalanced_nil, fun _ _ _ => rfl⟩ <;>
    cases hline

/-- A line of fewer than three words is inert. -/
theorem areInert_singleton {line text q : Text} (hline : IsLine line) (hfree : CallFree line)
    (hbalanced : IsBalanced (unlines [line])) (hsplit : splitLayout line = .ok (q, text))
    (hwords : (declarationWords text).length < 3) : AreInert [line] := by
  refine ⟨fun l hl => ?_, fun l hl => ?_, hbalanced, fun vertex source rest => ?_⟩
  · obtain rfl := List.mem_singleton.mp hl
    exact hline
  · obtain rfl := List.mem_singleton.mp hl
    exact hfree
  · exact readLines_of_short hsplit hwords

theorem AreInert.readLines_lines {ls : List Text} (h : AreInert ls) (isVertex : Bool)
    (source : Text) : readLines isVertex source (lines (unlines ls)) = .ok [] := by
  have hlines := lines_unlines_append (t := []) h.isLine
  have hread := h.read isVertex source []
  rw [List.append_nil, lines_nil, List.append_nil] at hlines
  rw [List.append_nil] at hread
  rw [hlines, hread, readLines]

/-- A body declares nothing, whatever the stage. -/
def ReadsNothing (d : Dialect) (body : String) : Prop :=
  ∀ lowered vertex source ds, lower d body.toList = .ok lowered →
    readLines vertex source (lines lowered.text) = .ok ds → ds = []

theorem AreInert.readsNothing {d : Dialect} {ls : List Text} {body : String} {n : Nat}
    (h : AreInert ls) (hlower : lower d body.toList = .ok ⟨unlines ls, n⟩) :
    ReadsNothing d body := by
  intro lowered vertex source ds hl hds
  obtain rfl := Except.ok.inj (hlower.symm.trans hl)
  rw [h.readLines_lines] at hds
  exact (Except.ok.inj hds).symm

/-! ## Graphics programs of named declarations -/

/-- What a session declares can be drafted for both stages of a graphics program, is called by
identifiers, has no calls, and its numbers can be read. -/
structure Session.Drafts (s : Session) (d : Dialect) (colors : Nat) (vertex fragment : Draft) :
    Prop where
  /-- everything is called by identifiers -/
  names : s.declarations.IsNamed
  /-- nothing is expanded yet -/
  textures : s.textures = []
  /-- the vertex stage is drafted -/
  draftVertex : draftStage d s.declarations (s.expand d true).textures .vertex colors .start =
    .ok vertex
  /-- the fragment stage is drafted with the numbers that are left -/
  draftFragment : draftStage d s.declarations (s.expand d true).textures .fragment colors
    vertex.allocator = .ok fragment
  /-- no line has a call -/
  callFree : ∀ line ∈ (vertex.items ++ fragment.items).flatMap Item.lines, CallFree line
  /-- the numbers can be read -/
  fits : ∀ item ∈ vertex.items ++ fragment.items, item.Fits

namespace Session.Drafts

theorem callFree_vertex (h : s.Drafts target.dialect colors vertex fragment) :
    ∀ line ∈ vertex.items.flatMap Item.lines, CallFree line := fun line hline =>
  h.callFree line (by rw [List.flatMap_append]; exact List.mem_append_left _ hline)

theorem callFree_fragment (h : s.Drafts target.dialect colors vertex fragment) :
    ∀ line ∈ fragment.items.flatMap Item.lines, CallFree line := fun line hline =>
  h.callFree line (by rw [List.flatMap_append]; exact List.mem_append_right _ hline)

theorem isReadable (h : s.Drafts target.dialect colors vertex fragment) :
    (∀ item ∈ vertex.items, item.IsReadable true) ∧
      ∀ item ∈ fragment.items, item.IsReadable false := by
  have hfields := isName_of_mem_expand (d := target.dialect) h.names h.textures true
  exact ⟨(draftStage_declarations [] h.draftVertex).1 (isNamed_of_mem_stageEntries h.names hfields),
    (draftStage_declarations [] h.draftFragment).1 (isNamed_of_mem_stageEntries h.names hfields)⟩

/-- **The texts of the program**, for bodies that can be lowered. -/
theorem exists_assembly (h : s.Drafts target.dialect colors vertex fragment)
    (hvertex : lower target.dialect vertexBody.toList = .ok vertexLowered)
    (hfragment : lower target.dialect fragmentBody.toList = .ok fragmentLowered) :
    ∃ vertexText fragmentText : String,
      vertexText.toList = StageSource.stageText target.dialect .vertex
        (!s.declarations.textures.isEmpty) colors vertex.items vertexLowered.text ∧
      fragmentText.toList = StageSource.stageText target.dialect .fragment
        (!s.declarations.textures.isEmpty) colors fragment.items fragmentLowered.text ∧
      s.assembly target.dialect (.graphics vertexBody fragmentBody colors) =
        .ok ⟨.graphics vertexText fragmentText, vertex.items ++ fragment.items⟩ := by
  have hfields := isName_of_mem_expand (d := target.dialect) h.names h.textures true
  obtain ⟨vertexText, hvertexText, hv⟩ :=
    exists_assembleStage h.names hfields h.draftVertex h.callFree_vertex hvertex
  obtain ⟨fragmentText, hfragmentText, hf⟩ :=
    exists_assembleStage h.names hfields h.draftFragment h.callFree_fragment hfragment
  exact ⟨vertexText, fragmentText, hvertexText, hfragmentText,
    assemble_graphics_eq_ok_iff.mpr ⟨_, _, hv, hf, rfl⟩⟩

/-- **What is read of them.** -/
theorem readProgram_eq {t u : Text} {vertexOthers fragmentOthers : List Declaration}
    (h : s.Drafts target.dialect colors vertex fragment) {hasTextures : Bool}
    (hvertex : vertexText.toList =
      StageSource.stageText target.dialect .vertex hasTextures colors vertex.items t)
    (hfragment : fragmentText.toList =
      StageSource.stageText target.dialect .fragment hasTextures colors fragment.items u)
    (ht : IsBalanced t) (hu : IsBalanced u)
    (hvertexOthers : readLines true vertexText.toList (lines t) = .ok vertexOthers)
    (hfragmentOthers : readLines false fragmentText.toList (lines u) = .ok fragmentOthers) :
    readProgram (.graphics vertexText fragmentText) =
      .ok ((vertex.items.filterMap (Item.declaration? true vertexText.toList) ++ vertexOthers) ++
        (fragment.items.filterMap (Item.declaration? false fragmentText.toList) ++
          fragmentOthers)) := by
  have hv := (StageSource.readStage_eq_ok_iff h.isReadable.1 hvertex).mpr
    ⟨ht, fun item hitem => h.fits item (List.mem_append_left _ hitem), _, hvertexOthers, rfl⟩
  have hf := (StageSource.readStage_eq_ok_iff h.isReadable.2 hfragment).mpr
    ⟨hu, fun item hitem => h.fits item (List.mem_append_right _ hitem), _, hfragmentOthers, rfl⟩
  rw [readProgram, hv, hf]
  rfl

end Session.Drafts

/-! ## The first session -/

/-- A session that has declared something. -/
def Session.declaring (decls : Declarations) : Session where
  declarations := decls
  state := .declaring

namespace Workspace

/-- Begin a session and declare something. -/
def declaringRun (slot : Nat) (decls : Declarations) : List Step :=
  [.create slot, .declare slot decls]

/-- **A session in a free slot** is there to be built when it has declared something. -/
theorem session?_declaringRun {w : Workspace} {slot : Nat} (h : w.session? slot = none)
    (decls : Declarations) :
    (w.run (declaringRun slot decls)).session? slot = some (Session.declaring decls) ∧
      (w.run (declaringRun slot decls)).context = w.context := by
  have hclose : (w.close slot).context = w.context := by
    rw [close, release, h]
  have hcreate : (w.create slot).session? slot = some {} := by
    rw [create, session?_setSession, if_pos rfl]
  have hdeclare : (w.create slot).declare slot decls =
      (some (.ok ()), (w.create slot).setSession slot (Session.declaring decls)) := by
    rw [declare, hcreate]
    rfl
  change ((w.create slot).declare slot decls).2.session? slot = _ ∧
    ((w.create slot).declare slot decls).2.context = _
  rw [hdeclare]
  exact ⟨by rw [session?_setSession, if_pos rfl], hclose⟩

section

variable {compiler : Compiler} {decls : Declarations} {bodies : ProgramBodies} {a : Assembly}
  {reflection : Reflection} {elements : Resolved}

/-- The resources of the first session, with a program of its own. -/
def firstResources (a : Assembly) (reflection : Reflection) (elements : Resolved) : Resources where
  program := ⟨0, a.texts, reflection⟩
  elements := elements
  uniformBlocks := a.items.filterMap Item.uniformBlock?

variable (hgraphics : bodies.isGraphics = true)
  (ha : (Session.declaring decls).assembly target.dialect bodies = .ok a)
  (hcompile : compiler.compile a.texts = .ok reflection)
  (hresolve : reflection.resolve (Declared.ofItems a.items) = .ok elements)

include hgraphics ha hcompile hresolve

/-- **The first session is built**, and its program is cached. -/
theorem build_declaringRun :
    ∃ w, ((start target compiler).run (declaringRun 0 decls)).build 0 bodies =
        (some (.ok (firstResources a reflection elements)), w) ∧ w.context.target = target ∧
      w.context.cache.programs = [⟨0, a.texts, reflection⟩] ∧ w.session? 1 = none := by
  have hget : ({ compiler } : Cache).get a.texts = (.ok ⟨0, a.texts, reflection⟩,
      { compiler, programs := [⟨0, a.texts, reflection⟩], handles := [0], compiles := 1 }) := by
    have hfind : ({ compiler } : Cache).find? a.texts.key = none := rfl
    rw [Cache.get, hfind]
    dsimp only
    rw [hcompile]
    rfl
  have hfree : (start target compiler).session? 0 = none := rfl
  obtain ⟨hsession, hcontext⟩ := session?_declaringRun hfree decls
  have hbuild := Session.build_eq (s := Session.declaring decls)
    (c := ⟨target, { compiler }⟩) rfl (.inl hgraphics) ha hget hresolve
  rw [build, hsession, hcontext]
  dsimp only
  rw [start, hbuild]
  exact ⟨_, rfl, rfl, rfl, rfl⟩

end

/-- **A session whose bodies have inert lines only is built**, and its program is made of its own
texts. -/
theorem exists_build_declaringRun {decls : Declarations} {vertexLines fragmentLines : List Text}
    {m n : Nat} (compilerName : String)
    (h : (Session.declaring decls).Drafts target.dialect colors vertex fragment)
    (hvertex : lower target.dialect vertexBody.toList = .ok ⟨unlines vertexLines, m⟩)
    (hfragment : lower target.dialect fragmentBody.toList = .ok ⟨unlines fragmentLines, n⟩)
    (hvertexLines : AreInert vertexLines) (hfragmentLines : AreInert fragmentLines) :
    let w := (start target (readingCompiler compilerName)).run (declaringRun 0 decls)
    ∃ vertexText fragmentText r, w.session? 0 = some (Session.declaring decls) ∧
      vertexText.toList = StageSource.stageText target.dialect .vertex (!decls.textures.isEmpty)
        colors vertex.items (unlines vertexLines) ∧
      (Session.declaring decls).assembly target.dialect
        (.graphics vertexBody fragmentBody colors) =
          .ok ⟨.graphics vertexText fragmentText, vertex.items ++ fragment.items⟩ ∧
      (w.build 0 (.graphics vertexBody fragmentBody colors)).1 = some (.ok r) ∧
      r.program.texts = .graphics vertexText fragmentText := by
  obtain ⟨vertexText, fragmentText, hvertexText, hfragmentText, ha⟩ :=
    h.exists_assembly hvertex hfragment
  have hread := h.readProgram_eq hvertexText hfragmentText hvertexLines.isBalanced
    hfragmentLines.isBalanced (hvertexLines.readLines_lines _ _)
    (hfragmentLines.readLines_lines _ _)
  obtain ⟨elements, helements⟩ := exists_resolve_reflect _ (Declared.ofItems (vertex.items ++
    fragment.items))
  have hcompile : (readingCompiler compilerName).compile (.graphics vertexText fragmentText) =
      .ok (reflect ((_ ++ _) ++ (_ ++ _))) := map_eq_ok.mpr ⟨_, hread, rfl⟩
  obtain ⟨after, hbuild, -⟩ :=
    build_declaringRun rfl ha hcompile helements
  exact ⟨vertexText, fragmentText, _, (session?_declaringRun rfl decls).1, hvertexText, ha,
    congrArg Prod.fst hbuild, rfl⟩

end Workspace

/-! ## What stands in front of a body -/

/-- The lines in front of a body. -/
def headLines (d : Dialect) (stage : Stage) (hasTextures : Bool) (colors : Nat)
    (items : List Item) : List Text :=
  d.preambleLines stage hasTextures colors ++ items.flatMap Item.lines

theorem stageText_eq_append {d : Dialect} {stage : Stage} {hasTextures : Bool} {items : List Item}
    (t : Text) : StageSource.stageText d stage hasTextures colors items t =
      unlines (headLines d stage hasTextures colors items) ++ t := by
  rw [headLines, unlines_append, List.append_assoc]
  rfl

theorem lower_unlines_nil {d : Dialect} {ls : List Text} (h : ∀ line ∈ ls, CallFree line) :
    lower d (unlines ls) = .ok ⟨unlines ls, 0⟩ := by
  have hlower := lower_unlines (d := d) h []
  rw [List.append_nil, lower_nil] at hlower
  rw [hlower]
  simp [Except.map, Lowered.prepend]

section

variable {hasTextures : Bool} {stage : Stage} {items : List Item} {vertexStage : Bool}

theorem isLine_headLines (hitems : ∀ item ∈ items, item.IsReadable vertexStage) :
    ∀ line ∈ headLines target.dialect stage hasTextures colors items, IsLine line := by
  intro line hline
  rcases List.mem_append.mp hline with hline | hline
  · exact (Dialect.preambleLines_spec target stage hasTextures colors line hline).1
  · exact isLine_of_isDeclarationLine (StageSource.isDeclarationLine_of_mem hitems line hline)

theorem callFree_headLines (hfree : ∀ line ∈ items.flatMap Item.lines, CallFree line) :
    ∀ line ∈ headLines target.dialect stage hasTextures colors items, CallFree line := by
  intro line hline
  rcases List.mem_append.mp hline with hline | hline
  · exact (Dialect.preambleLines_spec target stage hasTextures colors line hline).2.2.1
  · exact hfree line hline

theorem isBalanced_headLines (hitems : ∀ item ∈ items, item.IsReadable vertexStage) :
    IsBalanced (unlines (headLines target.dialect stage hasTextures colors items)) := by
  rw [headLines, unlines_append, isBalanced_append (isBalanced_unlines fun line hline =>
    (Dialect.preambleLines_spec target stage hasTextures colors line hline).2.2.2)]
  exact StageSource.isBalanced_declarations hitems

/-- **What stands in front of a body is read** wherever it stands. -/
theorem readLines_headLines_append {source : Text} {rest : List Text} {ds : List Declaration}
    (hitems : ∀ item ∈ items, item.IsReadable vertexStage) :
    readLines vertexStage source
        (headLines target.dialect stage hasTextures colors items ++ rest) = .ok ds ↔
      (∀ item ∈ items, item.Fits) ∧ ∃ others, readLines vertexStage source rest = .ok others ∧
        ds = items.filterMap (Item.declaration? vertexStage source) ++ others := by
  rw [headLines, List.append_assoc, readLines_append_of_idle fun line hline =>
    (Dialect.preambleLines_spec target stage hasTextures colors line hline).2.1]
  exact Item.readLines_eq_ok_iff hitems

theorem readLines_headLines {source : Text} (hitems : ∀ item ∈ items, item.IsReadable vertexStage)
    (hfits : ∀ item ∈ items, item.Fits) :
    readLines vertexStage source (headLines target.dialect stage hasTextures colors items) =
      .ok (items.filterMap (Item.declaration? vertexStage source)) := by
  rw [← List.append_nil (headLines ..)]
  exact (readLines_headLines_append hitems).mpr
    ⟨hfits, [], by rw [readLines], (List.append_nil _).symm⟩

variable {ls : List Text} (hls : AreInert ls)

include hls

/-- Inert lines in front of the lines in front of a body can be lowered. -/
theorem lower_inert_headLines (hfree : ∀ line ∈ items.flatMap Item.lines, CallFree line) :
    lower target.dialect
        (unlines (ls ++ headLines target.dialect stage hasTextures colors items)) =
      .ok ⟨unlines (ls ++ headLines target.dialect stage hasTextures colors items), 0⟩ :=
  lower_unlines_nil fun line hline =>
    (List.mem_append.mp hline).elim (hls.callFree line) (callFree_headLines hfree line)

theorem isBalanced_inert_headLines (hitems : ∀ item ∈ items, item.IsReadable vertexStage) :
    IsBalanced (unlines (ls ++ headLines target.dialect stage hasTextures colors items)) := by
  rw [unlines_append, isBalanced_append hls.isBalanced]
  exact isBalanced_headLines hitems

/-- They declare what the lines in front of the body declare. -/
theorem readLines_inert_headLines {source : Text}
    (hitems : ∀ item ∈ items, item.IsReadable vertexStage) (hfits : ∀ item ∈ items, item.Fits) :
    readLines vertexStage source
        (lines (unlines (ls ++ headLines target.dialect stage hasTextures colors items))) =
      .ok (items.filterMap (Item.declaration? vertexStage source)) := by
  have hline : ∀ line ∈ ls ++ headLines target.dialect stage hasTextures colors items,
      IsLine line := fun line hline =>
    (List.mem_append.mp hline).elim (hls.isLine line) (isLine_headLines hitems line)
  have hlines := lines_unlines_append (t := []) hline
  rw [List.append_nil, lines_nil, List.append_nil] at hlines
  rw [hlines, hls.read]
  exact readLines_headLines hitems hfits

end

/-! ## The second session -/

/-- A target whose texts fix no binding and no location. -/
def desktopTarget : Target where
  api := .openGl
  version := 330

/-- What stands in front of a fragment body there if no texture is declared. -/
def colorHead : String := "#version 330\n\nout vec4 ngl_out_color;\n"

theorem toList_colorHead :
    colorHead.toList =
      unlines (headLines desktopTarget.dialect .fragment false 1 [.colorOutput none 1]) := by
  decide +kernel

/-- What stands in front of a fragment body declares nothing in another body either. -/
theorem AreInert.readsNothing_colorHead {ls : List Text} {body : String} {n : Nat}
    (h : AreInert ls) (hlower : lower desktopTarget.dialect body.toList = .ok ⟨unlines ls, n⟩) :
    ReadsNothing desktopTarget.dialect (colorHead ++ body) := by
  have hfree : ∀ line ∈ headLines desktopTarget.dialect .fragment false 1 [.colorOutput none 1],
      CallFree line := by
    decide +kernel
  intro lowered vertex source ds hl hds
  have hreadable : ∀ item ∈ [Item.colorOutput none 1], item.IsReadable vertex :=
    fun item hitem => List.mem_singleton.mp hitem ▸ trivial
  rw [String.toList_append, toList_colorHead, lower_unlines hfree, hlower] at hl
  obtain rfl := Except.ok.inj hl
  have hlines : lines (unlines (headLines desktopTarget.dialect .fragment false 1
      [.colorOutput none 1]) ++ unlines ls) =
        headLines desktopTarget.dialect .fragment false 1 [.colorOutput none 1] ++
          lines (unlines ls) :=
    lines_unlines_append (isLine_headLines hreadable)
  change readLines vertex source (lines (_ ++ _)) = .ok ds at hds
  rw [hlines, readLines_headLines_append hreadable] at hds
  obtain ⟨-, others, hothers, rfl⟩ := hds
  rw [h.readLines_lines] at hothers
  cases hothers
  rfl

namespace Workspace

/-- Two sessions that declare the same, and the first of them is built. -/
def splitRun (decls : Declarations) (first : ProgramBodies) : List Step :=
  declaringRun 0 decls ++ .build 0 first :: declaringRun 1 decls

variable {decls : Declarations} {ls : List Text} {t : Text} {n : Nat}

/-- A program that is cached is handed out for other texts with its key. -/
theorem get_of_programs {cache : Cache} {p : Program} {texts : StageTexts}
    (h : cache.programs = [p]) (hkey : p.key = texts.key) : (cache.get texts).1 = .ok p := by
  have hfind : cache.find? texts.key = some p := by
    rw [Cache.find?, h]
    exact List.find?_cons_of_pos (decide_eq_true hkey)
  rcases cache.get_cases texts with ⟨q, hq, he⟩ | ⟨hnone, -⟩ | ⟨hnone, -⟩
  · obtain rfl := Option.some.inj (hq.symm.trans hfind)
    rw [he]
  · cases hfind.symm.trans hnone
  · cases hfind.symm.trans hnone

/-- **A session whose texts have the key of the cached program gets it**, and is resolved against
it. -/
theorem exists_build_of_programs {w : Workspace} {p : Program} {bodies : ProgramBodies}
    {a : Assembly} {elements : Resolved} (htarget : w.context.target = target)
    (hprograms : w.context.cache.programs = [p]) (hnone : w.session? 1 = none)
    (hgraphics : bodies.isGraphics = true)
    (ha : (Session.declaring decls).assembly target.dialect bodies = .ok a)
    (hkey : p.key = a.texts.key)
    (hresolve : p.reflection.resolve (Declared.ofItems a.items) = .ok elements) :
    ∃ r, (w.run (declaringRun 1 decls)).session? 1 = some (Session.declaring decls) ∧
      ((w.run (declaringRun 1 decls)).build 1 bodies).1 = some (.ok r) ∧ r.program = p ∧
      r.elements = elements := by
  obtain ⟨hsession, hcontext⟩ := session?_declaringRun hnone decls
  have hget : (w.context.cache.get a.texts).1 = .ok p := get_of_programs hprograms hkey
  have hdialect : w.context.dialect = target.dialect := by
    rw [Context.dialect, htarget]
  rw [← hdialect] at ha
  have hbuilt : ((Session.declaring decls).build w.context bodies).1 = .ok ⟨p, elements, _⟩ :=
    Session.build_eq_ok_iff.mpr ⟨rfl, .inl hgraphics, a, ha, hget, hresolve, rfl⟩
  rw [← hcontext] at hbuilt
  exact ⟨_, hsession, build_eq_ok_iff.mpr ⟨_, hsession, hbuilt⟩, rfl, rfl⟩

/-- **A second session gets the program of the first** if its texts have the same key: what it
declares is resolved against what was read in the first program. -/
theorem exists_build_second {first second : Declarations} {firstBodies bodies : ProgramBodies}
    {a b : Assembly} {ds : List Declaration} (hfirst : firstBodies.isGraphics = true)
    (hsecond : bodies.isGraphics = true)
    (ha : (Session.declaring first).assembly target.dialect firstBodies = .ok a)
    (hread : readProgram a.texts = .ok ds)
    (hb : (Session.declaring second).assembly target.dialect bodies = .ok b)
    (hkey : a.texts.key = b.texts.key) (compilerName : String) :
    let w := (start target (readingCompiler compilerName)).run
      (declaringRun 0 first ++ .build 0 firstBodies :: declaringRun 1 second)
    ∃ r, w.session? 1 = some (Session.declaring second) ∧ (w.build 1 bodies).1 = some (.ok r) ∧
      r.program.texts = a.texts ∧
      (reflect ds).resolve (Declared.ofItems b.items) = .ok r.elements := by
  intro w
  have hcompile : (readingCompiler compilerName).compile a.texts = .ok (reflect ds) :=
    map_eq_ok.mpr ⟨_, hread, rfl⟩
  obtain ⟨own, hown⟩ := exists_resolve_reflect ds (Declared.ofItems a.items)
  obtain ⟨elements, helements⟩ := exists_resolve_reflect ds (Declared.ofItems b.items)
  obtain ⟨built, hbuild, htarget, hprograms, hfree⟩ := build_declaringRun hfirst ha hcompile hown
  have hw : w = built.run (declaringRun 1 second) := by
    change (((start target _).run (_ ++ _ :: _)) : Workspace) = _
    rw [run, List.foldl_append, List.foldl_cons, ← run, ← run, act, hbuild]
  obtain ⟨r, hsession, hbuilt, hprogram, hresolved⟩ :=
    exists_build_of_programs htarget hprograms hfree hsecond hb hkey helements
  rw [← hw] at hsession hbuilt
  exact ⟨r, hsession, hbuilt, by rw [hprogram], by rw [hresolved]; exact helements⟩

section

variable {head middle body : String}
  (h : (Session.declaring decls).Drafts target.dialect colors vertex fragment)
  (hhead : head.toList = unlines (headLines target.dialect .fragment (!decls.textures.isEmpty)
    colors fragment.items))
  (hls : AreInert ls) (hmiddle : middle.toList = unlines ls)

include h hhead hls hmiddle

/-- **The first program** has the lines in its fragment stage, and then once more what stands in
front of the body. -/
theorem exists_firstProgram :
    ∃ vertexText fragmentText : String,
      vertexText.toList = StageSource.stageText target.dialect .vertex (!decls.textures.isEmpty)
        colors vertex.items [] ∧
      fragmentText.toList = StageSource.stageText target.dialect .fragment
        (!decls.textures.isEmpty) colors fragment.items (middle ++ head).toList ∧
      (Session.declaring decls).assembly target.dialect (.graphics "" (middle ++ head) colors) =
        .ok ⟨.graphics vertexText fragmentText, vertex.items ++ fragment.items⟩ ∧
      readProgram (.graphics vertexText fragmentText) =
        .ok (vertex.items.filterMap (Item.declaration? true vertexText.toList) ++
          (fragment.items.filterMap (Item.declaration? false fragmentText.toList) ++
            fragment.items.filterMap (Item.declaration? false fragmentText.toList))) := by
  have hreadable := h.isReadable.2
  have hfits : ∀ item ∈ fragment.items, item.Fits := fun item hitem =>
    h.fits item (List.mem_append_right _ hitem)
  have hbody : (middle ++ head).toList = unlines (ls ++ headLines target.dialect .fragment
      (!decls.textures.isEmpty) colors fragment.items) := by
    rw [String.toList_append, hmiddle, hhead, unlines_append]
  have hlower : lower target.dialect (middle ++ head).toList =
      .ok ⟨(middle ++ head).toList, 0⟩ := by
    rw [hbody]
    exact lower_inert_headLines hls h.callFree_fragment
  have hempty : lower target.dialect "".toList = .ok ⟨[], 0⟩ := lower_nil
  obtain ⟨vertexText, fragmentText, hvertexText, hfragmentText, hassembly⟩ :=
    h.exists_assembly hempty hlower
  have hbalanced : IsBalanced (middle ++ head).toList := by
    rw [hbody]
    exact isBalanced_inert_headLines hls hreadable
  have hnone : readLines true vertexText.toList (lines []) = .ok [] := by
    rw [lines_nil, readLines]
  have hothers : readLines false fragmentText.toList (lines (middle ++ head).toList) =
      .ok (fragment.items.filterMap (Item.declaration? false fragmentText.toList)) := by
    rw [hbody]
    exact readLines_inert_headLines hls hreadable hfits
  have hread := h.readProgram_eq hvertexText hfragmentText isBalanced_nil hbalanced hnone hothers
  rw [List.append_nil] at hread
  exact ⟨vertexText, fragmentText, hvertexText, hfragmentText, hassembly, hread⟩

omit hls hmiddle in
/-- **The second session has the same text**: its vertex text goes on where the fragment text of the
first program begins. -/
theorem exists_secondAssembly
    (hbody : lower target.dialect body.toList = .ok ⟨middle.toList, n⟩)
    (hvertexText : vertexText.toList = StageSource.stageText target.dialect .vertex
      (!decls.textures.isEmpty) colors vertex.items [])
    (hfragmentText : fragmentText.toList = StageSource.stageText target.dialect .fragment
      (!decls.textures.isEmpty) colors fragment.items (middle ++ head).toList) :
    ∃ ownVertex ownFragment : String,
      ownVertex.toList = StageSource.stageText target.dialect .vertex (!decls.textures.isEmpty)
        colors vertex.items (head ++ middle).toList ∧
      (Session.declaring decls).assembly target.dialect (.graphics (head ++ body) "" colors) =
        .ok ⟨.graphics ownVertex ownFragment, vertex.items ++ fragment.items⟩ ∧
      (StageTexts.graphics vertexText fragmentText).key =
        (StageTexts.graphics ownVertex ownFragment).key := by
  have hlower : lower target.dialect (head ++ body).toList = .ok ⟨(head ++ middle).toList, n⟩ := by
    rw [String.toList_append, hhead, lower_unlines (callFree_headLines h.callFree_fragment), hbody,
      String.toList_append, hhead]
    rfl
  have hempty : lower target.dialect "".toList = .ok ⟨[], 0⟩ := lower_nil
  obtain ⟨ownVertex, ownFragment, hownVertex, hownFragment, hassembly⟩ :=
    h.exists_assembly hlower hempty
  refine ⟨ownVertex, ownFragment, hownVertex, hassembly, ?_⟩
  rw [StageTexts.key, StageTexts.key, ← String.toList_inj, String.toList_append,
    String.toList_append, hvertexText, hfragmentText, hownVertex, hownFragment]
  simp [stageText_eq_append, Session.declaring, hhead]

/-- **The second session gets the program of the first**: what it declares is resolved against what
was read there. -/
theorem exists_build_splitRun (compilerName : String)
    (hbody : lower target.dialect body.toList = .ok ⟨middle.toList, n⟩) :
    let w := (start target (readingCompiler compilerName)).run
      (splitRun decls (.graphics "" (middle ++ head) colors))
    ∃ ownVertex ownFragment vertexText fragmentText r,
      (Session.declaring decls).assembly target.dialect (.graphics (head ++ body) "" colors) =
        .ok ⟨.graphics ownVertex ownFragment, vertex.items ++ fragment.items⟩ ∧
      ownVertex.toList = StageSource.stageText target.dialect .vertex (!decls.textures.isEmpty)
        colors vertex.items (head ++ middle).toList ∧
      vertexText.toList = StageSource.stageText target.dialect .vertex (!decls.textures.isEmpty)
        colors vertex.items [] ∧
      w.session? 1 = some (Session.declaring decls) ∧
      (w.build 1 (.graphics (head ++ body) "" colors)).1 = some (.ok r) ∧
      r.program.texts = .graphics vertexText fragmentText ∧
      (reflect (vertex.items.filterMap (Item.declaration? true vertexText.toList) ++
          (fragment.items.filterMap (Item.declaration? false fragmentText.toList) ++
            fragment.items.filterMap (Item.declaration? false fragmentText.toList)))).resolve
        (Declared.ofItems (vertex.items ++ fragment.items)) = .ok r.elements := by
  intro w
  obtain ⟨vertexText, fragmentText, hvertexText, hfragmentText, hassembly, hread⟩ :=
    exists_firstProgram h hhead hls hmiddle
  obtain ⟨ownVertex, ownFragment, hownVertex, hownAssembly, hkey⟩ :=
    exists_secondAssembly h hhead hbody hvertexText hfragmentText
  obtain ⟨r, hsession, hbuild, htexts, helements⟩ :=
    exists_build_second rfl rfl hassembly hread hownAssembly hkey compilerName
  exact ⟨ownVertex, ownFragment, vertexText, fragmentText, r, hownAssembly, hownVertex,
    hvertexText, hsession, hbuild, htexts, helements⟩

end

end Workspace

end ShaderLoom
