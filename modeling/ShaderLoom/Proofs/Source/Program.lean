import ShaderLoom.Proofs.Source.Pool
import ShaderLoom.Resolution

/-!
# The stages of a program

An assembled program consists of stages (`Assembly.HasStage`): a stage is assembled from its own
body with the numbers that are left, its text is the text of the program for that stage, and its
items are among the items of the program. The consolidated blocks of a stage are declared there and
nowhere else (**`exists_hasStage_uniformBlocksOf`**).
-/

namespace ShaderLoom

open Text Reading

variable {d : Dialect} {decls : Declarations} {textures : List ExpandedTexture}
  {bodies : ProgramBodies} {program : Assembly} {stage : Stage} {item : Item}
  {finished : FinishedStage}

/-- The body of a stage, if the program has that stage. -/
def ProgramBodies.body? : ProgramBodies → Stage → Option String
  | .graphics vertex _ _, .vertex => some vertex
  | .graphics _ fragment _, .fragment => some fragment
  | .compute body, .compute => some body
  | _, _ => none

/-- A stage of an assembled program. -/
structure Assembly.HasStage (d : Dialect) (decls : Declarations) (textures : List ExpandedTexture)
    (bodies : ProgramBodies) (program : Assembly) (stage : Stage) (finished : FinishedStage) :
    Prop where
  /-- the stage is assembled from its body -/
  assembled : ∃ colors body a, bodies.body? stage = some body ∧
    assembleStage d decls textures stage colors body a = .ok finished
  /-- the text of the stage is in the program -/
  text : program.texts.text? stage = some finished.text
  /-- and so are its items, next to each other -/
  items : finished.items <:+: program.items

theorem assemble_graphics_eq_ok_iff {vertexBody fragmentBody : String} {colors : Nat} :
    assemble d decls textures (.graphics vertexBody fragmentBody colors) = .ok program ↔
      ∃ vertex fragment,
        assembleStage d decls textures .vertex colors vertexBody .start = .ok vertex ∧
        assembleStage d decls textures .fragment colors fragmentBody vertex.allocator =
          .ok fragment ∧
        ⟨.graphics vertex.text fragment.text, vertex.items ++ fragment.items⟩ = program := by
  simp only [assemble, bind_eq_ok, pure_eq_ok]
  constructor
  · rintro ⟨vertex, hvertex, fragment, hfragment, h⟩
    exact ⟨vertex, fragment, hvertex, hfragment, h⟩
  · rintro ⟨vertex, fragment, hvertex, hfragment, h⟩
    exact ⟨vertex, hvertex, fragment, hfragment, h⟩

theorem assemble_compute_eq_ok_iff {body : String} :
    assemble d decls textures (.compute body) = .ok program ↔
      ∃ stage, assembleStage d decls textures .compute 0 body .start = .ok stage ∧
        ⟨.compute stage.text, stage.items⟩ = program := by
  simp only [assemble, bind_eq_ok, pure_eq_ok]

/-- **Every item of a program** stands in a stage. -/
theorem exists_hasStage_of_mem (h : assemble d decls textures bodies = .ok program)
    (hitem : item ∈ program.items) :
    ∃ stage finished, program.HasStage d decls textures bodies stage finished ∧
      item ∈ finished.items := by
  cases bodies with
  | graphics vertexBody fragmentBody colors =>
    obtain ⟨vertex, fragment, hvertex, hfragment, rfl⟩ := assemble_graphics_eq_ok_iff.mp h
    rcases List.mem_append.mp hitem with hitem | hitem
    · exact ⟨.vertex, vertex, ⟨⟨colors, vertexBody, _, rfl, hvertex⟩, rfl,
        (List.prefix_append _ _).isInfix⟩, hitem⟩
    · exact ⟨.fragment, fragment, ⟨⟨colors, fragmentBody, _, rfl, hfragment⟩, rfl,
        (List.suffix_append _ _).isInfix⟩, hitem⟩
  | compute body =>
    obtain ⟨compute, hcompute, rfl⟩ := assemble_compute_eq_ok_iff.mp h
    exact ⟨.compute, compute, ⟨⟨0, body, _, rfl, hcompute⟩, rfl, List.infix_rfl⟩, hitem⟩

/-! ## Consolidated blocks -/

/-- The consolidated blocks of a stage, among those that all stages declare. -/
def uniformBlocksOf (items : List Item) (stage : Stage) : List UniformBlock :=
  (items.filterMap Item.uniformBlock?).filter (·.stage = stage)

theorem uniformBlock?_eq_head? (items : List Item) (stage : Stage) :
    uniformBlock? (items.filterMap Item.uniformBlock?) stage =
      (uniformBlocksOf items stage).head? :=
  List.head?_filter.symm

theorem uniformBlocksOf_append (front back : List Item) (stage : Stage) :
    uniformBlocksOf (front ++ back) stage =
      uniformBlocksOf front stage ++ uniformBlocksOf back stage := by
  rw [uniformBlocksOf, List.filterMap_append, List.filter_append, uniformBlocksOf, uniformBlocksOf]

/-- A stage declares no consolidated block but its own, and at most one. -/
theorem uniformBlocksOf_assembleStage {colors : Nat} {body : String} {a : Allocator}
    (h : assembleStage d decls textures stage colors body a = .ok finished) :
    (uniformBlocksOf finished.items stage = [] ∨
        ∃ u, uniformBlocksOf finished.items stage = [u] ∧ u.stage = stage) ∧
      ∀ other, other ≠ stage → uniformBlocksOf finished.items other = [] := by
  obtain ⟨draft, hdraft, -, hitems, -⟩ := assembleStage_eq_ok h
  simp only [uniformBlocksOf, hitems]
  rcases draftStage_uniformBlocks hdraft with hnone | ⟨u, hu, rfl⟩
  · rw [hnone]
    exact ⟨.inl rfl, fun _ _ => rfl⟩
  · rw [hu]
    exact ⟨.inr ⟨u, by simp, rfl⟩, fun other hne => by simp [hne.symm]⟩

/-- **A stage with a body** is a stage of the program, and no other stage declares a consolidated
block of it. -/
theorem exists_hasStage_uniformBlocksOf {body : String}
    (h : assemble d decls textures bodies = .ok program) (hbody : bodies.body? stage = some body) :
    ∃ finished, program.HasStage d decls textures bodies stage finished ∧
      uniformBlocksOf program.items stage = uniformBlocksOf finished.items stage := by
  cases bodies with
  | graphics vertexBody fragmentBody colors =>
    obtain ⟨vertex, fragment, hvertex, hfragment, rfl⟩ := assemble_graphics_eq_ok_iff.mp h
    cases stage with
    | vertex =>
      refine ⟨vertex, ⟨⟨colors, vertexBody, _, rfl, hvertex⟩, rfl,
        (List.prefix_append _ _).isInfix⟩, ?_⟩
      rw [uniformBlocksOf_append, (uniformBlocksOf_assembleStage hfragment).2 .vertex (by decide),
        List.append_nil]
    | fragment =>
      refine ⟨fragment, ⟨⟨colors, fragmentBody, _, rfl, hfragment⟩, rfl,
        (List.suffix_append _ _).isInfix⟩, ?_⟩
      rw [uniformBlocksOf_append, (uniformBlocksOf_assembleStage hvertex).2 .fragment (by decide),
        List.nil_append]
    | compute => cases hbody
  | compute body =>
    obtain ⟨compute, hcompute, rfl⟩ := assemble_compute_eq_ok_iff.mp h
    cases stage with
    | compute => exact ⟨compute, ⟨⟨0, body, _, rfl, hcompute⟩, rfl, List.infix_rfl⟩, rfl⟩
    | vertex | fragment => cases hbody

theorem exists_hasStage_of_body? {body : String}
    (h : assemble d decls textures bodies = .ok program) (hbody : bodies.body? stage = some body) :
    ∃ finished, program.HasStage d decls textures bodies stage finished := by
  obtain ⟨finished, hstage, -⟩ := exists_hasStage_uniformBlocksOf h hbody
  exact ⟨finished, hstage⟩

/-- **The consolidated block of a stage** is found by the stage. -/
theorem uniformBlock?_of_mem {u : UniformBlock}
    (h : assemble d decls textures bodies = .ok program)
    (hu : u ∈ program.items.filterMap Item.uniformBlock?) :
    uniformBlock? (program.items.filterMap Item.uniformBlock?) u.stage = some u := by
  have hown : u ∈ uniformBlocksOf program.items u.stage :=
    List.mem_filter.mpr ⟨hu, decide_eq_true rfl⟩
  obtain ⟨item, hitem, hblock⟩ := List.mem_filterMap.mp hu
  obtain ⟨stage, finished, hstage, hitem⟩ := exists_hasStage_of_mem h hitem
  obtain ⟨colors, body, a, hbody, hassembled⟩ := hstage.assembled
  -- the block stands in its own stage
  obtain rfl : u.stage = stage := by
    by_contra hne
    have hnone := (uniformBlocksOf_assembleStage hassembled).2 u.stage hne
    have hmem : u ∈ uniformBlocksOf finished.items u.stage :=
      List.mem_filter.mpr ⟨List.mem_filterMap.mpr ⟨item, hitem, hblock⟩, decide_eq_true rfl⟩
    rw [hnone] at hmem
    cases hmem
  obtain ⟨own, hown', hblocks⟩ := exists_hasStage_uniformBlocksOf h hbody
  obtain ⟨_, _, _, _, hassembled'⟩ := hown'.assembled
  rw [uniformBlock?_eq_head?, hblocks]
  rw [hblocks] at hown
  rcases (uniformBlocksOf_assembleStage hassembled').1 with hnone | ⟨v, hv, -⟩
  · rw [hnone] at hown
    cases hown
  · rw [hv] at hown ⊢
    rw [List.mem_singleton.mp hown]
    rfl

/-! ## What is read of a program -/

/-- What is read of a program is what is read of its stages. -/
theorem readStage_of_readProgram {texts : StageTexts} {text : String} {ds : List Declaration}
    (h : readProgram texts = .ok ds) (htext : texts.text? stage = some text) :
    ∃ own, readStage (decide (stage = .vertex)) text.toList = .ok own ∧ own <:+: ds := by
  cases texts with
  | graphics vertex fragment =>
    obtain ⟨v, hv, f, hf, rfl⟩ :
        ∃ v, readStage true vertex.toList = .ok v ∧
          ∃ f, readStage false fragment.toList = .ok f ∧ v ++ f = ds := by
      simpa only [readProgram, bind_eq_ok, pure_eq_ok] using h
    cases stage with
    | vertex =>
      cases htext
      exact ⟨v, hv, (List.prefix_append _ _).isInfix⟩
    | fragment =>
      cases htext
      exact ⟨f, hf, (List.suffix_append _ _).isInfix⟩
    | compute => cases htext
  | compute compute =>
    cases stage with
    | compute =>
      cases htext
      exact ⟨ds, h, List.infix_rfl⟩
    | vertex | fragment => cases htext

/-- What is read of a program is read of one of its stages. -/
theorem exists_readStage_of_mem {texts : StageTexts} {ds : List Declaration} {x : Declaration}
    (h : readProgram texts = .ok ds) (hx : x ∈ ds) :
    ∃ stage text own, texts.text? stage = some text ∧
      readStage (decide (stage = .vertex)) text.toList = .ok own ∧ x ∈ own := by
  cases texts with
  | graphics vertex fragment =>
    obtain ⟨v, hv, f, hf, rfl⟩ :
        ∃ v, readStage true vertex.toList = .ok v ∧
          ∃ f, readStage false fragment.toList = .ok f ∧ v ++ f = ds := by
      simpa only [readProgram, bind_eq_ok, pure_eq_ok] using h
    rcases List.mem_append.mp hx with hx | hx
    · exact ⟨.vertex, vertex, v, rfl, hv, hx⟩
    · exact ⟨.fragment, fragment, f, rfl, hf, hx⟩
  | compute text => exact ⟨.compute, text, ds, rfl, h, hx⟩

/-- A text of a program is the text of one of its stages. -/
theorem exists_hasStage_of_text? {text : String}
    (h : assemble d decls textures bodies = .ok program)
    (htext : program.texts.text? stage = some text) :
    ∃ finished, program.HasStage d decls textures bodies stage finished ∧ finished.text = text := by
  have hbody : ∃ body, bodies.body? stage = some body := by
    cases bodies with
    | graphics vertexBody fragmentBody colors =>
      obtain ⟨vertex, fragment, -, -, rfl⟩ := assemble_graphics_eq_ok_iff.mp h
      cases stage with
      | vertex | fragment => exact ⟨_, rfl⟩
      | compute => cases htext
    | compute body =>
      obtain ⟨compute, -, rfl⟩ := assemble_compute_eq_ok_iff.mp h
      cases stage with
      | vertex | fragment => cases htext
      | compute => exact ⟨_, rfl⟩
  obtain ⟨body, hbody⟩ := hbody
  obtain ⟨finished, hstage⟩ := exists_hasStage_of_body? h hbody
  exact ⟨finished, hstage, Option.some.inj (hstage.text.symm.trans htext)⟩

/-- **What is read of a program** is what an item of a stage declares, or what the body of a stage
does. -/
theorem exists_stage_of_mem_readProgram {target : Target} {ds : List Declaration} {x : Declaration}
    (h : assemble target.dialect decls textures bodies = .ok program) (hnames : decls.IsNamed)
    (hfields : ∀ t ∈ textures, ∀ f ∈ t.fields, IsName f.name.toList)
    (hread : readProgram program.texts = .ok ds) (hx : x ∈ ds) :
    ∃ stage finished body lowered others,
      program.HasStage target.dialect decls textures bodies stage finished ∧
      bodies.body? stage = some body ∧ lower target.dialect body.toList = .ok lowered ∧
      readLines (decide (stage = .vertex)) finished.text.toList (lines lowered.text) =
        .ok others ∧
      (x ∈ finished.items.filterMap
          (Item.declaration? (decide (stage = .vertex)) finished.text.toList) ∨ x ∈ others) := by
  obtain ⟨stage, text, own, htext, hown, hx⟩ := exists_readStage_of_mem hread hx
  obtain ⟨finished, hstage, rfl⟩ := exists_hasStage_of_text? h htext
  obtain ⟨colors, body, a, hbody, hassembled⟩ := hstage.assembled
  obtain ⟨lowered, others, hlower, hothers, rfl⟩ :=
    exists_readLines_of_assembleStage hnames hfields hassembled hown
  exact ⟨stage, finished, body, lowered, others, hstage, hbody, hlower, hothers,
    List.mem_append.mp hx⟩

/-- **What an item declares is read** in the texts of the program. -/
theorem Assembly.HasStage.mem_of_declaration? {target : Target} {ds : List Declaration}
    {x : Declaration} (h : program.HasStage target.dialect decls textures bodies stage finished)
    (hnames : decls.IsNamed) (hfields : ∀ t ∈ textures, ∀ f ∈ t.fields, IsName f.name.toList)
    (hread : readProgram program.texts = .ok ds) (hitem : item ∈ finished.items)
    (hx : item.declaration? (decide (stage = .vertex)) finished.text.toList = some x) : x ∈ ds := by
  obtain ⟨colors, body, a, -, hassembled⟩ := h.assembled
  obtain ⟨all, hall, hpart⟩ := readStage_of_readProgram hread h.text
  obtain ⟨lowered, others, -, -, rfl⟩ :=
    exists_readLines_of_assembleStage hnames hfields hassembled hall
  exact hpart.subset (List.mem_append_left _ (List.mem_filterMap.mpr ⟨item, hitem, hx⟩))

end ShaderLoom
