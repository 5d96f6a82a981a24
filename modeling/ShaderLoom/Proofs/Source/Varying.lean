import Mathlib.Algebra.GroupWithZero.Nat
import ShaderLoom.Proofs.Source.Attribute
import ShaderLoom.Proofs.Source.CallFree

/-!
# The interface between the stages

Both stages of a graphics program declare the variables between them, one line for each and in the
order of the declarations. The vertex stage numbers them as its outputs and the fragment stage as its
inputs; attributes and color outputs are numbered by the other two counters. So where locations are
fixed, a variable has the same one in both texts: the number of locations that the variables in
front of it take up (**`assemble_varyings`**).
-/

namespace ShaderLoom

open Text Reading

variable {d : Dialect} {stage : Stage} {draft draft' : Draft} {decls : Declarations}
  {textures : List ExpandedTexture} {colors : Nat} {a a' : Allocator} {item : Item}
  {entry : StageEntry} {entries : List StageEntry}

/-! ## Lines of variables -/

/-- The location of the variable at a position: those below belong to the variables in front of
it. -/
def varyingLocation (d : Dialect) (vs : List VaryingDecl) (position : Nat) : Option Nat :=
  if d.hasExplicitLocations then some ((vs.take position).map (·.ty.locations)).sum else none

/-- The line that declares a variable. -/
def varyingLine (qualifier : String) (location : Option Nat) (v : VaryingDecl) : String :=
  let layout := match location with
    | none => ""
    | some n => s!"layout(location={n}) "
  s!"{layout}{qualifier} {v.ty.keyword} {v.name};"

/-- The lines of the variables stand in a text, in order and next to each other. -/
def DeclaresVaryings (d : Dialect) (vs : List VaryingDecl) (qualifier : String) (text : Text) :
    Prop :=
  ∃ front back, text = unlines front ++
    (unlines (vs.mapIdx fun i v => (varyingLine qualifier (varyingLocation d vs i) v).toList) ++
      back)

theorem Item.lines_varying (qualifier : String) (location : Option Nat) (v : VaryingDecl) :
    (Item.varying qualifier location v).lines = [(varyingLine qualifier location v).toList] := by
  have hlayout : (match location with
      | none => ""
      | some n => s!"layout(location={n}) ") = locationLayout location := by
    cases location <;> rfl
  rw [lines, ← locationLayout_append]
  unfold varyingLine
  rw [hlayout]
  simp [joinWords_cons_cons, nameWord, toString_string]

/-! ## Drafting the variables -/

/-- The next location for a variable. -/
def Draft.nextVarying (stage : Stage) (draft : Draft) : Nat :=
  if stage = .vertex then draft.allocator.outputs stage else draft.allocator.inputs stage

/-- A variable takes the next locations. -/
theorem Draft.addVarying_spec (d : Dialect) (stage : Stage) (draft : Draft) (v : VaryingDecl) :
    (draft.addVarying d stage v).items = draft.items ++
        [.varying (d.varyingQualifier stage)
          (if d.hasExplicitLocations then some (draft.nextVarying stage) else none) v] ∧
      (d.hasExplicitLocations = true →
        (draft.addVarying d stage v).nextVarying stage =
          draft.nextVarying stage + v.ty.locations) := by
  rw [addVarying]
  by_cases hstage : stage = .vertex
  · simp only [nextVarying, if_pos hstage, Allocator.output]
    cases d.hasExplicitLocations with
    | false => exact ⟨rfl, fun h => by cases h⟩
    | true => exact ⟨rfl, fun _ => if_pos rfl⟩
  · simp only [nextVarying, if_neg hstage, Allocator.input]
    cases d.hasExplicitLocations with
    | false => exact ⟨rfl, fun h => by cases h⟩
    | true => exact ⟨rfl, fun _ => if_pos rfl⟩

/-- **The variables of a stage** are numbered one behind the other. -/
theorem Draft.items_foldl_addVarying (d : Dialect) (stage : Stage) (vs : List VaryingDecl)
    (draft : Draft) :
    (vs.foldl (Draft.addVarying d stage) draft).items = draft.items ++
      vs.mapIdx fun i v => .varying (d.varyingQualifier stage)
        (if d.hasExplicitLocations then
          some (draft.nextVarying stage + ((vs.take i).map (·.ty.locations)).sum) else none) v := by
  induction vs generalizing draft with
  | nil => simp
  | cons v vs ih =>
    obtain ⟨hitems, hnext⟩ := draft.addVarying_spec d stage v
    rw [List.foldl_cons, ih, hitems, List.append_assoc, List.mapIdx_cons]
    refine congrArg (draft.items ++ ·) (congrArg₂ List.cons rfl (congrArg (List.mapIdx · vs) ?_))
    funext i w
    cases hexplicit : d.hasExplicitLocations with
    | false => rfl
    | true =>
      rw [hnext hexplicit, List.take_succ_cons, List.map_cons, List.sum_cons, Nat.add_assoc]

/-- Adding an entry keeps the items that are there. -/
theorem Draft.items_prefix_of_add (h : draft.add d stage entry = .ok draft') :
    draft.items <+: draft'.items := by
  cases Draft.adds_of_add h with
  | item hyields => exact List.prefix_append _ _
  | pooled => exact List.prefix_refl _
  | nothing => exact List.prefix_refl _

/-- The draft of a stage behind its variables. -/
def Draft.opened (d : Dialect) (decls : Declarations) (stage : Stage) (colors : Nat)
    (a : Allocator) : Draft :=
  let draft := Draft.start a
  let draft := if stage = .fragment then draft.addColorOutput d colors else draft
  decls.varyings.foldl (Draft.addVarying d stage) draft

/-- **A stage of a graphics program begins with its variables.** -/
theorem items_prefix_of_draftStage (hstage : stage ≠ .compute)
    (h : draftStage d decls textures stage colors a = .ok draft) :
    (Draft.opened d decls stage colors a).items <+: draft.items := by
  obtain ⟨rest, hrest⟩ : ∃ rest, stageEntries decls textures stage colors =
      ((if stage = .fragment then [StageEntry.colorOutput colors] else []) ++
        decls.varyings.map StageEntry.varying) ++ rest := by
    rw [stageEntries, if_neg hstage]
    simp only [List.append_assoc]
    exact ⟨_, rfl⟩
  have hopened : ((if stage = .fragment then [StageEntry.colorOutput colors] else []) ++
      decls.varyings.map StageEntry.varying).foldlM (Draft.add d stage) (Draft.start a) =
        .ok (Draft.opened d decls stage colors a) := by
    rw [List.foldlM_append, Draft.foldlM_add_outputs]
    exact Draft.foldlM_add_map (fun _ _ => rfl) decls.varyings _
  rw [draftStage_eq, hrest, List.foldlM_append, hopened] at h
  obtain ⟨last, hlast, hclose⟩ := bind_eq_ok.mp h
  have hrun : rest.foldlM (Draft.add d stage) (Draft.opened d decls stage colors a) = .ok last :=
    hlast
  have hprefix : (Draft.opened d decls stage colors a).items <+: last.items :=
    foldlM_preserves (P := fun draft => (Draft.opened d decls stage colors a).items <+: draft.items)
      (fun entry _ c c' hc hadd => hc.trans (Draft.items_prefix_of_add hadd))
      (List.prefix_refl _) hrun
  rcases Draft.closePool_eq_ok hclose with ⟨-, rfl⟩ | ⟨-, buffer, -, rfl⟩
  · exact hprefix
  · exact hprefix.trans (List.prefix_append _ _)

/-! ## Counters -/

theorem Allocator.inputs_input_of_ne {own other : Stage} (h : other ≠ own) (a : Allocator)
    (count : Nat) : (a.input d own count).2.inputs other = a.inputs other := by
  rw [input]
  split
  · exact if_neg h
  · rfl

/-- **The vertex stage leaves the inputs of the fragment stage free.** -/
theorem inputs_draftStage_vertex
    (h : draftStage d decls textures .vertex colors a = .ok draft) :
    draft.allocator.inputs .fragment = a.inputs .fragment := by
  obtain ⟨last, hlast, hclose⟩ := draftStage_induction
    (motive := fun _ draft => draft.allocator.inputs .fragment = a.inputs .fragment) rfl
    (fun entries entry draft draft' hc hadds => by
      cases hadds with
      | @item _ item b hyields =>
        refine Eq.trans ?_ hc
        change b.inputs .fragment = draft.allocator.inputs .fragment
        cases hyields with
        | colorOutput => rw [Allocator.inputs_output]
        | varyingOut => rw [Allocator.inputs_output]
        | varyingIn v hstage => exact absurd rfl hstage
        | uniform => rfl
        | opaqueField => rw [Allocator.inputs_binding]
        | block => rw [Allocator.inputs_binding]
        | vertexAttribute => exact Allocator.inputs_input_of_ne (by decide) _ _
      | pooled => exact hc
      | nothing => exact hc) h
  rcases Draft.closePool_eq_ok hclose with ⟨-, rfl⟩ | ⟨-, buffer, -, rfl⟩
  · exact hlast
  · change (Allocator.binding _ _ _ _).2.inputs .fragment = _
    rw [Allocator.inputs_binding]
    exact hlast

/-- The variables of a stage begin where its counter stands: a color output takes no location of
them. -/
theorem nextVarying_addColorOutput (draft : Draft) :
    (draft.addColorOutput d colors).nextVarying .fragment = draft.nextVarying .fragment := by
  rw [Draft.addColorOutput]
  split
  · exact congrFun (Allocator.inputs_output ..) .fragment
  · rfl

/-! ## Texts -/

section

variable {target : Target} {body : String} {finished : FinishedStage}

/-- What stands in front of the variables holds no calls. -/
theorem callFree_colorOutputs (d : Dialect) (stage : Stage) (colors : Nat) (a : Allocator) :
    ∀ line ∈ (if stage = .fragment then (Draft.start a).addColorOutput d colors
      else Draft.start a).items.flatMap Item.lines, CallFree line := by
  have hnone : ∀ line ∈ (Draft.start a).items.flatMap Item.lines, CallFree line :=
    fun line hline => absurd hline List.not_mem_nil
  split
  · rw [Draft.addColorOutput]
    split
    · refine List.forall_mem_flatMap.mpr fun item hitem => ?_
      obtain rfl := List.mem_singleton.mp hitem
      exact Item.callFree_lines (fun w hw => by cases hw) fun name hname => by cases hname
    · exact hnone
  · exact hnone

/-- The variables are drafted from the first location on, if the counter of the stage has not been
used. -/
theorem exists_items_opened (d : Dialect) (decls : Declarations) (colors : Nat)
    (hstart : (Draft.start a).nextVarying stage = 0) :
    ∃ outputs, (∀ line ∈ outputs.flatMap Item.lines, CallFree line) ∧
      (Draft.opened d decls stage colors a).items = outputs ++
        decls.varyings.mapIdx fun i v => .varying (d.varyingQualifier stage)
          (varyingLocation d decls.varyings i) v := by
  have hnext : (if stage = .fragment then (Draft.start a).addColorOutput d colors
      else Draft.start a).nextVarying stage = 0 := by
    split
    · next hfragment =>
      subst hfragment
      rw [nextVarying_addColorOutput, hstart]
    · exact hstart
  have hitems := Draft.items_foldl_addVarying d stage decls.varyings
    (if stage = .fragment then (Draft.start a).addColorOutput d colors else Draft.start a)
  simp only [hnext, Nat.zero_add] at hitems
  exact ⟨_, callFree_colorOutputs d stage colors a, hitems⟩

/-- The lines of the variables hold no calls if their names hold none. -/
theorem callFree_varyings {vs : List VaryingDecl} (hvs : ∀ v ∈ vs, CallFree v.name.toList)
    (d : Dialect) (stage : Stage) (location : Nat → Option Nat) :
    ∀ line ∈ (vs.mapIdx fun i v => Item.varying (d.varyingQualifier stage) (location i)
      v).flatMap Item.lines, CallFree line := by
  refine List.forall_mem_flatMap.mpr fun item hitem => ?_
  obtain ⟨i, hi, rfl⟩ := List.mem_mapIdx.mp hitem
  refine Item.callFree_lines (fun w hw => ?_) fun name hname => ?_
  · obtain rfl := List.mem_singleton.mp hw
    exact d.callFree_varyingQualifier stage
  · obtain rfl := List.mem_singleton.mp hname
    exact hvs _ (List.getElem_mem hi)

theorem flatMap_lines_varyings (qualifier : String) (vs : List VaryingDecl)
    (location : Nat → Option Nat) :
    (vs.mapIdx fun i v => Item.varying qualifier (location i) v).flatMap Item.lines =
      vs.mapIdx fun i v => (varyingLine qualifier (location i) v).toList := by
  induction vs generalizing location with
  | nil => rfl
  | cons v vs ih =>
    rw [List.mapIdx_cons, List.mapIdx_cons, List.flatMap_cons, Item.lines_varying,
      ih fun i => location (i + 1)]
    rfl

/-- **A stage of a graphics program declares its variables.** They stand in front of all other
names, so it is enough that no call stands in their own. -/
theorem declaresVaryings_of_assembleStage (hvaryings : ∀ v ∈ decls.varyings, CallFree v.name.toList)
    (hstage : stage ≠ .compute) (hstart : (Draft.start a).nextVarying stage = 0)
    (h : assembleStage target.dialect decls textures stage colors body a = .ok finished) :
    DeclaresVaryings target.dialect decls.varyings (target.dialect.varyingQualifier stage)
      finished.text.toList := by
  obtain ⟨draft, hdraft, htext, hitems, -⟩ := assembleStage_eq_ok h
  have hprecision := draftStage_isPrecision hdraft
  obtain ⟨rest, hrest⟩ := items_prefix_of_draftStage hstage hdraft
  obtain ⟨outputs, houtputs, hopened⟩ := exists_items_opened target.dialect decls colors hstart
  have hfree : ∀ line ∈ (Draft.opened target.dialect decls stage colors a).items.flatMap Item.lines,
      CallFree line := by
    rw [hopened, List.flatMap_append]
    exact List.forall_mem_append.mpr ⟨houtputs, callFree_varyings hvaryings _ stage _⟩
  rw [← hrest] at hprecision
  rw [hitems, ← hrest] at htext
  obtain ⟨lowered, -, htext⟩ := (StageSource.finish_append_eq_ok_iff hprecision hfree).mp htext
  refine ⟨target.dialect.preambleLines stage (!decls.textures.isEmpty) colors ++
    outputs.flatMap Item.lines, lowered.text, ?_⟩
  rw [htext, StageSource.stageText, hopened, List.flatMap_append, flatMap_lines_varyings,
    unlines_append, unlines_append]
  simp only [List.append_assoc]

theorem Dialect.varyingQualifier_vertex (d : Dialect) :
    d.varyingQualifier .vertex = if d.hasInOut then "out" else "varying" := by
  rw [varyingQualifier, if_pos rfl]

theorem Dialect.varyingQualifier_fragment (d : Dialect) :
    d.varyingQualifier .fragment = if d.hasInOut then "in" else "varying" := by
  have hstage : Stage.fragment ≠ .vertex := by decide
  rw [varyingQualifier, if_neg hstage]

/-- **The stages agree on what is between them**: both declare the same variables, in order, and
each variable has the same location in both, wherever locations are fixed. -/
theorem assemble_varyings {vertexBody fragmentBody : String} {program : Assembly}
    (hvaryings : ∀ v ∈ decls.varyings, CallFree v.name.toList)
    (h : assemble target.dialect decls textures (.graphics vertexBody fragmentBody colors) =
      .ok program) :
    ∃ vertex fragment, program.texts = .graphics vertex fragment ∧
      DeclaresVaryings target.dialect decls.varyings
        (if target.dialect.hasInOut then "out" else "varying") vertex.toList ∧
      DeclaresVaryings target.dialect decls.varyings
        (if target.dialect.hasInOut then "in" else "varying") fragment.toList := by
  obtain ⟨vertex, fragment, hvertex, hfragment, rfl⟩ := assemble_graphics_eq_ok_iff.mp h
  have hfree : (Draft.start vertex.allocator).nextVarying .fragment = 0 := by
    obtain ⟨draft, hdraft, -, -, hallocator⟩ := assembleStage_eq_ok hvertex
    have hinputs := inputs_draftStage_vertex hdraft
    rw [← hallocator] at hinputs
    exact hinputs
  have hout := declaresVaryings_of_assembleStage hvaryings (by decide) rfl hvertex
  have hin := declaresVaryings_of_assembleStage hvaryings (by decide) hfree hfragment
  rw [Dialect.varyingQualifier_vertex] at hout
  rw [Dialect.varyingQualifier_fragment] at hin
  exact ⟨vertex.text, fragment.text, rfl, hout, hin⟩

end

/-- A matrix between two other variables, beside a matrix that is an attribute. -/
def interfaceDeclarations : Declarations where
  attributes := [{ name := "model", ty := .mat4, format := .rgba32Float }]
  varyings := [{ name := "uv", ty := .vec2 }, { name := "frame", ty := .mat4 },
    { name := "weight", ty := .float }]

theorem isCallFree_interfaceDeclarations : interfaceDeclarations.IsCallFree :=
  ⟨by decide, fun t ht => absurd ht List.not_mem_nil, by decide, by decide, by decide,
    by decide +kernel, by decide +kernel⟩

/-- Two color outputs and four columns of an attribute do not move the variables. -/
theorem assemble_varyings_matrix :
    let target : Target := { api := .vulkan, version := 0 }
    (∀ v ∈ interfaceDeclarations.varyings, CallFree v.name.toList) ∧
      ∃ program, assemble target.dialect interfaceDeclarations [] (.graphics "" "" 2) =
          .ok program ∧
        ∃ vertex fragment, program.texts = .graphics vertex fragment ∧
          DeclaresVaryings target.dialect interfaceDeclarations.varyings "out" vertex.toList ∧
          DeclaresVaryings target.dialect interfaceDeclarations.varyings "in" fragment.toList ∧
          (interfaceDeclarations.varyings.mapIdx fun i v => varyingLine "in"
            (varyingLocation target.dialect interfaceDeclarations.varyings i) v) =
              ["layout(location=0) in vec2 uv;", "layout(location=1) in mat4 frame;",
                "layout(location=5) in float weight;"] := by
  intro target
  obtain ⟨vertex, hvertex⟩ : ∃ draft, draftStage target.dialect interfaceDeclarations [] .vertex 2
    .start = .ok draft := ⟨_, rfl⟩
  obtain ⟨fragment, hfragment⟩ : ∃ draft, draftStage target.dialect interfaceDeclarations []
      .fragment 2 vertex.allocator = .ok draft := by
    cases hvertex
    exact ⟨_, rfl⟩
  have hbody : CallFree "".toList := callFree_nil
  have hfree : ∀ stage, IsCallFreeIn interfaceDeclarations [] stage :=
    isCallFree_interfaceDeclarations.isCallFreeIn (by decide)
  obtain ⟨vertexText, -, hvertex⟩ := exists_assembleStage_of_callFree (hfree _) hvertex hbody
  obtain ⟨fragmentText, -, hfragment⟩ := exists_assembleStage_of_callFree (hfree _) hfragment hbody
  have hprogram := assemble_graphics_eq_ok_iff.mpr ⟨_, _, hvertex, hfragment, rfl⟩
  obtain ⟨vertexText, fragmentText, htexts, hout, hin⟩ :=
    assemble_varyings isCallFree_interfaceDeclarations.varyings hprogram
  exact ⟨isCallFree_interfaceDeclarations.varyings, _, hprogram, _, _, htexts, hout, hin, by decide +kernel⟩

/-- A call in the name of a variable is lowered with the text, so neither stage declares the variable
under its name. -/
theorem not_declaresVaryings_call :
    let target : Target := { api := .openGl, version := 330 }
    let decls : Declarations := { varyings := [{ name := "ngl_tex2d(a)", ty := .vec2 }] }
    ∃ program vertex fragment,
      assemble target.dialect decls [] (.graphics "" "" 1) = .ok program ∧
        program.texts = .graphics vertex fragment ∧
        ¬DeclaresVaryings target.dialect decls.varyings "out" vertex.toList ∧
        ¬DeclaresVaryings target.dialect decls.varyings "in" fragment.toList := by
  intro target decls
  have htexts : (assemble target.dialect decls [] (.graphics "" "" 1)).map Assembly.texts =
      .ok (.graphics
        ("#version 330\n\n#define ngl_out_pos gl_Position\n" ++
          "out vec2 ngli_tex2d(a_sampler);\n")
        "#version 330\n\nout vec4 ngl_out_color;\nin vec2 ngli_tex2d(a_sampler);\n") := by
    decide +kernel
  obtain ⟨program, hprogram, htexts⟩ := map_eq_ok.mp htexts
  -- each line of a variable would be a part of the text
  have hline : ∀ {qualifier : String} {text : Text},
      DeclaresVaryings target.dialect decls.varyings qualifier text →
        (varyingLine qualifier none ⟨"ngl_tex2d(a)", .vec2⟩).toList <:+: text := by
    rintro qualifier text ⟨front, back, rfl⟩
    refine (infix_unlines (List.mem_singleton_self _)).trans ?_
    exact (List.prefix_append _ _).isInfix.trans (List.suffix_append _ _).isInfix
  refine ⟨program, _, _, hprogram, htexts, fun h => ?_, fun h => ?_⟩
  · exact absurd (hline h) (by decide +kernel)
  · exact absurd (hline h) (by decide +kernel)

end ShaderLoom
