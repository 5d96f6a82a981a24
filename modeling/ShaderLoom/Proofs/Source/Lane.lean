import ShaderLoom.Proofs.Source.Head
import ShaderLoom.Proofs.Source.Varying

/-!
# Lanes of locations

Where the text fixes locations, the variables at the border of a stage are numbered in **lanes**,
each by a counter of its own. A graphics program has three: the attributes that the vertex stage
takes in, and the variables between the stages, as the vertex stage puts them out and as the
fragment stage takes them in.

Nothing but the variables of a lane moves its counter, and each moves it by what its type is said to
span. So in the items of a program they stand in the order of the declarations, each placed where
the one before it ends, and a line of the text of the stage says so
(**`isPlaced_of_assemble`**).
-/

namespace ShaderLoom

open Text Reading

variable {α : Type} {d : Dialect} {stage : Stage} {draft draft' : Draft} {decls : Declarations}
  {textures : List ExpandedTexture} {colors : Nat} {a a' : Allocator} {item : Item}
  {entry : StageEntry} {entries : List StageEntry}

/-! ## Variables behind one another -/

/-- Variables with their locations, where each begins as many locations behind the one before it as
the type of that one is said to span. -/
def placeFrom (ty : α → ShaderType) (next : Nat) : List α → List (α × Option Nat)
  | [] => []
  | x :: xs => (x, some next) :: placeFrom ty (next + (ty x).locations) xs

/-- The locations that variables are said to span. -/
def spanned (ty : α → ShaderType) (xs : List α) : Nat := (xs.map fun x => (ty x).locations).sum

section

variable {ty : α → ShaderType} {next : Nat} {x : α} {xs : List α}

theorem map_fst_placeFrom : (placeFrom ty next xs).map Prod.fst = xs := by
  induction xs generalizing next with
  | nil => rfl
  | cons x xs ih => rw [placeFrom, List.map_cons, ih]

theorem spanned_append_singleton : spanned ty (xs ++ [x]) = spanned ty xs + (ty x).locations := by
  simp [spanned]

theorem placeFrom_append_singleton :
    placeFrom ty next (xs ++ [x]) = placeFrom ty next xs ++ [(x, some (next + spanned ty xs))] := by
  induction xs generalizing next with
  | nil => rfl
  | cons y xs ih =>
    have hspanned : next + (ty y).locations + spanned ty xs = next + spanned ty (y :: xs) := by
      rw [spanned, spanned, List.map_cons, List.sum_cons, Nat.add_assoc]
    rw [List.cons_append, placeFrom, ih, hspanned]
    rfl

/-- Nothing begins in front of the first location. -/
theorem exists_of_mem_placeFrom {p : α × Option Nat} (h : p ∈ placeFrom ty next xs) :
    ∃ first, p.2 = some first ∧ next ≤ first := by
  induction xs generalizing next with
  | nil => cases h
  | cons x xs ih =>
    rcases List.mem_cons.mp h with rfl | h
    · exact ⟨next, rfl, Nat.le_refl _⟩
    · obtain ⟨first, hfirst, hle⟩ := ih h
      exact ⟨first, hfirst, (Nat.le_add_right _ _).trans hle⟩

end

/-! ## Lanes -/

/-- Variables at one border of a stage, which are numbered by one counter. -/
structure Lane (α : Type) where
  /-- the stage -/
  stage : Stage
  /-- the qualifier of the variables -/
  qualifier : String
  /-- the type of a variable -/
  ty : α → ShaderType
  /-- the variable that an entry declares -/
  entry? : StageEntry → Option α
  /-- the variable that an item declares, and the location that it writes -/
  item? : Item → Option (α × Option Nat)
  /-- the next location -/
  next : Allocator → Nat

/-- How the declaration of a variable begins that has its location fixed. -/
def Lane.head (l : Lane α) (x : α) (first : Nat) : Text :=
  s!"layout(location={first}) {l.qualifier} {(l.ty x).keyword}".toList

/-- What the item of an entry is to a lane. -/
inductive Lane.Moves (l : Lane α) (entry : StageEntry) (item : Item) (a a' : Allocator) : Prop
  /-- a variable of the lane, which writes the next location and takes as many as it spans -/
  | takes (x : α) (hentry : l.entry? entry = some x)
    (hitem : l.item? item = some (x, some (l.next a)))
    (hnext : l.next a' = l.next a + (l.ty x).locations)
    (hrender : ∃ tail, item.render.toList = l.head x (l.next a) ++ ' ' :: tail)
  /-- something else, which leaves the counter alone -/
  | passes (hentry : l.entry? entry = none) (hitem : l.item? item = none)
    (hnext : l.next a' = l.next a)

/-- Nothing but the variables of a lane moves its counter. -/
structure Lane.IsLawful (l : Lane α) (d : Dialect) : Prop where
  /-- items -/
  moves : ∀ {entry a item a'}, entry.Yields d l.stage a item a' → l.Moves entry item a a'
  /-- uniforms are no variables of the lane -/
  uniform : ∀ {entry u}, StageEntry.uniform? entry = some u → l.entry? entry = none
  /-- nor is the color output -/
  colorOutput : ∀ colors, l.entry? (.colorOutput colors) = none
  /-- nor is the block of the plain uniforms -/
  uniformBlock : ∀ u binding, l.item? (.uniformBlock u binding) = none

/-- The variables of a lane among some items. -/
def Lane.among (l : Lane α) (items : List Item) : List (α × Option Nat) := items.filterMap l.item?

/-- The variables of some entries are placed behind one another in a draft. -/
structure Draft.Fills (l : Lane α) (entries : List StageEntry) (draft : Draft) : Prop where
  /-- the variables, in order -/
  among : l.among draft.items = placeFrom l.ty 0 (entries.filterMap l.entry?)
  /-- the counter stands behind them -/
  next : l.next draft.allocator = spanned l.ty (entries.filterMap l.entry?)

section

variable {l : Lane α}

theorem Lane.among_append (items items' : List Item) :
    l.among (items ++ items') = l.among items ++ l.among items' := List.filterMap_append ..

/-- **Adding an entry** keeps a lane filled. -/
theorem Draft.Fills.add (hl : l.IsLawful d) (h : draft.Fills l entries)
    (hadds : draft.Adds d l.stage entry draft') : draft'.Fills l (entries ++ [entry]) := by
  have hnone : l.entry? entry = none →
      (entries ++ [entry]).filterMap l.entry? = entries.filterMap l.entry? := fun hentry => by
    rw [List.filterMap_append, List.filterMap_cons_none hentry]
    exact List.append_nil _
  cases hadds with
  | @item _ item b hyields =>
    have hamong : l.among ((draft.advanced b).push item).items =
        l.among draft.items ++ l.among [item] := Lane.among_append ..
    cases hl.moves hyields with
    | takes x hentry hitem hnext =>
      have hone : l.among [item] = [(x, some (l.next draft.allocator))] :=
        List.filterMap_cons_some hitem
      have hentries : (entries ++ [entry]).filterMap l.entry? =
          entries.filterMap l.entry? ++ [x] := by
        rw [List.filterMap_append, List.filterMap_cons_some hentry]
        rfl
      refine ⟨?_, ?_⟩
      · rw [hamong, hone, hentries, placeFrom_append_singleton, h.among, h.next, Nat.zero_add]
      · rw [hentries, spanned_append_singleton, ← h.next]
        exact hnext
    | passes hentry hitem hnext =>
      have hone : l.among [item] = [] := List.filterMap_cons_none hitem
      refine ⟨?_, ?_⟩
      · rw [hamong, hone, List.append_nil, hnone hentry, h.among]
      · rw [hnone hentry, ← h.next]
        exact hnext
  | pooled hu =>
    have hsame := hnone (hl.uniform hu)
    exact ⟨h.among.trans (by rw [hsame]), h.next.trans (by rw [hsame])⟩
  | nothing colors =>
    have hsame := hnone (hl.colorOutput colors)
    exact ⟨h.among.trans (by rw [hsame]), h.next.trans (by rw [hsame])⟩

/-- **The variables of a lane** are placed behind one another, from the first location on if the
counter has not been used. -/
theorem Lane.among_of_draftStage (hl : l.IsLawful d) (hstart : l.next a = 0)
    (h : draftStage d decls textures l.stage colors a = .ok draft) :
    l.among draft.items =
      placeFrom l.ty 0 ((stageEntries decls textures l.stage colors).filterMap l.entry?) := by
  obtain ⟨last, hlast, hclose⟩ := draftStage_induction
    (motive := fun entries draft => draft.Fills l entries) ⟨rfl, hstart⟩
    (fun _ _ _ _ hc hadds => hc.add hl hadds) h
  rw [← hlast.among]
  rcases Draft.closePool_eq_ok hclose with ⟨-, rfl⟩ | ⟨-, buffer, -, rfl⟩
  · rfl
  · refine (Lane.among_append ..).trans ?_
    have hnone : l.among [.uniformBlock ⟨l.stage, last.pool, buffer⟩
        (last.allocator.binding d l.stage .uniformBlock).1] = [] :=
      List.filterMap_cons_none (hl.uniformBlock ..)
    rw [hnone, List.append_nil]
    rfl

/-- A variable of a lane begins its declaration with its location. -/
theorem Lane.exists_render (hl : l.IsLawful d)
    (h : draftStage d decls textures l.stage colors a = .ok draft) (hitem : item ∈ draft.items)
    {p : α × Option Nat} (hp : l.item? item = some p) :
    ∃ first, p.2 = some first ∧ ∃ tail, item.render.toList = l.head p.1 first ++ ' ' :: tail := by
  rcases exists_entry_of_mem h hitem with ⟨entry, -, b, b', hyields⟩ | ⟨pool, buffer, b, rfl⟩
  · cases hl.moves hyields with
    | takes x hentry hitem hnext hrender =>
      obtain rfl := Option.some.inj (hp.symm.trans hitem)
      exact ⟨_, rfl, hrender⟩
    | passes hentry hitem hnext =>
      rw [hp] at hitem
      cases hitem
  · rw [hl.uniformBlock] at hp
    cases hp

end

/-! ## Dialects that fix locations -/

/-- The text fixes locations, and says of a variable nothing else but whether it goes in or out. -/
structure Dialect.FixesLocations (d : Dialect) : Prop where
  /-- locations are fixed -/
  explicit : d.hasExplicitLocations = true
  /-- variables go in or out -/
  inOut : d.hasInOut = true
  /-- declarations have no precision qualifiers -/
  precision : d.hasPrecision = false

/-- **Locations are fixed on Vulkan.** -/
theorem Target.fixesLocations_dialect {target : Target} (h : target.api = .vulkan) :
    target.dialect.FixesLocations := by
  obtain ⟨api, version, platform, frames⟩ := target
  obtain rfl : api = .vulkan := h
  exact ⟨rfl, rfl, rfl⟩

namespace Dialect.FixesLocations

variable (h : d.FixesLocations)

include h

theorem input_eq (a : Allocator) (stage : Stage) (count : Nat) :
    a.input d stage count =
      (some (a.inputs stage), { a with inputs := advance a.inputs stage count }) := by
  rw [Allocator.input, if_pos h.explicit]

theorem output_eq (a : Allocator) (stage : Stage) (count : Nat) :
    a.output d stage count =
      (some (a.outputs stage), { a with outputs := advance a.outputs stage count }) := by
  rw [Allocator.output, if_pos h.explicit]

theorem varyingQualifier_eq (stage : Stage) :
    d.varyingQualifier stage = if stage = .vertex then "out" else "in" := by
  rw [varyingQualifier, if_pos h.inOut]

theorem inputQualifier_eq : d.inputQualifier = "in" := by
  rw [inputQualifier, if_pos h.inOut]

theorem precisionQualifier_eq (ty : ShaderType) (wish fallback : Precision) :
    d.precisionQualifier ty wish fallback = "" := by
  rw [precisionQualifier, h.precision, Bool.false_and, if_neg Bool.false_ne_true]

end Dialect.FixesLocations

theorem advance_self (counters : Stage → Nat) (key : Stage) (n : Nat) :
    advance counters key n key = counters key + n := if_pos rfl

theorem advance_of_ne (counters : Stage → Nat) {key other : Stage} (h : other ≠ key) (n : Nat) :
    advance counters key n other = counters other := if_neg h

/-! ## The lanes of a graphics program -/

/-- The variable between the stages that an entry declares. -/
def StageEntry.varying? : StageEntry → Option VaryingDecl
  | .varying v => some v
  | .colorOutput _ | .uniform _ | .textureField .. | .block _ | .vertexAttribute _ => none

/-- The variable between the stages that an item declares with a qualifier, and the location that it
writes. -/
def Item.varying? (qualifier : String) : Item → Option (VaryingDecl × Option Nat)
  | .varying own location v => if own = qualifier then some (v, location) else none
  | .colorOutput .. | .uniform .. | .opaqueUniform .. | .block .. | .uniformBlock .. |
    .vertexAttribute .. => none

namespace Lane

/-- The attributes that the vertex stage takes in. -/
def attributes : Lane AttributeDecl :=
  ⟨.vertex, "in", (·.ty), StageEntry.attribute?, Item.attribute?, (·.inputs .vertex)⟩

/-- The variables that the vertex stage puts out. -/
def outputs : Lane VaryingDecl :=
  ⟨.vertex, "out", (·.ty), StageEntry.varying?, Item.varying? "out", (·.outputs .vertex)⟩

/-- The variables that the fragment stage takes in. -/
def inputs : Lane VaryingDecl :=
  ⟨.fragment, "in", (·.ty), StageEntry.varying?, Item.varying? "in", (·.inputs .fragment)⟩

end Lane

theorem Allocator.outputs_input (a : Allocator) (d : Dialect) (stage : Stage) (count : Nat) :
    (a.input d stage count).2.outputs = a.outputs := by
  rw [input]
  split <;> rfl

theorem Allocator.outputs_binding (a : Allocator) (d : Dialect) (stage : Stage)
    (resource : BindingClass) : (a.binding d stage resource).2.outputs = a.outputs := by
  rw [binding]
  split <;> rfl

theorem StageEntry.attribute?_of_uniform? {u : UniformDecl} (h : entry.uniform? = some u) :
    entry.attribute? = none := by
  cases entry with
  | vertexAttribute => cases h
  | colorOutput | varying | uniform | textureField | block => rfl

theorem StageEntry.varying?_of_uniform? {u : UniformDecl} (h : entry.uniform? = some u) :
    entry.varying? = none := by
  cases entry with
  | varying => cases h
  | colorOutput | uniform | textureField | block | vertexAttribute => rfl

/-- The declaration of a variable between the stages begins with its location. -/
theorem Item.exists_render_varying (qualifier : String) (first : Nat) (v : VaryingDecl) :
    ∃ tail, (Item.varying qualifier (some first) v).render.toList =
      s!"layout(location={first}) {qualifier} {v.ty.keyword}".toList ++ ' ' :: tail :=
  ⟨_, by simp [render, locationLayout_some, toString_string]; rfl⟩

namespace Lane

theorem isLawful_attributes (hd : d.FixesLocations) : attributes.IsLawful d := by
  refine ⟨fun {entry a item a'} h => ?_, StageEntry.attribute?_of_uniform?, fun _ => rfl,
    fun _ _ => rfl⟩
  cases h with
  | colorOutput | varyingOut =>
    exact .passes rfl rfl (congrFun (Allocator.inputs_output ..) _)
  | varyingIn v hstage => exact absurd rfl hstage
  | uniform hu => exact .passes (StageEntry.attribute?_of_uniform? hu) rfl rfl
  | opaqueField | block => exact .passes rfl rfl (congrFun (Allocator.inputs_binding ..) _)
  | vertexAttribute x =>
    rw [hd.input_eq, hd.inputQualifier_eq, hd.precisionQualifier_eq]
    refine .takes x rfl rfl (advance_self a.inputs .vertex _) ⟨x.name.toList ++ ";\n".toList, ?_⟩
    simp [Item.render, locationLayout_some, toString_string, head, attributes]

theorem isLawful_outputs (hd : d.FixesLocations) : outputs.IsLawful d := by
  refine ⟨fun {entry a item a'} h => ?_, StageEntry.varying?_of_uniform?, fun _ => rfl,
    fun _ _ => rfl⟩
  cases h with
  | colorOutput colors _ =>
    have hother : Stage.vertex ≠ .fragment := by decide
    rw [hd.output_eq]
    exact .passes rfl rfl (advance_of_ne a.outputs hother (max colors 1))
  | varyingOut v _ =>
    rw [hd.output_eq, hd.varyingQualifier_eq]
    exact .takes v rfl rfl (advance_self a.outputs .vertex _) (Item.exists_render_varying ..)
  | varyingIn v hstage => exact absurd rfl hstage
  | uniform hu => exact .passes (StageEntry.varying?_of_uniform? hu) rfl rfl
  | opaqueField | block => exact .passes rfl rfl (congrFun (Allocator.outputs_binding ..) _)
  | vertexAttribute x => exact .passes rfl rfl (congrFun (Allocator.outputs_input ..) _)

theorem isLawful_inputs (hd : d.FixesLocations) : inputs.IsLawful d := by
  refine ⟨fun {entry a item a'} h => ?_, StageEntry.varying?_of_uniform?, fun _ => rfl,
    fun _ _ => rfl⟩
  cases h with
  | colorOutput => exact .passes rfl rfl (congrFun (Allocator.inputs_output ..) _)
  | varyingOut v hstage => cases hstage
  | varyingIn v _ =>
    rw [hd.input_eq, hd.varyingQualifier_eq]
    exact .takes v rfl rfl (advance_self a.inputs .fragment _) (Item.exists_render_varying ..)
  | uniform hu => exact .passes (StageEntry.varying?_of_uniform? hu) rfl rfl
  | opaqueField | block => exact .passes rfl rfl (congrFun (Allocator.inputs_binding ..) _)
  | vertexAttribute x =>
    exact .passes rfl rfl (Allocator.inputs_input_of_ne (by decide) _ _)

end Lane

/-- The entries of a stage hold the variables between the stages in order. -/
theorem varyings_stageEntries (hstage : stage ≠ .compute) :
    (stageEntries decls textures stage colors).filterMap StageEntry.varying? = decls.varyings := by
  have hvaryings : (decls.varyings.map StageEntry.varying).filterMap StageEntry.varying? =
      decls.varyings := by
    rw [List.filterMap_map]
    exact List.filterMap_some
  have hattributes : (decls.attributes.map StageEntry.vertexAttribute).filterMap
      StageEntry.varying? = [] := filterMap_map_entry_eq_nil (fun _ => rfl) _
  rw [filterMap_stageEntries_border (fun _ => rfl) (fun _ => rfl) (fun _ _ => rfl) fun _ => rfl,
    hattributes, ite_self, List.append_nil, if_neg hstage, hvaryings]

/-- Where the qualifiers of the variables between the stages are others, a lane of them is empty. -/
theorem filterMap_varying?_eq_nil {qualifier : String} (hne : d.varyingQualifier stage ≠ qualifier)
    (h : draftStage d decls textures stage colors a = .ok draft) :
    draft.items.filterMap (Item.varying? qualifier) = [] := by
  refine List.filterMap_eq_nil_iff.mpr fun item hitem => ?_
  rcases exists_entry_of_mem h hitem with ⟨entry, -, b, b', hyields⟩ | ⟨pool, buffer, b, rfl⟩
  · cases hyields with
    | varyingOut | varyingIn => exact if_neg hne
    | colorOutput | uniform | opaqueField | block | vertexAttribute => rfl
  · rfl

/-! ## Heads of lines -/

theorem Lane.isSolid_head (l : Lane α) (hl : IsHeadWord l.qualifier.toList) (x : α) (first : Nat) :
    IsSolid (l.head x first) := by
  have hstatement : l.head x first =
      statement (layoutQualifiers none [] "location" (some first))
        [l.qualifier.toList, (l.ty x).keyword.toList] := by
    rw [← locationLayout_append, joinWords_cons_cons, joinWords_singleton]
    simp [head, locationLayout_some, toString_string]
  have hplain : ∀ p ∈ (none : Option Text), CallFree p := fun p hp => by cases hp
  rw [hstatement]
  refine isSolid_statement (fun q hq => ⟨isQualifier_location q hq, ?_⟩) (fun w hw => ?_) (by simp)
  · exact callFree_layoutQualifiers hplain (.inl rfl) (callFree_key (.inl rfl)) _ q hq
  · rcases List.mem_cons.mp hw with rfl | hw
    · exact hl
    · obtain rfl := List.mem_singleton.mp hw
      exact isHeadWord_keyword _

/-- The variables of a lane are the given ones, placed behind one another from the first location
on, and the text of its stage has a line that fixes the location of each. -/
structure Lane.IsPlaced (l : Lane α) (xs : List α) (program : Assembly) : Prop where
  /-- the variables and their locations -/
  among : l.among program.items = placeFrom l.ty 0 xs
  /-- the lines -/
  written : ∀ p ∈ l.among program.items, ∃ first text, p.2 = some first ∧
    program.texts.text? l.stage = some text ∧ ∃ line ∈ lines text.toList, l.head p.1 first <+: line

/-- **A lane is placed** by the stage it belongs to. -/
theorem Lane.isPlaced_of_assembleStage {l : Lane α} {target : Target} {body : String}
    {finished : FinishedStage} {program : Assembly} {xs : List α} (hl : l.IsLawful target.dialect)
    (hword : IsHeadWord l.qualifier.toList) (hstart : l.next a = 0)
    (hentries : (stageEntries decls textures l.stage colors).filterMap l.entry? = xs)
    (h : assembleStage target.dialect decls textures l.stage colors body a = .ok finished)
    (htext : program.texts.text? l.stage = some finished.text)
    (hitems : l.among program.items = l.among finished.items) : l.IsPlaced xs program := by
  obtain ⟨draft, hdraft, hfinish, hdrafted, -⟩ := assembleStage_eq_ok h
  refine ⟨?_, fun p hp => ?_⟩
  · rw [hitems, hdrafted, l.among_of_draftStage hl hstart hdraft, hentries]
  · rw [hitems] at hp
    obtain ⟨item, hitem, hp⟩ := List.mem_filterMap.mp hp
    obtain ⟨first, hfirst, hrender⟩ := l.exists_render hl hdraft (hdrafted ▸ hitem) hp
    exact ⟨first, finished.text, hfirst, htext,
      exists_line_of_isSolid hitem (l.isSolid_head hword p.1 first) hrender hfinish⟩

/-! ## Graphics programs -/

section

variable {target : Target} {vertexBody fragmentBody : String} {program : Assembly}

/-- **The lanes of a graphics program** are placed, if locations are fixed. -/
theorem isPlaced_of_assemble (hd : target.dialect.FixesLocations)
    (h : assemble target.dialect decls textures (.graphics vertexBody fragmentBody colors) =
      .ok program) :
    Lane.attributes.IsPlaced decls.attributes program ∧
      Lane.outputs.IsPlaced decls.varyings program ∧
      Lane.inputs.IsPlaced decls.varyings program := by
  obtain ⟨vertex, fragment, hvertex, hfragment, rfl⟩ := assemble_graphics_eq_ok_iff.mp h
  obtain ⟨vertexDraft, hvertexDraft, -, hvertexItems, hallocator⟩ := assembleStage_eq_ok hvertex
  obtain ⟨fragmentDraft, hfragmentDraft, -, hfragmentItems, -⟩ := assembleStage_eq_ok hfragment
  have hin : IsHeadWord "in".toList := by
    refine ⟨by decide, callFree_of_isTokenlessFrom (by decide)⟩
  have hout : IsHeadWord "out".toList := by
    refine ⟨by decide, callFree_of_isTokenlessFrom (by decide)⟩
  have hfree : vertex.allocator.inputs .fragment = 0 := by
    rw [hallocator, inputs_draftStage_vertex hvertexDraft]
    rfl
  refine ⟨?_, ?_, ?_⟩
  · refine Lane.isPlaced_of_assembleStage (Lane.isLawful_attributes hd) hin rfl
      (attributes_stageEntries.trans (if_pos rfl)) hvertex rfl ?_
    have hnone : Lane.attributes.among fragment.items = [] := attributes_of_fragment hfragment
    rw [Lane.among_append, hnone, List.append_nil]
  · refine Lane.isPlaced_of_assembleStage (Lane.isLawful_outputs hd) hout rfl
      (varyings_stageEntries (by decide)) hvertex rfl ?_
    have hqualifier : target.dialect.varyingQualifier .fragment ≠ "out" := by
      rw [hd.varyingQualifier_eq]
      decide
    have hnone : Lane.outputs.among fragment.items = [] := by
      rw [hfragmentItems]
      exact filterMap_varying?_eq_nil hqualifier hfragmentDraft
    rw [Lane.among_append, hnone, List.append_nil]
  · refine Lane.isPlaced_of_assembleStage (Lane.isLawful_inputs hd) hin hfree
      (varyings_stageEntries (by decide)) hfragment rfl ?_
    have hqualifier : target.dialect.varyingQualifier .vertex ≠ "in" := by
      rw [hd.varyingQualifier_eq]
      decide
    have hnone : Lane.inputs.among vertex.items = [] := by
      rw [hvertexItems]
      exact filterMap_varying?_eq_nil hqualifier hvertexDraft
    rw [Lane.among_append, hnone, List.nil_append]

end

end ShaderLoom
