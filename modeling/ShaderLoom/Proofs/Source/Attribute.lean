import ShaderLoom.Proofs.Reading.Attribute
import ShaderLoom.Proofs.Source.Program

/-!
# Locations of vertex attributes

A vertex stage declares its attributes in order, and where the text fixes locations, each of them
begins behind all columns of the one before it (**`draftStage_attributes`**). What a compiler reads
of a graphics program whose vertex body declares no input are the same attributes, and the ones that
claim locations are those that the vertex stage mentions twice (**`usedAttributes_of_graphics`**).
-/

namespace ShaderLoom

open Text Reading

variable {d : Dialect} {stage : Stage} {draft draft' : Draft} {decls : Declarations}
  {textures : List ExpandedTexture} {colors : Nat} {a a' : Allocator} {item : Item}
  {entry : StageEntry} {x : AttributeDecl} {ps : List (AttributeDecl × Option Nat)} {next : Nat}

/-! ## Attributes among the items -/

/-- The vertex attribute that an item declares, and the location that it writes. -/
def Item.attribute? : Item → Option (AttributeDecl × Option Nat)
  | .vertexAttribute _ _ location x => some (x, location)
  | .colorOutput .. | .varying .. | .uniform .. | .opaqueUniform .. | .block .. |
    .uniformBlock .. => none

/-- The vertex attribute that an entry declares. -/
def StageEntry.attribute? : StageEntry → Option AttributeDecl
  | .vertexAttribute x => some x
  | .colorOutput _ | .varying _ | .uniform _ | .textureField .. | .block _ => none

/-- What the attributes among some items register. -/
theorem attributes_ofItems (items : List Item) :
    (Declared.ofItems items).attributes =
      (items.filterMap Item.attribute?).flatMap fun p => Item.attributeElements p.2 p.1 := by
  change items.flatMap (·.elements.attributes) = _
  induction items with
  | nil => rfl
  | cons item items ih =>
    rw [List.flatMap_cons, ih]
    cases item with
    | vertexAttribute => rfl
    | colorOutput | varying | uniform | opaqueUniform | block | uniformBlock => rfl

/-- What is taken of the entries of a stage, if it comes of the variables between the stages and of
attributes only. -/
theorem filterMap_stageEntries_border {α : Type} {g : StageEntry → Option α}
    (hcolor : ∀ n, g (.colorOutput n) = none) (huniform : ∀ u, g (.uniform u) = none)
    (hfield : ∀ t f, g (.textureField t f) = none) (hblock : ∀ b, g (.block b) = none) :
    (stageEntries decls textures stage colors).filterMap g =
      (if stage = .compute then [] else (decls.varyings.map .varying).filterMap g) ++
        if stage = .vertex then (decls.attributes.map .vertexAttribute).filterMap g else [] := by
  have hfields : (textures.flatMap fun t =>
      (t.fields.filter (·.stage = stage)).map (StageEntry.textureField t)).filterMap g = [] := by
    rw [List.filterMap_flatMap]
    exact List.flatMap_eq_nil_iff.mpr fun t _ => filterMap_map_entry_eq_nil (hfield t) _
  simp only [stageEntries, List.filterMap_append, hfields, filterMap_map_entry_eq_nil huniform,
    filterMap_map_entry_eq_nil hblock, List.append_nil]
  cases stage with
  | vertex => simp
  | fragment => simp [hcolor]
  | compute => simp

/-- The entries of a stage hold its attributes in order, and only the vertex stage has any. -/
theorem attributes_stageEntries :
    (stageEntries decls textures stage colors).filterMap StageEntry.attribute? =
      if stage = .vertex then decls.attributes else [] := by
  have hattributes : (decls.attributes.map StageEntry.vertexAttribute).filterMap
      StageEntry.attribute? = decls.attributes := by
    rw [List.filterMap_map]
    exact List.filterMap_some
  rw [filterMap_stageEntries_border (fun _ => rfl) (fun _ => rfl) (fun _ _ => rfl) fun _ => rfl,
    filterMap_map_entry_eq_nil fun _ => rfl, ite_self, List.nil_append, hattributes]

/-! ## Placing attributes -/

/-- Attributes with the locations that are written for them: where locations are fixed, they follow
one another, each behind all columns of the one before, and `next` is free. -/
structure ArePlaced (d : Dialect) (next : Nat) (ps : List (AttributeDecl × Option Nat)) : Prop where
  /-- either all locations are written or none -/
  isSome : ∀ p ∈ ps, p.2.isSome = d.hasExplicitLocations
  /-- the columns are not free any more -/
  below : ∀ p ∈ ps, ∀ first ∈ p.2, first + p.1.ty.locations ≤ next
  /-- no column belongs to two attributes -/
  apart : ps.Pairwise fun p q => ∀ m ∈ p.2, ∀ n ∈ q.2, m + p.1.ty.locations ≤ n

theorem ArePlaced.mono {next' : Nat} (h : ArePlaced d next ps) (hle : next ≤ next') :
    ArePlaced d next' ps :=
  ⟨h.isSome, fun p hp first hfirst => (h.below p hp first hfirst).trans hle, h.apart⟩

/-- One more attribute is placed behind the others. -/
theorem ArePlaced.append_singleton {p : AttributeDecl × Option Nat} {next' : Nat}
    (h : ArePlaced d next ps) (hsome : p.2.isSome = d.hasExplicitLocations) (hle : next ≤ next')
    (hfirst : ∀ first ∈ p.2, next ≤ first ∧ first + p.1.ty.locations ≤ next') :
    ArePlaced d next' (ps ++ [p]) := by
  refine ⟨fun q hq => ?_, fun q hq first hq' => ?_, ?_⟩
  · rcases List.mem_append.mp hq with hq | hq
    · exact h.isSome q hq
    · obtain rfl := List.mem_singleton.mp hq
      exact hsome
  · rcases List.mem_append.mp hq with hq | hq
    · exact (h.below q hq first hq').trans hle
    · obtain rfl := List.mem_singleton.mp hq
      exact (hfirst first hq').2
  · refine List.pairwise_append.mpr ⟨h.apart, List.pairwise_singleton .., ?_⟩
    intro q hq p' hp' m hm n hn
    obtain rfl := List.mem_singleton.mp hp'
    exact (h.below q hq m hm).trans (hfirst n hn).1

/-- One more attribute begins at the next location. -/
theorem ArePlaced.push (h : ArePlaced d (a.inputs .vertex) ps) (x : AttributeDecl) :
    ArePlaced d ((a.input d .vertex x.ty.locations).2.inputs .vertex)
      (ps ++ [(x, (a.input d .vertex x.ty.locations).1)]) := by
  rw [Allocator.input]
  split
  · next hexplicit =>
    have hnext : advance a.inputs .vertex x.ty.locations .vertex =
        a.inputs .vertex + x.ty.locations := if_pos rfl
    dsimp only
    rw [hnext]
    refine h.append_singleton hexplicit.symm (Nat.le_add_right _ _) fun first hfirst => ?_
    cases hfirst
    exact ⟨Nat.le_refl _, Nat.le_refl _⟩
  · next hopen =>
    refine h.append_singleton (by simpa using hopen) (Nat.le_refl _) fun first hfirst => ?_
    cases hfirst

theorem Allocator.inputs_le_input (a : Allocator) (d : Dialect) (own other : Stage) (count : Nat) :
    a.inputs other ≤ (a.input d own count).2.inputs other := by
  rw [input]
  split
  · simp only [advance]
    split <;> omega
  · exact Nat.le_refl _

theorem Allocator.inputs_output (a : Allocator) (d : Dialect) (stage : Stage) (count : Nat) :
    (a.output d stage count).2.inputs = a.inputs := by
  rw [output]
  split <;> rfl

theorem Allocator.inputs_binding (a : Allocator) (d : Dialect) (stage : Stage)
    (resource : BindingClass) : (a.binding d stage resource).2.inputs = a.inputs := by
  rw [binding]
  split <;> rfl

/-- **An entry that is added** is placed if it is an attribute, and takes no location of the
attributes otherwise. -/
theorem StageEntry.Yields.arePlaced (h : entry.Yields d stage a item a')
    (hps : ArePlaced d (a.inputs .vertex) ps) :
    item.attribute?.map Prod.fst = entry.attribute? ∧
      ArePlaced d (a'.inputs .vertex) (ps ++ item.attribute?.toList) := by
  have hsame : ∀ {b : Allocator}, a.inputs .vertex ≤ b.inputs .vertex →
      ArePlaced d (b.inputs .vertex) (ps ++ []) := by
    intro b hle
    rw [List.append_nil]
    exact hps.mono hle
  cases h with
  | colorOutput colors _ => exact ⟨rfl, hsame (by rw [Allocator.inputs_output])⟩
  | varyingOut v _ => exact ⟨rfl, hsame (by rw [Allocator.inputs_output])⟩
  | varyingIn v _ => exact ⟨rfl, hsame (a.inputs_le_input d stage .vertex _)⟩
  | uniform hu =>
    refine ⟨?_, hsame (Nat.le_refl _)⟩
    cases entry with
    | vertexAttribute => cases hu
    | colorOutput | varying | uniform | textureField | block => rfl
  | opaqueField => exact ⟨rfl, hsame (by rw [Allocator.inputs_binding])⟩
  | block b => exact ⟨rfl, hsame (by rw [Allocator.inputs_binding])⟩
  | vertexAttribute x => exact ⟨rfl, hps.push x⟩

/-- The attributes of some entries are those among the items of a draft, and they are placed. -/
structure Draft.PlacesAttributes (d : Dialect) (entries : List StageEntry) (draft : Draft) :
    Prop where
  /-- the attributes of the entries, in order -/
  declared : (draft.items.filterMap Item.attribute?).map Prod.fst =
    entries.filterMap StageEntry.attribute?
  /-- and their locations -/
  placed : ArePlaced d (draft.allocator.inputs .vertex) (draft.items.filterMap Item.attribute?)

theorem Draft.PlacesAttributes.add {entries : List StageEntry}
    (h : draft.PlacesAttributes d entries) (hadds : draft.Adds d stage entry draft') :
    draft'.PlacesAttributes d (entries ++ [entry]) := by
  have hnone : entry.attribute? = none → (entries ++ [entry]).filterMap StageEntry.attribute? =
      entries.filterMap StageEntry.attribute? := fun hentry => by
    rw [List.filterMap_append, List.filterMap_cons_none hentry]
    exact List.append_nil _
  cases hadds with
  | @item _ item b hyields =>
    obtain ⟨hattribute, hplaced⟩ := hyields.arePlaced h.placed
    have hitems : (draft.items ++ [item]).filterMap Item.attribute? =
        draft.items.filterMap Item.attribute? ++ item.attribute?.toList := by
      rw [List.filterMap_append, List.filterMap_cons, List.filterMap_nil]
      cases item.attribute? <;> rfl
    refine ⟨?_, ?_⟩
    · change ((draft.items ++ [item]).filterMap Item.attribute?).map Prod.fst = _
      rw [hitems, List.map_append, h.declared, List.filterMap_append, List.filterMap_cons,
        List.filterMap_nil, ← hattribute]
      cases item.attribute? <;> rfl
    · change ArePlaced d _ ((draft.items ++ [item]).filterMap Item.attribute?)
      rw [hitems]
      exact hplaced
  | pooled hu =>
    refine ⟨h.declared.trans (hnone ?_).symm, h.placed⟩
    cases entry with
    | vertexAttribute => cases hu
    | colorOutput | varying | uniform | textureField | block => rfl
  | nothing => exact ⟨h.declared.trans (hnone rfl).symm, h.placed⟩

/-- **The attributes of a stage**: those that are declared, in order, if it is the vertex stage.
They are placed behind one another. -/
theorem draftStage_attributes (h : draftStage d decls textures stage colors a = .ok draft) :
    (draft.items.filterMap Item.attribute?).map Prod.fst =
        (if stage = .vertex then decls.attributes else []) ∧
      ∃ next, ArePlaced d next (draft.items.filterMap Item.attribute?) := by
  obtain ⟨last, hlast, hclose⟩ := draftStage_induction
    (motive := fun entries draft => draft.PlacesAttributes d entries)
    ⟨rfl, fun p hp => absurd hp List.not_mem_nil, fun p hp => absurd hp List.not_mem_nil, .nil⟩
    (fun _ _ _ _ hc hadds => hc.add hadds) h
  obtain ⟨hdeclared, hplaced⟩ := hlast
  have hitems : draft.items.filterMap Item.attribute? =
      last.items.filterMap Item.attribute? := by
    rcases Draft.closePool_eq_ok hclose with ⟨-, rfl⟩ | ⟨-, buffer, -, rfl⟩
    · rfl
    · change (last.items ++ [_]).filterMap _ = _
      rw [List.filterMap_append]
      exact List.append_nil _
  rw [hitems]
  exact ⟨hdeclared.trans attributes_stageEntries, _, hplaced⟩

/-- A fragment stage has no attributes. -/
theorem attributes_of_fragment {body : String} {finished : FinishedStage}
    (h : assembleStage d decls textures .fragment colors body a = .ok finished) :
    finished.items.filterMap Item.attribute? = [] := by
  obtain ⟨draft, hdraft, -, hitems, -⟩ := assembleStage_eq_ok h
  rw [hitems, ← List.map_eq_nil_iff (f := Prod.fst), (draftStage_attributes hdraft).1]
  rfl

/-- **The attributes of a program** are those that are declared, in order, and they are placed
behind one another. -/
theorem assemble_attributes {vertexBody fragmentBody : String} {program : Assembly}
    (h : assemble d decls textures (.graphics vertexBody fragmentBody colors) = .ok program) :
    (program.items.filterMap Item.attribute?).map Prod.fst = decls.attributes ∧
      ∃ next, ArePlaced d next (program.items.filterMap Item.attribute?) := by
  obtain ⟨vertex, fragment, hvertex, hfragment, rfl⟩ := assemble_graphics_eq_ok_iff.mp h
  obtain ⟨draft, hdraft, -, hitems, -⟩ := assembleStage_eq_ok hvertex
  dsimp only
  rw [List.filterMap_append, attributes_of_fragment hfragment, List.append_nil, hitems]
  exact draftStage_attributes hdraft

/-! ## What is read -/

/-- What an attribute claims. -/
def AttributeDecl.claimant (x : AttributeDecl) (location : Option Nat) : Claimant :=
  ⟨x.name, x.ty.locations, location⟩

/-- **The attributes among some items claim locations** if they are used. -/
theorem usedAttributes_items (items : List Item) (source : Text) :
    usedAttributes (items.filterMap (Item.declaration? true source)) =
      ((items.filterMap Item.attribute?).filter
        fun p => isUsed source p.1.name.toList).map fun p => p.1.claimant p.2 := by
  induction items with
  | nil => rfl
  | cons item items ih =>
    have hhead : usedAttributes (item.declaration? true source).toList =
        (item.attribute?.toList.filter fun p => isUsed source p.1.name.toList).map
          fun p => p.1.claimant p.2 := by
      cases item with
      | vertexAttribute qualifier precision location x =>
        change attributeClaimants (List.filter _ [_]) = (List.filter _ [_]).map _
        simp only [List.filter_cons]
        cases isUsed source x.name.toList <;> rfl
      | colorOutput | varying => rfl
      | uniform precision u =>
        refine HasNoInput.usedAttributes_eq fun x hx n hn => ?_
        obtain rfl := List.mem_singleton.mp hx
        dsimp only at hn
        split at hn <;> cases hn
      | opaqueUniform | block | uniformBlock =>
        refine HasNoInput.usedAttributes_eq fun x hx n hn => ?_
        obtain rfl := List.mem_singleton.mp hx
        cases hn
    have hdeclarations : (item :: items).filterMap (Item.declaration? true source) =
        (item.declaration? true source).toList ++
          items.filterMap (Item.declaration? true source) := by
      rw [List.filterMap_cons]
      cases item.declaration? true source <;> rfl
    have hattributes : (item :: items).filterMap Item.attribute? =
        item.attribute?.toList ++ items.filterMap Item.attribute? := by
      rw [List.filterMap_cons]
      cases item.attribute? <;> rfl
    rw [hdeclarations, hattributes, usedAttributes_append, ih, hhead, List.filter_append,
      List.map_append]

/-- The body of a vertex stage declares no input of its own. -/
def Dialect.ReadsNoInput (d : Dialect) (body : String) : Prop :=
  ∀ lowered source ds, lower d body.toList = .ok lowered →
    readLines true source (lines lowered.text) = .ok ds → HasNoInput ds

/-- **The attributes that claim locations in a program** are those that the vertex stage uses, if
its body declares none. -/
theorem usedAttributes_of_graphics {target : Target} {vertexBody fragmentBody : String}
    {program : Assembly} {ds : List Declaration} (hnames : decls.IsNamed)
    (hfields : ∀ t ∈ textures, ∀ f ∈ t.fields, IsName f.name.toList)
    (hbody : target.dialect.ReadsNoInput vertexBody)
    (h : assemble target.dialect decls textures (.graphics vertexBody fragmentBody colors) =
      .ok program)
    (hread : readProgram program.texts = .ok ds) :
    ∃ text, program.texts.text? .vertex = some text ∧
      usedAttributes ds = ((program.items.filterMap Item.attribute?).filter
        fun p => isUsed text.toList p.1.name.toList).map fun p => p.1.claimant p.2 := by
  obtain ⟨vertex, fragment, hvertex, hfragment, rfl⟩ := assemble_graphics_eq_ok_iff.mp h
  obtain ⟨v, hv, f, hf, rfl⟩ : ∃ v, readStage true vertex.text.toList = .ok v ∧
      ∃ f, readStage false fragment.text.toList = .ok f ∧ v ++ f = ds := by
    simpa only [readProgram, bind_eq_ok, pure_eq_ok] using hread
  obtain ⟨lowered, others, hlower, hothers, rfl⟩ :=
    exists_readLines_of_assembleStage hnames hfields hvertex hv
  refine ⟨vertex.text, rfl, ?_⟩
  dsimp only
  rw [usedAttributes_append, usedAttributes_append, (hasNoInput_readStage hf).usedAttributes_eq,
    (hbody _ _ _ hlower hothers).usedAttributes_eq, List.append_nil, List.append_nil,
    List.filterMap_append, attributes_of_fragment hfragment, List.append_nil]
  exact usedAttributes_items vertex.items vertex.text.toList

end ShaderLoom
