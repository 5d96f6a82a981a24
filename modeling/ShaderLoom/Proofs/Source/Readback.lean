import ShaderLoom.Proofs.Source.Entry
import ShaderLoom.Proofs.Source.Stage

/-!
# Reading back a stage

`stageDeclarations` lists what a stage declares to a reader, by name and kind. A uniform that goes
into the pool is not listed; instead the block of the pool is, behind everything else.
**`readStage_assembleStage`** says that this is what a reader finds first in the finished text, in
this order and with the numbers that are written, whatever the dialect.
-/

namespace ShaderLoom

open Text Reading

variable {d : Dialect} {stage : Stage} {draft draft' : Draft} {decls : Declarations}
  {textures : List ExpandedTexture} {colors : Nat} {a a' : Allocator} {item : Item}
  {entry : StageEntry} {source : Text}

/-! ## What is declared -/

/-- A declaration by its name and kind. -/
abbrev Outline := String × DeclarationKind

/-- The name and the kind of a declaration that was read. -/
def Reading.Declaration.outline (x : Declaration) : Outline := (x.name, x.kind)

namespace StageEntry

/-- What an entry declares to a reader on a line of its own. Only the vertex stage has
attributes. -/
def outline? (d : Dialect) (vertex : Bool) (entry : StageEntry) : Option Outline :=
  match entry.uniform? with
  | some u =>
    if d.pools u then none else some (u.name, if u.ty.isOpaque then .sampler else .uniform)
  | none =>
    match entry with
    | .textureField _ f => some (f.name, .sampler)
    | .block b => some (b.identifier, .block b.block.kind)
    | .vertexAttribute a => if vertex then some (a.name, .vertexAttribute a.ty.locations) else none
    | _ => none

theorem outline?_of_uniform? (vertex : Bool) {u : UniformDecl} (hu : entry.uniform? = some u) :
    entry.outline? d vertex =
      if d.pools u then none
      else some (u.name, if u.ty.isOpaque then .sampler else .uniform) := by
  unfold outline?
  rw [hu]

/-- The uniform that an entry puts into the pool. -/
def pooled? (d : Dialect) (entry : StageEntry) : Option UniformDecl := entry.uniform?.filter d.pools

end StageEntry

/-- What a stage declares to a reader, in order. -/
def stageDeclarations (d : Dialect) (decls : Declarations) (textures : List ExpandedTexture)
    (stage : Stage) (colors : Nat) : List Outline :=
  let entries := stageEntries decls textures stage colors
  entries.filterMap (StageEntry.outline? d (stage = .vertex)) ++
    if entries.filterMap (StageEntry.pooled? d) = [] then []
    else [(stage.uniformBlockName, .block .uniform)]

/-! ## Items of entries -/

/-- An entry with an item has no place in the pool, and declares what its item declares. -/
theorem StageEntry.Yields.outline?_eq (h : entry.Yields d stage a item a') (source : Text) :
    (item.declaration? (decide (stage = .vertex)) source).map Declaration.outline =
        entry.outline? d (stage = .vertex) ∧ entry.pooled? d = none := by
  cases h with
  | colorOutput colors hd => exact ⟨rfl, rfl⟩
  | varyingOut v hstage => exact ⟨rfl, rfl⟩
  | varyingIn v hstage => exact ⟨rfl, rfl⟩
  | uniform hu hblock hpool =>
    refine ⟨?_, ?_⟩
    · rw [outline?_of_uniform? _ hu, hpool]
      rfl
    · rw [pooled?, hu, Option.filter_some, hpool, if_neg (by decide)]
  | opaqueField hty himage =>
    have hnone : ∀ t f, f.ty.isOpaque = true → (textureField t f).uniform? = none :=
      fun t f hty => if_pos hty
    refine ⟨?_, ?_⟩
    · unfold outline?
      rw [hnone _ _ hty]
      rfl
    · rw [pooled?, hnone _ _ hty]
      rfl
  | block b => exact ⟨rfl, rfl⟩
  | vertexAttribute x =>
    refine ⟨?_, rfl⟩
    unfold Item.declaration? outline?
    by_cases hstage : stage = .vertex <;> simp [hstage, uniform?, Declaration.outline]

/-- The name of a uniform is the name of its entry. -/
theorem StageEntry.IsNamed.uniform? (hnamed : entry.IsNamed) {u : UniformDecl}
    (hu : entry.uniform? = some u) : IsName u.name.toList := by
  cases entry with
  | uniform v =>
    cases hu
    exact hnamed
  | textureField t f =>
    rw [StageEntry.uniform?] at hu
    split at hu
    · cases hu
    · cases hu
      exact hnamed
  | colorOutput | varying | block | vertexAttribute => cases hu

/-- **The item of a named entry is readable.** -/
theorem StageEntry.Yields.isReadable (h : entry.Yields d stage a item a') (hnamed : entry.IsNamed) :
    item.IsReadable (decide (stage = .vertex)) := by
  cases h with
  | colorOutput colors hd => trivial
  | varyingOut v hstage => exact ⟨hnamed, d.varyingQualifier_cases stage⟩
  | varyingIn v hstage => exact ⟨hnamed, d.varyingQualifier_cases stage⟩
  | uniform hu hblock hpool =>
    exact ⟨hnamed.uniform? hu, hblock, d.isPrecision_precisionQualifier _ _ _⟩
  | opaqueField hty himage =>
    exact ⟨hnamed, hty, d.isPrecision_precisionQualifier _ _ _,
      Draft.isIdentifier_of_imageAccess himage⟩
  | block b => exact hnamed
  | vertexAttribute x =>
    exact ⟨hnamed, d.inputQualifier_cases, d.isPrecision_precisionQualifier _ _ _⟩

/-! ## Whole drafts -/

/-- What a draft holds when it has gone through the entries. -/
structure Draft.Holds (d : Dialect) (stage : Stage) (source : Text) (entries : List StageEntry)
    (draft : Draft) : Prop where
  /-- the items are readable -/
  isReadable : (∀ entry ∈ entries, entry.IsNamed) →
    ∀ item ∈ draft.items, item.IsReadable (decide (stage = .vertex))
  /-- the items declare what the entries declare -/
  outlines : (draft.items.filterMap (Item.declaration? (decide (stage = .vertex)) source)).map
    Declaration.outline = entries.filterMap (StageEntry.outline? d (stage = .vertex))
  /-- the fields of the pool are called like the uniforms that go there -/
  pool : draft.pool.fields.map (·.name) =
    (entries.filterMap (StageEntry.pooled? d)).map (·.name)
  /-- the pool is a uniform block -/
  kind : draft.pool.kind = .uniform

theorem Draft.Holds.start (d : Dialect) (stage : Stage) (source : Text) (a : Allocator) :
    (Draft.start a).Holds d stage source [] := by
  refine ⟨fun _ item hitem => ?_, rfl, rfl, rfl⟩
  cases hitem

/-- **Adding an entry.** -/
theorem Draft.Holds.add {entries : List StageEntry} (h : draft.Holds d stage source entries)
    (hadds : draft.Adds d stage entry draft') :
    draft'.Holds d stage source (entries ++ [entry]) := by
  obtain ⟨hreadable, houtlines, hpool, hkind⟩ := h
  have hnamed : (∀ e ∈ entries ++ [entry], e.IsNamed) →
      (∀ e ∈ entries, e.IsNamed) ∧ entry.IsNamed := fun h =>
    ⟨fun e he => h e (List.mem_append_left _ he),
      h entry (List.mem_append_right _ (List.mem_singleton_self _))⟩
  cases hadds with
  | @item _ item a hyields =>
    obtain ⟨houtline, hnotpooled⟩ := hyields.outline?_eq source
    refine ⟨fun h i hi => ?_, ?_, ?_, hkind⟩
    · rcases List.mem_append.mp hi with hi | hi
      · exact hreadable (hnamed h).1 i hi
      · obtain rfl := List.mem_singleton.mp hi
        exact hyields.isReadable (hnamed h).2
    · change ((draft.items ++ [item]).filterMap _).map _ = _
      rw [List.filterMap_append, List.filterMap_append, List.map_append, houtlines,
        List.filterMap_cons, List.filterMap_cons, ← houtline]
      cases item.declaration? (decide (stage = .vertex)) source <;> rfl
    · change draft.pool.fields.map _ = _
      rw [hpool, List.filterMap_append, List.filterMap_cons, hnotpooled, List.filterMap_nil,
        List.append_nil]
  | @pooled _ u pool hu hd hextend =>
    obtain ⟨-, hkind', f, hfields, hname, -⟩ := Block.extend_eq_ok hextend
    have hpooled : entry.pooled? d = some u := by
      rw [StageEntry.pooled?, hu, Option.filter_some, if_pos hd]
    have houtline : entry.outline? d (stage = .vertex) = none := by
      rw [StageEntry.outline?_of_uniform? _ hu, if_pos hd]
    refine ⟨fun h => hreadable (hnamed h).1, ?_, ?_, hkind'.trans hkind⟩
    · rw [List.filterMap_append, List.filterMap_cons, houtline, List.filterMap_nil,
        List.append_nil]
      exact houtlines
    · rw [hfields, List.map_append, hpool, List.filterMap_append, List.filterMap_cons, hpooled,
        List.map_append]
      exact congrArg (_ ++ [·]) hname
  | nothing colors hd =>
    refine ⟨fun h => hreadable (hnamed h).1, ?_, ?_, hkind⟩
    · rw [List.filterMap_append, houtlines]
      exact (List.append_nil _).symm
    · rw [List.filterMap_append, hpool]
      exact congrArg _ (List.append_nil _).symm

/-- **The items of a stage** declare what the stage declares, and are readable if everything is
named. -/
theorem draftStage_declarations (source : Text)
    (h : draftStage d decls textures stage colors a = .ok draft) :
    ((∀ entry ∈ stageEntries decls textures stage colors, entry.IsNamed) →
        ∀ item ∈ draft.items, item.IsReadable (decide (stage = .vertex))) ∧
      (draft.items.filterMap (Item.declaration? (decide (stage = .vertex)) source)).map
        Declaration.outline = stageDeclarations d decls textures stage colors := by
  obtain ⟨last, ⟨hreadable, houtlines, hpool, hkind⟩, hclose⟩ :=
    draftStage_induction (motive := fun entries draft => draft.Holds d stage source entries)
      (.start d stage source a) (fun _ _ _ _ hc hadds => hc.add hadds) h
  have hempty : (stageEntries decls textures stage colors).filterMap (StageEntry.pooled? d) = [] ↔
      last.pool.fields = [] := by
    rw [← List.map_eq_nil_iff (f := (·.name)), ← hpool, List.map_eq_nil_iff]
  rw [stageDeclarations]
  rcases Draft.closePool_eq_ok hclose with ⟨hfields, rfl⟩ | ⟨hfields, buffer, -, rfl⟩
  · refine ⟨hreadable, ?_⟩
    rw [if_pos (hempty.mpr hfields), List.append_nil, houtlines]
  · refine ⟨fun hnamed item hitem => ?_, ?_⟩
    · rcases List.mem_append.mp hitem with hitem | hitem
      · exact hreadable hnamed item hitem
      · obtain rfl := List.mem_singleton.mp hitem
        intro f hf
        have hname : f.name ∈ last.pool.fields.map (·.name) := List.mem_map_of_mem hf
        rw [hpool] at hname
        obtain ⟨u, hu, hname⟩ := List.mem_map.mp hname
        obtain ⟨entry, hentry, hpooled⟩ := List.mem_filterMap.mp hu
        rw [← hname]
        exact (hnamed entry hentry).uniform? (Option.eq_some_of_filter_eq_some hpooled)
    · change ((last.items ++ [_]).filterMap _).map _ = _
      rw [if_neg (mt hempty.mp hfields), List.filterMap_append, List.map_append, houtlines,
        ← hkind]
      rfl

/-! ## Finished stages -/

section

variable {target : Target} {body text : String} {lowered : Lowered} {finished : FinishedStage}
  {ds : List Declaration}

/-- Assembling a stage drafts it, and finishes its text. -/
theorem assembleStage_eq_ok
    (h : assembleStage d decls textures stage colors body a = .ok finished) :
    ∃ draft, draftStage d decls textures stage colors a = .ok draft ∧
      (StageSource.mk (d.preamble stage (!decls.textures.isEmpty) colors) finished.items
        body).finish d = .ok finished.text ∧
      finished.items = draft.items ∧ finished.allocator = draft.allocator := by
  obtain ⟨draft, hdraft, h⟩ := bind_eq_ok.mp h
  obtain ⟨text, hfinish, h⟩ := bind_eq_ok.mp h
  cases h
  exact ⟨draft, hdraft, hfinish, rfl, rfl⟩

/-- **A stage of named declarations is assembled** exactly when it is drafted, its declarations have
no calls, and its body can be lowered. -/
theorem assembleStage_eq_ok_iff (hnames : decls.IsNamed)
    (hfields : ∀ t ∈ textures, ∀ f ∈ t.fields, IsName f.name.toList) :
    assembleStage target.dialect decls textures stage colors body a = .ok finished ↔
      ∃ draft lowered, draftStage target.dialect decls textures stage colors a = .ok draft ∧
        (∀ line ∈ draft.items.flatMap Item.lines, CallFree line) ∧
        lower target.dialect body.toList = .ok lowered ∧
        finished.text.toList = StageSource.stageText target.dialect stage
          (!decls.textures.isEmpty) colors draft.items lowered.text ∧
        finished.items = draft.items ∧ finished.allocator = draft.allocator := by
  have hreadable : ∀ draft, draftStage target.dialect decls textures stage colors a = .ok draft →
      ∀ item ∈ draft.items, item.IsReadable (decide (stage = .vertex)) := fun draft hdraft =>
    (draftStage_declarations [] hdraft).1 (isNamed_of_mem_stageEntries hnames hfields)
  constructor
  · intro h
    obtain ⟨draft, hdraft, hfinish, hitems, hallocator⟩ := assembleStage_eq_ok h
    rw [hitems] at hfinish
    obtain ⟨hfree, lowered, hlowered, htext⟩ :=
      (StageSource.finish_eq_ok_iff (hreadable draft hdraft)).mp hfinish
    exact ⟨draft, lowered, hdraft, hfree, hlowered, htext, hitems, hallocator⟩
  · rintro ⟨draft, lowered, hdraft, hfree, hlowered, htext, hitems, hallocator⟩
    have hfinish := (StageSource.finish_eq_ok_iff (hreadable draft hdraft)).mpr
      ⟨hfree, lowered, hlowered, htext⟩
    obtain ⟨text, items, allocator⟩ := finished
    dsimp only at hitems hallocator
    subst hitems hallocator
    exact bind_eq_ok.mpr ⟨draft, hdraft, bind_eq_ok.mpr ⟨text, hfinish, rfl⟩⟩

/-- A named stage that can be drafted can be assembled. -/
theorem exists_assembleStage {draft : Draft} (hnames : decls.IsNamed)
    (hfields : ∀ t ∈ textures, ∀ f ∈ t.fields, IsName f.name.toList)
    (hdraft : draftStage target.dialect decls textures stage colors a = .ok draft)
    (hfree : ∀ line ∈ draft.items.flatMap Item.lines, CallFree line)
    (hlower : lower target.dialect body.toList = .ok lowered) :
    ∃ text : String, text.toList = StageSource.stageText target.dialect stage
        (!decls.textures.isEmpty) colors draft.items lowered.text ∧
      assembleStage target.dialect decls textures stage colors body a =
        .ok ⟨text, draft.items, draft.allocator⟩ :=
  ⟨String.ofList _, String.toList_ofList, (assembleStage_eq_ok_iff hnames hfields).mpr
    ⟨draft, lowered, hdraft, hfree, hlower, String.toList_ofList, rfl, rfl⟩⟩

/-- **What is read of a stage** is what its items declare, and then what its body declares. -/
theorem exists_readLines_of_assembleStage (hnames : decls.IsNamed)
    (hfields : ∀ t ∈ textures, ∀ f ∈ t.fields, IsName f.name.toList)
    (h : assembleStage target.dialect decls textures stage colors body a = .ok finished)
    (hread : readStage (decide (stage = .vertex)) finished.text.toList = .ok ds) :
    ∃ lowered others, lower target.dialect body.toList = .ok lowered ∧
      readLines (decide (stage = .vertex)) finished.text.toList (lines lowered.text) =
        .ok others ∧
      ds = finished.items.filterMap
        (Item.declaration? (decide (stage = .vertex)) finished.text.toList) ++ others := by
  obtain ⟨draft, lowered, hdraft, -, hlower, htext, hitems, -⟩ :=
    (assembleStage_eq_ok_iff hnames hfields).mp h
  have hreadable := (draftStage_declarations [] hdraft).1
    (isNamed_of_mem_stageEntries hnames hfields)
  obtain ⟨-, -, others, hothers, rfl⟩ :=
    (StageSource.readStage_eq_ok_iff hreadable htext).mp hread
  exact ⟨lowered, others, hlower, hothers, by rw [hitems]⟩

/-- **What a stage writes is read back**: a reader who accepts the finished text of a stage finds
first what the stage declares, in order and one declaration for each. Every number that an item
writes is read, and a declaration counts as used as it does in the text. -/
theorem readStage_assembleStage (hnames : decls.IsNamed)
    (hfields : ∀ t ∈ textures, ∀ f ∈ t.fields, IsName f.name.toList)
    (h : assembleStage target.dialect decls textures stage colors body a = .ok finished)
    (hread : readStage (decide (stage = .vertex)) finished.text.toList = .ok ds) :
    ∃ own others, ds = own ++ others ∧
      own.map Declaration.outline =
        stageDeclarations target.dialect decls textures stage colors ∧
      own = finished.items.filterMap
        (Item.declaration? (decide (stage = .vertex)) finished.text.toList) := by
  obtain ⟨lowered, others, -, -, hds⟩ := exists_readLines_of_assembleStage hnames hfields h hread
  obtain ⟨draft, hdraft, -, hitems, -⟩ := assembleStage_eq_ok h
  have houtlines := (draftStage_declarations finished.text.toList hdraft).2
  rw [← hitems] at houtlines
  exact ⟨_, others, hds, houtlines, rfl⟩

end

/-- A plain uniform, a storage block without an instance name, and a matrix. -/
def mixedDeclarations : Declarations where
  uniforms := [{ name := "u", ty := .float, stage := .vertex }]
  blocks := [{ name := "b", stage := .vertex, block := .empty .std430 .storage,
               instanceName := some "" }]
  attributes := [{ name := "m", ty := .mat4, format := .rgba32Float }]

theorem isNamed_mixedDeclarations : mixedDeclarations.IsNamed := by
  refine ⟨by decide, by decide, by decide, fun b hb c hc => ?_, by decide, by decide, by decide⟩
  obtain rfl := List.mem_singleton.mp hb
  cases hc

/-- A vertex stage for Vulkan: the plain uniform stands in the last block. -/
theorem readStage_assembleStage_vulkan :
    ∃ finished ds own others,
      assembleStage (Target.dialect { api := .vulkan, version := 0 }) mixedDeclarations [] .vertex 1
        "" .start = .ok finished ∧
      readStage true finished.text.toList = .ok ds ∧ ds = own ++ others ∧
      own.map Declaration.outline =
        [("b_block", .block .storage), ("m", .vertexAttribute 4),
          ("ngl_vert_block", .block .uniform)] := by
  obtain ⟨draft, hdraft⟩ : ∃ draft, draftStage (Target.dialect { api := .vulkan, version := 0 })
    mixedDeclarations [] .vertex 1 .start = .ok draft := ⟨_, rfl⟩
  have hcheck : (∀ line ∈ draft.items.flatMap Item.lines, CallFree line) ∧
      ∀ item ∈ draft.items, item.Fits := by
    cases hdraft
    exact ⟨by decide +kernel, by decide +kernel⟩
  have hempty : lower (Target.dialect { api := .vulkan, version := 0 }) "".toList = .ok ⟨[], 0⟩ :=
    lower_nil
  obtain ⟨text, htext, hfinished⟩ :=
    exists_assembleStage isNamed_mixedDeclarations (by decide) hdraft hcheck.1 hempty
  have hreadable := (draftStage_declarations [] hdraft).1
    (isNamed_of_mem_stageEntries isNamed_mixedDeclarations (by decide))
  have hds := (StageSource.readStage_eq_ok_iff hreadable htext).mpr
    ⟨rfl, hcheck.2, [], by simp [readLines], rfl⟩
  obtain ⟨own, others, hsplit, houtlines, -⟩ :=
    readStage_assembleStage isNamed_mixedDeclarations (by decide) hfinished hds
  exact ⟨_, _, own, others, hfinished, hds, hsplit, houtlines⟩

end ShaderLoom
