import ShaderLoom.Proofs.Block.Layout
import ShaderLoom.Proofs.Source.Draft

/-!
# The entries of a stage

What a stage declares are its **entries**, in the order in which they are drafted. Drafting a stage
adds one entry after the other and closes the pool behind them (**`draftStage_eq`**), so what adding
one entry preserves, drafting preserves.

There are three things that can come of an entry (`Draft.Adds`): an item, with the numbers that the
allocator hands out for it; a field of the pool; or nothing, for the color output of a dialect that
has no variable for it.
-/

namespace ShaderLoom

open Text Reading

variable {d : Dialect} {stage : Stage} {draft draft' : Draft} {decls : Declarations}
  {textures : List ExpandedTexture} {colors : Nat} {a a' : Allocator} {item : Item}

/-! ## Entries -/

/-- One thing that a stage declares. -/
inductive StageEntry where
  /-- the color output of a fragment stage -/
  | colorOutput (colors : Nat)
  /-- a variable between the stages -/
  | varying (v : VaryingDecl)
  /-- a loose uniform -/
  | uniform (u : UniformDecl)
  /-- a field of a texture -/
  | textureField (t : ExpandedTexture) (f : ExpandedField)
  /-- a block -/
  | block (b : BlockDecl)
  /-- a vertex attribute -/
  | vertexAttribute (a : AttributeDecl)

namespace StageEntry

/-- The uniform that an entry declares, if it is one: a field of a texture is, unless it is a
sampler or an image. -/
def uniform? : StageEntry → Option UniformDecl
  | .uniform u => some u
  | .textureField _ f =>
    if f.ty.isOpaque then none else some { name := f.name, ty := f.ty, stage := f.stage }
  | _ => none

/-- The name of an entry is an identifier; so is every name in a block, but the instance name may
be empty. -/
def IsNamed : StageEntry → Prop
  | .colorOutput _ => True
  | .varying v => IsName v.name.toList
  | .uniform u => IsName u.name.toList
  | .textureField _ f => IsName f.name.toList
  | .block b => IsName b.name.toList ∧
      (∀ c ∈ b.instanceIdentifier.toList, isIdentifier c = true) ∧
      ∀ f ∈ b.block.fields, IsName f.name.toList
  | .vertexAttribute a => IsName a.name.toList

/-- The entry belongs to a stage. -/
def IsFor (stage : Stage) : StageEntry → Prop
  | .uniform u => u.stage = stage
  | .textureField _ f => f.stage = stage
  | .block b => b.stage = stage
  | .colorOutput _ | .varying _ | .vertexAttribute _ => True

end StageEntry

/-- The entries of a stage. -/
def stageEntries (decls : Declarations) (textures : List ExpandedTexture) (stage : Stage)
    (colors : Nat) : List StageEntry :=
  (if stage = .fragment then [.colorOutput colors] else []) ++
    (if stage = .compute then [] else decls.varyings.map .varying) ++
    (decls.uniforms.filter (·.stage = stage)).map .uniform ++
    textures.flatMap (fun t => (t.fields.filter (·.stage = stage)).map (.textureField t)) ++
    (decls.blocks.filter (·.stage = stage)).map .block ++
    if stage = .vertex then decls.attributes.map .vertexAttribute else []

/-- **The entries of a stage** are what is declared for it. -/
theorem forall_mem_stageEntries {P : StageEntry → Prop}
    (colorOutput : P (.colorOutput colors)) (varying : ∀ v ∈ decls.varyings, P (.varying v))
    (uniform : ∀ u ∈ decls.uniforms, u.stage = stage → P (.uniform u))
    (field : ∀ t ∈ textures, ∀ f ∈ t.fields, f.stage = stage → P (.textureField t f))
    (block : ∀ b ∈ decls.blocks, b.stage = stage → P (.block b))
    (vertexAttribute : stage = .vertex → ∀ x ∈ decls.attributes, P (.vertexAttribute x)) :
    ∀ entry ∈ stageEntries decls textures stage colors, P entry := by
  intro entry hentry
  simp only [stageEntries, List.mem_append] at hentry
  rcases hentry with ((((hentry | hentry) | hentry) | hentry) | hentry) | hentry
  · split at hentry
    · obtain rfl := List.mem_singleton.mp hentry
      exact colorOutput
    · cases hentry
  · split at hentry
    · cases hentry
    · obtain ⟨v, hv, rfl⟩ := List.mem_map.mp hentry
      exact varying v hv
  · obtain ⟨u, hu, rfl⟩ := List.mem_map.mp hentry
    obtain ⟨hu, hstage⟩ := List.mem_filter.mp hu
    exact uniform u hu (by simpa using hstage)
  · obtain ⟨t, ht, hentry⟩ := List.mem_flatMap.mp hentry
    obtain ⟨f, hf, rfl⟩ := List.mem_map.mp hentry
    obtain ⟨hf, hstage⟩ := List.mem_filter.mp hf
    exact field t ht f hf (by simpa using hstage)
  · obtain ⟨b, hb, rfl⟩ := List.mem_map.mp hentry
    obtain ⟨hb, hstage⟩ := List.mem_filter.mp hb
    exact block b hb (by simpa using hstage)
  · split at hentry
    · next hstage =>
      obtain ⟨x, hx, rfl⟩ := List.mem_map.mp hentry
      exact vertexAttribute hstage x hx
    · cases hentry

theorem mem_stageEntries_of_mem_fields {t : ExpandedTexture} {f : ExpandedField} (ht : t ∈ textures)
    (hf : f ∈ t.fields) (colors : Nat) :
    .textureField t f ∈ stageEntries decls textures f.stage colors := by
  simp only [stageEntries, List.mem_append, List.mem_flatMap, List.mem_map, List.mem_filter]
  exact .inl (.inl (.inr ⟨t, ht, f, ⟨hf, by simp⟩, rfl⟩))

/-- The entries of named declarations are named. -/
theorem isNamed_of_mem_stageEntries (hnames : decls.IsNamed)
    (hfields : ∀ t ∈ textures, ∀ f ∈ t.fields, IsName f.name.toList) :
    ∀ entry ∈ stageEntries decls textures stage colors, entry.IsNamed :=
  forall_mem_stageEntries trivial hnames.varyings (fun u hu _ => hnames.uniforms u hu)
    (fun t ht f hf _ => hfields t ht f hf)
    (fun b hb _ => ⟨hnames.blocks b hb, hnames.instances b hb, hnames.fields b hb⟩)
    fun _ x hx => hnames.attributes x hx

theorem isFor_of_mem_stageEntries :
    ∀ entry ∈ stageEntries decls textures stage colors, entry.IsFor stage :=
  forall_mem_stageEntries trivial (fun _ _ => trivial) (fun _ _ h => h) (fun _ _ _ _ h => h)
    (fun _ _ h => h) fun _ _ _ => trivial

/-! ## Drafting entry by entry -/

/-- Add one entry to a draft. -/
def Draft.add (d : Dialect) (stage : Stage) (draft : Draft) : StageEntry → Except Error Draft
  | .colorOutput colors => .ok (draft.addColorOutput d colors)
  | .varying v => .ok (draft.addVarying d stage v)
  | .uniform u => draft.addUniform d u
  | .textureField t f => draft.addTextureField d t f
  | .block b => .ok (draft.addBlock d b)
  | .vertexAttribute a => .ok (draft.addAttribute d a)

/-- Entries that are added without an error are added by a fold. -/
theorem Draft.foldlM_add_map {α : Type} {f : Draft → α → Draft} {entry : α → StageEntry}
    (hadd : ∀ draft x, Draft.add d stage draft (entry x) = .ok (f draft x)) (xs : List α)
    (draft : Draft) :
    (xs.map entry).foldlM (Draft.add d stage) draft = .ok (xs.foldl f draft) := by
  induction xs generalizing draft with
  | nil => rfl
  | cons x xs ih =>
    rw [List.map_cons, List.foldlM_cons, hadd]
    exact ih (f draft x)

/-- The fields of all textures are added texture by texture. -/
theorem Draft.foldlM_add_textureFields (ts : List ExpandedTexture) (draft : Draft) :
    (ts.flatMap fun t => (t.fields.filter (·.stage = stage)).map (.textureField t)).foldlM
      (Draft.add d stage) draft = ts.foldlM (Draft.addTexture d stage) draft := by
  induction ts generalizing draft with
  | nil => rfl
  | cons t ts ih =>
    rw [List.flatMap_cons, List.foldlM_append, List.foldlM_cons, List.foldlM_map]
    exact congrArg _ (funext ih)

/-- The color output comes first, in a fragment stage. -/
theorem Draft.foldlM_add_outputs (d : Dialect) (stage : Stage) (colors : Nat) (draft : Draft) :
    (if stage = .fragment then [StageEntry.colorOutput colors] else []).foldlM (Draft.add d stage)
      draft = .ok (if stage = .fragment then draft.addColorOutput d colors else draft) := by
  split <;> rfl

/-- **Drafting a stage** adds its entries one after the other. -/
theorem draftStage_eq (d : Dialect) (decls : Declarations) (textures : List ExpandedTexture)
    (stage : Stage) (colors : Nat) (a : Allocator) :
    draftStage d decls textures stage colors a =
      (stageEntries decls textures stage colors).foldlM (Draft.add d stage) (Draft.start a) >>=
        Draft.closePool d stage := by
  have hvaryings : ∀ draft : Draft,
      (if stage = .compute then [] else decls.varyings.map StageEntry.varying).foldlM
        (Draft.add d stage) draft =
        .ok (if stage = .compute then draft
          else decls.varyings.foldl (Draft.addVarying d stage) draft) := by
    intro draft
    split
    · rfl
    · exact Draft.foldlM_add_map (fun _ _ => rfl) _ draft
  have hattributes : ∀ draft : Draft,
      (if stage = .vertex then decls.attributes.map StageEntry.vertexAttribute else []).foldlM
        (Draft.add d stage) draft =
        .ok (if stage = .vertex then decls.attributes.foldl (Draft.addAttribute d) draft
          else draft) := by
    intro draft
    split
    · exact Draft.foldlM_add_map (fun _ _ => rfl) _ draft
    · rfl
  have hblocks : ∀ draft : Draft,
      ((decls.blocks.filter (·.stage = stage)).map StageEntry.block).foldlM (Draft.add d stage)
        draft = .ok ((decls.blocks.filter (·.stage = stage)).foldl (Draft.addBlock d) draft) :=
    Draft.foldlM_add_map (fun _ _ => rfl) _
  have huniforms : ∀ draft : Draft,
      ((decls.uniforms.filter (·.stage = stage)).map StageEntry.uniform).foldlM (Draft.add d stage)
        draft = (decls.uniforms.filter (·.stage = stage)).foldlM (Draft.addUniform d) draft :=
    fun draft => List.foldlM_map ..
  simp only [stageEntries, List.foldlM_append, Draft.foldlM_add_outputs, hvaryings, huniforms,
    Draft.foldlM_add_textureFields, hblocks, hattributes, draftStage, bind_assoc]
  rfl

/-! ## What comes of an entry -/

/-- The uniform goes into the pool. -/
def Dialect.pools (d : Dialect) (u : UniformDecl) : Bool := d.consolidatesUniforms && !u.ty.isOpaque

/-- The item of an entry, and the allocator behind it. -/
inductive StageEntry.Yields (d : Dialect) (stage : Stage) (a : Allocator) :
    StageEntry → Item → Allocator → Prop
  /-- the color output, if it is a variable -/
  | colorOutput (colors : Nat) (hd : d.hasInOut = true) :
    Yields d stage a (.colorOutput colors)
      (.colorOutput (a.output d .fragment (max colors 1)).1 colors)
      (a.output d .fragment (max colors 1)).2
  /-- a variable that the vertex stage puts out -/
  | varyingOut (v : VaryingDecl) (hstage : stage = .vertex) :
    Yields d stage a (.varying v)
      (.varying (d.varyingQualifier stage) (a.output d stage v.ty.locations).1 v)
      (a.output d stage v.ty.locations).2
  /-- a variable that another stage takes in -/
  | varyingIn (v : VaryingDecl) (hstage : stage ≠ .vertex) :
    Yields d stage a (.varying v)
      (.varying (d.varyingQualifier stage) (a.input d stage v.ty.locations).1 v)
      (a.input d stage v.ty.locations).2
  /-- a uniform with a line of its own -/
  | uniform {entry : StageEntry} {u : UniformDecl} (hu : entry.uniform? = some u)
    (hblock : u.ty.isBlock = false) (hpool : d.pools u = false) :
    Yields d stage a entry (.uniform (d.precisionQualifier u.ty u.precision .high) u) a
  /-- a sampler or an image -/
  | opaqueField {t : ExpandedTexture} {f : ExpandedField} {image : Option ImageAccess}
    (hty : f.ty.isOpaque = true) (himage : Draft.imageAccess t = .ok image) :
    Yields d stage a (.textureField t f)
      (.opaqueUniform (d.precisionQualifier f.ty t.precision .low) image
        { name := f.name, ty := f.ty, stage := f.stage,
          binding := (a.binding d f.stage .texture).1, texture := t.texture })
      (a.binding d f.stage .texture).2
  /-- a block -/
  | block (b : BlockDecl) :
    Yields d stage a (.block b) (.block b (a.binding d b.stage (.ofBlock b.block.kind)).1)
      (a.binding d b.stage (.ofBlock b.block.kind)).2
  /-- a vertex attribute -/
  | vertexAttribute (x : AttributeDecl) :
    Yields d stage a (.vertexAttribute x)
      (.vertexAttribute d.inputQualifier (d.precisionQualifier x.ty x.precision .high)
        (a.input d .vertex x.ty.locations).1 x)
      (a.input d .vertex x.ty.locations).2

/-- What comes of an entry. -/
inductive Draft.Adds (d : Dialect) (stage : Stage) (draft : Draft) : StageEntry → Draft → Prop
  /-- an item -/
  | item {entry : StageEntry} {item : Item} {a : Allocator}
    (h : entry.Yields d stage draft.allocator item a) :
    Adds d stage draft entry ((draft.advanced a).push item)
  /-- a field of the pool -/
  | pooled {entry : StageEntry} {u : UniformDecl} {pool : Block} (hu : entry.uniform? = some u)
    (hd : d.pools u = true) (hpool : draft.pool.extend u.name u.ty u.count = .ok pool) :
    Adds d stage draft entry { draft with pool }
  /-- nothing, where the color output is no variable -/
  | nothing (colors : Nat) (hd : d.hasInOut = false) :
    Adds d stage draft (.colorOutput colors) draft

theorem Draft.adds_of_addUniform {entry : StageEntry} {u : UniformDecl}
    (hu : entry.uniform? = some u) (h : draft.addUniform d u = .ok draft') :
    draft.Adds d stage entry draft' := by
  rw [addUniform] at h
  split at h
  · cases h
  · next hblock =>
    split at h
    · next hpools =>
      split at h
      · cases h
      · next pool hpool =>
        cases h
        exact .pooled hu hpools hpool
    · next hpools =>
      cases h
      exact .item (.uniform hu (by simpa using hblock) (by simpa [Dialect.pools] using hpools))

/-- **Adding an entry** is one of these. -/
theorem Draft.adds_of_add {entry : StageEntry} (h : draft.add d stage entry = .ok draft') :
    draft.Adds d stage entry draft' := by
  cases entry with
  | colorOutput colors =>
    cases h
    rw [addColorOutput]
    split
    · next hd => exact .item (.colorOutput colors hd)
    · next hd => exact .nothing colors (by simpa using hd)
  | varying v =>
    cases h
    rw [addVarying]
    by_cases hstage : stage = .vertex
    · rw [if_pos hstage]
      exact .item (.varyingOut v hstage)
    · rw [if_neg hstage]
      exact .item (.varyingIn v hstage)
  | uniform u => exact adds_of_addUniform rfl h
  | textureField t f =>
    rw [add, addTextureField] at h
    split at h
    · next hty =>
      rw [addOpaque] at h
      split at h
      · cases h
      · next image himage =>
        cases h
        exact .item (.opaqueField hty himage)
    · next hty => exact adds_of_addUniform (by rw [StageEntry.uniform?, if_neg hty]) h
  | block b =>
    cases h
    exact .item (.block b)
  | vertexAttribute x =>
    cases h
    exact .item (.vertexAttribute x)

/-- The block of the plain uniforms of a stage, if there are any. -/
theorem Draft.closePool_eq_ok (h : draft.closePool d stage = .ok draft') :
    draft.pool.fields = [] ∧ draft' = draft ∨
      draft.pool.fields ≠ [] ∧ ∃ buffer, Buffer.create (poolBuffer stage draft.pool) = .ok buffer ∧
        draft' = (draft.advanced (draft.allocator.binding d stage .uniformBlock).2).push
          (.uniformBlock ⟨stage, draft.pool, buffer⟩
            (draft.allocator.binding d stage .uniformBlock).1) := by
  rw [closePool, Block.isEmpty] at h
  split at h
  · next hempty =>
    cases h
    exact .inl ⟨List.isEmpty_iff.mp hempty, rfl⟩
  · next hempty =>
    refine .inr ⟨mt List.isEmpty_iff.mpr hempty, ?_⟩
    split at h
    · cases h
    · next buffer hbuffer =>
      cases h
      exact ⟨buffer, hbuffer, rfl⟩

/-! ## Whole stages -/

/-- **What holds behind all entries of a stage**, if it holds of the empty draft and adding one
more entry keeps it. The pool is closed behind that. -/
theorem draftStage_induction {motive : List StageEntry → Draft → Prop}
    (start : motive [] (Draft.start a))
    (step : ∀ entries entry draft draft', motive entries draft → draft.Adds d stage entry draft' →
      motive (entries ++ [entry]) draft')
    (h : draftStage d decls textures stage colors a = .ok draft) :
    ∃ last, motive (stageEntries decls textures stage colors) last ∧
      last.closePool d stage = .ok draft := by
  rw [draftStage_eq, bind_eq_ok] at h
  obtain ⟨last, hlast, hclose⟩ := h
  exact ⟨last, foldlM_induction start
    (fun entries entry c c' hc hadd => step entries entry c c' hc (Draft.adds_of_add hadd)) hlast,
    hclose⟩

/-- **Every item of a stage** comes of one of its entries, or is the block of its pool. -/
theorem exists_entry_of_mem (h : draftStage d decls textures stage colors a = .ok draft)
    (hitem : item ∈ draft.items) :
    (∃ entry ∈ stageEntries decls textures stage colors, ∃ b b', entry.Yields d stage b item b') ∨
      ∃ pool buffer b, item =
        .uniformBlock ⟨stage, pool, buffer⟩ (Allocator.binding b d stage .uniformBlock).1 := by
  obtain ⟨last, hlast, hclose⟩ := draftStage_induction
    (motive := fun entries draft => ∀ item ∈ draft.items,
      ∃ entry ∈ entries, ∃ b b', entry.Yields d stage b item b')
    (fun item hitem => absurd hitem List.not_mem_nil)
    (fun entries entry draft draft' hc hadds item hitem => by
      have hold : item ∈ draft.items →
          ∃ e ∈ entries ++ [entry], ∃ b b', e.Yields d stage b item b' := fun hitem => by
        obtain ⟨e, he, hyields⟩ := hc item hitem
        exact ⟨e, List.mem_append_left _ he, hyields⟩
      cases hadds with
      | item hyields =>
        rcases List.mem_append.mp hitem with hitem | hitem
        · exact hold hitem
        · obtain rfl := List.mem_singleton.mp hitem
          exact ⟨entry, by simp, _, _, hyields⟩
      | pooled => exact hold hitem
      | nothing => exact hold hitem) h
  rcases Draft.closePool_eq_ok hclose with ⟨-, rfl⟩ | ⟨-, buffer, -, rfl⟩
  · exact .inl (hlast item hitem)
  · rcases List.mem_append.mp hitem with hitem | hitem
    · exact .inl (hlast item hitem)
    · obtain rfl := List.mem_singleton.mp hitem
      exact .inr ⟨_, _, _, rfl⟩

/-- A uniform of the stage stands in a pool. -/
def Block.HasPooled (d : Dialect) (pool : Block) (entry : StageEntry) : Prop :=
  ∃ u, entry.uniform? = some u ∧ d.pools u = true ∧ ∃ f ∈ pool.fields, f.name = u.name

/-- **Every entry of a stage** has an item, or a field in the block of the pool, or is a color
output. -/
theorem exists_item_of_mem_stageEntries (h : draftStage d decls textures stage colors a = .ok draft)
    {entry : StageEntry} (hentry : entry ∈ stageEntries decls textures stage colors) :
    (∃ item ∈ draft.items, ∃ b b', entry.Yields d stage b item b') ∨
      (∃ pool buffer number, Item.uniformBlock ⟨stage, pool, buffer⟩ number ∈ draft.items ∧
        pool.HasPooled d entry) ∨
      ∃ colors, entry = .colorOutput colors := by
  obtain ⟨last, hlast, hclose⟩ := draftStage_induction
    (motive := fun entries draft => ∀ entry ∈ entries,
      (∃ item ∈ draft.items, ∃ b b', entry.Yields d stage b item b') ∨
        draft.pool.HasPooled d entry ∨ ∃ colors, entry = .colorOutput colors)
    (fun entry hentry => absurd hentry List.not_mem_nil)
    (fun entries entry draft draft' hc hadds e he => by
      rcases List.mem_append.mp he with he | he
      · -- what an earlier entry has is kept
        rcases hc e he with ⟨item, hitem, hyields⟩ | ⟨u, hu, hd, f, hf, hname⟩ | hcolors
        · cases hadds with
          | item _ => exact .inl ⟨item, List.mem_append_left _ hitem, hyields⟩
          | pooled => exact .inl ⟨item, hitem, hyields⟩
          | nothing => exact .inl ⟨item, hitem, hyields⟩
        · cases hadds with
          | item _ => exact .inr (.inl ⟨u, hu, hd, f, hf, hname⟩)
          | pooled _ _ hpool =>
            obtain ⟨-, -, g, hfields, -⟩ := Block.extend_eq_ok hpool
            exact .inr (.inl ⟨u, hu, hd, f, hfields ▸ List.mem_append_left _ hf, hname⟩)
          | nothing => exact .inr (.inl ⟨u, hu, hd, f, hf, hname⟩)
        · exact .inr (.inr hcolors)
      · obtain rfl := List.mem_singleton.mp he
        cases hadds with
        | item hyields =>
          exact .inl ⟨_, List.mem_append_right _ (List.mem_singleton_self _), _, _, hyields⟩
        | @pooled _ u _ hu hd hpool =>
          obtain ⟨-, -, g, hfields, hname, -⟩ := Block.extend_eq_ok hpool
          exact .inr (.inl ⟨u, hu, hd, g, hfields ▸ List.mem_append_right _
            (List.mem_singleton_self _), hname⟩)
        | nothing colors => exact .inr (.inr ⟨colors, rfl⟩)) h
  rcases hlast entry hentry with hitem | hpooled | hcolors
  · rcases Draft.closePool_eq_ok hclose with ⟨-, rfl⟩ | ⟨-, buffer, -, rfl⟩
    · exact .inl hitem
    · obtain ⟨item, hitem, hyields⟩ := hitem
      exact .inl ⟨item, List.mem_append_left _ hitem, hyields⟩
  · rcases Draft.closePool_eq_ok hclose with ⟨hempty, -⟩ | ⟨-, buffer, -, rfl⟩
    · obtain ⟨u, -, -, f, hf, -⟩ := hpooled
      rw [hempty] at hf
      cases hf
    · exact .inr (.inl ⟨_, _, _, List.mem_append_right _ (List.mem_singleton_self _), hpooled⟩)
  · exact .inr (.inr hcolors)

end ShaderLoom
