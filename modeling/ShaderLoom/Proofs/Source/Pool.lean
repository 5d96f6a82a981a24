import ShaderLoom.Proofs.Buffer
import ShaderLoom.Proofs.Source.Readback

/-!
# The pool of a stage

Where a dialect consolidates uniforms, the plain ones of a stage gather in its pool: first the loose
uniforms, then the fields of the textures. **`draftStage_pool`** says that the pool holds just
these, in order and laid out, and that it is declared behind everything else, with a buffer of its
size, unless it is empty.
-/

namespace ShaderLoom

variable {d : Dialect} {stage : Stage} {draft draft' : Draft} {decls : Declarations}
  {textures : List ExpandedTexture} {colors : Nat} {a : Allocator} {entry : StageEntry}
  {us : List UniformDecl} {u : UniformDecl} {pool pool' : Block}

/-! ## Plain uniforms -/

/-- The uniform that a plain field of a texture is. -/
def ExpandedField.uniform (f : ExpandedField) : UniformDecl :=
  { name := f.name, ty := f.ty, stage := f.stage }

/-- The plain uniforms of a stage: the loose ones, and then the fields of the textures. -/
def plainUniforms (decls : Declarations) (textures : List ExpandedTexture) (stage : Stage) :
    List UniformDecl :=
  decls.uniforms.filter (fun u => u.stage = stage && !u.ty.isOpaque) ++
    (textures.flatMap (·.fields)).filterMap fun f =>
      if f.stage = stage && !f.ty.isOpaque then some f.uniform else none

theorem StageEntry.pooled?_uniform (hd : d.consolidatesUniforms = true) (u : UniformDecl) :
    StageEntry.pooled? d (.uniform u) = if !u.ty.isOpaque then some u else none := by
  rw [pooled?, uniform?, Option.filter_some, Dialect.pools, hd, Bool.true_and]

theorem StageEntry.pooled?_textureField (hd : d.consolidatesUniforms = true) (t : ExpandedTexture)
    (f : ExpandedField) :
    StageEntry.pooled? d (.textureField t f) =
      if !f.ty.isOpaque then some f.uniform else none := by
  rw [pooled?, uniform?]
  cases hty : f.ty.isOpaque with
  | true => rfl
  | false =>
    rw [if_neg Bool.false_ne_true, Option.filter_some, Dialect.pools, hd, Bool.true_and, hty]
    rfl

/-- Among entries of one kind there is nothing of another kind. -/
theorem filterMap_map_entry_eq_nil {α β : Type} {g : StageEntry → Option α} {entry : β → StageEntry}
    (h : ∀ x, g (entry x) = none) (xs : List β) : (xs.map entry).filterMap g = [] := by
  rw [List.filterMap_map, List.filterMap_eq_nil_iff]
  exact fun x _ => h x

/-- What is taken of the entries of a stage, if it comes of uniforms and of texture fields only. -/
theorem filterMap_stageEntries {α : Type} {g : StageEntry → Option α}
    (hcolor : ∀ n, g (.colorOutput n) = none) (hvarying : ∀ v, g (.varying v) = none)
    (hblock : ∀ b, g (.block b) = none) (hattribute : ∀ x, g (.vertexAttribute x) = none) :
    (stageEntries decls textures stage colors).filterMap g =
      (decls.uniforms.filter (·.stage = stage)).filterMap (fun u => g (.uniform u)) ++
        textures.flatMap fun t =>
          (t.fields.filter (·.stage = stage)).filterMap fun f => g (.textureField t f) := by
  have houtputs : (if stage = .fragment then [StageEntry.colorOutput colors] else []).filterMap g =
      [] := by
    split
    · exact filterMap_map_entry_eq_nil hcolor [colors]
    · rfl
  have hvaryings : (if stage = .compute then [] else decls.varyings.map StageEntry.varying).filterMap
      g = [] := by
    split
    · rfl
    · exact filterMap_map_entry_eq_nil hvarying _
  have hattributes : (if stage = .vertex then decls.attributes.map StageEntry.vertexAttribute
      else []).filterMap g = [] := by
    split
    · exact filterMap_map_entry_eq_nil hattribute _
    · rfl
  simp only [stageEntries, List.filterMap_append, houtputs, hvaryings,
    filterMap_map_entry_eq_nil hblock, hattributes, List.nil_append, List.append_nil,
    List.filterMap_flatMap, List.filterMap_map]
  rfl

/-- **What goes into the pool** are the plain uniforms of the stage. -/
theorem filterMap_pooled? (hd : d.consolidatesUniforms = true) :
    (stageEntries decls textures stage colors).filterMap (StageEntry.pooled? d) =
      plainUniforms decls textures stage := by
  rw [filterMap_stageEntries (fun _ => rfl) (fun _ => rfl) (fun _ => rfl) (fun _ => rfl),
    plainUniforms, List.filterMap_flatMap]
  congr 1
  · rw [← List.filterMap_eq_filter, ← List.filterMap_eq_filter, List.filterMap_filterMap]
    refine List.filterMap_congr fun u _ => ?_
    by_cases hstage : u.stage = stage <;>
      simp [hstage, StageEntry.pooled?_uniform hd, Option.guard]
  · refine List.flatMap_congr fun t _ => ?_
    rw [← List.filterMap_eq_filter, List.filterMap_filterMap]
    refine List.filterMap_congr fun f _ => ?_
    by_cases hstage : f.stage = stage <;>
      simp [hstage, StageEntry.pooled?_textureField hd, Option.guard]

/-! ## Growing a pool -/

/-- A block holds uniforms, in order. -/
structure Block.IsPoolOf (us : List UniformDecl) (b : Block) : Prop where
  /-- the rules are those of std140 -/
  packing : b.packing = .std140
  /-- the block is a uniform block -/
  kind : b.kind = .uniform
  /-- the fields are called like the uniforms, and have their types and counts -/
  fields : b.fields.map (fun f => (f.name, f.ty, f.count)) =
    us.map fun u => (u.name, u.ty, u.count)
  /-- they are laid out -/
  isLaidOut : b.IsLaidOut

theorem Block.isPoolOf_empty : (Block.empty .std140 .uniform).IsPoolOf [] :=
  ⟨rfl, rfl, rfl, isLaidOut_empty _ _⟩

/-- One more uniform goes into a pool. -/
theorem Block.IsPoolOf.extend (h : pool.IsPoolOf us)
    (he : pool.extend u.name u.ty u.count = .ok pool') : pool'.IsPoolOf (us ++ [u]) := by
  obtain ⟨hpacking, hkind, f, hfields, hname, hty, hcount⟩ := extend_eq_ok he
  refine ⟨hpacking.trans h.packing, hkind.trans h.kind, ?_, h.isLaidOut.extend he⟩
  rw [hfields, List.map_append, List.map_append, h.fields, List.map_singleton, List.map_singleton,
    hname, hty, hcount]

/-! ## Whole stages -/

/-- The items come of entries. -/
def ComeOf (d : Dialect) (stage : Stage) (entries : List StageEntry) (items : List Item) : Prop :=
  ∀ item ∈ items, ∃ entry ∈ entries, ∃ b b', entry.Yields d stage b item b'

/-- The pool of a stage is declared behind its items, unless it is empty. -/
inductive ClosesPool (stage : Stage) (pool : Block) (items : List Item) : List Item → Prop
  /-- nothing went into the pool -/
  | nothing (h : pool.fields = []) : ClosesPool stage pool items items
  /-- the pool becomes a block, and a buffer of its size is made -/
  | block {buffer : Buffer} {number : Option Nat} (h : pool.fields ≠ [])
    (hbuffer : Buffer.create (Draft.poolBuffer stage pool) = .ok buffer) :
    ClosesPool stage pool items (items ++ [.uniformBlock ⟨stage, pool, buffer⟩ number])

/-- **The items of a stage** come of its entries, and behind them stands the block of its pool. -/
theorem draftStage_pool (h : draftStage d decls textures stage colors a = .ok draft) :
    ∃ items pool, ComeOf d stage (stageEntries decls textures stage colors) items ∧
      pool.IsPoolOf ((stageEntries decls textures stage colors).filterMap
        (StageEntry.pooled? d)) ∧
      ClosesPool stage pool items draft.items := by
  obtain ⟨last, ⟨hitems, hpool⟩, hclose⟩ := draftStage_induction
    (motive := fun entries draft => ComeOf d stage entries draft.items ∧
      draft.pool.IsPoolOf (entries.filterMap (StageEntry.pooled? d)))
    ⟨fun item hitem => absurd hitem List.not_mem_nil, Block.isPoolOf_empty⟩
    (fun entries entry draft draft' hc hadds => by
      obtain ⟨hitems, hpool⟩ := hc
      have hold : ComeOf d stage (entries ++ [entry]) draft.items := fun item hitem => by
        obtain ⟨e, he, hyields⟩ := hitems item hitem
        exact ⟨e, List.mem_append_left _ he, hyields⟩
      have hsame : entry.pooled? d = none →
          draft.pool.IsPoolOf ((entries ++ [entry]).filterMap (StageEntry.pooled? d)) :=
        fun hnone => by
          rwa [List.filterMap_append, List.filterMap_cons_none hnone, List.filterMap_nil,
            List.append_nil]
      cases hadds with
      | item hyields =>
        refine ⟨fun item hitem => ?_, hsame (hyields.outline?_eq []).2⟩
        rcases List.mem_append.mp hitem with hitem | hitem
        · exact hold item hitem
        · obtain rfl := List.mem_singleton.mp hitem
          exact ⟨entry, by simp, _, _, hyields⟩
      | @pooled _ u pool hu hd hextend =>
        have hpooled : entry.pooled? d = some u := by
          rw [StageEntry.pooled?, hu, Option.filter_some, if_pos hd]
        refine ⟨hold, ?_⟩
        rw [List.filterMap_append, List.filterMap_cons_some hpooled]
        exact hpool.extend hextend
      | nothing => exact ⟨hold, hsame rfl⟩) h
  refine ⟨last.items, last.pool, hitems, hpool, ?_⟩
  rcases Draft.closePool_eq_ok hclose with ⟨hempty, rfl⟩ | ⟨hne, buffer, hbuffer, rfl⟩
  · exact .nothing hempty
  · exact .block hne hbuffer

/-- No entry comes with a consolidated block. -/
theorem ComeOf.filterMap_uniformBlock? {entries : List StageEntry} {items : List Item}
    (h : ComeOf d stage entries items) : items.filterMap Item.uniformBlock? = [] := by
  rw [List.filterMap_eq_nil_iff]
  intro item hitem
  obtain ⟨entry, -, b, b', hyields⟩ := h item hitem
  cases hyields <;> rfl

/-- **The consolidated block of a stage** holds its plain uniforms, if there are any, and its buffer
has the size of the block. It is declared behind everything else. -/
inductive HasPool (stage : Stage) (us : List UniformDecl) (items : List Item) : Prop
  /-- there are no plain uniforms -/
  | none (hus : us = []) (h : items.filterMap Item.uniformBlock? = [])
  /-- there is one block -/
  | block {u : UniformBlock} {front : List Item} {number : Option Nat} (hus : us ≠ [])
    (hitems : items = front ++ [.uniformBlock u number])
    (h : items.filterMap Item.uniformBlock? = [u]) (hstage : u.stage = stage)
    (hpool : u.block.IsPoolOf us) (hsize : u.buffer.spec.size = u.block.size)

theorem draftStage_hasPool (h : draftStage d decls textures stage colors a = .ok draft) :
    HasPool stage ((stageEntries decls textures stage colors).filterMap (StageEntry.pooled? d))
      draft.items := by
  obtain ⟨items, pool, hitems, hpool, hcloses⟩ := draftStage_pool h
  have hnone := hitems.filterMap_uniformBlock?
  generalize draft.items = all at hcloses
  cases hcloses with
  | nothing hempty =>
    refine .none (List.map_eq_nil_iff.mp (hpool.fields.symm.trans ?_)) hnone
    rw [hempty, List.map_nil]
  | @block buffer number hne hbuffer =>
    refine .block (fun hus => hne (List.map_eq_nil_iff.mp (hpool.fields.trans ?_))) rfl ?_ rfl hpool
      (Buffer.spec_of_create hbuffer ▸ rfl)
    · rw [hus, List.map_nil]
    · rw [List.filterMap_append, hnone]
      rfl

/-- A stage has at most one consolidated block, and it is one of the stage. -/
theorem draftStage_uniformBlocks (h : draftStage d decls textures stage colors a = .ok draft) :
    draft.items.filterMap Item.uniformBlock? = [] ∨
      ∃ u, draft.items.filterMap Item.uniformBlock? = [u] ∧ u.stage = stage := by
  cases draftStage_hasPool h with
  | none _ hnone => exact .inl hnone
  | block _ _ hone hstage => exact .inr ⟨_, hone, hstage⟩

end ShaderLoom
