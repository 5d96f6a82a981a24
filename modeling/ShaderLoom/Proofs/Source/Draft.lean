import ShaderLoom.Proofs.Intrinsic.Site
import ShaderLoom.Proofs.Outcome
import ShaderLoom.Proofs.Source.Item
import ShaderLoom.Source.Draft

/-!
# What is drafted

Drafting a stage adds items to those that are there. Where uniforms are not consolidated, nothing
goes into the pool, and the items of a stage are those of its blocks, in order and with the bindings
that the allocator hands out, with other items in front and behind
(**`draftStage_items`**). If all names are identifiers, the items are readable.
-/

namespace ShaderLoom

open Text Reading

variable {d : Dialect} {stage : Stage} {draft draft' : Draft} {P : Item → Prop}

/-! ## Names -/

/-- Everything that is declared is called by an identifier. The instance name of a block may be
empty. -/
structure Declarations.IsNamed (decls : Declarations) : Prop where
  /-- loose uniforms -/
  uniforms : ∀ u ∈ decls.uniforms, IsName u.name.toList
  /-- textures -/
  textures : ∀ t ∈ decls.textures, IsName t.name.toList
  /-- blocks -/
  blocks : ∀ b ∈ decls.blocks, IsName b.name.toList
  /-- instances of blocks -/
  instances : ∀ b ∈ decls.blocks, ∀ c ∈ b.instanceIdentifier.toList, isIdentifier c = true
  /-- fields of blocks -/
  fields : ∀ b ∈ decls.blocks, ∀ f ∈ b.block.fields, IsName f.name.toList
  /-- vertex attributes -/
  attributes : ∀ a ∈ decls.attributes, IsName a.name.toList
  /-- variables between the stages -/
  varyings : ∀ v ∈ decls.varyings, IsName v.name.toList

theorem TextureField.toList_identifier (f : TextureField) (texture : String) :
    (f.identifier texture).toList = texture.toList ++ '_' :: f.suffix.toList := by
  simp [identifier, toString_string]

theorem TextureField.isName_identifier {texture : String} (f : TextureField)
    (h : IsName texture.toList) : IsName (f.identifier texture).toList := by
  rw [f.toList_identifier]
  refine ⟨List.append_ne_nil_of_left_ne_nil h.ne_nil _, fun c hc => ?_⟩
  rcases List.mem_append.mp hc with hc | hc
  · exact h.all c hc
  · exact f.isIdentifier_suffix c hc

/-- The fields of a texture are called by identifiers if the texture is. -/
theorem TextureDecl.isName_of_mem_expand {t : TextureDecl} {frames : FrameShape} {graphics : Bool}
    {f : ExpandedField} (h : IsName t.name.toList) (hf : f ∈ (t.expand frames graphics).fields) :
    IsName f.name.toList := by
  obtain ⟨field, -, hfield⟩ := List.mem_filterMap.mp hf
  obtain ⟨ty, -, rfl⟩ := Option.map_eq_some_iff.mp hfield
  exact field.isName_identifier h

/-! ## Qualifiers -/

theorem Dialect.isPrecision_precisionQualifier (d : Dialect) (ty : ShaderType)
    (wish fallback : Precision) : IsPrecision (d.precisionQualifier ty wish fallback) := by
  rw [Dialect.precisionQualifier]
  split
  · cases wish.resolve fallback with
    | auto => exact .inl rfl
    | high => exact .inr (.inl rfl)
    | medium => exact .inr (.inr (.inl rfl))
    | low => exact .inr (.inr (.inr rfl))
  · exact .inl rfl

theorem Dialect.varyingQualifier_cases (d : Dialect) (stage : Stage) :
    d.varyingQualifier stage = "out" ∨ d.varyingQualifier stage = "varying" ∨
      decide (stage = .vertex) = false ∧ d.varyingQualifier stage = "in" := by
  rw [Dialect.varyingQualifier]
  cases d.hasInOut with
  | false => exact .inr (.inl rfl)
  | true =>
    by_cases hs : stage = .vertex
    · exact .inl (by rw [if_pos hs]; rfl)
    · exact .inr (.inr ⟨decide_eq_false hs, by rw [if_neg hs]; rfl⟩)

theorem Dialect.inputQualifier_cases (d : Dialect) :
    d.inputQualifier = "in" ∨ d.inputQualifier = "attribute" := by
  rw [Dialect.inputQualifier]
  cases d.hasInOut with
  | false => exact .inr rfl
  | true => exact .inl rfl

/-- The qualifier of a format is an identifier. -/
theorem Format.isIdentifier_imageQualifier {f : Format} {qualifier : String}
    (h : f.imageQualifier? = some qualifier) : ∀ c ∈ qualifier.toList, isIdentifier c = true := by
  have hname : ∀ q ∈ f.imageQualifier?, IsName q.toList := by
    cases f <;> decide
  exact (hname qualifier h).all

/-! ## Growing drafts -/

/-- A draft has grown by items with the property `P`, and its pool is the same. -/
structure Draft.Grows (P : Item → Prop) (before after : Draft) : Prop where
  /-- the new items stand behind the old ones -/
  exists_items : ∃ items, after.items = before.items ++ items ∧ ∀ item ∈ items, P item
  /-- nothing went into the pool -/
  pool : after.pool = before.pool

namespace Draft.Grows

theorem refl : Draft.Grows P draft draft := by
  refine ⟨⟨[], (List.append_nil _).symm, ?_⟩, rfl⟩
  intro item hitem
  cases hitem

theorem push {a : Allocator} {item : Item} (h : Draft.Grows P draft draft') (hitem : P item) :
    Draft.Grows P draft ((draft'.advanced a).push item) := by
  obtain ⟨⟨items, hitems, hP⟩, hpool⟩ := h
  refine ⟨⟨items ++ [item], ?_, ?_⟩, hpool⟩
  · rw [Draft.push, Draft.advanced, hitems, List.append_assoc]
  · intro i hi
    rcases List.mem_append.mp hi with hi | hi
    · exact hP i hi
    · obtain rfl := List.mem_singleton.mp hi
      exact hitem

theorem push_self {item : Item} (h : Draft.Grows P draft draft') (hitem : P item) :
    Draft.Grows P draft (draft'.push item) := h.push (a := draft'.allocator) hitem

end Draft.Grows

/-! ## Items without blocks -/

/-- An item that a reader of the stage can read, that is no block, and that leaves the binding of a
texture open. -/
structure Item.IsLoose (stage : Stage) (item : Item) : Prop where
  /-- the item is readable -/
  isReadable : item.IsReadable (decide (stage = .vertex))
  /-- the item is no block -/
  buffers : item.elements.buffers = []
  /-- no binding is written for a texture -/
  textures : ∀ t ∈ item.elements.textures, t.binding = none

section

variable {start : Draft}

theorem Draft.Grows.addColorOutput (h : Draft.Grows (Item.IsLoose stage) start draft)
    (colors : Nat) :
    Draft.Grows (Item.IsLoose stage) start (draft.addColorOutput d colors) := by
  rw [Draft.addColorOutput]
  split
  · exact h.push ⟨trivial, rfl, by simp [Item.elements]⟩
  · exact h

theorem Draft.Grows.addVarying (h : Draft.Grows (Item.IsLoose stage) start draft) {v : VaryingDecl}
    (hv : IsName v.name.toList) :
    Draft.Grows (Item.IsLoose stage) start (draft.addVarying d stage v) :=
  h.push ⟨⟨hv, d.varyingQualifier_cases stage⟩, rfl, by simp [Item.elements]⟩

theorem Draft.Grows.addAttribute (h : Draft.Grows (Item.IsLoose stage) start draft)
    {a : AttributeDecl} (ha : IsName a.name.toList) :
    Draft.Grows (Item.IsLoose stage) start (draft.addAttribute d a) :=
  h.push ⟨⟨ha, d.inputQualifier_cases, d.isPrecision_precisionQualifier _ _ _⟩, rfl,
    by simp [Item.elements]⟩

/-- What a stage writes to. -/
theorem Draft.Grows.addOutputs (h : Draft.Grows (Item.IsLoose stage) start draft) (colors : Nat) :
    Draft.Grows (Item.IsLoose stage) start
      (if stage = .fragment then draft.addColorOutput d colors else draft) := by
  split
  · exact h.addColorOutput colors
  · exact h

theorem Draft.Grows.addVaryings (h : Draft.Grows (Item.IsLoose stage) start draft)
    {varyings : List VaryingDecl} (hnames : ∀ v ∈ varyings, IsName v.name.toList) :
    Draft.Grows (Item.IsLoose stage) start
      (if stage = .compute then draft else varyings.foldl (Draft.addVarying d stage) draft) := by
  split
  · exact h
  · exact foldl_preserves (fun v hv c hc => hc.addVarying (hnames v hv)) h

theorem Draft.Grows.addAttributes (h : Draft.Grows (Item.IsLoose stage) start draft)
    {attributes : List AttributeDecl} (hnames : ∀ a ∈ attributes, IsName a.name.toList) :
    Draft.Grows (Item.IsLoose stage) start
      (if stage = .vertex then attributes.foldl (Draft.addAttribute d) draft else draft) := by
  split
  · exact foldl_preserves (fun a ha c hc => hc.addAttribute (hnames a ha)) h
  · exact h

theorem Draft.Grows.addUniform (hd : d.consolidatesUniforms = false)
    (h : Draft.Grows (Item.IsLoose stage) start draft) {u : UniformDecl} (hu : IsName u.name.toList)
    (hdraft : draft.addUniform d u = .ok draft') :
    Draft.Grows (Item.IsLoose stage) start draft' := by
  rw [Draft.addUniform] at hdraft
  split at hdraft
  · cases hdraft
  · next hblock =>
    rw [hd, Bool.false_and, if_neg (by simp)] at hdraft
    cases hdraft
    have hty : u.ty.isBlock = false := by simpa using hblock
    exact h.push_self ⟨⟨hu, hty, d.isPrecision_precisionQualifier _ _ _⟩, rfl,
      by simp [Item.elements]⟩

/-- The format of an image has a qualifier. -/
theorem Draft.exists_format_of_imageAccess {t : ExpandedTexture} {image : Option ImageAccess}
    (h : Draft.imageAccess t = .ok image) :
    ∀ access ∈ image, ∃ f : Format, f.imageQualifier? = some access.format := by
  rw [Draft.imageAccess] at h
  split at h
  · split at h
    · cases h
    · next format _ =>
      split at h
      · cases h
      · next hq =>
        cases h
        rintro access ⟨⟩
        exact ⟨format, hq⟩
  · cases h
    rintro access ⟨⟩

theorem Draft.isIdentifier_of_imageAccess {t : ExpandedTexture} {image : Option ImageAccess}
    (h : Draft.imageAccess t = .ok image) :
    ∀ access ∈ image, ∀ c ∈ access.format.toList, isIdentifier c = true := by
  intro access haccess
  obtain ⟨format, hq⟩ := exists_format_of_imageAccess h access haccess
  exact Format.isIdentifier_imageQualifier hq

theorem Draft.Grows.addOpaque (hd : d.fixesBindings .texture = false)
    (h : Draft.Grows (Item.IsLoose stage) start draft) {t : ExpandedTexture} {f : ExpandedField}
    (hf : IsName f.name.toList) (hty : f.ty.isOpaque = true)
    (hdraft : draft.addOpaque d t f = .ok draft') :
    Draft.Grows (Item.IsLoose stage) start draft' := by
  have hspace : d.bindingSpace? f.stage .texture = none := by
    rw [Dialect.bindingSpace?, hd, if_neg (by simp)]
  rw [Draft.addOpaque] at hdraft
  split at hdraft
  · cases hdraft
  · next image himage =>
    rw [Allocator.binding, hspace] at hdraft
    cases hdraft
    refine h.push ⟨⟨hf, hty, d.isPrecision_precisionQualifier _ _ _,
      Draft.isIdentifier_of_imageAccess himage⟩, rfl, ?_⟩
    intro b hb
    obtain rfl := List.mem_singleton.mp hb
    rfl

theorem Draft.Grows.addTexture (hd : d.consolidatesUniforms = false)
    (ht : d.fixesBindings .texture = false) (h : Draft.Grows (Item.IsLoose stage) start draft)
    {t : ExpandedTexture} (hnames : ∀ f ∈ t.fields, IsName f.name.toList)
    (hdraft : draft.addTexture d stage t = .ok draft') :
    Draft.Grows (Item.IsLoose stage) start draft' := by
  refine foldlM_preserves (fun f hf c c' hc hstep => ?_) h hdraft
  have hname := hnames f (List.mem_of_mem_filter hf)
  rw [Draft.addTextureField] at hstep
  split at hstep
  · next hty => exact hc.addOpaque ht hname hty hstep
  · exact hc.addUniform hd hname hstep

end

/-! ## Blocks -/

/-- The items of blocks, with the bindings that they get one after the other. -/
def blockItems (d : Dialect) (a : Allocator) : List BlockDecl → List Item
  | [] => []
  | b :: rest =>
    let answer := a.binding d b.stage (.ofBlock b.block.kind)
    .block b answer.1 :: blockItems d answer.2 rest

theorem items_foldl_addBlock (d : Dialect) (draft : Draft) (blocks : List BlockDecl) :
    (blocks.foldl (Draft.addBlock d) draft).items =
        draft.items ++ blockItems d draft.allocator blocks ∧
      (blocks.foldl (Draft.addBlock d) draft).pool = draft.pool := by
  induction blocks generalizing draft with
  | nil => exact ⟨(List.append_nil _).symm, rfl⟩
  | cons b blocks ih =>
    obtain ⟨hitems, hpool⟩ := ih (draft.addBlock d b)
    refine ⟨?_, hpool⟩
    have hadd : (draft.addBlock d b).items =
        draft.items ++ [.block b (draft.allocator.binding d b.stage (.ofBlock b.block.kind)).1] := rfl
    rw [List.foldl_cons, hitems, hadd, List.append_assoc, List.singleton_append]
    rfl

/-- The buffers of blocks. -/
def blockBuffers (d : Dialect) (a : Allocator) (blocks : List BlockDecl) : List BoundBuffer :=
  (blockItems d a blocks).flatMap (·.elements.buffers)

theorem blockBuffers_cons (d : Dialect) (a : Allocator) (b : BlockDecl) (blocks : List BlockDecl) :
    blockBuffers d a (b :: blocks) =
      ⟨b.identifier, b.block.kind, b.stage, (a.binding d b.stage (.ofBlock b.block.kind)).1,
          b.buffer⟩ ::
        blockBuffers d (a.binding d b.stage (.ofBlock b.block.kind)).2 blocks := rfl

/-- A block is registered under its identifier, its kind and its stage. -/
theorem exists_of_mem_blockBuffers {a : Allocator} {blocks : List BlockDecl} {x : BoundBuffer}
    (h : x ∈ blockBuffers d a blocks) :
    ∃ b ∈ blocks, x.name = b.identifier ∧ x.kind = b.block.kind ∧ x.stage = b.stage := by
  induction blocks generalizing a with
  | nil => cases h
  | cons b blocks ih =>
    rw [blockBuffers_cons] at h
    rcases List.mem_cons.mp h with rfl | h
    · exact ⟨b, List.mem_cons_self .., rfl, rfl, rfl⟩
    · obtain ⟨b', hb', hx⟩ := ih h
      exact ⟨b', List.mem_cons_of_mem b hb', hx⟩

/-! ## Bindings of blocks -/

/-- What the allocator answers where the text leaves the binding open. -/
theorem Allocator.binding_of_none {a : Allocator} {stage : Stage} {resource : BindingClass}
    (h : d.bindingSpace? stage resource = none) : a.binding d stage resource = (none, a) := by
  rw [Allocator.binding, h]

/-- What the allocator answers where the text fixes the binding. -/
theorem Allocator.binding_of_some {a : Allocator} {stage : Stage} {resource : BindingClass}
    {space : BindingSpace} (h : d.bindingSpace? stage resource = some space) :
    a.binding d stage resource =
      (some (a.bindings space), { a with bindings := advance a.bindings space 1 }) := by
  rw [Allocator.binding, h]

/-- No number is handed out again. -/
theorem Allocator.bindings_le_binding (a : Allocator) (d : Dialect) (stage : Stage)
    (resource : BindingClass) (space : BindingSpace) :
    a.bindings space ≤ (a.binding d stage resource).2.bindings space := by
  cases hspace : d.bindingSpace? stage resource with
  | none => rw [binding_of_none hspace]
  | some own =>
    rw [binding_of_some hspace]
    simp only [advance]
    split <;> omega

theorem Allocator.lt_bindings_binding {a : Allocator} {stage : Stage} {resource : BindingClass}
    {space : BindingSpace} (h : d.bindingSpace? stage resource = some space) :
    a.bindings space < (a.binding d stage resource).2.bindings space := by
  rw [binding_of_some h]
  simp [advance]

/-- A block has a binding where the text fixes it, and one that was still free. -/
theorem binding_of_mem_blockBuffers {a : Allocator} {blocks : List BlockDecl} {x : BoundBuffer}
    (h : x ∈ blockBuffers d a blocks) :
    match d.bindingSpace? x.stage (.ofBlock x.kind) with
    | none => x.binding = none
    | some space => ∃ n, x.binding = some n ∧ a.bindings space ≤ n := by
  induction blocks generalizing a with
  | nil => cases h
  | cons b blocks ih =>
    rw [blockBuffers_cons] at h
    rcases List.mem_cons.mp h with rfl | h
    · cases hspace : d.bindingSpace? b.stage (.ofBlock b.block.kind) with
      | none => exact congrArg Prod.fst (Allocator.binding_of_none hspace)
      | some space =>
        exact ⟨a.bindings space, congrArg Prod.fst (Allocator.binding_of_some hspace),
          Nat.le_refl _⟩
    · have hrest := ih h
      cases hspace : d.bindingSpace? x.stage (.ofBlock x.kind) with
      | none =>
        rw [hspace] at hrest
        exact hrest
      | some space =>
        rw [hspace] at hrest
        obtain ⟨n, hn, hle⟩ := hrest
        exact ⟨n, hn, Nat.le_trans (a.bindings_le_binding d _ _ space) hle⟩

/-- **Blocks in one space have different bindings**, where the text fixes them. -/
theorem pairwise_blockBuffers (d : Dialect) (a : Allocator) (blocks : List BlockDecl) :
    (blockBuffers d a blocks).Pairwise fun x y =>
      d.bindingSpace? x.stage (.ofBlock x.kind) = d.bindingSpace? y.stage (.ofBlock y.kind) →
        ∀ n, x.binding = some n → y.binding ≠ some n := by
  induction blocks generalizing a with
  | nil => exact .nil
  | cons b blocks ih =>
    rw [blockBuffers_cons]
    refine List.pairwise_cons.mpr ⟨fun y hy hspaces n hx hy' => ?_, ih _⟩
    have hbound := binding_of_mem_blockBuffers hy
    cases hspace : d.bindingSpace? b.stage (.ofBlock b.block.kind) with
    | none =>
      rw [Allocator.binding_of_none hspace] at hx
      cases hx
    | some space =>
      rw [← hspaces, hspace] at hbound
      obtain ⟨m, hm, hle⟩ := hbound
      have hlt := Allocator.lt_bindings_binding (a := a) hspace
      rw [Allocator.binding_of_some hspace] at hx
      rw [hy'] at hm
      cases hx
      cases hm
      omega

/-- Blocks of one kind with different names are registered under different names. -/
theorem pairwise_name_blockBuffers {a : Allocator} {blocks : List BlockDecl}
    (h : blocks.Pairwise fun b c => b.block.kind = c.block.kind → b.name ≠ c.name) :
    (blockBuffers d a blocks).Pairwise fun x y => x.kind = y.kind → x.name ≠ y.name := by
  induction blocks generalizing a with
  | nil => exact .nil
  | cons b blocks ih =>
    obtain ⟨hb, hblocks⟩ := List.pairwise_cons.mp h
    rw [blockBuffers_cons]
    refine List.pairwise_cons.mpr ⟨fun y hy hkind hname => ?_, ih hblocks⟩
    obtain ⟨c, hc, hyname, hykind, -⟩ := exists_of_mem_blockBuffers hy
    exact hb c hc (hkind.trans hykind) (BlockDecl.identifier_inj.mp (hname.trans hyname))

/-! ## Whole stages -/

/-- Plain uniforms are declared one by one, and no binding is written for a texture. -/
structure Dialect.IsLoose (d : Dialect) : Prop where
  /-- uniforms do not gather in a block -/
  consolidatesUniforms : d.consolidatesUniforms = false
  /-- the bindings of textures are left open -/
  textures : d.fixesBindings .texture = false

/-- All dialects but the one of Vulkan are loose. -/
theorem Target.isLoose_dialect {target : Target} (h : target.api ≠ .vulkan) :
    target.dialect.IsLoose := by
  obtain ⟨api, version, platform, frames⟩ := target
  cases api with
  | openGl => exact ⟨rfl, Bool.and_false _⟩
  | openGlEs => exact ⟨rfl, Bool.and_false _⟩
  | vulkan => exact absurd rfl h

/-- The items of a stage are those of its blocks, with loose items in front and behind. -/
def IsDrafted (d : Dialect) (decls : Declarations) (stage : Stage) (items : List Item) : Prop :=
  ∃ front back a,
    items = front ++ blockItems d a (decls.blocks.filter (·.stage = stage)) ++ back ∧
      (∀ item ∈ front, item.IsLoose stage) ∧ ∀ item ∈ back, item.IsLoose stage

/-- **The items of a stage** in a loose dialect. -/
theorem draftStage_items {decls : Declarations} {textures : List ExpandedTexture} {colors : Nat}
    {a : Allocator} (hd : d.IsLoose) (hnames : decls.IsNamed)
    (hfields : ∀ t ∈ textures, ∀ f ∈ t.fields, IsName f.name.toList)
    (h : draftStage d decls textures stage colors a = .ok draft) :
    IsDrafted d decls stage draft.items := by
  rw [draftStage] at h
  simp only [bind_eq_ok] at h
  obtain ⟨uniforms, huniforms, withTextures, htextures, h⟩ := h
  have hstart : Draft.Grows (Item.IsLoose stage) (Draft.start a) (Draft.start a) := .refl
  have hvaryings := (hstart.addOutputs (d := d) colors).addVaryings (d := d) hnames.varyings
  have hgrown := foldlM_preserves (fun u hu c c' hc hstep =>
    hc.addUniform hd.consolidatesUniforms (hnames.uniforms u (List.mem_of_mem_filter hu)) hstep)
    hvaryings huniforms
  have hfront := foldlM_preserves (fun t ht' c c' hc hstep =>
    hc.addTexture hd.consolidatesUniforms hd.textures (hfields t ht') hstep) hgrown htextures
  obtain ⟨⟨front, hitems, hloose⟩, hpool⟩ := hfront
  obtain ⟨hblocks, hpool'⟩ := items_foldl_addBlock d withTextures
    (decls.blocks.filter (·.stage = stage))
  -- attributes come behind the blocks, and the pool is still empty when it is closed
  have hback : Draft.Grows (Item.IsLoose stage)
      ((decls.blocks.filter (·.stage = stage)).foldl (Draft.addBlock d) withTextures) _ :=
    Draft.Grows.refl.addAttributes (d := d) hnames.attributes
  obtain ⟨⟨back, hitems', hloose'⟩, hpool''⟩ := hback
  rw [Draft.closePool] at h
  have hempty : (Draft.start a).pool.isEmpty = true := rfl
  rw [hpool'', hpool', hpool, if_pos hempty] at h
  cases h
  refine ⟨front, back, withTextures.allocator, ?_, hloose, hloose'⟩
  rw [hitems', hblocks, hitems, Draft.start, List.nil_append]

end ShaderLoom
