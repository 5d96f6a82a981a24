import ShaderLoom.Proofs.Source.Draft
import ShaderLoom.Proofs.Source.Stage
import ShaderLoom.Program.Basic

/-!
# What a program declares

In a loose dialect a reader finds two kinds of declarations in the texts of a program: those of the
declared resources, and those of the bodies. If a body is plain, what it declares has no binding.
So every block that is read was declared under its name and kind, and whatever else is read has no
binding (**`mem_readProgram`**).

The blocks of a program are registered under names that are different in each stage and kind, if
the declared names are (**`pairwise_buffers`**).
-/

namespace ShaderLoom

open Text Reading

variable {d : Dialect} {decls : Declarations} {stage : Stage} {items : List Item} {vertex : Bool}
  {source : Text} {x : Declaration}

/-! ## Drafted items -/

/-- The declaration is one of a declared block, or one that has no binding. The text leaves the
binding of a block open where the dialect does. -/
def Reading.Declaration.IsFrom (d : Dialect) (decls : Declarations) (x : Declaration) : Prop :=
  match x.kind with
  | .block kind =>
    (∃ b ∈ decls.blocks, b.identifier = x.name ∧ b.block.kind = kind) ∧
      (d.fixesBindings (.ofBlock kind) = false → x.binding = none)
  | .uniform | .sampler => x.binding = none
  | .vertexAttribute _ => True

theorem isReadable_of_mem_blockItems {a : Allocator} {blocks : List BlockDecl} {item : Item}
    (hnames : decls.IsNamed) (hblocks : blocks ⊆ decls.blocks) (h : item ∈ blockItems d a blocks) :
    item.IsReadable vertex := by
  induction blocks generalizing a with
  | nil => cases h
  | cons b blocks ih =>
    have hb := hblocks (List.mem_cons_self ..)
    rcases List.mem_cons.mp h with rfl | h
    · exact ⟨hnames.blocks b hb, hnames.instances b hb, hnames.fields b hb⟩
    · exact ih (List.subset_of_cons_subset hblocks) h

theorem isFrom_of_mem_blockItems {a : Allocator} {blocks : List BlockDecl}
    (hblocks : blocks ⊆ decls.blocks)
    (h : x ∈ (blockItems d a blocks).filterMap (Item.declaration? vertex source)) :
    x.IsFrom d decls := by
  induction blocks generalizing a with
  | nil => cases h
  | cons b blocks ih =>
    have hb := hblocks (List.mem_cons_self ..)
    rcases List.mem_cons.mp h with rfl | h
    · refine ⟨⟨b, hb, rfl, rfl⟩, fun hopen => ?_⟩
      have hspace : d.bindingSpace? b.stage (.ofBlock b.block.kind) = none := by
        rw [Dialect.bindingSpace?, hopen, if_neg (by simp)]
      exact congrArg Prod.fst (Allocator.binding_of_none (a := a) hspace)
    · exact ih (List.subset_of_cons_subset hblocks) h

theorem textures_of_mem_blockItems {a : Allocator} {blocks : List BlockDecl} {item : Item}
    (h : item ∈ blockItems d a blocks) : item.elements.textures = [] := by
  induction blocks generalizing a with
  | nil => cases h
  | cons b blocks ih =>
    rcases List.mem_cons.mp h with rfl | h
    · rfl
    · exact ih h

theorem Item.IsLoose.isFrom {item : Item} (h : item.IsLoose stage)
    (hx : x ∈ item.declaration? vertex source) : x.IsFrom d decls := by
  obtain ⟨-, hbuffers, htextures⟩ := h
  cases item with
  | colorOutput => cases hx
  | varying => cases hx
  | uniform precision u =>
    cases hx
    rw [Declaration.IsFrom]
    cases u.ty.isOpaque <;> rfl
  | opaqueUniform precision image t =>
    cases hx
    exact htextures t (List.mem_singleton_self t)
  | block => cases hbuffers
  | uniformBlock => cases hbuffers
  | vertexAttribute qualifier precision location a =>
    cases vertex with
    | false => cases hx
    | true =>
      cases hx
      trivial

namespace IsDrafted

variable (h : IsDrafted d decls stage items)
include h

theorem isReadable (hnames : decls.IsNamed) :
    ∀ item ∈ items, item.IsReadable (decide (stage = .vertex)) := by
  obtain ⟨front, back, a, rfl, hfront, hback⟩ := h
  intro item hitem
  rcases List.mem_append.mp hitem with hitem | hitem
  · rcases List.mem_append.mp hitem with hitem | hitem
    · exact (hfront item hitem).isReadable
    · exact isReadable_of_mem_blockItems hnames (List.filter_subset_self _) hitem
  · exact (hback item hitem).isReadable

/-- What drafted items declare. -/
theorem isFrom (hx : x ∈ items.filterMap (Item.declaration? vertex source)) :
    x.IsFrom d decls := by
  obtain ⟨front, back, a, rfl, hfront, hback⟩ := h
  rw [List.filterMap_append, List.filterMap_append] at hx
  rcases List.mem_append.mp hx with hx | hx
  · rcases List.mem_append.mp hx with hx | hx
    · obtain ⟨item, hitem, hx⟩ := List.mem_filterMap.mp hx
      exact (hfront item hitem).isFrom hx
    · exact isFrom_of_mem_blockItems (List.filter_subset_self _) hx
  · obtain ⟨item, hitem, hx⟩ := List.mem_filterMap.mp hx
    exact (hback item hitem).isFrom hx

/-- Drafted items register the blocks of their stage. -/
theorem buffers_eq : ∃ a, items.flatMap (·.elements.buffers) =
    blockBuffers d a (decls.blocks.filter (·.stage = stage)) := by
  obtain ⟨front, back, a, rfl, hfront, hback⟩ := h
  refine ⟨a, ?_⟩
  have hempty : ∀ {items : List Item}, (∀ item ∈ items, item.IsLoose stage) →
      items.flatMap (·.elements.buffers) = [] :=
    fun hitems => List.flatMap_eq_nil_iff.mpr fun item hitem => (hitems item hitem).buffers
  rw [List.flatMap_append, List.flatMap_append, hempty hfront, hempty hback, List.nil_append,
    List.append_nil]
  rfl

theorem textures_open : ∀ t ∈ items.flatMap (·.elements.textures), t.binding = none := by
  obtain ⟨front, back, a, rfl, hfront, hback⟩ := h
  intro t ht
  obtain ⟨item, hitem, ht⟩ := List.mem_flatMap.mp ht
  rcases List.mem_append.mp hitem with hitem | hitem
  · rcases List.mem_append.mp hitem with hitem | hitem
    · exact (hfront item hitem).textures t ht
    · rw [textures_of_mem_blockItems hitem] at ht
      cases ht
  · exact (hback item hitem).textures t ht

end IsDrafted

/-! ## Plain bodies -/

/-- The declaration is no block and no sampler, and has no binding. -/
def Reading.Declaration.IsPlain (x : Declaration) : Prop :=
  match x.kind with
  | .uniform => x.binding = none
  | .vertexAttribute _ => True
  | .block _ | .sampler => False

theorem Reading.Declaration.IsPlain.isFrom (h : x.IsPlain) : x.IsFrom d decls := by
  rw [Declaration.IsPlain] at h
  rw [Declaration.IsFrom]
  split at h
  · next he =>
    rw [he]
    exact h
  · next he =>
    rw [he]
    trivial
  · cases h
  · cases h

/-- A body that declares no block and no sampler, and fixes no binding, once its calls are
lowered. -/
def IsPlainBody (d : Dialect) (vertex : Bool) (body : String) : Prop :=
  ∀ lowered source ds, lower d body.toList = .ok lowered →
    readLines vertex source (Text.lines lowered.text) = .ok ds → ∀ x ∈ ds, x.IsPlain

/-- All bodies of a program are plain. -/
def ProgramBodies.ArePlain (d : Dialect) : ProgramBodies → Prop
  | .graphics vertex fragment _ => IsPlainBody d true vertex ∧ IsPlainBody d false fragment
  | .compute body => IsPlainBody d false body

/-! ## Assemblies -/

section

variable {target : Target} {textures : List ExpandedTexture} {colors : Nat} {body : String}
  {a : Allocator} {finished : FinishedStage} {bodies : ProgramBodies} {assembly : Assembly}
  {ds : List Declaration}

/-- **A stage**: its items are drafted, and what is read in it comes from the declared resources if
its body is plain. -/
theorem assembleStage_spec (hd : target.dialect.IsLoose) (hnames : decls.IsNamed)
    (hfields : ∀ t ∈ textures, ∀ f ∈ t.fields, IsName f.name.toList)
    (h : assembleStage target.dialect decls textures stage colors body a = .ok finished) :
    IsDrafted target.dialect decls stage finished.items ∧
      (IsPlainBody target.dialect (decide (stage = .vertex)) body →
        ∀ ds, readStage (decide (stage = .vertex)) finished.text.toList = .ok ds →
          ∀ x ∈ ds, x.IsFrom target.dialect decls) := by
  rw [assembleStage] at h
  simp only [bind_eq_ok, pure_eq_ok] at h
  obtain ⟨draft, hdraft, text, htext, rfl⟩ := h
  have hdrafted := draftStage_items hd hnames hfields hdraft
  refine ⟨hdrafted, fun hplain ds hread x hx => ?_⟩
  have hreadable := hdrafted.isReadable hnames
  obtain ⟨-, lowered, hlowered, htext⟩ := (StageSource.finish_eq_ok_iff hreadable).mp htext
  obtain ⟨-, -, others, hothers, rfl⟩ := (StageSource.readStage_eq_ok_iff hreadable htext).mp hread
  rcases List.mem_append.mp hx with hx | hx
  · exact hdrafted.isFrom hx
  · exact (hplain lowered _ others hlowered hothers x hx).isFrom

/-- The items of a program are those of its stages, one stage after the other. -/
def AreDrafted (d : Dialect) (decls : Declarations) (items : List Item) : Prop :=
  (∃ vertex fragment, items = vertex ++ fragment ∧ IsDrafted d decls .vertex vertex ∧
    IsDrafted d decls .fragment fragment) ∨ IsDrafted d decls .compute items

/-- **The items of a program** are drafted stage by stage. -/
theorem areDrafted_assemble (hd : target.dialect.IsLoose) (hnames : decls.IsNamed)
    (hfields : ∀ t ∈ textures, ∀ f ∈ t.fields, IsName f.name.toList)
    (h : assemble target.dialect decls textures bodies = .ok assembly) :
    AreDrafted target.dialect decls assembly.items := by
  cases bodies with
  | graphics vertexBody fragmentBody colors =>
    simp only [assemble, bind_eq_ok, pure_eq_ok] at h
    obtain ⟨vertex, hvertex, fragment, hfragment, rfl⟩ := h
    exact .inl ⟨vertex.items, fragment.items, rfl, (assembleStage_spec hd hnames hfields hvertex).1,
      (assembleStage_spec hd hnames hfields hfragment).1⟩
  | compute body =>
    simp only [assemble, bind_eq_ok, pure_eq_ok] at h
    obtain ⟨stage, hstage, rfl⟩ := h
    exact .inr (assembleStage_spec hd hnames hfields hstage).1

/-- **What is read in the texts of a program** comes from its declared resources, if its bodies are
plain. -/
theorem mem_readProgram (hd : target.dialect.IsLoose) (hnames : decls.IsNamed)
    (hfields : ∀ t ∈ textures, ∀ f ∈ t.fields, IsName f.name.toList)
    (h : assemble target.dialect decls textures bodies = .ok assembly)
    (hplain : bodies.ArePlain target.dialect) (hread : readProgram assembly.texts = .ok ds) :
    ∀ x ∈ ds, x.IsFrom target.dialect decls := by
  cases bodies with
  | graphics vertexBody fragmentBody colors =>
    simp only [assemble, bind_eq_ok, pure_eq_ok] at h
    obtain ⟨vertex, hvertex, fragment, hfragment, rfl⟩ := h
    simp only [readProgram, bind_eq_ok, pure_eq_ok] at hread
    obtain ⟨vertexRead, hvertexRead, fragmentRead, hfragmentRead, rfl⟩ := hread
    intro x hx
    rcases List.mem_append.mp hx with hx | hx
    · exact (assembleStage_spec hd hnames hfields hvertex).2 hplain.1 _ hvertexRead x hx
    · exact (assembleStage_spec hd hnames hfields hfragment).2 hplain.2 _ hfragmentRead x hx
  | compute body =>
    simp only [assemble, bind_eq_ok, pure_eq_ok] at h
    obtain ⟨stage, hstage, rfl⟩ := h
    exact (assembleStage_spec hd hnames hfields hstage).2 hplain _ hread

end

/-! ## Registered elements -/

theorem Declared.textures_ofItems_append (before after : List Item) :
    (ofItems (before ++ after)).textures = (ofItems before).textures ++ (ofItems after).textures :=
  List.flatMap_append

theorem Declared.buffers_ofItems_append (before after : List Item) :
    (ofItems (before ++ after)).buffers = (ofItems before).buffers ++ (ofItems after).buffers :=
  List.flatMap_append

/-- The block is registered as declared, and has a binding exactly where the text fixes it. -/
structure BoundBuffer.IsFrom (d : Dialect) (decls : Declarations) (x : BoundBuffer) : Prop where
  /-- the block is declared -/
  declared : ∃ b ∈ decls.blocks, b.identifier = x.name ∧ b.block.kind = x.kind
  /-- its binding is known if it is fixed -/
  isSome_binding : x.binding.isSome = d.fixesBindings (.ofBlock x.kind)

/-- Blocks of one stage and kind have different names and different known bindings. -/
def BoundBuffer.Differs (x y : BoundBuffer) : Prop :=
  x.stage = y.stage → x.kind = y.kind →
    x.name ≠ y.name ∧ ∀ n, x.binding = some n → y.binding ≠ some n

theorem isFrom_of_mem_blockBuffers {a : Allocator} {blocks : List BlockDecl} {x : BoundBuffer}
    (hblocks : blocks ⊆ decls.blocks) (h : x ∈ blockBuffers d a blocks) :
    x.IsFrom d decls := by
  obtain ⟨b, hb, hname, hkind, -⟩ := exists_of_mem_blockBuffers h
  refine ⟨⟨b, hblocks hb, hname.symm, hkind.symm⟩, ?_⟩
  have hbinding := binding_of_mem_blockBuffers h
  cases hfixed : d.fixesBindings (.ofBlock x.kind) with
  | false =>
    rw [Dialect.bindingSpace?, hfixed, if_neg (by simp)] at hbinding
    rw [hbinding]
    rfl
  | true =>
    rw [Dialect.bindingSpace?, if_pos hfixed] at hbinding
    obtain ⟨n, hn, -⟩ := hbinding
    rw [hn]
    rfl

namespace IsDrafted

variable (h : IsDrafted d decls stage items)
include h

/-- The blocks of a stage. -/
theorem buffers_spec :
    ∀ x ∈ (Declared.ofItems items).buffers, x.stage = stage ∧ x.IsFrom d decls := by
  obtain ⟨a, ha⟩ := h.buffers_eq
  intro x hx
  rw [Declared.ofItems, ha] at hx
  obtain ⟨b, hb, -, -, hstage⟩ := exists_of_mem_blockBuffers hx
  refine ⟨?_, isFrom_of_mem_blockBuffers (List.filter_subset_self _) hx⟩
  rw [hstage]
  exact of_decide_eq_true (List.mem_filter.mp hb).2

theorem pairwise_buffers
    (hblocks : decls.blocks.Pairwise fun b c =>
      b.stage = c.stage → b.block.kind = c.block.kind → b.name ≠ c.name) :
    (Declared.ofItems items).buffers.Pairwise BoundBuffer.Differs := by
  obtain ⟨a, ha⟩ := h.buffers_eq
  rw [Declared.ofItems, ha]
  have hstage : (decls.blocks.filter (·.stage = stage)).Pairwise fun b c =>
      b.block.kind = c.block.kind → b.name ≠ c.name := by
    refine List.Pairwise.imp_of_mem (fun {b c} hb hc hne => ?_) (hblocks.filter _)
    have hb := of_decide_eq_true (List.mem_filter.mp hb).2
    have hc := of_decide_eq_true (List.mem_filter.mp hc).2
    exact hne (hb.trans hc.symm)
  refine List.Pairwise.imp₂ (fun x y hname hbinding hs hk => ⟨hname hk, hbinding ?_⟩)
    (pairwise_name_blockBuffers hstage) (pairwise_blockBuffers d a _)
  rw [hs, hk]

end IsDrafted

namespace AreDrafted

variable (h : AreDrafted d decls items)
include h

theorem textures_open : ∀ t ∈ (Declared.ofItems items).textures, t.binding = none := by
  intro t ht
  rcases h with ⟨vertex, fragment, rfl, hvertex, hfragment⟩ | h
  · rw [Declared.textures_ofItems_append] at ht
    rcases List.mem_append.mp ht with ht | ht
    · exact hvertex.textures_open t ht
    · exact hfragment.textures_open t ht
  · exact h.textures_open t ht

/-- **The blocks of a program** are registered as declared. -/
theorem isFrom_buffers : ∀ x ∈ (Declared.ofItems items).buffers, x.IsFrom d decls := by
  intro x hx
  rcases h with ⟨vertex, fragment, rfl, hvertex, hfragment⟩ | h
  · rw [Declared.buffers_ofItems_append] at hx
    rcases List.mem_append.mp hx with hx | hx
    · exact (hvertex.buffers_spec x hx).2
    · exact (hfragment.buffers_spec x hx).2
  · exact (h.buffers_spec x hx).2

/-- **The blocks of a program differ** if the declared ones do. -/
theorem pairwise_buffers
    (hblocks : decls.blocks.Pairwise fun b c =>
      b.stage = c.stage → b.block.kind = c.block.kind → b.name ≠ c.name) :
    (Declared.ofItems items).buffers.Pairwise BoundBuffer.Differs := by
  rcases h with ⟨vertex, fragment, rfl, hvertex, hfragment⟩ | h
  · rw [Declared.buffers_ofItems_append]
    refine List.pairwise_append.mpr
      ⟨hvertex.pairwise_buffers hblocks, hfragment.pairwise_buffers hblocks, ?_⟩
    -- blocks of different stages have nothing to do with each other
    intro x hx y hy hstage
    rw [(hvertex.buffers_spec x hx).1, (hfragment.buffers_spec y hy).1] at hstage
    cases hstage
  · exact h.pairwise_buffers hblocks

end AreDrafted

end ShaderLoom
