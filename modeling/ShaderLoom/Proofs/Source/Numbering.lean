import Mathlib.Data.List.Perm.Basic
import ShaderLoom.Proofs.Source.Head
import ShaderLoom.Proofs.Source.Program

/-!
# Bindings from one space

Where a dialect fixes all bindings and shares them, every sampler, image and block gets the next
number, whatever its stage and its kind. What is drafted for a program is therefore numbered in the
order of its items: **`assemble_isNumbered`**. The number that is written in the head of an item is
the number that is registered.
-/

namespace ShaderLoom

open Text Reading

variable {d : Dialect} {stage : Stage} {draft draft' : Draft} {decls : Declarations}
  {textures : List ExpandedTexture} {colors : Nat} {a a' : Allocator} {item : Item}
  {entry : StageEntry} {first : Nat}

/-! ## Shared bindings -/

/-- The text fixes all bindings, and they come from one space. -/
structure Dialect.IsShared (d : Dialect) : Prop where
  /-- the space is the shared one -/
  space : ∀ stage resource, d.bindingSpace? stage resource = some .shared
  /-- declarations have no precision qualifiers -/
  hasPrecision : d.hasPrecision = false

/-- **Bindings are shared on Vulkan.** -/
theorem Target.isShared_dialect {target : Target} (h : target.api = .vulkan) :
    target.dialect.IsShared := by
  obtain ⟨api, version, platform, frames⟩ := target
  obtain rfl : api = .vulkan := h
  refine ⟨fun stage resource => ?_, rfl⟩
  cases resource <;> rfl

/-- The samplers, images and blocks that are registered, by their bindings. -/
def Elements.bindings {L : Type} (e : Elements L) : List (Option Nat) :=
  e.textures.map (·.binding) ++ e.buffers.map (·.binding)

/-! ## Numbers of items -/

/-- What an allocator hands out for an item: the next binding, or none at all. -/
structure Item.IsNumbered (a a' : Allocator) (item : Item) : Prop where
  /-- the binding is the next one -/
  binding : item.binding.toList = List.range' (a.bindings .shared) item.binding.toList.length
  /-- the allocator goes on behind it -/
  next : a'.bindings .shared = a.bindings .shared + item.binding.toList.length
  /-- what is registered has the binding that is written -/
  registered : item.elements.bindings = item.binding.toList.map some

theorem Allocator.binding_shared (hd : d.IsShared) (a : Allocator) (stage : Stage)
    (resource : BindingClass) :
    (a.binding d stage resource).1 = some (a.bindings .shared) ∧
      (a.binding d stage resource).2.bindings .shared = a.bindings .shared + 1 := by
  rw [binding_of_some (hd.space stage resource)]
  exact ⟨rfl, by simp [advance]⟩

/-- An item with the next binding. -/
theorem Item.isNumbered_of_some (hbinding : item.binding = some (a.bindings .shared))
    (hnext : a'.bindings .shared = a.bindings .shared + 1)
    (hregistered : item.elements.bindings = [item.binding]) : item.IsNumbered a a' := by
  rw [hbinding] at hregistered
  refine ⟨?_, ?_, ?_⟩
  · rw [hbinding]
    rfl
  · rw [hbinding]
    exact hnext
  · rw [hbinding]
    exact hregistered

/-- An item without a binding. -/
theorem Item.isNumbered_of_none (hbinding : item.binding = none)
    (hnext : a'.bindings .shared = a.bindings .shared) (hregistered : item.elements.bindings = []) :
    item.IsNumbered a a' := by
  refine ⟨?_, ?_, ?_⟩
  · rw [hbinding]
    rfl
  · rw [hbinding]
    exact hnext
  · rw [hbinding]
    exact hregistered

/-- Locations are no bindings. -/
theorem Allocator.bindings_location (a : Allocator) (d : Dialect) (stage : Stage) (count : Nat) :
    (a.input d stage count).2.bindings = a.bindings ∧
      (a.output d stage count).2.bindings = a.bindings := by
  unfold Allocator.input Allocator.output
  split <;> exact ⟨rfl, rfl⟩

/-- **Every item is numbered.** -/
theorem StageEntry.Yields.isNumbered (hd : d.IsShared) (h : entry.Yields d stage a item a') :
    item.IsNumbered a a' := by
  cases h with
  | colorOutput colors _ =>
    exact Item.isNumbered_of_none rfl (congrFun (a.bindings_location d _ _).2 _) rfl
  | varyingOut v _ =>
    exact Item.isNumbered_of_none rfl (congrFun (a.bindings_location d _ _).2 _) rfl
  | varyingIn v _ =>
    exact Item.isNumbered_of_none rfl (congrFun (a.bindings_location d _ _).1 _) rfl
  | uniform hu hblock hpool => exact Item.isNumbered_of_none rfl rfl rfl
  | opaqueField hty himage =>
    obtain ⟨hbinding, hnext⟩ := a.binding_shared hd _ .texture
    exact Item.isNumbered_of_some hbinding hnext rfl
  | block b =>
    obtain ⟨hbinding, hnext⟩ := a.binding_shared hd b.stage (.ofBlock b.block.kind)
    exact Item.isNumbered_of_some hbinding hnext rfl
  | vertexAttribute x =>
    exact Item.isNumbered_of_none rfl (congrFun (a.bindings_location d _ _).1 _) rfl

/-! ## Numbers of stages -/

/-- The items of a draft are numbered from `first` on, and its allocator goes on behind them. -/
structure Draft.IsNumbered (first : Nat) (draft : Draft) : Prop where
  /-- bindings follow one another -/
  bindings : draft.items.filterMap Item.binding =
    List.range' first (draft.items.filterMap Item.binding).length
  /-- the next binding -/
  next : draft.allocator.bindings .shared = first + (draft.items.filterMap Item.binding).length
  /-- what is registered has the bindings that are written -/
  registered : ∀ item ∈ draft.items, item.elements.bindings = item.binding.toList.map some

theorem Draft.IsNumbered.push (h : draft.IsNumbered first)
    (hitem : item.IsNumbered draft.allocator a) :
    ((draft.advanced a).push item).IsNumbered first := by
  have hitems : ((draft.advanced a).push item).items.filterMap Item.binding =
      draft.items.filterMap Item.binding ++ item.binding.toList := by
    change (draft.items ++ [item]).filterMap Item.binding = _
    rw [List.filterMap_append, List.filterMap_cons, List.filterMap_nil]
    cases item.binding <;> rfl
  refine ⟨?_, ?_, fun i hi => ?_⟩
  · rw [hitems, List.length_append, ← List.range'_append_1, ← h.bindings, ← h.next, ← hitem.binding]
  · rw [hitems, List.length_append, ← Nat.add_assoc, ← h.next]
    exact hitem.next
  · rcases List.mem_append.mp hi with hi | hi
    · exact h.registered i hi
    · obtain rfl := List.mem_singleton.mp hi
      exact hitem.registered

theorem Draft.IsNumbered.add (hd : d.IsShared) (h : draft.IsNumbered first)
    (hadds : draft.Adds d stage entry draft') : draft'.IsNumbered first := by
  cases hadds with
  | item hyields => exact h.push (hyields.isNumbered hd)
  | pooled => exact ⟨h.bindings, h.next, h.registered⟩
  | nothing => exact h

/-- **The items of a stage are numbered** from the next free binding on. -/
theorem draftStage_isNumbered (hd : d.IsShared)
    (h : draftStage d decls textures stage colors a = .ok draft) :
    draft.IsNumbered (a.bindings .shared) := by
  obtain ⟨last, hlast, hclose⟩ := draftStage_induction
    (motive := fun _ draft => draft.IsNumbered (a.bindings .shared))
    ⟨rfl, rfl, fun item hitem => absurd hitem List.not_mem_nil⟩
    (fun _ _ _ _ hc hadds => hc.add hd hadds) h
  rcases Draft.closePool_eq_ok hclose with ⟨-, rfl⟩ | ⟨-, buffer, -, rfl⟩
  · exact hlast
  · obtain ⟨hbinding, hnext⟩ := last.allocator.binding_shared hd stage .uniformBlock
    exact hlast.push (Item.isNumbered_of_some hbinding hnext rfl)

/-! ## Numbers of programs -/

section

variable {bodies : ProgramBodies} {program : Assembly}

/-- **The items of a program are numbered** from zero on, across its stages. -/
theorem assemble_isNumbered (hd : d.IsShared)
    (h : assemble d decls textures bodies = .ok program) :
    program.items.filterMap Item.binding =
        List.range (program.items.filterMap Item.binding).length ∧
      ∀ item ∈ program.items, item.elements.bindings = item.binding.toList.map some := by
  cases bodies with
  | graphics vertexBody fragmentBody colors =>
    obtain ⟨vertex, fragment, hvertex, hfragment, rfl⟩ := assemble_graphics_eq_ok_iff.mp h
    obtain ⟨vertexDraft, hvertexDraft, -, hvertexItems, hnext⟩ := assembleStage_eq_ok hvertex
    obtain ⟨fragmentDraft, hfragmentDraft, -, hfragmentItems, -⟩ := assembleStage_eq_ok hfragment
    have hv := draftStage_isNumbered hd hvertexDraft
    have hf := draftStage_isNumbered hd hfragmentDraft
    have hstart : Allocator.start.bindings .shared = 0 := rfl
    rw [hnext, hv.next, hstart] at hf
    rw [hstart] at hv
    dsimp only
    rw [hvertexItems, hfragmentItems]
    refine ⟨?_, fun item hitem => ?_⟩
    · rw [List.filterMap_append, List.length_append, List.range_eq_range', ← List.range'_append_1,
        ← hv.bindings, ← hf.bindings]
    · rcases List.mem_append.mp hitem with hitem | hitem
      · exact hv.registered item hitem
      · exact hf.registered item hitem
  | compute body =>
    obtain ⟨stage, hstage, rfl⟩ := assemble_compute_eq_ok_iff.mp h
    obtain ⟨draft, hdraft, -, hitems, -⟩ := assembleStage_eq_ok hstage
    have hnumbered := draftStage_isNumbered hd hdraft
    dsimp only
    rw [hitems]
    refine ⟨?_, hnumbered.registered⟩
    rw [List.range_eq_range']
    exact hnumbered.bindings

/-- What the items register is what they are numbered with. -/
theorem flatMap_bindings_eq {items : List Item}
    (h : ∀ item ∈ items, item.elements.bindings = item.binding.toList.map some) :
    items.flatMap (·.elements.bindings) = (items.filterMap Item.binding).map some := by
  induction items with
  | nil => rfl
  | cons item items ih =>
    rw [List.flatMap_cons, ih fun i hi => h i (List.mem_cons_of_mem item hi),
      h item (List.mem_cons_self ..), List.filterMap_cons]
    cases item.binding <;> rfl

/-- **The bindings that are registered** are the numbers from zero on, each of them once. -/
theorem bindings_ofItems_perm (hd : d.IsShared)
    (h : assemble d decls textures bodies = .ok program) :
    ∃ n, (Declared.ofItems program.items).bindings.Perm ((List.range n).map some) := by
  obtain ⟨hbindings, hregistered⟩ := assemble_isNumbered hd h
  refine ⟨(program.items.filterMap Item.binding).length, ?_⟩
  rw [← hbindings, ← flatMap_bindings_eq hregistered]
  have hperm := List.flatMap_append_perm program.items
    (fun item => item.elements.textures.map (·.binding))
    fun item => item.elements.buffers.map (·.binding)
  refine List.Perm.trans ?_ hperm
  rw [Elements.bindings, Declared.ofItems, List.map_flatMap, List.map_flatMap]

/-! ## What is written -/

theorem Format.isHeadWord_imageQualifier {f : Format} {qualifier : String}
    (h : f.imageQualifier? = some qualifier) : IsHeadWord qualifier.toList := by
  have hname : ∀ q ∈ f.imageQualifier?, IsName q.toList := by
    cases f <;> decide
  exact ⟨hname qualifier h, Format.callFree_imageQualifier h⟩

theorem Draft.isHeadWord_of_imageAccess {t : ExpandedTexture} {image : Option ImageAccess}
    (h : Draft.imageAccess t = .ok image) : ∀ access ∈ image, IsHeadWord access.format.toList := by
  intro access haccess
  obtain ⟨format, hq⟩ := exists_format_of_imageAccess h access haccess
  exact Format.isHeadWord_imageQualifier hq

/-- A sampler or an image of a stage comes of an item with a head. -/
theorem exists_head_of_mem_textures (hd : d.IsShared)
    (h : draftStage d decls textures stage colors a = .ok draft) (hitem : item ∈ draft.items)
    {t : BoundTexture} (ht : t ∈ item.elements.textures) :
    t.stage = stage ∧ ∃ image, item = .opaqueUniform "" image t ∧
      item.HasHead (opaqueHead image t.binding t.ty) := by
  rcases exists_entry_of_mem h hitem with ⟨entry, hentry, b, b', hyields⟩ | ⟨pool, buffer, b, rfl⟩
  · have hfor := isFor_of_mem_stageEntries entry hentry
    cases hyields with
    | opaqueField hty himage =>
      obtain rfl := List.mem_singleton.mp ht
      have hprecision : ∀ ty wish fallback, d.precisionQualifier ty wish fallback = "" := by
        intro ty wish fallback
        rw [Dialect.precisionQualifier, hd.hasPrecision]
        rfl
      rw [hprecision]
      exact ⟨hfor, _, rfl, .opaqueUniform _ (Draft.isHeadWord_of_imageAccess himage)⟩
    | colorOutput | varyingOut | varyingIn | uniform | block | vertexAttribute => cases ht
  · cases ht

/-- A block of a stage comes of an item with a head. -/
theorem exists_head_of_mem_buffers
    (h : draftStage d decls textures stage colors a = .ok draft) (hitem : item ∈ draft.items)
    {b : BoundBuffer} (hb : b ∈ item.elements.buffers) :
    b.stage = stage ∧ item.naming = b.name.toList ++ [' ', '\x7b'] ∧
      ∃ packing, item.HasHead (blockHead packing b.binding b.kind) := by
  rcases exists_entry_of_mem h hitem with ⟨entry, hentry, x, x', hyields⟩ | ⟨pool, buffer, x, rfl⟩
  · have hfor := isFor_of_mem_stageEntries entry hentry
    cases hyields with
    | block b' =>
      obtain rfl := List.mem_singleton.mp hb
      exact ⟨hfor, rfl, _, .block _ _⟩
    | colorOutput | varyingOut | varyingIn | uniform | opaqueField | vertexAttribute => cases hb
  · obtain rfl := List.mem_singleton.mp hb
    exact ⟨rfl, rfl, _, .uniformBlock _ _⟩

end

end ShaderLoom
