import ShaderLoom.Proofs.Outcome
import ShaderLoom.Block

/-!
# The layout of a block

`LaidOut` is what the layout rules say of a list of fields, one field after the other: each field
is aligned and has the extent of its type, and no room is lost that the alignment does not ask for.
Every block that grows field by field is laid out (**`Block.IsLaidOut.extend`**). So its fields lie
one behind the other (**`LaidOut.pairwise`**), inside the size of the block
(**`Block.IsLaidOut.finish_le_size`**).
-/

namespace ShaderLoom

variable {packing : Packing} {fields : List BlockField} {f : BlockField} {element : Footprint}
  {finish align n count : Nat} {b b' : Block} {name : String} {ty : ShaderType}

/-! ## Least multiples -/

/-- `m` is the least multiple of `align` that is at least `n`. -/
structure IsLeastMultiple (align n m : Nat) : Prop where
  /-- it is a multiple -/
  dvd : align ∣ m
  /-- it is large enough -/
  le : n ≤ m
  /-- and no other one is smaller -/
  least : ∀ k, align ∣ k → n ≤ k → m ≤ k

/-- Rounding up finds the least multiple. -/
theorem isLeastMultiple_roundUp (h : 0 < align) (n : Nat) :
    IsLeastMultiple align n (roundUp n align) := by
  refine ⟨dvd_roundUp n align, le_roundUp h n, ?_⟩
  rintro k ⟨q, rfl⟩ hn
  have hq : (align * q + (align - 1)) / align = q := by
    rw [Nat.mul_add_div h, Nat.div_eq_of_lt (by omega), Nat.add_zero]
  calc roundUp n align = (n + (align - 1)) / align * align := rfl
    _ ≤ (align * q + (align - 1)) / align * align :=
      Nat.mul_le_mul_right _ (Nat.div_le_div_right (Nat.add_le_add_right hn _))
    _ = align * q := by rw [hq, Nat.mul_comm]

/-! ## The rules -/

/-- The alignment of a field: that of its type, but std140 rounds it up to a multiple of 16 for
arrays. -/
def Packing.Aligns (packing : Packing) (element : Footprint) (count align : Nat) : Prop :=
  if packing = .std140 ∧ count ≠ 0 then IsLeastMultiple 16 element.align align
  else align = element.align

/-- The place of a field behind `finish` bytes. -/
structure BlockField.IsPlaced (packing : Packing) (finish : Nat) (element : Footprint)
    (align : Nat) (f : BlockField) : Prop where
  /-- the footprint of one value -/
  footprint : f.ty.footprint? = some element
  /-- the alignment of the field -/
  aligns : packing.Aligns element f.count align
  /-- the field begins as soon as the alignment allows -/
  offset : IsLeastMultiple align finish f.offset
  /-- a single value fills the field -/
  single : f.count = 0 → f.size = element.size ∧ f.stride = 0
  /-- the elements of an array lie one stride apart, and each has room in its stride -/
  array : f.count ≠ 0 → IsLeastMultiple align element.size f.stride ∧ f.size = f.stride * f.count

/-- The fields lie one behind the other by the rules of a packing, up to `finish`; `align` is the
largest alignment. -/
inductive LaidOut (packing : Packing) : List BlockField → (finish align : Nat) → Prop
  /-- no fields -/
  | nil : LaidOut packing [] 0 0
  /-- one more field -/
  | snoc {fields : List BlockField} {finish align : Nat} (h : LaidOut packing fields finish align)
    {f : BlockField} {element : Footprint} {a : Nat} (hf : f.IsPlaced packing finish element a) :
    LaidOut packing (fields ++ [f]) f.finish (max align a)

/-- The fields of a block lie in it by the rules of its packing. -/
def Block.IsLaidOut (b : Block) : Prop := LaidOut b.packing b.fields b.finish b.align

/-! ## Extending a block -/

/-- Footprints are not empty. -/
theorem ShaderType.footprint_pos (h : ty.footprint? = some element) :
    0 < element.size ∧ 0 < element.align := by
  revert element
  cases ty <;> decide

theorem Packing.arrayAlign_pos (packing : Packing) (h : 0 < align) :
    0 < packing.arrayAlign align := by
  cases packing with
  | std140 => exact Nat.lt_of_lt_of_le h (le_roundUp (by decide) align)
  | std430 => exact h

theorem Packing.aligns_extent (packing : Packing) (element : Footprint) (count : Nat) :
    packing.Aligns element count (packing.extent element count).align := by
  rw [Aligns, extent]
  by_cases hcount : count = 0
  · rw [if_pos hcount, if_neg fun h => h.2 hcount]
  · rw [if_neg hcount]
    cases packing with
    | std140 =>
      rw [if_pos ⟨rfl, hcount⟩]
      exact isLeastMultiple_roundUp (by decide) element.align
    | std430 =>
      rw [if_neg fun h => absurd h.1 (by decide)]
      rfl

theorem Packing.extent_align_pos (packing : Packing) (h : 0 < element.align) (count : Nat) :
    0 < (packing.extent element count).align := by
  rw [extent]
  split
  · exact h
  · exact packing.arrayAlign_pos h

/-- A field with the extent of its type is placed where the next field begins. -/
theorem Block.isPlaced_append (b : Block) (name : String) (count : Nat)
    (h : ty.footprint? = some element) :
    BlockField.IsPlaced b.packing b.finish element (b.packing.extent element count).align
      ⟨name, ty, count, b.nextOffset (b.packing.extent element count),
        (b.packing.extent element count).size, (b.packing.extent element count).stride⟩ := by
  have hpos := b.packing.extent_align_pos (ShaderType.footprint_pos h).2 count
  refine ⟨h, b.packing.aligns_extent element count, isLeastMultiple_roundUp hpos _,
    fun hcount => ?_, fun hcount => ?_⟩
  · rw [Packing.extent, if_pos hcount]
    exact ⟨rfl, rfl⟩
  · rw [Packing.extent, if_neg hcount]
    exact ⟨isLeastMultiple_roundUp (b.packing.arrayAlign_pos (ShaderType.footprint_pos h).2) _, rfl⟩

/-- **Extending a block** appends a field with the extent of its type, if the block stays small
enough. -/
theorem Block.extend_eq_ok_iff : b.extend name ty count = .ok b' ↔
    ∃ element, ty.footprint? = some element ∧
      b.append name ty count (b.packing.extent element count) = b' ∧
      roundUp b'.finish 16 < sizeLimit := by
  rw [extend]
  constructor
  · intro h
    split at h
    · cases h
    · next element helement =>
      dsimp only at h
      split at h
      · next hsize =>
        cases h
        exact ⟨element, helement, rfl, hsize⟩
      · cases h
  · rintro ⟨element, helement, rfl, hsize⟩
    rw [helement]
    exact if_pos hsize

/-- A block that was extended has one more field. -/
theorem Block.extend_eq_ok (h : b.extend name ty count = .ok b') :
    b'.packing = b.packing ∧ b'.kind = b.kind ∧
      ∃ f : BlockField, b'.fields = b.fields ++ [f] ∧ f.name = name ∧ f.ty = ty ∧
        f.count = count := by
  obtain ⟨element, -, rfl, -⟩ := extend_eq_ok_iff.mp h
  exact ⟨rfl, rfl, _, rfl, rfl, rfl, rfl⟩

theorem Block.isLaidOut_empty (packing : Packing) (kind : BlockKind) :
    (Block.empty packing kind).IsLaidOut := .nil

/-- **A block that grows stays laid out.** -/
theorem Block.IsLaidOut.extend (h : b.IsLaidOut) (he : b.extend name ty count = .ok b') :
    b'.IsLaidOut := by
  obtain ⟨element, helement, rfl, -⟩ := extend_eq_ok_iff.mp he
  exact LaidOut.snoc h (b.isPlaced_append name count helement)

/-! ## Fields that are laid out -/

theorem LaidOut.finish_le (h : LaidOut packing fields finish align) :
    ∀ f ∈ fields, f.finish ≤ finish := by
  induction h with
  | nil => simp
  | @snoc fields finish align h f element a hf ih =>
    intro g hg
    rcases List.mem_append.mp hg with hg | hg
    · have hoffset := hf.offset.le
      have hg := ih g hg
      simp only [BlockField.finish] at *
      omega
    · exact Nat.le_of_eq (congrArg _ (List.mem_singleton.mp hg))

/-- **No two fields share a byte**: each one ends before the next one begins. -/
theorem LaidOut.pairwise (h : LaidOut packing fields finish align) :
    fields.Pairwise fun f g => f.finish ≤ g.offset := by
  induction h with
  | nil => exact .nil
  | snoc h hf ih =>
    refine List.pairwise_append.mpr ⟨ih, List.pairwise_singleton _ _, fun g hg f hf' => ?_⟩
    rw [List.mem_singleton.mp hf']
    exact Nat.le_trans (h.finish_le g hg) hf.offset.le

theorem LaidOut.align_pos (h : LaidOut packing fields finish align) (hne : fields ≠ []) :
    0 < align := by
  cases h with
  | nil => exact absurd rfl hne
  | @snoc fields finish align h f element a hf =>
    have hpos := (ShaderType.footprint_pos hf.footprint).2
    have haligns := hf.aligns
    rw [Packing.Aligns] at haligns
    split at haligns
    · have hle := haligns.le
      omega
    · omega

/-- **The size of a block** is the least multiple of 16 (std140) or of its largest alignment
(std430) from the end of its last field on. -/
theorem Block.IsLaidOut.isLeastMultiple_size (h : b.IsLaidOut) (hne : b.fields ≠ []) :
    IsLeastMultiple (if b.packing = .std140 then 16 else b.align) b.finish b.size := by
  have hsixteen : 0 < 16 := by decide
  rw [size, if_neg hne]
  cases b.packing with
  | std140 => exact isLeastMultiple_roundUp hsixteen _
  | std430 => exact isLeastMultiple_roundUp (LaidOut.align_pos h hne) _

/-- **Every field lies inside its block.** -/
theorem Block.IsLaidOut.finish_le_size (h : b.IsLaidOut) (hf : f ∈ b.fields) :
    f.finish ≤ b.size :=
  Nat.le_trans (LaidOut.finish_le h f hf) (h.isLeastMultiple_size (List.ne_nil_of_mem hf)).le

end ShaderLoom
