import Mathlib.Order.Bounds.Basic
import ShaderLoom.Proofs.Block.Layout

/-!
# Blocks that grow

A block comes about by requests, one for each field, and a request that cannot be met leaves it as
it is. Whatever the requests are, the block has the layout of its packing
(**`Block.hasLayout_grown`**): its fields are placed by the rules, one behind the other, each
element of an array lies in its field, and the size of the block is what the rules ask for. One test
when a field is added is enough to keep all numbers of the layout below 2³²: the end of the block,
padded to 16 bytes, bounds its size under either packing, since every alignment divides 16.
-/

namespace ShaderLoom

variable {packing : Packing} {kind : BlockKind} {fields : List BlockField} {f : BlockField}
  {element : Footprint} {finish align a : Nat} {b : Block} {ty : ShaderType}

/-! ## Requests -/

/-- A field that a block is asked to take up. -/
structure FieldRequest where
  /-- the identifier of the field -/
  name : String
  /-- the type of one element -/
  ty : ShaderType
  /-- the number of array elements; zero for a single value -/
  count : Nat

/-- The block after a request. One that cannot be met changes nothing. -/
def Block.request (b : Block) (r : FieldRequest) : Block :=
  match b.extend r.name r.ty r.count with
  | .ok extended => extended
  | .error _ => b

/-- The block that the requests build up. -/
def Block.grown (packing : Packing) (kind : BlockKind) (requests : List FieldRequest) : Block :=
  requests.foldl Block.request (Block.empty packing kind)

theorem Block.request_cases (b : Block) (r : FieldRequest) :
    b.request r = b ∨ b.extend r.name r.ty r.count = .ok (b.request r) := by
  rw [request]
  split
  · next h => exact .inr h
  · exact .inl rfl

/-! ## Alignments -/

/-- The alignment of a field is `a`. -/
def BlockField.IsAligned (packing : Packing) (a : Nat) (f : BlockField) : Prop :=
  ∃ element, f.ty.footprint? = some element ∧ packing.Aligns element f.count a

theorem BlockField.IsPlaced.isAligned (h : f.IsPlaced packing finish element a) :
    f.IsAligned packing a :=
  ⟨element, h.footprint, h.aligns⟩

theorem ShaderType.align_dvd (h : ty.footprint? = some element) : element.align ∣ 16 := by
  revert element
  cases ty <;> decide

theorem ShaderType.size_le (h : ty.footprint? = some element) : element.size ≤ 64 := by
  revert element
  cases ty <;> decide

/-- **Every alignment divides 16.** -/
theorem Packing.Aligns.dvd {count : Nat} (haligns : packing.Aligns element count a)
    (helement : ty.footprint? = some element) : a ∣ 16 := by
  have hdvd := ShaderType.align_dvd helement
  rw [Packing.Aligns] at haligns
  split at haligns
  · -- an array rounds the alignment of its type up, and 16 is enough
    have hle := haligns.least 16 (Nat.dvd_refl 16) (Nat.le_of_dvd (by decide) hdvd)
    have hpos := (ShaderType.footprint_pos helement).2
    have hge := haligns.le
    exact Nat.le_antisymm hle (Nat.le_of_dvd (by omega) haligns.dvd) ▸ Nat.dvd_refl a
  · rwa [haligns]

theorem BlockField.IsAligned.dvd (h : f.IsAligned packing a) : a ∣ 16 := by
  obtain ⟨element, helement, haligns⟩ := h
  exact haligns.dvd helement

/-- The alignment and the stride of a field are small, whether the field fits or not. -/
theorem Packing.extent_lt (packing : Packing) (h : ty.footprint? = some element) (count : Nat) :
    (packing.extent element count).align < Block.sizeLimit ∧
      (packing.extent element count).stride < Block.sizeLimit := by
  have hlimit : 80 < Block.sizeLimit := by decide
  have haligned := Nat.le_of_dvd (by decide) ((packing.aligns_extent element count).dvd h)
  refine ⟨by omega, ?_⟩
  by_cases hcount : count = 0
  · rw [extent, if_pos hcount]
    exact Nat.zero_lt_of_lt hlimit
  · rw [extent, if_neg hcount] at haligned ⊢
    have hsize := ShaderType.size_le h
    have hround := roundUp_lt (packing.arrayAlign_pos (ShaderType.footprint_pos h).2) element.size
    dsimp only at haligned ⊢
    omega

theorem IsLeastMultiple.unique {n m m' : Nat} (h : IsLeastMultiple align n m)
    (h' : IsLeastMultiple align n m') : m = m' :=
  Nat.le_antisymm (h.least m' h'.dvd h'.le) (h'.least m h.dvd h.le)

theorem BlockField.IsAligned.unique {a' : Nat} (h : f.IsAligned packing a)
    (h' : f.IsAligned packing a') : a = a' := by
  obtain ⟨element, helement, haligns⟩ := h
  obtain ⟨element', helement', haligns'⟩ := h'
  obtain rfl : element = element' := Option.some.inj (helement.symm.trans helement')
  rw [Packing.Aligns] at haligns haligns'
  split at haligns
  · next harray =>
    rw [if_pos harray] at haligns'
    exact haligns.unique haligns'
  · next hsingle =>
    rw [if_neg hsingle] at haligns'
    rw [haligns, haligns']

/-- Without fields there is nothing to lay out. -/
theorem LaidOut.of_nil (h : LaidOut packing [] finish align) : finish = 0 ∧ align = 0 := by
  generalize hfields : [] = fields at h
  cases h with
  | nil => exact ⟨rfl, rfl⟩
  | snoc => simp at hfields

/-- **The alignment of a block** is the largest one of its fields. -/
theorem LaidOut.isGreatest_align (h : LaidOut packing fields finish align) (hne : fields ≠ []) :
    IsGreatest {a | ∃ f ∈ fields, f.IsAligned packing a} align := by
  induction h with
  | nil => exact absurd rfl hne
  | @snoc fields finish align h f element a hf ih =>
    have hlast : a ∈ {a | ∃ g ∈ fields ++ [f], g.IsAligned packing a} :=
      ⟨f, by simp, hf.isAligned⟩
    by_cases hnil : fields = []
    · subst hnil
      rw [h.of_nil.2, Nat.zero_max]
      refine ⟨hlast, ?_⟩
      rintro a' ⟨g, hg, haligned⟩
      rw [List.mem_singleton.mp hg] at haligned
      exact Nat.le_of_eq (haligned.unique hf.isAligned)
    · obtain ⟨⟨g, hg, haligned⟩, hupper⟩ := ih hnil
      constructor
      · rcases Nat.le_total align a with hle | hle
        · rwa [Nat.max_eq_right hle]
        · rw [Nat.max_eq_left hle]
          exact ⟨g, List.mem_append_left _ hg, haligned⟩
      · rintro a' ⟨g', hg', haligned'⟩
        rcases List.mem_append.mp hg' with hg' | hg'
        · exact Nat.le_trans (hupper ⟨g', hg', haligned'⟩) (Nat.le_max_left ..)
        · rw [List.mem_singleton.mp hg'] at haligned'
          exact haligned'.unique hf.isAligned ▸ Nat.le_max_right ..

/-! ## Places -/

theorem LaidOut.exists_isPlaced (h : LaidOut packing fields finish align) :
    ∀ f ∈ fields, ∃ before element a, f.IsPlaced packing before element a := by
  induction h with
  | nil => simp
  | @snoc fields finish align h f element a hf ih =>
    intro g hg
    rcases List.mem_append.mp hg with hg | hg
    · exact ih g hg
    · rw [List.mem_singleton.mp hg]
      exact ⟨finish, element, a, hf⟩

/-- **Each element of an array lies in its field**: it begins a whole number of strides behind the
offset, and is over before the field is. -/
theorem BlockField.IsPlaced.element_le (h : f.IsPlaced packing finish element a) {i : Nat}
    (hi : i < f.count) : f.offset + i * f.stride + element.size ≤ f.finish := by
  obtain ⟨hstride, hsize⟩ := h.array (by omega)
  have hroom := hstride.le
  calc f.offset + i * f.stride + element.size ≤ f.offset + (i * f.stride + f.stride) := by omega
    _ = f.offset + f.stride * (i + 1) := by rw [Nat.mul_comm, Nat.mul_succ]
    _ ≤ f.offset + f.stride * f.count := Nat.add_le_add_left (Nat.mul_le_mul_left _ hi) _
    _ = f.finish := by rw [BlockField.finish, hsize]

/-- No field is empty, and none is smaller than its stride. -/
theorem BlockField.IsPlaced.size_pos (h : f.IsPlaced packing finish element a) :
    0 < f.size ∧ f.stride ≤ f.size := by
  have hpos := (ShaderType.footprint_pos h.footprint).1
  by_cases hcount : f.count = 0
  · obtain ⟨hsize, hstride⟩ := h.single hcount
    omega
  · obtain ⟨hstride, hsize⟩ := h.array hcount
    have hroom := hstride.le
    have hle : f.stride ≤ f.size := hsize ▸ Nat.le_mul_of_pos_right _ (by omega)
    omega

theorem LaidOut.finish_eq (h : LaidOut packing fields finish align) :
    ∀ f ∈ fields.getLast?, finish = f.finish := by
  cases h with
  | nil => simp
  | snoc => simp

/-! ## The layout of a block -/

/-- What the size of a block is a multiple of. -/
def Packing.AlignsBlock (packing : Packing) (fields : List BlockField) (align : Nat) : Prop :=
  match packing with
  | .std140 => align = 16
  | .std430 => IsGreatest {a | ∃ f ∈ fields, f.IsAligned packing a} align

/-- The layout that a packing gives to a block. -/
structure Block.HasLayout (packing : Packing) (b : Block) : Prop where
  /-- the fields are placed by the rules, one after the other from the start of the block -/
  placed : LaidOut packing b.fields b.finish b.align
  /-- they are in increasing order and share no byte -/
  disjoint : b.fields.Pairwise fun f g => f.offset < g.offset ∧ f.finish ≤ g.offset
  /-- each element of an array lies in its field -/
  elements : ∀ f ∈ b.fields, ∀ element ∈ f.ty.footprint?, ∀ i < f.count,
    f.offset + i * f.stride + element.size ≤ f.finish
  /-- a block without fields has no size -/
  size_nil : b.fields = [] → b.size = 0
  /-- any other block ends with its last field, up to its alignment -/
  size : ∀ f ∈ b.fields.getLast?, ∃ align, packing.AlignsBlock b.fields align ∧
    IsLeastMultiple align f.finish b.size
  /-- the numbers of the fields are 32-bit numbers -/
  fields_lt : ∀ f ∈ b.fields, f.offset < sizeLimit ∧ f.size < sizeLimit ∧ f.stride < sizeLimit ∧
    f.finish < sizeLimit
  /-- and so are those of the block -/
  size_lt : b.finish < sizeLimit ∧ b.align < sizeLimit ∧ b.size < sizeLimit
  /-- and so are those of any further field before it is tested, which may then be refused -/
  extent_lt : ∀ (ty : ShaderType) (element : Footprint) (count : Nat),
    ty.footprint? = some element → (packing.extent element count).align < sizeLimit ∧
      (packing.extent element count).stride < sizeLimit

/-- What every request preserves. -/
structure Block.Grows (packing : Packing) (b : Block) : Prop where
  /-- the packing stays -/
  packing_eq : b.packing = packing
  /-- the fields are placed by the rules -/
  isLaidOut : b.IsLaidOut
  /-- the padded end is a 32-bit number -/
  padded_lt : roundUp b.finish 16 < sizeLimit

namespace Block.Grows

theorem empty (packing : Packing) (kind : BlockKind) :
    (Block.empty packing kind).Grows packing := by
  have hpadded : roundUp 0 16 < sizeLimit := by decide
  exact ⟨rfl, isLaidOut_empty packing kind, hpadded⟩

/-- **Every request keeps the layout**, whether it is met or not. -/
theorem request (h : b.Grows packing) (r : FieldRequest) : (b.request r).Grows packing := by
  rcases b.request_cases r with hsame | hextended
  · rwa [hsame]
  · refine ⟨(extend_eq_ok hextended).1.trans h.packing_eq, h.isLaidOut.extend hextended, ?_⟩
    obtain ⟨-, -, -, hpadded⟩ := extend_eq_ok_iff.mp hextended
    exact hpadded

theorem grown (packing : Packing) (kind : BlockKind) (requests : List FieldRequest) :
    (Block.grown packing kind requests).Grows packing :=
  foldl_preserves (fun r _ _ h => h.request r) (empty packing kind)

end Block.Grows

/-- The padded end bounds the size of a block. -/
theorem Block.IsLaidOut.size_le (h : b.IsLaidOut) : b.size ≤ roundUp b.finish 16 := by
  by_cases hne : b.fields = []
  · rw [size, if_pos hne]
    exact Nat.zero_le _
  · have hsize := h.isLeastMultiple_size hne
    obtain ⟨⟨f, -, haligned⟩, -⟩ := LaidOut.isGreatest_align h hne
    refine hsize.least _ ?_ (le_roundUp (by decide) _)
    have hdvd := dvd_roundUp b.finish 16
    split
    · exact hdvd
    · exact Nat.dvd_trans haligned.dvd hdvd

theorem Block.IsLaidOut.align_le (h : b.IsLaidOut) : b.align ≤ 16 := by
  by_cases hne : b.fields = []
  · rw [IsLaidOut, hne] at h
    rw [h.of_nil.2]
    exact Nat.zero_le 16
  · obtain ⟨⟨f, -, haligned⟩, -⟩ := LaidOut.isGreatest_align h hne
    exact Nat.le_of_dvd (by decide) haligned.dvd

/-- **A block has the layout of its packing** whatever requests have built it up, those that could
not be met included, and no number of its layout outgrows 32 bits. -/
theorem Block.hasLayout_grown (packing : Packing) (kind : BlockKind)
    (requests : List FieldRequest) : (Block.grown packing kind requests).HasLayout packing := by
  obtain ⟨hpacking, hlaid, hpadded⟩ := Grows.grown packing kind requests
  generalize Block.grown packing kind requests = b at hpacking hlaid hpadded
  have hfinish : b.finish < sizeLimit := Nat.lt_of_le_of_lt (le_roundUp (by decide) _) hpadded
  have hplaced : LaidOut packing b.fields b.finish b.align := hpacking ▸ hlaid
  refine
    { placed := hplaced
      disjoint := ?_
      elements := ?_
      size_nil := fun hnil => if_pos hnil
      size := ?_
      fields_lt := ?_
      size_lt := ⟨hfinish, Nat.lt_of_le_of_lt hlaid.align_le (by decide),
        Nat.lt_of_le_of_lt hlaid.size_le hpadded⟩
      extent_lt := fun ty element count h => packing.extent_lt h count }
  · refine hplaced.pairwise.imp_of_mem fun {f g} hf _ hle => ⟨?_, hle⟩
    obtain ⟨before, element, a, hf⟩ := hplaced.exists_isPlaced f hf
    have hpos := hf.size_pos.1
    rw [BlockField.finish] at hle
    omega
  · intro f hf element helement i hi
    obtain ⟨before, element', a, hf⟩ := hplaced.exists_isPlaced f hf
    obtain rfl : element' = element := Option.some.inj (hf.footprint.symm.trans helement)
    exact hf.element_le hi
  · intro f hf
    have hne : b.fields ≠ [] := List.ne_nil_of_mem (List.mem_of_getLast? hf)
    have hsize := hlaid.isLeastMultiple_size hne
    rw [hpacking, hplaced.finish_eq f hf] at hsize
    cases packing with
    | std140 => exact ⟨16, rfl, hsize⟩
    | std430 => exact ⟨b.align, hplaced.isGreatest_align hne, hsize⟩
  · intro f hf
    have hle := hplaced.finish_le f hf
    obtain ⟨before, element, a, hf⟩ := hplaced.exists_isPlaced f hf
    have hstride := hf.size_pos.2
    have hend : f.finish = f.offset + f.size := rfl
    omega

/-- A matrix behind vectors, and a field that has no footprint. -/
example : (Block.grown .std140 .uniform
    [⟨"time", .float, 0⟩, ⟨"color", .vec3, 0⟩, ⟨"map", .sampler2D, 0⟩, ⟨"scale", .float, 0⟩,
      ⟨"transform", .mat4, 0⟩]).fields.map (·.offset) = [0, 16, 28, 32] := by
  decide

end ShaderLoom
