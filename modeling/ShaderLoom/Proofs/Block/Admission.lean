import Mathlib.Algebra.Group.Nat.Defs
import ShaderLoom.Error
import ShaderLoom.Proofs.Block.Growth

/-!
# Fields that are refused

`Block.add` is what happens to a block in hand when a field is added to it: the numbers of the field
are computed one after the other, each of them has to be a 32-bit number, and then the block is
changed piece by piece. Whatever was changed before a step fails would stay changed. But all steps
that can fail come first, and together they refuse a field for one reason only, besides a type that
has no footprint: the exact end of the field, padded to 16 bytes, is no 32-bit number
(**`Block.meets_filled`**).
-/

namespace ShaderLoom

variable {packing : Packing} {kind : BlockKind} {f g : BlockField} {element element' : Footprint}
  {finish a a' n : Nat} {b : Block} {r : FieldRequest}

/-! ## Adding in place -/

/-- Steps on a block in hand. A step that fails ends them, and what they have changed so far stays
changed. -/
abbrev BlockSteps : Type → Type := ExceptT BlockFault (StateM Block)

namespace Block

/-- The number `n` of a field, if it is a 32-bit number. -/
def word (field : String) (n : Nat) : BlockSteps Nat :=
  if n < sizeLimit then pure n else throw (.tooLarge field)

/-- Add a field to the block in hand, and return its position. -/
def add (r : FieldRequest) : BlockSteps Nat := do
  let some element := r.ty.footprint? | throw (.noFootprint r.name r.ty)
  let b ← get
  let e := b.packing.extent element r.count
  let size ← word r.name e.size
  let offset ← word r.name (roundUp b.finish e.align)
  let finish ← word r.name (offset + size)
  let _ ← word r.name (roundUp finish 16)
  modify fun b => { b with fields := b.fields ++ [⟨r.name, r.ty, r.count, offset, size, e.stride⟩] }
  modify fun b => { b with finish := finish }
  modify fun b => { b with align := max b.align e.align }
  return (← get).fields.length - 1

/-- The answer to a request, and the block behind it. -/
def answered (b : Block) (r : FieldRequest) : Except BlockFault Nat × Block := ((add r).run).run b

/-- The block that is left when fields have been added one after the other, or refused. -/
def filled (packing : Packing) (kind : BlockKind) (requests : List FieldRequest) : Block :=
  requests.foldl (fun b r => (b.answered r).2) (empty packing kind)

theorem run_word_bind {α : Type} (field : String) (n : Nat) (k : Nat → BlockSteps α) (b : Block) :
    ((word field n >>= k).run).run b =
      if n < sizeLimit then ((k n).run).run b else (.error (.tooLarge field), b) := by
  rw [word]
  split <;> rfl

/-- **Adding in place extends the block**, or leaves it as it is: the padded end bounds the other
numbers of the field. -/
theorem answered_eq (b : Block) (r : FieldRequest) :
    b.answered r = match b.extend r.name r.ty r.count with
      | .ok extended => (.ok b.fields.length, extended)
      | .error fault => (.error fault, b) := by
  rw [answered, add, extend]
  cases r.ty.footprint? with
  | none => rfl
  | some element =>
    have hget : ∀ {α : Type} (k : Block → BlockSteps α),
        ((get >>= k : BlockSteps α).run).run b = ((k b).run).run b := fun k => rfl
    dsimp only
    rw [hget]
    simp only [run_word_bind]
    generalize b.packing.extent element r.count = e
    have hfinish : (b.append r.name r.ty r.count e).finish = roundUp b.finish e.align + e.size := rfl
    rw [hfinish]
    by_cases hpadded : roundUp (roundUp b.finish e.align + e.size) 16 < sizeLimit
    · have hle : roundUp b.finish e.align + e.size ≤ _ := le_roundUp (by decide : 0 < 16) _
      have hfits : roundUp b.finish e.align + e.size < sizeLimit := Nat.lt_of_le_of_lt hle hpadded
      have hsize : e.size < sizeLimit := Nat.lt_of_le_of_lt (Nat.le_add_left ..) hfits
      have hoffset : roundUp b.finish e.align < sizeLimit :=
        Nat.lt_of_le_of_lt (Nat.le_add_right ..) hfits
      have hlength : ∀ f : BlockField, (b.fields ++ [f]).length - 1 = b.fields.length := by simp
      rw [if_pos hsize, if_pos hoffset, if_pos hfits, if_pos hpadded, if_pos hpadded]
      exact congrArg (fun i => (Except.ok i, b.append r.name r.ty r.count e)) (hlength _)
    · -- whichever number is too large, the fault is the same
      rw [if_neg hpadded, if_neg hpadded]
      split_ifs <;> rfl

theorem answered_snd (b : Block) (r : FieldRequest) : (b.answered r).2 = b.request r := by
  rw [answered_eq, request]
  cases b.extend r.name r.ty r.count <;> rfl

/-- **Blocks that are changed in place** are the blocks that requests build up. -/
theorem filled_eq_grown (packing : Packing) (kind : BlockKind) (requests : List FieldRequest) :
    filled packing kind requests = grown packing kind requests := by
  have hstep : (fun b r => (answered b r).2) = request := by
    funext b r
    exact answered_snd b r
  rw [filled, grown, hstep]

end Block

/-! ## The exact end of a field -/

/-- The end of the last field. -/
def fieldsEnd (fields : List BlockField) : Nat := (fields.getLast?.map BlockField.finish).getD 0

/-- The rules let the field that is asked for end at `n` bytes behind the start of the block, once
its end is rounded up to a multiple of 16. The number may be of any size. -/
def Block.PaddedEnd (b : Block) (r : FieldRequest) (n : Nat) : Prop :=
  ∃ (f : BlockField) (element : Footprint) (align : Nat), f.ty = r.ty ∧ f.count = r.count ∧
    f.IsPlaced b.packing (fieldsEnd b.fields) element align ∧ IsLeastMultiple 16 f.finish n

theorem LaidOut.fieldsEnd_eq {fields : List BlockField} {align : Nat}
    (h : LaidOut packing fields finish align) : fieldsEnd fields = finish := by
  cases h with
  | nil => rfl
  | snoc h hf => simp [fieldsEnd]

/-- The rules leave no choice where a field ends. -/
theorem BlockField.IsPlaced.finish_unique (hf : f.IsPlaced packing finish element a)
    (hg : g.IsPlaced packing finish element' a') (hty : f.ty = g.ty) (hcount : f.count = g.count) :
    f.finish = g.finish := by
  have helement : element = element' := by
    have hfound := hf.footprint
    rw [hty, hg.footprint] at hfound
    exact (Option.some.inj hfound).symm
  subst helement
  have halign : a = a' := by
    have haligned := hf.isAligned
    rw [IsAligned, hty, hcount] at haligned
    exact IsAligned.unique haligned hg.isAligned
  subst halign
  have hoffset := hf.offset.unique hg.offset
  have hsize : f.size = g.size := by
    by_cases hsingle : f.count = 0
    · rw [(hf.single hsingle).1, (hg.single (hcount ▸ hsingle)).1]
    · obtain ⟨hstride, hfsize⟩ := hf.array hsingle
      obtain ⟨hstride', hgsize⟩ := hg.array (hcount ▸ hsingle)
      rw [hfsize, hgsize, hstride.unique hstride', hcount]
  rw [BlockField.finish, BlockField.finish, hoffset, hsize]

/-- **The exact end** is the one that the extent of the field leads to. -/
theorem Block.IsLaidOut.paddedEnd_iff (h : b.IsLaidOut) (helement : r.ty.footprint? = some element) :
    b.PaddedEnd r n ↔
      n = roundUp (b.append r.name r.ty r.count (b.packing.extent element r.count)).finish 16 := by
  have hplaced := b.isPlaced_append r.name r.count helement
  have hmultiple := isLeastMultiple_roundUp (by decide : 0 < 16)
    (b.append r.name r.ty r.count (b.packing.extent element r.count)).finish
  rw [PaddedEnd, LaidOut.fieldsEnd_eq h]
  constructor
  · rintro ⟨f, element', align, hty, hcount, hf, hn⟩
    rw [hf.finish_unique hplaced hty hcount] at hn
    exact hn.unique hmultiple
  · rintro rfl
    exact ⟨_, element, _, rfl, rfl, hplaced, hmultiple⟩

/-! ## Answers -/

/-- How a block meets a request: with an answer, and as the block that it is afterwards. -/
structure Block.Meets (b : Block) (r : FieldRequest) (answer : Except BlockFault Nat)
    (after : Block) : Prop where
  /-- what is refused has no footprint, or ends too late -/
  refused_iff : (∃ fault, answer = .error fault ∧ (Error.block fault).kind = .invalidArgument) ↔
    r.ty.isOpaque = true ∨ r.ty.isBlock = true ∨ ∃ n, b.PaddedEnd r n ∧ 2 ^ 32 ≤ n
  /-- a request that is refused changes nothing -/
  unchanged : ∀ fault, answer = .error fault → after = b
  /-- any other request appends its field, and is answered by the position of it -/
  appended : ∀ i, answer = .ok i → ∃ f : BlockField,
    after.fields = b.fields ++ [f] ∧ after.fields[i]? = some f ∧
      f.name = r.name ∧ f.ty = r.ty ∧ f.count = r.count ∧
      after.packing = b.packing ∧ after.kind = b.kind

/-- A block that is laid out meets every request. -/
theorem Block.IsLaidOut.meets (h : b.IsLaidOut) (r : FieldRequest) :
    b.Meets r (b.answered r).1 (b.answered r).2 := by
  have hplain := r.ty.isSome_footprint?
  rw [answered_eq, Block.extend]
  cases helement : r.ty.footprint? with
  | none =>
    rw [helement] at hplain
    have hbad : r.ty.isOpaque = true ∨ r.ty.isBlock = true := by
      rcases Bool.and_eq_false_iff.mp hplain.symm with hsampler | hblock
      · exact .inl (by simpa using hsampler)
      · exact .inr (by simpa using hblock)
    exact ⟨iff_of_true ⟨_, rfl, rfl⟩ (hbad.imp_right .inl), fun _ _ => rfl, fun i hi => by cases hi⟩
  | some element =>
    rw [helement] at hplain
    obtain ⟨hsampler, hblock⟩ : r.ty.isOpaque = false ∧ r.ty.isBlock = false := by simpa using hplain
    have hreason : (r.ty.isOpaque = true ∨ r.ty.isBlock = true ∨ ∃ n, b.PaddedEnd r n ∧ 2 ^ 32 ≤ n) ↔
        ¬roundUp (b.append r.name r.ty r.count (b.packing.extent element r.count)).finish 16 <
          sizeLimit := by
      have hlimit : sizeLimit = 2 ^ 32 := by decide
      simp [hsampler, hblock, h.paddedEnd_iff helement, hlimit]
    dsimp only
    by_cases hfits : roundUp
        (b.append r.name r.ty r.count (b.packing.extent element r.count)).finish 16 < sizeLimit
    · rw [if_pos hfits]
      refine ⟨iff_of_false ?_ fun hbad => hreason.mp hbad hfits, fun _ hfault => ?_, fun i hi => ?_⟩
      · rintro ⟨fault, hfault, -⟩
        cases hfault
      · cases hfault
      · cases hi
        exact ⟨_, rfl, List.getElem?_concat_length .., rfl, rfl, rfl, rfl, rfl⟩
    · rw [if_neg hfits]
      exact ⟨iff_of_true ⟨_, rfl, rfl⟩ (hreason.mpr hfits), fun _ _ => rfl, fun i hi => by cases hi⟩

/-- **A field is refused exactly if it does not fit**, in every block that requests have built up,
and then the block is as it was. -/
theorem Block.meets_filled (packing : Packing) (kind : BlockKind) (requests : List FieldRequest)
    (r : FieldRequest) :
    (Block.filled packing kind requests).Meets r
      ((Block.filled packing kind requests).answered r).1
      ((Block.filled packing kind requests).answered r).2 := by
  rw [filled_eq_grown]
  exact (Grows.grown packing kind requests).isLaidOut.meets r

/-- Sixteen bytes do not fit behind all but sixteen of the bytes there are. -/
example :
    ((Block.filled .std140 .uniform [⟨"big", .vec4, 2 ^ 28 - 1⟩]).answered ⟨"tail", .vec4, 1⟩).1 =
      .error (.tooLarge "tail") :=
  rfl

end ShaderLoom
