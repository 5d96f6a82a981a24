import ShaderLoom.Cursor.Basic
import ShaderLoom.Proofs.Text.Slice

/-!
# Steps that are checked

A check passes where the positions are the sizes of texts that stand in front. So it is lemmas on
joined texts that say what a step gives: `slice_append`, `behind_append`, `byteAt_append`. What a
slice takes for granted in general is said by **`slice_ne_misstep_iff`**.

Outcomes of reading and of checked steps **agree** if they are the same fault, or results that belong
together. What agrees makes no missteps.
-/

namespace ShaderLoom.Cursor

open Text

variable {s t u w : Text} {c : Char} {start stop : Nat}

/-! ## Slices -/

theorem slice_eq_ok_iff :
    slice t start stop = .ok w ↔
      ∃ s u, t = s ++ (w ++ u) ∧ byteSize s = start ∧ start + byteSize w = stop := by
  rw [← slice?_eq_some_iff, slice]
  cases slice? start stop t with
  | none => simp
  | some part => simp

/-- **A slice is a misstep** unless its positions are in order, not behind the end of the text, and
not inside a character. -/
theorem slice_ne_misstep_iff :
    (∀ m, slice t start stop ≠ .error (.misstep m)) ↔
      start ≤ stop ∧ stop ≤ byteSize t ∧ IsBoundary t start ∧ IsBoundary t stop := by
  rw [← isSome_slice?_iff, slice]
  cases slice? start stop t with
  | none => simp
  | some part => simp

theorem slice_append (s w u : Text) :
    slice (s ++ (w ++ u)) (byteSize s) (byteSize s + byteSize w) = .ok w :=
  slice_eq_ok_iff.mpr ⟨s, u, rfl, rfl, rfl⟩

theorem behind_append (s u : Text) : behind (s ++ u) (byteSize s) = .ok u :=
  slice_eq_ok_iff.mpr ⟨s, [], by simp, rfl, by simp⟩

theorem bytesBehind_append (s u : Text) : bytesBehind (s ++ u) (byteSize s) = .ok (bytes u) := by
  rw [bytesBehind, if_pos (by simp), bytes_append, ← length_bytes s, List.drop_left]

/-! ## Bytes -/

/-- The bytes of a character are the bytes of its encoding. -/
theorem exists_byteAt {n : Nat} (hn : n < c.utf8Size) (s u : Text) :
    ∃ byte ∈ String.utf8EncodeChar c, byteAt (s ++ c :: u) (byteSize s + n) = .ok byte := by
  rw [← String.length_utf8EncodeChar] at hn
  refine ⟨_, List.getElem_mem hn, ?_⟩
  rw [byteAt, getElem?_bytes_append, bytes_cons, List.getElem?_append_left hn,
    List.getElem?_eq_getElem hn]

theorem byteAt_append (hc : IsAscii c) (s u : Text) :
    byteAt (s ++ c :: u) (byteSize s) = .ok c.toUInt8 := by
  obtain ⟨byte, hbyte, h⟩ := exists_byteAt (Char.utf8Size_pos c) s u
  rw [utf8EncodeChar_of_isAscii hc, List.mem_singleton] at hbyte
  rw [← hbyte]
  exact h

/-! ## Differences -/

theorem difference_add (m n : Nat) : difference (m + n) m = .ok n := by
  rw [difference, if_pos (Nat.le_add_right ..), Nat.add_sub_cancel_left]

/-! ## Moving on -/

/-- Behind something, and no further than the end. -/
theorem movesOn_append (s t : Text) (hw : w ≠ []) :
    MovesOn (s ++ (w ++ t)) (byteSize s) (byteSize s + byteSize w) := by
  have hpos := mt byteSize_eq_zero_iff.mp hw
  refine ⟨by omega, ?_⟩
  rw [byteSize_append, byteSize_append]
  omega

/-! ## Agreement -/

theorem ofReading_ne_misstep {α : Type} (r : Except CallFault α) (m : Misstep) :
    Checked.ofReading r ≠ .error (.misstep m) := by
  cases r <;> rintro ⟨⟩

/-- The same fault, or results that belong together. -/
inductive Agree {α β : Type} (R : α → β → Prop) : Except CallFault α → Checked β → Prop
  | fault (f : CallFault) : Agree R (.error f) (.error (.fault f))
  | ok {a : α} {b : β} (h : R a b) : Agree R (.ok a) (.ok b)

theorem Agree.cases {α β : Type} {R : α → β → Prop} {r : Except CallFault α} {checked : Checked β}
    (h : Agree R r checked) :
    (∃ f, r = .error f ∧ checked = .error (.fault f)) ∨
      ∃ a b, r = .ok a ∧ checked = .ok b ∧ R a b := by
  cases h with
  | fault f => exact .inl ⟨f, rfl, rfl⟩
  | ok h => exact .inr ⟨_, _, rfl, rfl, h⟩

end ShaderLoom.Cursor
