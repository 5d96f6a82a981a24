import ShaderLoom.Intrinsic.Basic
import ShaderLoom.Text.Slice

/-!
# Cursors

`lower` takes a text apart as it goes. Lowering in place leaves the text in one piece and moves
**cursors** over it: numbers of bytes, between which slices are taken, and at which single bytes are
looked at. In place, a step takes things for granted that no type provides: that a slice can be cut,
that there is a byte, that a difference is not negative, and that a loop gets nearer to its end.
Here each of them is checked, and what is taken for granted wrongly is a `Misstep`.

A misstep is no fault of the text. A fault is reported, and a misstep would be the end of the
program, or no end at all.
-/

namespace ShaderLoom.Cursor

open Text

/-- What was taken for granted wrongly. -/
inductive Misstep where
  /-- a slice that cannot be cut -/
  | slice (start stop : Nat)
  /-- a byte behind the end -/
  | byte (position : Nat)
  /-- a difference below zero -/
  | difference (minuend subtrahend : Nat)
  /-- a loop, or a recursion, that gets no nearer to its end -/
  | standstill
  /-- a call of an intrinsic that has neither coordinates nor an internal function -/
  | unreplaced (f : Intrinsic)
  deriving DecidableEq

/-- Why there is no result. -/
inductive Halt where
  /-- a call that cannot be read -/
  | fault (f : CallFault)
  /-- a step that must not be taken -/
  | misstep (m : Misstep)
  deriving DecidableEq

/-- The outcome of steps that are checked. -/
abbrev Checked (α : Type) := Except Halt α

/-- What is read without checks makes no missteps. -/
def Checked.ofReading {α : Type} (r : Except CallFault α) : Checked α := r.mapError .fault

/-! ## Checked steps -/

/-- The text from one position to another. -/
def slice (t : Text) (start stop : Nat) : Checked Text :=
  match slice? start stop t with
  | some part => .ok part
  | none => .error (.misstep (.slice start stop))

/-- The text from a position on. -/
def behind (t : Text) (start : Nat) : Checked Text := slice t start (byteSize t)

/-- The byte at a position. -/
def byteAt (t : Text) (position : Nat) : Checked UInt8 :=
  match (bytes t)[position]? with
  | some byte => .ok byte
  | none => .error (.misstep (.byte position))

/-- The bytes from a position on. -/
def bytesBehind (t : Text) (start : Nat) : Checked (List UInt8) :=
  if start ≤ (bytes t).length then .ok ((bytes t).drop start)
  else .error (.misstep (.byte start))

/-- A difference of two positions. -/
def difference (minuend subtrahend : Nat) : Checked Nat :=
  if subtrahend ≤ minuend then .ok (minuend - subtrahend)
  else .error (.misstep (.difference minuend subtrahend))

/-- Going on at `next` is nearer to the end of the text than `position` is. -/
def MovesOn (t : Text) (position next : Nat) : Prop := position < next ∧ next ≤ byteSize t

instance (t : Text) (position next : Nat) : Decidable (MovesOn t position next) :=
  inferInstanceAs (Decidable (_ ∧ _))

theorem MovesOn.sub_lt {t : Text} {position next : Nat} (h : MovesOn t position next) :
    byteSize t - next < byteSize t - position := by
  obtain ⟨hnext, hsize⟩ := h
  omega

end ShaderLoom.Cursor
