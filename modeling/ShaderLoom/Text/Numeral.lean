import ShaderLoom.Text.Basic

/-!
# Unsigned numerals

The numerals a layout qualifier may hold: an optional plus sign and at least one ASCII digit,
with a value below 2^32. Leading zeros are allowed, blanks are not.
-/

namespace ShaderLoom.Text

/-- One more than the largest value a numeral may have. -/
def wordLimit : Nat := UInt32.size

/-- The value of a row of digits, read after the digits of `value`. -/
def digitsValue (value : Nat) : Text → Option Nat
  | [] => some value
  | c :: rest =>
    if c.isDigit then digitsValue (value * 10 + (c.toNat - '0'.toNat)) rest else none

/-- The value of an unsigned numeral. -/
def numeral? (t : Text) : Option Nat :=
  match (strip? ['+'] t).getD t with
  | [] => none
  | digits => (digitsValue 0 digits).filter (· < wordLimit)

theorem numeral?_lt {t : Text} {n : Nat} (h : numeral? t = some n) : n < wordLimit := by
  unfold numeral? at h
  split at h
  · simp at h
  · simpa using (Option.filter_eq_some_iff.mp h).2

end ShaderLoom.Text
