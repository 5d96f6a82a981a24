import ShaderLoom.Text.Numeral

/-!
# Written numbers

A number is written with its decimal digits, and read back from them as long as it is below
2^32. Its digits are identifier characters, so they never run into the punctuation of a line.
-/

namespace ShaderLoom.Text

variable {t : Text} {c : Char}

theorem isIdentifier_of_isDigit (h : c.isDigit = true) : isIdentifier c = true := by
  rw [isIdentifier, Char.isAlphanum, h, Bool.or_true, Bool.true_or]

/-- The digits of a number. -/
theorem isDigit_of_mem_repr {n : Nat} (h : c ∈ n.repr.toList) : c.isDigit = true := by
  rw [Nat.toList_repr] at h
  exact Nat.isDigit_of_mem_toDigits (by decide) (by decide) h

theorem isIdentifier_of_mem_repr {n : Nat} (h : c ∈ n.repr.toList) : isIdentifier c = true :=
  isIdentifier_of_isDigit (isDigit_of_mem_repr h)

theorem repr_toList_ne_nil (n : Nat) : n.repr.toList ≠ [] := by
  rw [Nat.toList_repr]
  exact Nat.toDigits_ne_nil

/-- A row of digits is read as in decimal notation. -/
theorem digitsValue_of_isDigit {value : Nat} (h : ∀ c ∈ t, c.isDigit = true) :
    digitsValue value t = some (Nat.ofDigitChars 10 t value) := by
  induction t generalizing value with
  | nil => rfl
  | cons c t ih =>
    have hc : c.isDigit = true := h c (List.mem_cons_self ..)
    have ht : ∀ d ∈ t, d.isDigit = true := fun d hd => h d (List.mem_cons_of_mem c hd)
    rw [digitsValue, if_pos hc, ih ht, Nat.ofDigitChars_cons, Nat.mul_comm value 10]

/-- **A number is read as what was written**, unless it is too large. -/
theorem numeral?_repr (n : Nat) :
    numeral? n.repr.toList = if n < wordLimit then some n else none := by
  have hdigits : ∀ c ∈ n.repr.toList, c.isDigit = true := fun c hc => isDigit_of_mem_repr hc
  have hvalue : digitsValue 0 n.repr.toList = some n := by
    rw [digitsValue_of_isDigit hdigits, Nat.toList_repr, Nat.ofDigitChars_ten_toDigits]
  obtain ⟨c, t, ht⟩ := List.exists_cons_of_ne_nil (repr_toList_ne_nil n)
  have hsign : strip? ['+'] n.repr.toList = none := by
    have hc : c.isDigit = true := hdigits c (by rw [ht]; exact List.mem_cons_self ..)
    have hne : c ≠ '+' := by
      rintro rfl
      revert hc
      decide
    rw [ht, strip?, if_neg]
    simpa [List.isPrefixOf] using Ne.symm hne
  rw [numeral?]
  rw [hsign, Option.getD_none]
  split
  · next hnil => exact absurd hnil (repr_toList_ne_nil n)
  · rw [hvalue]
    by_cases hn : n < wordLimit
    · rw [if_pos hn, Option.filter_some, if_pos (decide_eq_true hn)]
    · rw [if_neg hn, Option.filter_some, if_neg (by simpa using hn)]

end ShaderLoom.Text
