import Mathlib.Data.List.DropRight
import ShaderLoom.Proofs.Text.Identifier
import ShaderLoom.Text.WhiteSpace

/-!
# White space around a text

What trimming takes away is white space, and nothing that is left at the end is. White space
belongs to no identifier, so it keeps apart whatever stands on its two sides.
-/

namespace ShaderLoom.Text

variable {s t gap : Text} {c : Char}

/-! ## White space and identifiers -/

/-- The codes of the identifier characters: capital letters, small letters, digits, and the
underscore. -/
theorem toNat_of_isIdentifier (h : isIdentifier c = true) :
    65 ≤ c.toNat ∧ c.toNat ≤ 90 ∨ 97 ≤ c.toNat ∧ c.toNat ≤ 122 ∨ 48 ≤ c.toNat ∧ c.toNat ≤ 57 ∨
      c.toNat = 95 := by
  have hc : (decide (65 ≤ c.val ∧ c.val ≤ 90) || (decide (97 ≤ c.val) && decide (c.val ≤ 122)) ||
      (decide (48 ≤ c.val) && decide (c.val ≤ 57)) || c == '_') = true := h
  simp only [Bool.or_eq_true, Bool.and_eq_true, decide_eq_true_eq, beq_iff_eq, or_assoc] at hc
  rcases hc with hc | hc | hc | rfl
  · exact .inl ⟨UInt32.le_iff_toNat_le.mp hc.1, UInt32.le_iff_toNat_le.mp hc.2⟩
  · exact .inr (.inl ⟨UInt32.le_iff_toNat_le.mp hc.1, UInt32.le_iff_toNat_le.mp hc.2⟩)
  · exact .inr (.inr (.inl ⟨UInt32.le_iff_toNat_le.mp hc.1, UInt32.le_iff_toNat_le.mp hc.2⟩))
  · exact .inr (.inr (.inr rfl))

theorem isIdentifier_of_isWhite (h : isWhite c = true) : isIdentifier c = false := by
  rw [Bool.eq_false_iff]
  intro hc
  have hcode := toNat_of_isIdentifier hc
  simp only [isWhite, whiteSpaceRanges, List.any_cons, List.any_nil, Bool.or_false,
    Bool.or_eq_true, Bool.and_eq_true, decide_eq_true_eq] at h
  omega

theorem isIdentifier_of_isBlank (h : isBlank c = true) : isIdentifier c = false :=
  isIdentifier_of_isWhite (isWhite_of_isBlank h)

/-! ## Blanks in front -/

/-- A text is its blanks and what follows them. -/
theorem exists_blanks (t : Text) :
    ∃ blanks, t = blanks ++ t.dropWhile isBlank ∧ ∀ c ∈ blanks, isBlank c = true :=
  ⟨t.takeWhile isBlank, (List.takeWhile_append_dropWhile ..).symm,
    fun c hc => List.all_eq_true.mp List.all_takeWhile c hc⟩

theorem dropWhile_isBlank_of_head? (h : ∀ c ∈ t.head?, isBlank c = false) :
    t.dropWhile isBlank = t := by
  cases t with
  | nil => rfl
  | cons c t => simp [h c rfl]

/-! ## White space behind -/

theorem trimEnd_eq (t : Text) : trimEnd t = t.rdropWhile isWhite := rfl

/-- A text is what trimming leaves of it and white space. -/
theorem exists_trimEnd (t : Text) :
    ∃ gap, t = trimEnd t ++ gap ∧ ∀ c ∈ gap, isWhite c = true :=
  ⟨t.rtakeWhile isWhite, (List.rdropWhile_append_rtakeWhile ..).symm,
    fun _ hc => List.mem_rtakeWhile_imp hc⟩

theorem getLast?_trimEnd (t : Text) : ∀ c ∈ (trimEnd t).getLast?, isWhite c = false := by
  intro c hc
  have hne : t.rdropWhile isWhite ≠ [] := by
    intro h
    simp [trimEnd_eq, h] at hc
  rw [trimEnd_eq, List.getLast?_eq_some_getLast hne, Option.mem_some_iff] at hc
  subst hc
  simpa using List.rdropWhile_last_not isWhite t hne

theorem trimEnd_append_of_all (hgap : ∀ c ∈ gap, isWhite c = true) :
    trimEnd (t ++ gap) = trimEnd t := by
  induction gap using List.reverseRecOn with
  | nil => rw [List.append_nil]
  | append_singleton gap c ih =>
    rw [← List.append_assoc, trimEnd_eq, List.rdropWhile_concat_pos _ _ _ (hgap c (by simp))]
    exact ih fun d hd => hgap d (by simp [hd])

theorem trimEnd_of_white (h : ∀ c ∈ t, isWhite c = true) : trimEnd t = [] := by
  have ht := trimEnd_append_of_all (t := []) h
  rwa [List.nil_append] at ht

theorem trimEnd_of_getLast? (h : ∀ c ∈ t.getLast?, isWhite c = false) : trimEnd t = t := by
  rw [trimEnd_eq, List.rdropWhile_eq_self_iff]
  intro hne
  simpa using h _ (List.getLast?_eq_some_getLast hne)

end ShaderLoom.Text
