import ShaderLoom.Text.Basic

/-!
# White space

The characters with the Unicode property White_Space, and the operations that ignore them:
trimming the ends of a text and splitting it into words. This class is wider than the blanks
of `Text.isBlank`: a no-break space is trimmed from an argument, but no call may spread over it.
-/

namespace ShaderLoom.Text

/-- The first and last code points of the ranges that make up White_Space. -/
def whiteSpaceRanges : List (Nat × Nat) :=
  [(0x0009, 0x000D), (0x0020, 0x0020), (0x0085, 0x0085), (0x00A0, 0x00A0), (0x1680, 0x1680),
    (0x2000, 0x200A), (0x2028, 0x2029), (0x202F, 0x202F), (0x205F, 0x205F), (0x3000, 0x3000)]

/-- Has `c` the property White_Space? -/
def isWhite (c : Char) : Bool :=
  whiteSpaceRanges.any fun range => range.1 ≤ c.toNat && c.toNat ≤ range.2

/-- Every blank is white space. -/
theorem isWhite_of_isBlank {c : Char} (h : isBlank c = true) : isWhite c = true := by
  simp only [isBlank, Bool.or_eq_true, beq_iff_eq] at h
  rcases h with ((rfl | rfl) | rfl) | rfl <;> decide

/-- Remove the white space at the end. -/
def trimEnd (t : Text) : Text := dropEndWhile isWhite t

/-- Remove the white space at both ends. -/
def trim (t : Text) : Text := trimEnd (t.dropWhile isWhite)

theorem length_trimEnd_le (t : Text) : (trimEnd t).length ≤ t.length :=
  length_dropEndWhile_le isWhite t

/-! ## Words -/

/-- The maximal runs without white space, in order. -/
def words (t : Text) : List Text :=
  match _h : t.dropWhile isWhite with
  | [] => []
  | c :: rest =>
    (c :: rest.takeWhile (! isWhite ·)) :: words (rest.dropWhile (! isWhite ·))
termination_by t.length
decreasing_by
  have h₁ := length_dropWhile_le isWhite t
  have h₂ := length_dropWhile_le (! isWhite ·) rest
  simp only [_h, List.length_cons] at h₁
  omega

/-- No word is empty. -/
theorem ne_nil_of_mem_words {t w : Text} (h : w ∈ words t) : w ≠ [] := by
  fun_induction words t with
  | case1 => simp at h
  | case2 t c rest _ ih =>
    rcases List.mem_cons.mp h with rfl | h
    · simp
    · exact ih h

end ShaderLoom.Text
