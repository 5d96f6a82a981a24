import ShaderLoom.Text.Basic

/-!
# Whole-word occurrences

`wholeWords word t` counts the places where `word` stands in `t` as a whole word: the
characters next to it, if there are any, are no identifier characters. Places are looked for
from left to right, and the search resumes behind each place found, whole word or not. For a
word made of identifier characters the resumption cannot hide a whole word, since what is
skipped is part of one identifier.
-/

namespace ShaderLoom.Text

/-- Does the text begin with an identifier character? -/
def beginsIdentifier : Text → Bool
  | [] => false
  | c :: _ => isIdentifier c

/-- Does the text end with an identifier character? -/
def endsIdentifier (t : Text) : Bool := t.getLast?.any isIdentifier

/-- Whole-word occurrences of a nonempty `word` in a text whose predecessor is an identifier
character iff `inside`. -/
def wholeWordsFrom (word : Text) (h : word ≠ []) (inside : Bool) : Text → Nat
  | [] => 0
  | c :: rest =>
    if word.isPrefixOf (c :: rest) then
      let after := (c :: rest).drop word.length
      let found := !inside && !beginsIdentifier after
      (if found then 1 else 0) + wholeWordsFrom word h (endsIdentifier word) after
    else wholeWordsFrom word h (isIdentifier c) rest
termination_by t => t.length
decreasing_by
  · have := List.length_pos_iff.mpr h
    simp only [List.length_drop, List.length_cons]
    omega
  · simp

/-- Whole-word occurrences of `word` in `t`; the empty word has none. -/
def wholeWords (word t : Text) : Nat :=
  if h : word = [] then 0 else wholeWordsFrom word h false t

@[simp] theorem wholeWords_nil (t : Text) : wholeWords [] t = 0 := by simp [wholeWords]

end ShaderLoom.Text
