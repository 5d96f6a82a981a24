import ShaderLoom.Text.Basic

/-!
# Identifiers of a text

The identifiers of a text are its maximal runs of identifier characters. `identifiers` lists
them from left to right, each with the number of bytes before it.
-/

namespace ShaderLoom.Text

/-- An identifier and where it stands. -/
structure Identifier where
  /-- its characters -/
  word : Text
  /-- bytes before it -/
  offset : Nat
  deriving DecidableEq

/-- The identifiers of a text that begins `offset` bytes into the whole. -/
def identifiersFrom (offset : Nat) : Text → List Identifier
  | [] => []
  | c :: rest =>
    if isIdentifier c then
      let word := c :: rest.takeWhile isIdentifier
      ⟨word, offset⟩ :: identifiersFrom (offset + byteSize word) (rest.dropWhile isIdentifier)
    else identifiersFrom (offset + c.utf8Size) rest
termination_by t => t.length
decreasing_by
  · have := length_dropWhile_le isIdentifier rest
    simp only [List.length_cons]
    omega
  · simp

/-- The identifiers of a text. -/
def identifiers (t : Text) : List Identifier := identifiersFrom 0 t

/-- No identifier is empty. -/
theorem word_ne_nil_of_mem {offset : Nat} {t : Text} {i : Identifier}
    (h : i ∈ identifiersFrom offset t) : i.word ≠ [] := by
  fun_induction identifiersFrom offset t with
  | case1 => simp at h
  | case2 offset c rest _ _ ih =>
    rcases List.mem_cons.mp h with rfl | h
    · exact List.cons_ne_nil _ _
    · exact ih h
  | case3 offset c rest _ ih => exact ih h

end ShaderLoom.Text
