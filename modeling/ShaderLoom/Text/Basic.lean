/-!
# Text as a list of characters

Shader text is read and rewritten one character at a time, so the working form of a text is
`List Char`. This module fixes the character classes the shading languages care about and the
measure in which positions are reported:

* an **identifier character** is an ASCII letter, an ASCII digit or the underscore, and an
  identifier is a maximal run of them;
* a **blank** is one of the four characters a call may spread over (space, tab, carriage
  return, line feed), and a **line end** one of the last two;
* sizes and offsets count the bytes of the UTF-8 encoding, which `byteSize` adds up.
-/

namespace ShaderLoom

/-- A text in its working form. -/
abbrev Text := List Char

namespace Text

/-! ## Character classes -/

/-- ASCII letters, ASCII digits and the underscore make up identifiers. -/
def isIdentifier (c : Char) : Bool := c.isAlphanum || c == '_'

/-- The blanks that may stand between the parts of a call. -/
def isBlank (c : Char) : Bool := c == ' ' || c == '\t' || c == '\r' || c == '\n'

/-- The characters that end a line comment. -/
def isLineEnd (c : Char) : Bool := c == '\r' || c == '\n'

/-! ## Sizes -/

/-- Bytes of the UTF-8 encoding. -/
def byteSize (t : Text) : Nat := (t.map Char.utf8Size).foldr (· + ·) 0

@[simp] theorem byteSize_nil : byteSize [] = 0 := rfl

@[simp] theorem byteSize_cons (c : Char) (t : Text) :
    byteSize (c :: t) = c.utf8Size + byteSize t := rfl

@[simp] theorem byteSize_append (s t : Text) : byteSize (s ++ t) = byteSize s + byteSize t := by
  induction s with
  | nil => simp
  | cons c s ih => rw [List.cons_append, byteSize_cons, byteSize_cons, ih, Nat.add_assoc]

/-! ## Pieces of a text -/

/-- Drop the longest tail whose characters all satisfy `p`. -/
def dropEndWhile (p : Char → Bool) (t : Text) : Text := (t.reverse.dropWhile p).reverse

theorem length_dropWhile_le (p : Char → Bool) (t : Text) :
    (t.dropWhile p).length ≤ t.length :=
  (List.dropWhile_sublist p).length_le

theorem length_dropEndWhile_le (p : Char → Bool) (t : Text) :
    (dropEndWhile p t).length ≤ t.length := by
  simpa [dropEndWhile] using length_dropWhile_le p t.reverse

/-- The text after `lead`, when it starts with `lead`. -/
def strip? (lead t : Text) : Option Text :=
  if lead.isPrefixOf t then some (t.drop lead.length) else none

/-- **Stripping undoes prepending**, and succeeds on nothing else. -/
theorem strip?_eq_some_iff (lead t rest : Text) :
    strip? lead t = some rest ↔ t = lead ++ rest := by
  constructor
  · intro h
    unfold strip? at h
    split at h
    · next hp =>
      obtain ⟨s, rfl⟩ := List.isPrefixOf_iff_prefix.mp hp
      simpa using h
    · simp at h
  · rintro rfl
    have hp : lead.isPrefixOf (lead ++ rest) = true :=
      List.isPrefixOf_iff_prefix.mpr (List.prefix_append lead rest)
    simp [strip?, hp]

/-- The parts of a text between the separators. There is always one part more than there are
separators. -/
def separate (separator : Char) : Text → List Text
  | [] => [[]]
  | c :: rest =>
    if c = separator then [] :: separate separator rest
    else
      match separate separator rest with
      | [] => [[c]]
      | part :: parts => (c :: part) :: parts

theorem separate_ne_nil (separator : Char) (t : Text) : separate separator t ≠ [] := by
  cases t with
  | nil => simp [separate]
  | cons c rest =>
    unfold separate
    split
    · simp
    · split <;> simp

/-- The two sides of the first `separator`, or nothing when there is none. -/
def cut? (separator : Char) (t : Text) : Option (Text × Text) :=
  match t.dropWhile (· != separator) with
  | [] => none
  | _ :: after => some (t.takeWhile (· != separator), after)

end Text

end ShaderLoom
