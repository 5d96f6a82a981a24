import ShaderLoom.Text.Basic

/-!
# Slices of a text

A position in a text is the number of bytes in front of it. Not every number is a position at which
a text can be cut: it may lie inside a character, or beyond the end. `slice?` cuts a text at two
positions, and gives nothing where one of them does not exist, or where they are the wrong way
round. Single bytes can be looked at anywhere. The bytes of a character outside ASCII are
not those of any ASCII character.

`find?` and `findWhere?` search a text and tell the position of what they found.
-/

namespace ShaderLoom.Text

/-! ## Bytes -/

/-- The bytes of the UTF-8 encoding. -/
def bytes (t : Text) : List UInt8 := t.flatMap String.utf8EncodeChar

/-- Is the byte the encoding of a character that satisfies `p`? This is what it says for classes of
ASCII characters: a byte of a longer encoding is taken for a character outside ASCII. -/
def onByte (p : Char → Bool) (byte : UInt8) : Bool := p (Char.ofUInt8 byte)

/-! ## Cutting -/

/-- The two parts of a text at a position, if it can be cut there. -/
def cutAt? : Nat → Text → Option (Text × Text)
  | 0, t => some ([], t)
  | _ + 1, [] => none
  | n + 1, c :: t =>
    if c.utf8Size ≤ n + 1 then
      (cutAt? (n + 1 - c.utf8Size) t).map fun parts => (c :: parts.1, parts.2)
    else none

/-- The text from one position to another. -/
def slice? (start stop : Nat) (t : Text) : Option Text :=
  if start ≤ stop then
    (cutAt? start t).bind fun parts => (cutAt? (stop - start) parts.2).map Prod.fst
  else none

/-! ## Searching -/

/-- The position of the first place where `word` stands. -/
def find? (word : Text) : Text → Option Nat
  | [] => if word = [] then some 0 else none
  | c :: t =>
    if word.isPrefixOf (c :: t) then some 0 else (find? word t).map (c.utf8Size + ·)

/-- The position of the first character that satisfies `p`. -/
def findWhere? (p : Char → Bool) : Text → Option Nat
  | [] => none
  | c :: t => if p c then some 0 else (findWhere? p t).map (c.utf8Size + ·)

end ShaderLoom.Text
