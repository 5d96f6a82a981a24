import ShaderLoom.Cursor.Search

/-!
# Counting a word

A word is looked for from left to right, and behind each place where it stands the search goes on,
whatever stands around the place. Only then the bytes around each place are looked at, and the places
are counted where the word stands alone.
-/

namespace ShaderLoom.Cursor

open Text

/-- The places where the search finds a nonempty word, in a text that begins at `position`. -/
def placesFrom (word : Text) (h : word ≠ []) (position : Nat) : Text → List Nat
  | [] => []
  | c :: rest =>
    if word.isPrefixOf (c :: rest) then
      position :: placesFrom word h (position + byteSize word) ((c :: rest).drop word.length)
    else placesFrom word h (position + c.utf8Size) rest
termination_by t => t.length
decreasing_by
  · have := List.length_pos_iff.mpr h
    simp only [List.length_drop, List.length_cons]
    omega
  · simp

/-- The places where the search finds a word; the empty word is not looked for. -/
def places (word t : Text) : List Nat := if h : word = [] then [] else placesFrom word h 0 t

/-- Does an identifier character stand at a position? -/
def goesOn (t : Text) (position : Nat) : Checked Bool :=
  if position = byteSize t then .ok false else (byteAt t position).map (onByte isIdentifier)

/-- Do the `size` bytes from `start` on stand alone, with no identifier character at either end? -/
def standsAlone (t : Text) (start size : Nat) : Checked Bool := do
  let inside ← insideIdentifier t start
  let goesOn ← goesOn t (start + size)
  pure (!inside && !goesOn)

/-- The places among some where `size` bytes stand alone. -/
def aloneAmong (t : Text) (size : Nat) : List Nat → Checked (List Nat)
  | [] => pure []
  | start :: rest => do
    let alone ← standsAlone t start size
    let found ← aloneAmong t size rest
    pure (if alone then start :: found else found)

/-- The places where a word stands alone. -/
def wholePlaces (word t : Text) : Checked (List Nat) :=
  aloneAmong t (byteSize word) (places word t)

/-- How often a word stands alone. -/
def countWord (word t : Text) : Checked Nat := (wholePlaces word t).map List.length

end ShaderLoom.Cursor
