import ShaderLoom.Cursor.Basic

/-!
# The end of an argument

`argumentEnd` looks for the delimiter that ends an argument, byte by byte, and jumps over comments.
-/

namespace ShaderLoom.Cursor

open Text

/-- The position of the delimiter that ends the argument, from a position below `depth` open
parentheses on. -/
def argumentEnd (t : Text) (depth position : Nat) : Checked Nat :=
  if _hposition : position < byteSize t then do
    let byte ← byteAt t position
    if depth = 0 ∧ (byte = ','.toUInt8 ∨ byte = ')'.toUInt8) then pure position
    else if byte = '('.toUInt8 then argumentEnd t (depth + 1) (position + 1)
    else if byte = ')'.toUInt8 then do
      let depth ← difference depth 1
      argumentEnd t depth (position + 1)
    else if byte = '/'.toUInt8 ∧ (bytes t)[position + 1]? = some '/'.toUInt8 then do
      let tail ← behind t position
      let next := (findWhere? isLineEnd tail).elim (byteSize t) (position + ·)
      if _h : MovesOn t position next then argumentEnd t depth next
      else .error (.misstep .standstill)
    else if byte = '/'.toUInt8 ∧ (bytes t)[position + 1]? = some '*'.toUInt8 then do
      let tail ← behind t (position + 2)
      match find? ['*', '/'] tail with
      | none => .error (.fault .openComment)
      | some found =>
        let next := position + 2 + found + 2
        if _h : MovesOn t position next then argumentEnd t depth next
        else .error (.misstep .standstill)
    else argumentEnd t depth (position + 1)
  else .error (.fault .openArgument)
termination_by byteSize t - position
decreasing_by
  all_goals
    first
    | exact _h.sub_lt
    | omega

end ShaderLoom.Cursor
