import ShaderLoom.Intrinsic.Call
import ShaderLoom.Dialect

/-!
# Lowering

`lower` replaces every call of an intrinsic in a text. It goes through the identifiers from
left to right: a token starts a call, whose arguments are lowered in turn before they are put
into the replacement, and all other text is kept as it is. Lowering fails at the first call
that cannot be read.
-/

namespace ShaderLoom

open Text

/-- A lowered text. -/
structure Lowered where
  /-- the text with every call replaced -/
  text : Text
  /-- the number of calls replaced -/
  calls : Nat
  deriving DecidableEq

namespace Lowered

/-- Put untouched text in front. -/
def prepend (lead : Text) (l : Lowered) : Lowered := { l with text := lead ++ l.text }

/-- A replaced call with its lowered arguments, and the lowered text behind it. -/
def ofCall (pieces : List Piece) (texture coordinates rest : Lowered) : Lowered where
  text := renderPieces pieces texture.text coordinates.text ++ rest.text
  calls := texture.calls + coordinates.calls + 1 + rest.calls

end Lowered

/-- Replace every call of an intrinsic. -/
def lower (d : Dialect) : Text → Except CallFault Lowered
  | [] => .ok ⟨[], 0⟩
  | c :: rest =>
    if isIdentifier c then
      match Intrinsic.ofToken? (c :: rest.takeWhile isIdentifier) with
      | none =>
        (lower d (rest.dropWhile isIdentifier)).map
          (Lowered.prepend (c :: rest.takeWhile isIdentifier))
      | some f =>
        match _h : f.readCall (rest.dropWhile isIdentifier) with
        | .error fault => .error fault
        | .ok call => do
          let texture ← lower d call.texture
          let coordinates ← lower d call.coordinates
          let behind ← lower d call.rest
          pure (Lowered.ofCall (f.pieces d.frames d.rg) texture coordinates behind)
    else (lower d rest).map (Lowered.prepend [c])
termination_by t => t.length
decreasing_by
  · have := length_dropWhile_le isIdentifier rest
    simp only [List.length_cons]
    omega
  all_goals
    first
    | have h₁ := length_dropWhile_le isIdentifier rest
      have h₂ := Call.length_lt _h
      simp only [List.length_cons]
      omega
    | simp

end ShaderLoom
