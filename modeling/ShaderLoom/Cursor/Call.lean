import ShaderLoom.Cursor.Argument
import ShaderLoom.Text.WhiteSpace

/-!
# The parts of a call

Where `Intrinsic.readCall` takes the parts of a call out of the text, `callSpans` tells where they
stand in it.
-/

namespace ShaderLoom.Cursor

open Text

/-- A part of a text, by its two positions. -/
structure Span where
  /-- where the part begins -/
  start : Nat
  /-- where it ends -/
  stop : Nat
  deriving DecidableEq

/-- There is nothing in the part. -/
def Span.IsEmpty (span : Span) : Prop := ¬span.start < span.stop

instance (span : Span) : Decidable span.IsEmpty := inferInstanceAs (Decidable (¬_))

/-- The parts of a call in its text. -/
structure CallSpans where
  /-- the first argument, without white space around it -/
  texture : Span
  /-- the second argument of a video call, likewise -/
  coordinates? : Option Span
  /-- the end of the text that the call takes up -/
  stop : Nat
  deriving DecidableEq

/-- The position behind the blanks at a position. -/
def skipBlanks (t : Text) (position : Nat) : Checked Nat := do
  let tail ← behind t position
  pure (position + ((bytes tail).takeWhile (onByte isBlank)).length)

/-- The part from one position to another, without the white space at its end. -/
def trimmed (t : Text) (start stop : Nat) : Checked Span := do
  let part ← slice t start stop
  pure ⟨start, start + byteSize (trimEnd part)⟩

/-- Pass the arguments behind the delimiter at a position, up to the end of the argument list. -/
def passArguments (t : Text) (position : Nat) : Checked Unit := do
  let delimiter ← byteAt t position
  if delimiter = ','.toUInt8 then do
    let next ← argumentEnd t 0 (position + 1)
    if _h : MovesOn t position next then passArguments t next
    else .error (.misstep .standstill)
  else pure ()
termination_by byteSize t - position
decreasing_by exact _h.sub_lt

/-- The parts of a video call whose texture is followed by the delimiter at a position. -/
def videoSpans (t : Text) (f : Intrinsic) (texture : Span) (position : Nat) :
    Checked CallSpans := do
  let delimiter ← byteAt t position
  if delimiter ≠ ','.toUInt8 then .error (.fault (.missingCoordinates f))
  else do
    let start ← skipBlanks t (position + 1)
    let stop ← argumentEnd t 0 start
    let delimiter ← byteAt t stop
    if delimiter ≠ ')'.toUInt8 then .error (.fault (.extraArguments f))
    else do
      let coordinates ← trimmed t start stop
      pure ⟨texture, some coordinates, stop + 1⟩

/-- The parts of a simple call whose texture is followed by the delimiter at a position. -/
def simpleSpans (t : Text) (texture : Span) (position : Nat) : Checked CallSpans := do
  passArguments t position
  pure ⟨texture, none, position⟩

/-- The parts of a call whose first argument stands between the two positions. -/
def completeSpans (t : Text) (f : Intrinsic) (start stop : Nat) : Checked CallSpans := do
  let texture ← trimmed t start stop
  if texture.IsEmpty then .error (.fault (.missingTexture f))
  else if f.internalName?.isSome then simpleSpans t texture stop
  else videoSpans t f texture stop

/-- The parts of the call whose token stands at `offset`. -/
def callSpans (t : Text) (offset : Nat) (f : Intrinsic) : Checked CallSpans := do
  let opening ← skipBlanks t (offset + byteSize f.token.toList)
  if (bytes t)[opening]? ≠ some '('.toUInt8 then .error (.fault (.missingParenthesis f))
  else do
    let start ← skipBlanks t (opening + 1)
    let stop ← argumentEnd t 0 start
    completeSpans t f start stop

end ShaderLoom.Cursor
