import ShaderLoom.Intrinsic.Argument
import ShaderLoom.Text.WhiteSpace

/-!
# Calls

A call is a token, blanks, and an argument list in parentheses. Its first argument names the
texture. A video call has exactly one more argument, the coordinates, and is taken whole. Of a
simple call only the first argument is taken: the others stay where they are, but must end.

**`Call.length_lt`** bounds the parts of a call by the text it was read from.
-/

namespace ShaderLoom

open Text

/-- The parts of a call that was read from the text behind its token. -/
structure Call where
  /-- the first argument, without white space around it -/
  texture : Text
  /-- the second argument of a video call, likewise; empty for a simple call -/
  coordinates : Text
  /-- what follows the part of the text that the call takes up -/
  rest : Text
  deriving DecidableEq

/-- Read on, past the arguments behind a delimiter, to the end of the argument list. -/
def closeArguments (stop : Delimiter) (rest : Text) : Except CallFault Unit :=
  match stop with
  | .close => .ok ()
  | .comma =>
    match _h : argument rest with
    | .error fault => .error fault
    | .ok next => closeArguments next.stop next.rest
termination_by rest.length
decreasing_by
  have := length_of_argument _h
  omega

namespace Intrinsic

/-- Complete a video call behind its first argument. -/
def videoCall (f : Intrinsic) (first : Argument) : Except CallFault Call :=
  match first.stop with
  | .close => .error (.missingCoordinates f)
  | .comma =>
    match argument (first.rest.dropWhile isBlank) with
    | .error fault => .error fault
    | .ok second =>
      match second.stop with
      | .comma => .error (.extraArguments f)
      | .close => .ok ⟨trimEnd first.text, trimEnd second.text, second.rest⟩

/-- Complete a simple call behind its first argument. -/
def simpleCall (first : Argument) : Except CallFault Call :=
  (closeArguments first.stop first.rest).map fun _ => ⟨trimEnd first.text, [], first.remainder⟩

/-- Complete a call behind its first argument. -/
def completeCall (f : Intrinsic) (first : Argument) : Except CallFault Call :=
  if trimEnd first.text = [] then .error (.missingTexture f)
  else if f.isVideo then f.videoCall first
  else simpleCall first

/-- Read a call from the text behind its token. -/
def readCall (f : Intrinsic) (t : Text) : Except CallFault Call :=
  match t.dropWhile isBlank with
  | '(' :: inside =>
    match argument (inside.dropWhile isBlank) with
    | .error fault => .error fault
    | .ok first => f.completeCall first
  | _ => .error (.missingParenthesis f)

end Intrinsic

/-! ## The parts of a call are shorter -/

theorem Intrinsic.length_of_videoCall {f : Intrinsic} {first : Argument} {call : Call}
    (h : f.videoCall first = .ok call) :
    call.texture.length + call.coordinates.length + call.rest.length ≤
      first.text.length + first.rest.length := by
  unfold videoCall at h
  split at h
  · cases h
  · split at h
    · cases h
    · next second hs =>
      split at h
      · cases h
      · cases h
        have h₁ := length_of_argument hs
        have h₂ := length_dropWhile_le isBlank first.rest
        have h₃ := length_trimEnd_le first.text
        have h₄ := length_trimEnd_le second.text
        simp only
        omega

theorem Intrinsic.length_of_simpleCall {first : Argument} {call : Call}
    (h : simpleCall first = .ok call) :
    call.texture.length + call.coordinates.length + call.rest.length ≤
      first.text.length + 1 + first.rest.length := by
  unfold simpleCall at h
  cases hc : closeArguments first.stop first.rest with
  | error e => simp [hc, Except.map] at h
  | ok _ =>
    simp only [hc, Except.map, Except.ok.injEq] at h
    subst h
    have := length_trimEnd_le first.text
    simp only [Argument.remainder, List.length_cons, List.length_nil]
    omega

/-- **The parts of a call are shorter** than the text the call was read from. -/
theorem Call.length_lt {f : Intrinsic} {t : Text} {call : Call} (h : f.readCall t = .ok call) :
    call.texture.length + call.coordinates.length + call.rest.length < t.length := by
  unfold Intrinsic.readCall at h
  split at h
  · next inside hi =>
    have h₁ := length_dropWhile_le isBlank t
    have h₂ := length_dropWhile_le isBlank inside
    rw [hi, List.length_cons] at h₁
    split at h
    · cases h
    · next first hf =>
      have h₃ := length_of_argument hf
      unfold Intrinsic.completeCall at h
      split at h
      · cases h
      · split at h
        · have := Intrinsic.length_of_videoCall h
          omega
        · have := Intrinsic.length_of_simpleCall h
          omega
  · cases h

end ShaderLoom
