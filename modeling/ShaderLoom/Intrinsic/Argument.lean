import ShaderLoom.Intrinsic.Basic

/-!
# Arguments of a call

An argument ends at the first comma or closing parenthesis that stands outside comments and
outside parentheses opened within the argument. `readArgument` walks over the text in one of
three modes: through code, through a line comment (which ends before the next line end), or
through a block comment (which ends behind the first `*/`).

**`eq_of_readArgument`**: reading an argument loses nothing. The text is the argument, the
delimiter and the rest, in that order.
-/

namespace ShaderLoom

open Text

/-- The two delimiters that end an argument. -/
inductive Delimiter where
  | comma
  | close
  deriving DecidableEq

/-- The character of a delimiter. -/
def Delimiter.char : Delimiter → Char
  | .comma => ','
  | .close => ')'

/-- An argument that was read from a text. -/
structure Argument where
  /-- the characters before the delimiter -/
  text : Text
  /-- the delimiter -/
  stop : Delimiter
  /-- the characters behind the delimiter -/
  rest : Text
  deriving DecidableEq

namespace Argument

/-- Put `lead` in front of an argument. -/
def prepend (lead : Text) (a : Argument) : Argument := { a with text := lead ++ a.text }

/-- Everything from the delimiter on. -/
def remainder (a : Argument) : Text := a.stop.char :: a.rest

/-- Reading modes. -/
inductive Mode where
  /-- code, below the given number of open parentheses -/
  | code (depth : Nat)
  /-- a line comment in code of that depth -/
  | lineComment (depth : Nat)
  /-- a block comment in code of that depth -/
  | blockComment (depth : Nat)

end Argument

open Argument in
/-- Read up to the end of the argument. -/
def readArgument : Mode → Text → Except CallFault Argument
  | .code _, [] => .error .openArgument
  | .code depth, '/' :: '/' :: rest =>
    (readArgument (.lineComment depth) rest).map (prepend ['/', '/'])
  | .code depth, '/' :: '*' :: rest =>
    (readArgument (.blockComment depth) rest).map (prepend ['/', '*'])
  | .code depth, c :: rest =>
    if c = '(' then (readArgument (.code (depth + 1)) rest).map (prepend [c])
    else if depth = 0 ∧ c = ',' then .ok ⟨[], .comma, rest⟩
    else if depth = 0 ∧ c = ')' then .ok ⟨[], .close, rest⟩
    else if c = ')' then (readArgument (.code (depth - 1)) rest).map (prepend [c])
    else (readArgument (.code depth) rest).map (prepend [c])
  | .lineComment _, [] => .error .openArgument
  | .lineComment depth, c :: rest =>
    if isLineEnd c then (readArgument (.code depth) rest).map (prepend [c])
    else (readArgument (.lineComment depth) rest).map (prepend [c])
  | .blockComment _, [] => .error .openComment
  | .blockComment depth, '*' :: '/' :: rest =>
    (readArgument (.code depth) rest).map (prepend ['*', '/'])
  | .blockComment depth, c :: rest =>
    (readArgument (.blockComment depth) rest).map (prepend [c])

/-- The argument at the start of a text. -/
def argument (t : Text) : Except CallFault Argument := readArgument (.code 0) t

/-! ## Nothing is lost -/

/-- Prepending under a successful read can be undone. -/
theorem Argument.map_prepend_eq_ok {r : Except CallFault Argument} {lead : Text} {a : Argument}
    (h : r.map (prepend lead) = .ok a) : ∃ b, r = .ok b ∧ a = b.prepend lead := by
  cases r with
  | error e => simp [Except.map] at h
  | ok b => exact ⟨b, rfl, by simpa [Except.map] using h.symm⟩

/-- **Reading an argument loses nothing.** -/
theorem eq_of_readArgument {m : Argument.Mode} {t : Text} {a : Argument}
    (h : readArgument m t = .ok a) : t = a.text ++ a.remainder := by
  have step {r : Except CallFault Argument} {lead rest : Text} {a : Argument}
      (ih : ∀ {a}, r = .ok a → rest = a.text ++ a.remainder)
      (h : r.map (Argument.prepend lead) = .ok a) : lead ++ rest = a.text ++ a.remainder := by
    obtain ⟨b, hb, rfl⟩ := Argument.map_prepend_eq_ok h
    simp [ih hb, Argument.prepend, Argument.remainder]
  fun_induction readArgument m t generalizing a
  case case1 => cases h
  case case2 ih => exact step ih h
  case case3 ih => exact step ih h
  case case4 ih => exact step ih h
  case case5 hc => cases h; simp [hc.2, Argument.remainder, Delimiter.char]
  case case6 hc => cases h; simp [hc.2, Argument.remainder, Delimiter.char]
  case case7 ih => exact step ih h
  case case8 ih => exact step ih h
  case case9 => cases h
  case case10 ih => exact step ih h
  case case11 ih => exact step ih h
  case case12 => cases h
  case case13 ih => exact step ih h
  case case14 ih => exact step ih h

/-- The argument and the rest together are shorter than the text. -/
theorem length_of_argument {t : Text} {a : Argument} (h : argument t = .ok a) :
    t.length = a.text.length + 1 + a.rest.length := by
  have := congrArg List.length (eq_of_readArgument h)
  simp [Argument.remainder] at this
  omega

end ShaderLoom
