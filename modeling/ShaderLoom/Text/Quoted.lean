import ShaderLoom.Text.Hidden

/-!
# Quoted text

Descriptions show a label or a name between quotation marks. Inside them a quotation mark and a
backslash are preceded by a backslash, and tabs, line ends and the null character are shown by
a backslash and a letter or digit. Any other hidden character is shown by its code point.
-/

namespace ShaderLoom.Text

/-- A character shown by its code point, in hexadecimal and between braces. -/
def codePoint (c : Char) : List Char :=
  '\\' :: 'u' :: '\x7b' :: Nat.toDigits 16 c.toNat ++ ['\x7d']

/-- One character inside quotation marks. -/
def quotedChar (c : Char) : List Char :=
  if c = '"' ∨ c = '\\' then ['\\', c]
  else if c = '\t' then ['\\', 't']
  else if c = '\n' then ['\\', 'n']
  else if c = '\r' then ['\\', 'r']
  else if c = Char.ofNat 0 then ['\\', '0']
  else if isHidden c then codePoint c
  else [c]

/-- **Visible ASCII** stands for itself, up to the quotation mark and the backslash. -/
theorem quotedChar_of_ascii {c : Char} (hs : 0x20 ≤ c.toNat) (ht : c.toNat ≤ 0x7E) (hq : c ≠ '"')
    (hb : c ≠ '\\') : quotedChar c = [c] := by
  -- the characters with a letter of their own come before the space
  have other {d : Char} (hd : d.toNat < 0x20) : c ≠ d := by
    rintro rfl
    omega
  simp [quotedChar, hq, hb, isHidden_eq_false_of_ascii hs ht,
    other (d := '\t') (by decide), other (d := '\n') (by decide),
    other (d := '\r') (by decide), other (d := Char.ofNat 0) (by decide)]

/-- A text between quotation marks. -/
def quoted (s : String) : String :=
  String.ofList ('"' :: s.toList.flatMap quotedChar ++ ['"'])

/-- A text that may be missing. -/
def quoted? : Option String → String
  | none => "None"
  | some s => s!"Some({quoted s})"

end ShaderLoom.Text
