import ShaderLoom.Cursor.Basic

/-!
# Searching for call sites

The tokens of all intrinsics begin alike. The search jumps to the next place where that beginning
stands, and from there to the end of the identifier around it, whether it is a token or not.
-/

namespace ShaderLoom.Cursor

open Text

/-- What the tokens of all intrinsics begin with. -/
def tokenLead : Text := "ngl".toList

/-- Does an identifier character stand in front of a position? -/
def insideIdentifier (t : Text) (position : Nat) : Checked Bool :=
  if position = 0 then .ok false else (byteAt t (position - 1)).map (onByte isIdentifier)

/-- The call site that the identifier characters from `start` to `stop` make, if the identifier
begins there. -/
def siteAt? (t : Text) (start stop : Nat) : Checked (Option CallSite) := do
  let inside ← insideIdentifier t start
  if inside then pure none
  else do
    let word ← slice t start stop
    pure ((Intrinsic.ofToken? word).map fun f => ⟨f, start⟩)

/-- The call sites from a position on. -/
def searchFrom (t : Text) (position : Nat) : Checked (List CallSite) := do
  let tail ← behind t position
  match find? tokenLead tail with
  | none => pure []
  | some found => do
    let start := position + found
    let run ← bytesBehind t start
    let stop := start + (run.takeWhile (onByte isIdentifier)).length
    let site? ← siteAt? t start stop
    if _h : MovesOn t position stop then do
      let sites ← searchFrom t stop
      pure (site?.toList ++ sites)
    else .error (.misstep .standstill)
termination_by byteSize t - position
decreasing_by exact _h.sub_lt

/-- The call sites of a text. -/
def search (t : Text) : Checked (List CallSite) := searchFrom t 0

end ShaderLoom.Cursor
