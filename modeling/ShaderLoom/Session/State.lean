/-!
# States of a session

A session is `empty` at first and `declaring` once a batch of declarations has come in; only
then it is **open**. Making the program takes it through `assembled` to `resolved`, or to
`failed`. `released` is the end.
-/

namespace ShaderLoom

/-- How far a session has come. -/
inductive SessionState where
  /-- nothing has been declared -/
  | empty
  /-- something has been declared -/
  | declaring
  /-- the program has been compiled -/
  | assembled
  /-- the declarations have been resolved against the program -/
  | resolved
  /-- everything has been given back -/
  | released
  /-- something went wrong -/
  | failed
  deriving DecidableEq

namespace SessionState

/-- The name of a state, as messages spell it. -/
def name : SessionState → String
  | .empty => "Empty"
  | .declaring => "Declaring"
  | .assembled => "Assembled"
  | .resolved => "Probed"
  | .released => "Released"
  | .failed => "Failed"

/-- May declarations and bodies still come in? -/
def isOpen (s : SessionState) : Bool := s = .empty || s = .declaring

/-- **Only the first two states are open.** -/
theorem isOpen_iff {s : SessionState} : s.isOpen = true ↔ s = .empty ∨ s = .declaring := by
  simp [isOpen]

end SessionState

/-- What only an open session admits. -/
inductive SessionRequest where
  /-- add a batch of declarations -/
  | declare
  /-- make the program -/
  | build
  deriving DecidableEq

/-- The name of a request, as messages spell it. -/
def SessionRequest.name : SessionRequest → String
  | .declare => "declare"
  | .build => "craft"

end ShaderLoom
