/-!
# Kinds of error

Every error is of one of six kinds, which callers tell apart. A kind says which part of the way to
a program went wrong; the causes are listed beside the parts.
-/

namespace ShaderLoom

/-- The kinds of error. -/
inductive ErrorKind where
  /-- there is no room -/
  | memory
  /-- a declaration or a call is malformed -/
  | invalidArgument
  /-- the dialect cannot express what was asked for -/
  | unsupported
  /-- the program has no place for a resource -/
  | notFound
  /-- the compiler refused the program -/
  | compilationFailed
  /-- the session is not in a state for the operation -/
  | invalidState
  deriving DecidableEq

/-- The name of a kind, as reports spell it. -/
def ErrorKind.name : ErrorKind → String
  | .memory => "Memory"
  | .invalidArgument => "InvalidArgument"
  | .unsupported => "Unsupported"
  | .notFound => "NotFound"
  | .compilationFailed => "ShaderCompilationFailed"
  | .invalidState => "InvalidState"

end ShaderLoom
