import ShaderLoom.Block
import ShaderLoom.Buffer
import ShaderLoom.Error.Kind
import ShaderLoom.Format
import ShaderLoom.Intrinsic.Basic
import ShaderLoom.Reflection
import ShaderLoom.Session.State

/-!
# Errors

Everything that can go wrong between a declaration and a program that is ready to use. Each
cause belongs to one kind, and `Error.message` puts the wording of the kind in front of the
wording of the cause.
-/

namespace ShaderLoom

/-- The causes of errors. -/
inductive Error where
  /-- a buffer cannot be made or written to -/
  | buffer (fault : BufferFault)
  /-- a field cannot be added to a block -/
  | block (fault : BlockFault)
  /-- a call of an intrinsic cannot be read -/
  | call (fault : CallFault)
  /-- the compiler refused the program -/
  | compile (fault : CompileFault)
  /-- a loose uniform has the type of a block -/
  | uniformOfBlockType (uniform : String) (ty : ShaderType)
  /-- a storage image has no format -/
  | imageWithoutFormat (texture : String)
  /-- a storage image has a format that cannot back one -/
  | imageFormat (texture : String) (format : Format)
  /-- a compute program has vertex attributes -/
  | computeAttributes
  /-- the compiler tells nothing about attributes -/
  | unreflectedAttribute (name : String)
  /-- the compiler tells no location for an attribute -/
  | unplacedAttribute (name : String)
  /-- the session does not admit the request -/
  | wrongState (request : SessionRequest) (state : SessionState)
  deriving DecidableEq

namespace Error

/-- The kind of a cause. -/
def kind : Error → ErrorKind
  | .buffer .noMemory => .memory
  | .buffer (.outOfRange ..) => .invalidArgument
  | .block _ | .call _ => .invalidArgument
  | .compile fault => fault.kind
  | .uniformOfBlockType .. | .imageWithoutFormat _ => .invalidArgument
  | .imageFormat .. => .unsupported
  | .computeAttributes => .invalidArgument
  | .unreflectedAttribute _ | .unplacedAttribute _ => .notFound
  | .wrongState .. => .invalidState

/-- The wording of a cause. -/
def detail : Error → String
  | .buffer .noMemory => "out of memory while building shader text"
  | .buffer (.outOfRange count offset size) =>
    s!"write of {count} bytes at offset {offset} overflows a {size} byte buffer"
  | .block fault => fault.message
  | .call fault => fault.message
  | .compile fault => fault.message
  | .uniformOfBlockType uniform ty =>
    s!"uniform {uniform} is declared with block type {ty.keyword}"
  | .imageWithoutFormat texture =>
    s!"{texture}: format must be set when accessing a texture as an image"
  | .imageFormat texture format =>
    s!"{texture}: format {format.name} cannot be used as an image"
  | .computeAttributes => "compute programs cannot declare vertex attributes"
  | .unreflectedAttribute name =>
    s!"attribute {name}: program exposes no attribute locations"
  | .unplacedAttribute name =>
    s!"attribute {name}: no location assigned by the program"
  | .wrongState request state => s!"cannot {request.name} in state {state.name}"

/-- The whole message: the kind, then the cause. Lack of memory speaks for itself, whoever reports
it. -/
def message (e : Error) : String :=
  match e.kind with
  | .memory => detail (.buffer .noMemory)
  | .invalidArgument => s!"invalid argument: {e.detail}"
  | .unsupported => s!"unsupported: {e.detail}"
  | .notFound => s!"not found: {e.detail}"
  | .compilationFailed => s!"shader compilation failed: {e.detail}"
  | .invalidState => s!"invalid state: {e.detail}"

end Error

end ShaderLoom
