import ShaderLoom.Error.Kind
import ShaderLoom.Table

/-!
# Reflection

What a compiler tells about a program it has compiled: for every variable that the program
really uses, the location or binding it ended up with. A variable that is missing was removed as
dead code. A compiler that cannot tell anything about a kind of variable leaves out the whole
table of that kind.
-/

namespace ShaderLoom

/-- Where a variable ended up. -/
structure Placement where
  /-- its location, if it has one -/
  location : Option Nat := none
  /-- its binding, if it has one -/
  binding : Option Nat := none
  deriving DecidableEq

/-- Variables by identifier. -/
abbrev PlacementTable := Table String Placement

/-- The entries in the order of their identifiers. -/
def PlacementTable.sorted (t : PlacementTable) : List (String × Placement) :=
  List.mergeSort t fun a b => !(b.1 < a.1)

/-- What a compiler tells about a program. -/
structure Reflection where
  /-- loose uniforms, samplers and images -/
  uniforms : Option PlacementTable
  /-- blocks, by the identifier of the block -/
  blocks : Option PlacementTable
  /-- vertex attributes -/
  attributes : Option PlacementTable

/-- What a compiler tells about a uniform, a sampler or an image. -/
def Reflection.uniform? (r : Reflection) (name : String) : Option Placement :=
  r.uniforms.bind (·.find? name)

/-- Where a uniform, a sampler or an image is, if a compiler tells it. -/
def Reflection.uniformLocation? (r : Reflection) (name : String) : Option Nat :=
  (r.uniform? name).bind Placement.location

/-- Why a compiler refuses a program. -/
inductive CompileFault where
  /-- a stage does not begin with its version -/
  | missingVersion
  /-- a stage has more opening than closing braces, or the other way round -/
  | unbalancedBraces
  /-- a layout qualifier does not end on its line -/
  | openLayout (line : String)
  /-- a number in a layout qualifier is none -/
  | badQualifier (key value : String)
  /-- a block does not end -/
  | openBlock (block : String)
  /-- any other reason, of a kind that the compiler tells -/
  | reported (kind : ErrorKind) (reason : String)
  deriving DecidableEq

namespace CompileFault

/-- A program that the compiler rejects for a reason of its own. -/
def rejected (reason : String) : CompileFault := .reported .compilationFailed reason

/-- The kind of a fault. A compiler is expected to fail to compile, but it may report an error of
any kind. -/
def kind : CompileFault → ErrorKind
  | .reported kind _ => kind
  | _ => .compilationFailed

/-- The wording of a fault. -/
def message : CompileFault → String
  | .missingVersion => "source does not start with a #version directive"
  | .unbalancedBraces => "unbalanced braces"
  | .openLayout line => s!"unterminated layout qualifier: {line}"
  | .badQualifier key value => s!"invalid {key} value `{value}`"
  | .openBlock block => s!"unterminated block {block}"
  | .reported _ reason => reason

end CompileFault

end ShaderLoom
