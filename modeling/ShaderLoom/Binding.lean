import ShaderLoom.Block
import ShaderLoom.Dialect
import ShaderLoom.Stage

/-!
# Bindings and locations

Some dialects let the text of a stage fix the binding of a resource, or the location of a
variable; what the text leaves open, the compiler of the program chooses.

Bindings are numbers in a `BindingSpace`. Where a dialect shares bindings there is one space for
everything, otherwise one for each stage and class of resource. Locations of inputs and of outputs
are numbered in each stage on its own. The `Allocator` hands out every number once, in the order
of the requests.
-/

namespace ShaderLoom

/-- The classes of resource that have bindings. -/
inductive BindingClass where
  | uniformBlock
  | storageBlock
  | texture
  deriving DecidableEq

namespace BindingClass

/-- The class that a block belongs to. -/
def ofBlock : BlockKind → BindingClass
  | .uniform => .uniformBlock
  | .storage => .storageBlock

/-- The name of a class, as reports spell it. -/
def name : BindingClass → String
  | .uniformBlock => "UniformBlock"
  | .storageBlock => "StorageBlock"
  | .texture => "Texture"

/-- Every class. -/
def all : List BindingClass := [.uniformBlock, .storageBlock, .texture]

/-- The class called `s`. -/
def ofName? (s : String) : Option BindingClass := all.find? (·.name = s)

end BindingClass

/-- A space in which no two resources have one binding. -/
inductive BindingSpace where
  /-- the space that everything shares -/
  | shared
  /-- the space of one class of resource in one stage -/
  | own (stage : Stage) (resource : BindingClass)
  deriving DecidableEq

namespace Dialect

/-- Does the text fix the bindings of a class? -/
def fixesBindings (d : Dialect) : BindingClass → Bool
  | .uniformBlock => d.hasBufferBindings && d.hasUniformBlockBindings
  | .storageBlock => d.hasBufferBindings
  | .texture => d.hasBufferBindings && d.hasTextureBindings

/-- The space of a class of resource in a stage, when the text fixes its bindings. -/
def bindingSpace? (d : Dialect) (stage : Stage) (resource : BindingClass) : Option BindingSpace :=
  if d.fixesBindings resource then
    some (if d.sharesBindings then .shared else .own stage resource)
  else none

end Dialect

/-- Raise one counter by `n`. -/
def advance {α : Type} [DecidableEq α] (counters : α → Nat) (key : α) (n : Nat) : α → Nat :=
  fun other => if other = key then counters other + n else counters other

/-- The next free numbers. -/
structure Allocator where
  /-- the next binding of a space -/
  bindings : BindingSpace → Nat
  /-- the next input location of a stage -/
  inputs : Stage → Nat
  /-- the next output location of a stage -/
  outputs : Stage → Nat

namespace Allocator

/-- Nothing has been handed out. -/
def start : Allocator := ⟨fun _ => 0, fun _ => 0, fun _ => 0⟩

/-- Hand out a binding, unless the dialect leaves it to the compiler. -/
def binding (a : Allocator) (d : Dialect) (stage : Stage) (resource : BindingClass) :
    Option Nat × Allocator :=
  match d.bindingSpace? stage resource with
  | none => (none, a)
  | some space => (some (a.bindings space), { a with bindings := advance a.bindings space 1 })

/-- Hand out `count` consecutive input locations, and return the first. -/
def input (a : Allocator) (d : Dialect) (stage : Stage) (count : Nat) : Option Nat × Allocator :=
  if d.hasExplicitLocations then
    (some (a.inputs stage), { a with inputs := advance a.inputs stage count })
  else (none, a)

/-- Hand out `count` consecutive output locations, and return the first. -/
def output (a : Allocator) (d : Dialect) (stage : Stage) (count : Nat) : Option Nat × Allocator :=
  if d.hasExplicitLocations then
    (some (a.outputs stage), { a with outputs := advance a.outputs stage count })
  else (none, a)

end Allocator

/-! ## Requests -/

/-- A request for numbers. -/
inductive Request where
  /-- one binding -/
  | binding (stage : Stage) (resource : BindingClass)
  /-- consecutive input locations -/
  | input (stage : Stage) (count : Nat)
  /-- consecutive output locations -/
  | output (stage : Stage) (count : Nat)
  deriving DecidableEq

namespace Allocator

/-- Answer one request. -/
def answer (a : Allocator) (d : Dialect) : Request → Option Nat × Allocator
  | .binding stage resource => a.binding d stage resource
  | .input stage count => a.input d stage count
  | .output stage count => a.output d stage count

/-- Answer requests one after the other. -/
def answers (d : Dialect) (a : Allocator) : List Request → List (Option Nat)
  | [] => []
  | r :: rest => (a.answer d r).1 :: answers d (a.answer d r).2 rest

end Allocator

end ShaderLoom
