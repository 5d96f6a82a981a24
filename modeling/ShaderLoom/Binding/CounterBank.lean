import ShaderLoom.Binding
import ShaderLoom.WordSum

/-!
# A bank of counters

There is a **slot** for each stage and class of resource, and a counter at each slot. A slot says
which counter its stage and class draw from: the one at the slot itself, or the first of all where a
dialect shares bindings. Where the text does not fix bindings of a class, its slots say nothing.

Locations are counted beside the slots, in a row of counters for inputs and one for outputs. All
counters are machine words, and one that cannot be raised is a misstep.
-/

namespace ShaderLoom

/-- The number of a stage. -/
def Stage.index : Stage → Fin 3
  | .vertex => 0
  | .fragment => 1
  | .compute => 2

/-- The number of a class. -/
def BindingClass.index : BindingClass → Fin 3
  | .uniformBlock => 0
  | .storageBlock => 1
  | .texture => 2

/-- The number of a slot. -/
abbrev Slot := Fin 9

/-- The slot of a stage and a class. -/
def Slot.of (stage : Stage) (resource : BindingClass) : Slot :=
  ⟨stage.index * 3 + resource.index, by omega⟩

/-- The slot whose counter a dialect shares among all stages and classes. -/
def Slot.first : Slot := 0

/-- Counters and the slots that choose among them. -/
structure CounterBank where
  /-- the counter that a stage and a class draw from -/
  slots : Vector (Option Slot) 9
  /-- the next binding of each counter -/
  counters : Vector Nat 9
  /-- the next input location of each stage -/
  inputs : Option (Vector Nat 3)
  /-- the next output location of each stage -/
  outputs : Option (Vector Nat 3)

namespace CounterBank

/-- Every stage with every class. -/
def places : List (Stage × BindingClass) :=
  Stage.all.flatMap fun stage => BindingClass.all.map fun resource => (stage, resource)

/-- Does the text fix the bindings of a class, in a dialect in which it fixes any? -/
def isEnabled (d : Dialect) : BindingClass → Bool
  | .uniformBlock => d.hasUniformBlockBindings
  | .storageBlock => true
  | .texture => d.hasTextureBindings

/-- The counter that a stage and a class draw from. -/
def counterOf (d : Dialect) (stage : Stage) (resource : BindingClass) : Slot :=
  if d.sharesBindings then Slot.first else Slot.of stage resource

/-- Let the slot of a stage and a class lead to its counter. -/
def enable (d : Dialect) (slots : Vector (Option Slot) 9) (place : Stage × BindingClass) :
    Vector (Option Slot) 9 :=
  if isEnabled d place.2 then
    slots.set (Slot.of place.1 place.2) (some (counterOf d place.1 place.2))
  else slots

/-- The slots of a dialect. -/
def slotsOf (d : Dialect) : Vector (Option Slot) 9 :=
  if d.hasBufferBindings then places.foldl (enable d) (.replicate 9 none) else .replicate 9 none

/-- The counters of locations, where the text fixes them. -/
def locationsOf (d : Dialect) : Option (Vector Nat 3) :=
  if d.hasExplicitLocations then some (.replicate 3 0) else none

/-- The counters that a dialect needs, with nothing handed out. -/
def create (d : Dialect) : CounterBank where
  slots := slotsOf d
  counters := .replicate 9 0
  inputs := locationsOf d
  outputs := locationsOf d

/-- Raise one of some counters. -/
def raise {n : Nat} (counters : Vector Nat n) (i : Fin n) (count : Nat) :
    Except WordOverflow (Vector Nat n) :=
  (wordSum (counters.get i) count).map fun sum => counters.set i sum i.isLt

/-- Hand out a binding. -/
def binding (b : CounterBank) (stage : Stage) (resource : BindingClass) :
    Except WordOverflow (Option Nat × CounterBank) :=
  match b.slots.get (Slot.of stage resource) with
  | none => pure (none, b)
  | some counter => do
    let counters ← raise b.counters counter 1
    pure (some (b.counters.get counter), { b with counters })

/-- Take `count` consecutive locations of a stage, and return the first. -/
def reserve (locations : Option (Vector Nat 3)) (stage : Stage) (count : Nat) :
    Except WordOverflow (Option Nat × Option (Vector Nat 3)) :=
  match locations with
  | none => pure (none, none)
  | some counters => do
    let raised ← raise counters stage.index count
    pure (some (counters.get stage.index), some raised)

/-- Hand out input locations. -/
def input (b : CounterBank) (stage : Stage) (count : Nat) :
    Except WordOverflow (Option Nat × CounterBank) := do
  let (first, inputs) ← reserve b.inputs stage count
  pure (first, { b with inputs })

/-- Hand out output locations. -/
def output (b : CounterBank) (stage : Stage) (count : Nat) :
    Except WordOverflow (Option Nat × CounterBank) := do
  let (first, outputs) ← reserve b.outputs stage count
  pure (first, { b with outputs })

/-- Answer one request. -/
def answer (b : CounterBank) : Request → Except WordOverflow (Option Nat × CounterBank)
  | .binding stage resource => b.binding stage resource
  | .input stage count => b.input stage count
  | .output stage count => b.output stage count

/-- Answer requests one after the other. -/
def answers (b : CounterBank) : List Request → Except WordOverflow (List (Option Nat))
  | [] => pure []
  | r :: rest => do
    let (answer, next) ← b.answer r
    let answers ← next.answers rest
    pure (answer :: answers)

end CounterBank

end ShaderLoom
