import ShaderLoom.ShaderType

/-!
# Interface blocks

A block is a list of plain-typed fields laid out one after the other under the std140 or the
std430 rules:

* a field starts at the next multiple of its alignment;
* the elements of an array lie one stride apart, the size of the type rounded up to the
  alignment, and std140 aligns arrays to at least 16 bytes;
* the whole block is padded to a multiple of 16 bytes (std140) or of the largest alignment of a
  field (std430).

Offsets and sizes are 32-bit quantities. `Block.extend` refuses a field whose end, padded to
16 bytes, would not be one.
-/

namespace ShaderLoom

/-- Layout rules. -/
inductive Packing where
  | std140
  | std430
  deriving DecidableEq

namespace Packing

/-- The layout qualifier. -/
def qualifier : Packing → String
  | .std140 => "std140"
  | .std430 => "std430"

/-- The name of a packing, as descriptions of a block spell it. -/
def name : Packing → String
  | .std140 => "Std140"
  | .std430 => "Std430"

/-- Both packings. -/
def all : List Packing := [.std140, .std430]

/-- The packing called `s`. -/
def ofName? (s : String) : Option Packing := all.find? (·.name = s)

end Packing

/-- What a block is backed by. -/
inductive BlockKind where
  /-- a uniform buffer -/
  | uniform
  /-- a storage buffer -/
  | storage
  deriving DecidableEq

namespace BlockKind

/-- The type that stands for a block of the kind. Its keyword introduces the block. -/
def type : BlockKind → ShaderType
  | .uniform => .uniformBlock
  | .storage => .storageBlock

/-- The name of a kind, as descriptions of a block spell it. -/
def name : BlockKind → String
  | .uniform => "Uniform"
  | .storage => "Storage"

/-- Both kinds. -/
def all : List BlockKind := [.uniform, .storage]

/-- The kind called `s`. -/
def ofName? (s : String) : Option BlockKind := all.find? (·.name = s)

end BlockKind

/-! ## Laying out one field -/

/-- The least multiple of `align` that is at least `n`. -/
def roundUp (n align : Nat) : Nat := (n + (align - 1)) / align * align

theorem dvd_roundUp (n align : Nat) : align ∣ roundUp n align := Nat.dvd_mul_left ..

theorem le_roundUp {align : Nat} (h : 0 < align) (n : Nat) : n ≤ roundUp n align := by
  have := Nat.div_add_mod (n + (align - 1)) align
  have := Nat.mod_lt (n + (align - 1)) h
  simp only [roundUp, Nat.mul_comm _ align]
  omega

/-- Rounding up skips less than one multiple. -/
theorem roundUp_lt {align : Nat} (h : 0 < align) (n : Nat) : roundUp n align < n + align := by
  have := Nat.div_add_mod (n + (align - 1)) align
  simp only [roundUp, Nat.mul_comm _ align]
  omega

/-- The bytes of a field, before it has a place. -/
structure Extent where
  /-- the offset is a multiple of this -/
  align : Nat
  /-- bytes of the whole field -/
  size : Nat
  /-- distance of two array elements; zero for a single value -/
  stride : Nat
  deriving DecidableEq

/-- The alignment of an array whose elements are aligned to `align`. -/
def Packing.arrayAlign : Packing → Nat → Nat
  | .std140, align => roundUp align 16
  | .std430, align => align

/-- The extent of a single value (`count = 0`) or of an array of `count` values. -/
def Packing.extent (packing : Packing) (element : Footprint) (count : Nat) : Extent :=
  if count = 0 then ⟨element.align, element.size, 0⟩
  else
    let align := packing.arrayAlign element.align
    let stride := roundUp element.size align
    ⟨align, stride * count, stride⟩

/-- A field with its place in a block. -/
structure BlockField where
  /-- the identifier of the field -/
  name : String
  /-- the type of one element -/
  ty : ShaderType
  /-- the number of array elements; zero for a single value -/
  count : Nat
  /-- bytes before the field -/
  offset : Nat
  /-- bytes of the whole field -/
  size : Nat
  /-- distance of two array elements; zero for a single value -/
  stride : Nat
  deriving DecidableEq

/-- The first byte behind a field. -/
def BlockField.finish (f : BlockField) : Nat := f.offset + f.size

/-! ## Blocks -/

/-- Why a field cannot be added to a block. -/
inductive BlockFault where
  /-- the type has no footprint -/
  | noFootprint (field : String) (ty : ShaderType)
  /-- the block would outgrow 32 bits -/
  | tooLarge (field : String)
  deriving DecidableEq

/-- The wording of a fault. -/
def BlockFault.message : BlockFault → String
  | .noFootprint field ty => s!"field {field} of type {ty.keyword} cannot be stored in a block"
  | .tooLarge field => s!"field {field} does not fit in a block"

/-- An interface block. -/
structure Block where
  /-- the layout rules -/
  packing : Packing
  /-- what backs the block -/
  kind : BlockKind
  /-- the fields, in order -/
  fields : List BlockField
  /-- the first byte behind the last field -/
  finish : Nat
  /-- the largest alignment of a field -/
  align : Nat
  deriving DecidableEq

namespace Block

/-- One more than the largest size of a block. -/
def sizeLimit : Nat := UInt32.size

/-- A block without fields. -/
def empty (packing : Packing) (kind : BlockKind) : Block := ⟨packing, kind, [], 0, 0⟩

/-- The place of the next field of extent `e`. -/
def nextOffset (b : Block) (e : Extent) : Nat := roundUp b.finish e.align

/-- Append a field of known extent. -/
def append (b : Block) (name : String) (ty : ShaderType) (count : Nat) (e : Extent) : Block :=
  let field : BlockField := ⟨name, ty, count, b.nextOffset e, e.size, e.stride⟩
  { b with fields := b.fields ++ [field], finish := field.finish, align := max b.align e.align }

/-- Append a field of type `ty`, or an array of them when `count` is not zero. -/
def extend (b : Block) (name : String) (ty : ShaderType) (count : Nat) :
    Except BlockFault Block :=
  match ty.footprint? with
  | none => .error (.noFootprint name ty)
  | some element =>
    let extended := b.append name ty count (b.packing.extent element count)
    if roundUp extended.finish 16 < sizeLimit then .ok extended else .error (.tooLarge name)

/-- The bytes of the padded block. -/
def size (b : Block) : Nat :=
  if b.fields = [] then 0
  else
    match b.packing with
    | .std140 => roundUp b.finish 16
    | .std430 => roundUp b.finish b.align

/-- The position of the first field called `name`. -/
def position? (b : Block) (name : String) : Option Nat := b.fields.findIdx? (·.name = name)

/-- The first field called `name`. -/
def field? (b : Block) (name : String) : Option BlockField := b.fields.find? (·.name = name)

/-- Has the block no fields? -/
def isEmpty (b : Block) : Bool := b.fields.isEmpty

end Block

end ShaderLoom
