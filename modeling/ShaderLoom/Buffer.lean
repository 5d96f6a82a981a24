import ShaderLoom.Text.Quoted

/-!
# Buffers

A buffer holds a fixed number of bytes, all zero at first. A write replaces the bytes it covers,
and is refused when it reaches past the end. Where a write ends is computed in a machine word, so an
end that does not fit into one has to be told from an end inside the buffer.

Only the bytes up to the last written one are stored, so a large buffer that nobody has written
to costs nothing. `Buffer.contents` is the view of all bytes.
-/

namespace ShaderLoom

/-! ## Descriptions of buffers -/

/-- What a buffer may be used for. -/
structure BufferUsage where
  /-- vertex attributes are read from it -/
  vertex : Bool := false
  /-- it backs a uniform block -/
  uniform : Bool := false
  /-- it backs a storage block -/
  storage : Bool := false
  /-- it is rewritten between draws -/
  dynamic : Bool := false
  /-- it can be copied to -/
  copyTarget : Bool := false
  deriving DecidableEq

namespace BufferUsage

/-- The uses in the order of their bits, with their names. -/
def flags (u : BufferUsage) : List (Bool × String) :=
  [(u.vertex, "VERTEX"), (u.uniform, "UNIFORM"), (u.storage, "STORAGE"), (u.dynamic, "DYNAMIC"),
    (u.copyTarget, "COPY_DST")]

/-- The uses that are set in a bit pattern. -/
def ofBits (bits : Nat) : BufferUsage where
  vertex := bits.testBit 0
  uniform := bits.testBit 1
  storage := bits.testBit 2
  dynamic := bits.testBit 3
  copyTarget := bits.testBit 4

/-- The bit pattern of a use, the first use in the lowest bit. -/
def bits (u : BufferUsage) : Nat :=
  u.flags.foldr (fun flag high => flag.1.toNat + 2 * high) 0

/-- The names of the uses that are set. -/
def describe (u : BufferUsage) : String :=
  match u.flags.filter Prod.fst with
  | [] => "BufferUsage(0x0)"
  | set =>
    let names := String.intercalate " | " (set.map Prod.snd)
    s!"BufferUsage({names})"

end BufferUsage

/-- What is known about a buffer without its contents. -/
structure BufferSpec where
  /-- the number of bytes -/
  size : Nat
  /-- what the buffer may be used for -/
  usage : BufferUsage := {}
  /-- a name for people -/
  label : Option String := none
  deriving DecidableEq

/-- A one-line description of a buffer. -/
def BufferSpec.describe (s : BufferSpec) : String :=
  let label := Text.quoted? s.label
  s!"Buffer \x7b size: {s.size}, usage: {s.usage.describe}, label: {label} \x7d"

/-! ## Contents -/

/-- Why a buffer cannot be made or written to. -/
inductive BufferFault where
  /-- there is no room for so many bytes -/
  | noMemory
  /-- the write reaches past the end -/
  | outOfRange (count offset size : Nat)
  deriving DecidableEq

/-- No address space has room for so many bytes. -/
def Buffer.sizeLimit : Nat := 1 <<< 62

/-- A buffer. -/
structure Buffer where
  /-- its description -/
  spec : BufferSpec
  /-- its first bytes; all others are zero -/
  written : List UInt8
  /-- no byte lies past the end -/
  written_le : written.length ≤ spec.size
  /-- there is room for it -/
  size_lt : spec.size < Buffer.sizeLimit

namespace Buffer

/-- A buffer of zeros. -/
def create (spec : BufferSpec) : Except BufferFault Buffer :=
  if h : spec.size < sizeLimit then .ok ⟨spec, [], Nat.zero_le _, h⟩ else .error .noMemory

/-- Every byte of the buffer. -/
def contents (b : Buffer) : List UInt8 :=
  b.written ++ List.replicate (b.spec.size - b.written.length) 0

@[simp] theorem length_contents (b : Buffer) : b.contents.length = b.spec.size := by
  have := b.written_le
  simp [contents]
  omega

/-- Put `data` over the bytes of `old` from `offset` on, with zeros in between where `old` ends
too early. -/
def overlay (old : List UInt8) (offset : Nat) (data : List UInt8) : List UInt8 :=
  old.take offset ++ List.replicate (offset - old.length) 0 ++ data ++
    old.drop (offset + data.length)

theorem length_overlay (old : List UInt8) (offset : Nat) (data : List UInt8) :
    (overlay old offset data).length = max old.length (offset + data.length) := by
  simp [overlay]
  omega

/-- Where `count` bytes from `offset` on end, unless that is no machine word. -/
def stop? (offset count : Nat) : Option Nat :=
  if offset + count < UInt64.size then some (offset + count) else none

/-- Where `count` bytes from `offset` on end, if they end within `size` bytes. -/
def stopWithin? (size offset count : Nat) : Option Nat := (stop? offset count).filter (· ≤ size)

theorem stopWithin?_eq_some {size offset count stop : Nat}
    (h : stopWithin? size offset count = some stop) : stop = offset + count ∧ stop ≤ size := by
  obtain ⟨hstop, hle⟩ := Option.filter_eq_some_iff.mp h
  rw [stop?] at hstop
  split at hstop
  · cases hstop
    exact ⟨rfl, of_decide_eq_true hle⟩
  · cases hstop

/-- Write `data` from byte `offset` on. -/
def write (b : Buffer) (offset : Nat) (data : List UInt8) : Except BufferFault Buffer :=
  match h : stopWithin? b.spec.size offset data.length with
  | none => .error (.outOfRange data.length offset b.spec.size)
  | some _ =>
    .ok { b with
      written := overlay b.written offset data
      written_le := by
        obtain ⟨rfl, hle⟩ := stopWithin?_eq_some h
        rw [length_overlay]
        exact Nat.max_le.mpr ⟨b.written_le, hle⟩ }

/-- The four bytes of a word, the lowest first. -/
def wordBytes (w : UInt32) : List UInt8 :=
  [w.toUInt8, (w >>> 8).toUInt8, (w >>> 16).toUInt8, (w >>> 24).toUInt8]

/-- Write words one behind the other. -/
def writeWords (b : Buffer) (offset : Nat) (words : List UInt32) : Except BufferFault Buffer :=
  b.write offset (words.flatMap wordBytes)

end Buffer

/-! ## Calls -/

/-- A call that writes to a buffer. -/
inductive BufferCall where
  /-- bytes -/
  | bytes (offset : Nat) (data : List UInt8)
  /-- a plain value, which consists of words -/
  | words (offset : Nat) (value : List UInt32)

namespace BufferCall

/-- The first byte that is written. -/
def offset : BufferCall → Nat
  | .bytes offset _ => offset
  | .words offset _ => offset

/-- What is written. -/
def data : BufferCall → List UInt8
  | .bytes _ data => data
  | .words _ value => value.flatMap Buffer.wordBytes

/-- Write to a buffer. -/
def write (b : Buffer) : BufferCall → Except BufferFault Buffer
  | .bytes offset data => b.write offset data
  | .words offset value => b.writeWords offset value

end BufferCall

namespace Buffer

/-- What a call answers, and the buffer behind it. -/
def perform (b : Buffer) (call : BufferCall) : Except BufferFault Unit × Buffer :=
  match call.write b with
  | .ok after => (.ok (), after)
  | .error fault => (.error fault, b)

/-- The buffer behind a sequence of calls. -/
def performAll (b : Buffer) (calls : List BufferCall) : Buffer :=
  calls.foldl (fun b call => (b.perform call).2) b

end Buffer

end ShaderLoom
