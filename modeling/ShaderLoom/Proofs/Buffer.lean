import Mathlib.Data.List.Induction
import ShaderLoom.Error
import ShaderLoom.Proofs.Outcome

/-!
# Writing to buffers

A write that stays inside a buffer succeeds, and changes nothing but the bytes that it covers:
**`Buffer.getElem?_contents_of_write`** says what every byte is behind it.

So after any sequence of calls, some of which may fail, every byte of a buffer is the one that the
last successful call over it has put there, and zero where there is none
(**`Buffer.contents_performAll`**).
-/

namespace ShaderLoom.Buffer

variable {b b' : Buffer} {offset i : Nat} {data : List UInt8}

theorem create_eq_ok {spec : BufferSpec} (h : create spec = .ok b) :
    b.spec = spec ∧ b.written = [] := by
  rw [create] at h
  split at h
  · cases h
    exact ⟨rfl, rfl⟩
  · cases h

theorem spec_of_create {spec : BufferSpec} (h : create spec = .ok b) : b.spec = spec :=
  (create_eq_ok h).1

/-- **The end of a write is judged exactly**: an end that is no machine word lies behind the end of
every buffer. -/
theorem stopWithin?_eq (b : Buffer) (offset count : Nat) :
    stopWithin? b.spec.size offset count =
      if offset + count ≤ b.spec.size then some (offset + count) else none := by
  have hroom : sizeLimit ≤ UInt64.size := by decide
  have hsize := b.size_lt
  rw [stopWithin?, stop?]
  split
  · next hword => simp only [Option.filter_some, decide_eq_true_eq]
  · next hword =>
    rw [if_neg (by omega)]
    rfl

/-- **A write succeeds** exactly when it ends inside the buffer. -/
theorem write_cases (b : Buffer) (offset : Nat) (data : List UInt8) :
    offset + data.length ≤ b.spec.size ∧ (∃ b', b.write offset data = .ok b' ∧ b'.spec = b.spec ∧
        b'.written = overlay b.written offset data) ∨
      b.spec.size < offset + data.length ∧
        b.write offset data = .error (.outOfRange data.length offset b.spec.size) := by
  have hstop := b.stopWithin?_eq offset data.length
  rw [write]
  split
  · next hnone =>
    rw [hnone] at hstop
    have hover : ¬offset + data.length ≤ b.spec.size := fun hle => by
      rw [if_pos hle] at hstop
      cases hstop
    exact .inr ⟨Nat.lt_of_not_le hover, rfl⟩
  · next stop hsome =>
    obtain ⟨rfl, hle⟩ := stopWithin?_eq_some hsome
    exact .inl ⟨hle, _, rfl, rfl, rfl⟩

theorem exists_write_iff :
    (∃ b', b.write offset data = .ok b') ↔ offset + data.length ≤ b.spec.size := by
  rcases b.write_cases offset data with ⟨hle, b', h, -⟩ | ⟨hlt, h⟩
  · exact ⟨fun _ => hle, fun _ => ⟨b', h⟩⟩
  · rw [h]
    refine ⟨?_, fun hle => absurd hle (Nat.not_le_of_lt hlt)⟩
    rintro ⟨b', h'⟩
    cases h'

/-- A write puts its bytes over those that are stored. -/
theorem write_eq_ok (h : b.write offset data = .ok b') :
    offset + data.length ≤ b.spec.size ∧ b'.spec = b.spec ∧
      b'.written = overlay b.written offset data := by
  rcases b.write_cases offset data with ⟨hle, after, hafter, hspec, hwritten⟩ | ⟨-, herror⟩
  · rw [h] at hafter
    cases hafter
    exact ⟨hle, hspec, hwritten⟩
  · rw [h] at herror
    cases herror

/-- Every byte is stored or zero. -/
theorem getElem?_contents (b : Buffer) (i : Nat) :
    b.contents[i]? = if i < b.spec.size then some (b.written[i]?.getD 0) else none := by
  have hle := b.written_le
  rw [contents, List.getElem?_append]
  split
  · next h =>
    rw [if_pos (by omega), List.getElem?_eq_getElem h]
    rfl
  · next h =>
    rw [List.getElem?_replicate, List.getElem?_eq_none (by omega)]
    split
    · next hlt => exact (if_pos (by omega)).symm
    · next hlt => exact (if_neg (by omega)).symm

/-- The bytes behind an overlay, where bytes that are not stored are zero. -/
theorem getD_getElem?_overlay (old : List UInt8) (offset : Nat) (data : List UInt8) (i : Nat) :
    (overlay old offset data)[i]?.getD 0 =
      if offset ≤ i ∧ i < offset + data.length then data[i - offset]?.getD 0
      else old[i]?.getD 0 := by
  have hfront : (old.take offset ++ List.replicate (offset - old.length) 0).length = offset := by
    simp
    omega
  rw [overlay, List.append_assoc]
  by_cases hi : i < offset
  · rw [List.getElem?_append_left (by omega), if_neg (by omega), List.getElem?_append]
    split
    · next h => rw [List.getElem?_take_of_lt hi]
    · next h =>
      have hlength : old.length ≤ i := by
        rw [List.length_take] at h
        omega
      rw [List.getElem?_replicate, List.getElem?_eq_none hlength]
      split <;> rfl
  · rw [List.getElem?_append_right (by omega), hfront]
    by_cases hend : i < offset + data.length
    · rw [List.getElem?_append_left (by omega), if_pos ⟨by omega, hend⟩]
    · rw [List.getElem?_append_right (by omega), if_neg fun h => hend h.2, List.getElem?_drop]
      congr 2
      omega

/-- **What every byte is behind a write**: one of the bytes that were written, or what it was. -/
theorem getElem?_contents_of_write (h : b.write offset data = .ok b') (i : Nat) :
    b'.contents[i]? =
      if offset ≤ i ∧ i < offset + data.length then data[i - offset]? else b.contents[i]? := by
  obtain ⟨hle, hspec, hwritten⟩ := write_eq_ok h
  rw [getElem?_contents, getElem?_contents, hspec, hwritten, getD_getElem?_overlay]
  by_cases hi : offset ≤ i ∧ i < offset + data.length
  · have hlt : i - offset < data.length := by omega
    rw [if_pos hi, if_pos hi, if_pos (by omega), List.getElem?_eq_getElem hlt]
    rfl
  · rw [if_neg hi, if_neg hi]

end ShaderLoom.Buffer

/-! ## Sequences of calls -/

namespace ShaderLoom

/-- The call ends within `size` bytes. -/
def BufferCall.Fits (size : Nat) (call : BufferCall) : Prop :=
  call.offset + call.data.length ≤ size

instance (size : Nat) (call : BufferCall) : Decidable (call.Fits size) :=
  inferInstanceAs (Decidable (_ ≤ _))

/-- The byte that a call puts at a place of a buffer of `size` bytes, if it covers the place. -/
def BufferCall.byte? (size place : Nat) (call : BufferCall) : Option UInt8 :=
  if call.Fits size ∧ call.offset ≤ place then call.data[place - call.offset]? else none

/-- The byte that the last successful call over a place has put there. -/
def lastByte? (size : Nat) (calls : List BufferCall) (place : Nat) : Option UInt8 :=
  calls.reverse.findSome? (BufferCall.byte? size place)

theorem lastByte?_append_singleton (size : Nat) (calls : List BufferCall) (call : BufferCall)
    (place : Nat) :
    lastByte? size (calls ++ [call]) place =
      (call.byte? size place).or (lastByte? size calls place) := by
  rw [lastByte?, List.reverse_append, List.reverse_singleton, List.singleton_append,
    List.findSome?_cons]
  cases call.byte? size place <;> rfl

namespace Buffer

variable {b b' : Buffer} {calls : List BufferCall} {call : BufferCall}

/-- Both calls write the bytes that they consist of. -/
theorem write_call (b : Buffer) (call : BufferCall) :
    call.write b = b.write call.offset call.data := by
  cases call <;> rfl

/-- **What a call answers**: it fails exactly when it reaches past the end, and then nothing has
changed. -/
theorem perform_cases (b : Buffer) (call : BufferCall) :
    call.Fits b.spec.size ∧ (b.perform call).1 = .ok () ∧
        b.write call.offset call.data = .ok (b.perform call).2 ∨
      ¬call.Fits b.spec.size ∧ b.perform call =
        (.error (.outOfRange call.data.length call.offset b.spec.size), b) := by
  rw [perform, write_call]
  rcases b.write_cases call.offset call.data with ⟨hle, after, hafter, -⟩ | ⟨hlt, herror⟩
  · rw [hafter]
    exact .inl ⟨hle, rfl, rfl⟩
  · rw [herror]
    exact .inr ⟨Nat.not_le_of_lt hlt, rfl⟩

theorem performAll_append_singleton (b : Buffer) (calls : List BufferCall) (call : BufferCall) :
    b.performAll (calls ++ [call]) = ((b.performAll calls).perform call).2 := by
  rw [performAll, List.foldl_append]
  rfl

/-- No call changes what is known about a buffer. -/
theorem spec_perform (b : Buffer) (call : BufferCall) : (b.perform call).2.spec = b.spec := by
  rcases b.perform_cases call with ⟨-, -, hwrite⟩ | ⟨-, herror⟩
  · exact (write_eq_ok hwrite).2.1
  · rw [herror]

theorem spec_performAll (b : Buffer) (calls : List BufferCall) :
    (b.performAll calls).spec = b.spec :=
  foldl_preserves (P := fun after : Buffer => after.spec = b.spec)
    (fun call _ after hafter => (after.spec_perform call).trans hafter) rfl

/-- **What every byte is behind a call**: the one that the call has put there, or what it was. -/
theorem getElem?_contents_perform (b : Buffer) (call : BufferCall) (place : Nat) :
    (b.perform call).2.contents[place]? =
      (call.byte? b.spec.size place).or b.contents[place]? := by
  rcases b.perform_cases call with ⟨hfits, -, hwrite⟩ | ⟨hfits, herror⟩
  · have hbyte : call.byte? b.spec.size place =
        if call.offset ≤ place then call.data[place - call.offset]? else none := by
      simp only [BufferCall.byte?, hfits, true_and]
    rw [getElem?_contents_of_write hwrite, hbyte]
    by_cases hoffset : call.offset ≤ place
    · rw [if_pos hoffset]
      by_cases hend : place < call.offset + call.data.length
      · rw [if_pos ⟨hoffset, hend⟩, List.getElem?_eq_getElem (by omega)]
        rfl
      · have hnone : call.data[place - call.offset]? = none := List.getElem?_eq_none (by omega)
        rw [if_neg fun h => hend h.2, hnone]
        rfl
    · rw [if_neg hoffset, if_neg fun h => hoffset h.1]
      rfl
  · rw [herror, BufferCall.byte?, if_neg fun h => hfits h.1]
    rfl

/-- A buffer holds nothing but zeros at first. -/
theorem getElem?_contents_of_create {spec : BufferSpec} (h : create spec = .ok b) {place : Nat}
    (hplace : place < spec.size) : b.contents[place]? = some 0 := by
  obtain ⟨rfl, hwritten⟩ := create_eq_ok h
  rw [getElem?_contents, if_pos hplace, hwritten]
  rfl

/-- What every byte is behind a sequence of calls. -/
theorem getElem?_contents_performAll {spec : BufferSpec} (h : create spec = .ok b) {place : Nat}
    (hplace : place < spec.size) (calls : List BufferCall) :
    (b.performAll calls).contents[place]? =
      some ((lastByte? spec.size calls place).getD 0) := by
  -- the last call counts, so the sequence is taken apart at its end
  induction calls using List.reverseRecOn with
  | nil => exact getElem?_contents_of_create h hplace
  | append_singleton calls call ih =>
    have hspec : (b.performAll calls).spec = spec :=
      (b.spec_performAll calls).trans (spec_of_create h)
    rw [performAll_append_singleton, getElem?_contents_perform, hspec, ih,
      lastByte?_append_singleton]
    cases call.byte? spec.size place <;> rfl

/-- A call to a buffer of `size` bytes, as it stands, fails exactly when it has to, and then changes
nothing. -/
structure IsGuarded (size : Nat) (before : Buffer) (call : BufferCall) : Prop where
  /-- it fails when it reaches past the end -/
  fails_iff : (∃ fault, (before.perform call).1 = .error fault) ↔
    size < call.offset + call.data.length
  /-- the arguments are to blame -/
  kind : ∀ fault, (before.perform call).1 = .error fault →
    (Error.buffer fault).kind = .invalidArgument
  /-- the contents are what they were -/
  contents : ∀ fault, (before.perform call).1 = .error fault →
    (before.perform call).2.contents = before.contents

/-- **Every call is guarded**, whatever was written before. -/
theorem isGuarded_perform (b : Buffer) (call : BufferCall) : b.IsGuarded b.spec.size call := by
  rcases b.perform_cases call with ⟨hfits, hok, -⟩ | ⟨hfits, herror⟩
  · have hnone : ∀ fault, (b.perform call).1 ≠ .error fault := by
      rw [hok]
      rintro fault ⟨⟩
    exact ⟨⟨fun ⟨fault, hfault⟩ => absurd hfault (hnone fault),
      fun hlt => absurd hfits (Nat.not_le_of_lt hlt)⟩,
      fun fault hfault => absurd hfault (hnone fault),
      fun fault hfault => absurd hfault (hnone fault)⟩
  · have hfault : ∀ fault, (b.perform call).1 = .error fault →
        fault = .outOfRange call.data.length call.offset b.spec.size := by
      rw [herror]
      rintro fault ⟨⟩
      rfl
    refine ⟨⟨fun _ => Nat.lt_of_not_le hfits, fun _ => ⟨_, congrArg Prod.fst herror⟩⟩,
      fun fault h => ?_, fun _ _ => congrArg (·.2.contents) herror⟩
    rw [hfault fault h]
    rfl

/-- **The contents after any calls**: a call fails exactly when it reaches past the end, whatever
was called before, and changes nothing then; behind all calls every byte is the one of the last
successful call over it, or else zero. -/
theorem contents_performAll {spec : BufferSpec} (h : create spec = .ok b)
    (calls : List BufferCall) :
    (∀ front call back, calls = front ++ call :: back →
      (b.performAll front).IsGuarded spec.size call) ∧
    (b.performAll calls).contents.length = spec.size ∧
    ∀ place < spec.size, (b.performAll calls).contents[place]? =
      some ((lastByte? spec.size calls place).getD 0) := by
  have hspec : ∀ calls, (b.performAll calls).spec = spec := fun calls =>
    (b.spec_performAll calls).trans (spec_of_create h)
  refine ⟨fun front call back _ => ?_, ?_, fun place hplace =>
    getElem?_contents_performAll h hplace calls⟩
  · have hguarded := (b.performAll front).isGuarded_perform call
    rwa [hspec] at hguarded
  · rw [length_contents, hspec]

/-- Two writes that overlap, one whose end is no machine word, an empty one at the end, and an empty
one behind the end. -/
def overlappingCalls : List BufferCall :=
  [.bytes 2 [1, 2, 3, 4], .words 4 [0x08070605], .bytes (UInt64.size - 1) [9, 9], .bytes 8 [],
    .bytes 9 []]

/-- The second call writes over the first, and the third one writes nothing. -/
theorem contents_performAll_overlapping :
    ∃ b, create { size := 8 } = .ok b ∧
      (∃ fault, ((b.performAll (overlappingCalls.take 2)).perform
        (.bytes (UInt64.size - 1) [9, 9])).1 = .error fault) ∧
      (b.performAll overlappingCalls).contents = [0, 0, 1, 2, 5, 6, 7, 8] := by
  have hcreate : create { size := 8 } = .ok ⟨{ size := 8 }, [], by decide, by decide⟩ := rfl
  obtain ⟨hguarded, hlength, hbytes⟩ := contents_performAll hcreate overlappingCalls
  refine ⟨_, hcreate, ?_, List.ext_getElem? fun place => ?_⟩
  · exact (hguarded (overlappingCalls.take 2) _ (overlappingCalls.drop 3) rfl).fails_iff.mpr
      (by decide)
  · have hlast : ∀ place < 8, some ((lastByte? 8 overlappingCalls place).getD 0) =
        [0, 0, 1, 2, 5, 6, 7, 8][place]? := by
      decide
    rcases Nat.lt_or_ge place 8 with hlt | hge
    · rw [hbytes place hlt]
      exact hlast place hlt
    · have hend := Nat.le_trans (Nat.le_of_eq hlength) hge
      rw [List.getElem?_eq_none hend, List.getElem?_eq_none hge]

end Buffer

end ShaderLoom
