import ShaderLoom.Proofs.Text.Occurrence
import ShaderLoom.Proofs.Text.Slice

/-!
# Runs of identifier bytes

In the bytes of a text the identifiers are **maximal runs** of identifier bytes. A run of bytes is
cut out of the bytes alone, but since a byte of a longer encoding is no identifier byte, it is always
cut out of the text as well: the bytes in front of it, its own and the ones behind it are those of
three parts of the text (**`isRunAt_bytes_iff`**).
-/

namespace ShaderLoom.Text

variable {s t u word : Text} {c : Char} {before after : List UInt8} {byte : UInt8} {start : Nat}

/-- The bytes `run` stand at `start` as a maximal run of identifier bytes. -/
def IsRunAt (all run : List UInt8) (start : Nat) : Prop :=
  ∃ before after, all = before ++ (run ++ after) ∧ before.length = start ∧
    run ≠ [] ∧ (∀ byte ∈ run, onByte isIdentifier byte = true) ∧
    before.getLast?.any (onByte isIdentifier) = false ∧
    after.head?.any (onByte isIdentifier) = false

/-! ## Identifier bytes -/

/-- An identifier byte is the whole encoding of a character. -/
theorem eq_of_mem_utf8EncodeChar (hmem : byte ∈ String.utf8EncodeChar c)
    (hbyte : onByte isIdentifier byte = true) : String.utf8EncodeChar c = [byte] := by
  rw [onByte_of_mem (fun _ => isAscii_of_isIdentifier) hmem] at hbyte
  rw [utf8EncodeChar_of_isAscii (isAscii_of_isIdentifier hbyte)] at hmem ⊢
  rw [List.mem_singleton.mp hmem]

/-- **An identifier byte begins a character**: a text can be cut in front of it. -/
theorem exists_append_of_bytes (h : bytes t = before ++ byte :: after)
    (hbyte : onByte isIdentifier byte = true) :
    ∃ s u, t = s ++ u ∧ bytes s = before ∧ bytes u = byte :: after := by
  induction t generalizing before with
  | nil => simp at h
  | cons c t ih =>
    rw [bytes_cons] at h
    obtain ⟨rest, rfl, hrest⟩ | ⟨rest, hc, hrest⟩ := List.append_eq_append_iff.mp h
    · obtain ⟨s, u, rfl, rfl, hu⟩ := ih hrest
      exact ⟨c :: s, u, rfl, bytes_cons, hu⟩
    · cases rest with
      | nil =>
        rw [List.append_nil] at hc
        exact ⟨[c], t, rfl, by rw [bytes_cons, bytes_nil, List.append_nil, hc], hrest.symm⟩
      | cons e rest =>
        obtain ⟨rfl, rfl⟩ := List.cons.inj hrest
        -- the byte is all there is of its character, so nothing of it stands in front
        have hmem : byte ∈ String.utf8EncodeChar c := by rw [hc]; simp
        have hone := hc.symm.trans (eq_of_mem_utf8EncodeChar hmem hbyte)
        obtain ⟨rfl, -⟩ : before = [] ∧ rest = [] := by
          cases before with
          | nil => exact ⟨rfl, (List.cons.inj hone).2⟩
          | cons b before => simp at hone
        exact ⟨[], c :: t, rfl, rfl, by rw [bytes_cons, hc]; rfl⟩

/-- The bytes of a name are read as the name. -/
theorem exists_word_of_bytes (hword : ∀ c ∈ word, isIdentifier c = true)
    (h : bytes t = bytes word ++ after) : ∃ u, t = word ++ u ∧ bytes u = after := by
  induction word generalizing t with
  | nil => exact ⟨t, rfl, h⟩
  | cons c word ih =>
    have hc := isAscii_of_isIdentifier (hword c (List.mem_cons_self ..))
    rw [bytes_cons_of_isAscii hc, List.cons_append] at h
    have hhead : t.head? = some c := (head?_bytes_eq_some_iff hc).mp (by rw [h]; rfl)
    obtain ⟨t, rfl⟩ := List.head?_eq_some_iff.mp hhead
    rw [bytes_cons_of_isAscii hc] at h
    obtain ⟨u, rfl, hu⟩ := ih (fun e he => hword e (List.mem_cons_of_mem c he)) (List.cons.inj h).2
    exact ⟨u, rfl, hu⟩

/-- The first byte tells whether a text begins with an identifier character. -/
theorem any_head?_bytes (t : Text) :
    (bytes t).head?.any (onByte isIdentifier) = beginsIdentifier t := by
  cases t with
  | nil => rfl
  | cons c t =>
    obtain ⟨byte, rest, he⟩ := List.exists_cons_of_ne_nil (String.utf8EncodeChar_ne_nil (c := c))
    have hbyte : byte ∈ String.utf8EncodeChar c := he ▸ List.mem_cons_self ..
    rw [bytes_cons, he, List.cons_append, List.head?_cons, Option.any_some,
      onByte_of_mem (fun _ => isAscii_of_isIdentifier) hbyte, beginsIdentifier_cons]

/-- The last byte tells whether a text ends with an identifier character. -/
theorem any_getLast?_bytes (t : Text) :
    (bytes t).getLast?.any (onByte isIdentifier) = endsIdentifier t := by
  obtain rfl | ⟨t, c, rfl⟩ := t.eq_nil_or_concat
  · rfl
  · obtain ⟨byte, hlast⟩ := Option.isSome_iff_exists.mp
      (List.getLast?_isSome.mpr (String.utf8EncodeChar_ne_nil (c := c)))
    have hlast' : (bytes (t.concat c)).getLast? = some byte := by
      rw [List.concat_eq_append, bytes_append, bytes_cons, bytes_nil, List.append_nil,
        List.getLast?_append, hlast, Option.some_or]
    rw [hlast', Option.any_some, endsIdentifier, List.concat_eq_append, List.getLast?_concat,
      Option.any_some,
      onByte_of_mem (fun _ => isAscii_of_isIdentifier) (List.mem_of_getLast? hlast)]

theorem onByte_of_mem_bytes (hword : ∀ c ∈ word, isIdentifier c = true) :
    ∀ byte ∈ bytes word, onByte isIdentifier byte = true := by
  intro byte hbyte
  obtain ⟨c, hc, hbyte⟩ := List.mem_flatMap.mp hbyte
  rw [onByte_of_mem (fun _ => isAscii_of_isIdentifier) hbyte]
  exact hword c hc

/-! ## Runs -/

/-- **A run of bytes is a part of the text**, between characters that are not those of an
identifier. -/
theorem isRunAt_bytes_iff (hw : IsName word) :
    IsRunAt (bytes t) (bytes word) start ↔
      ∃ s u, t = s ++ (word ++ u) ∧ byteSize s = start ∧ endsIdentifier s = false ∧
        beginsIdentifier u = false := by
  have hall := onByte_of_mem_bytes hw.all
  constructor
  · rintro ⟨before, after, hbytes, rfl, hne, -, hbefore, hafter⟩
    obtain ⟨byte, rest, hrun⟩ := List.exists_cons_of_ne_nil hne
    have hcut := hbytes
    rw [hrun, List.cons_append] at hcut
    obtain ⟨s, v, rfl, rfl, hv⟩ := exists_append_of_bytes hcut (hall byte (hrun ▸ List.mem_cons_self ..))
    rw [← List.cons_append, ← hrun] at hv
    obtain ⟨u, rfl, rfl⟩ := exists_word_of_bytes hw.all hv
    rw [any_getLast?_bytes] at hbefore
    rw [any_head?_bytes] at hafter
    exact ⟨s, u, rfl, (length_bytes s).symm, hbefore, hafter⟩
  · rintro ⟨s, u, rfl, rfl, hs, hu⟩
    have hne : bytes word ≠ [] := by
      intro hnil
      apply hw.ne_nil
      rw [← byteSize_eq_zero_iff, ← length_bytes, hnil, List.length_nil]
    refine ⟨bytes s, bytes u, by rw [bytes_append, bytes_append], length_bytes s, hne, hall, ?_, ?_⟩
    · rw [any_getLast?_bytes, hs]
    · rw [any_head?_bytes, hu]

end ShaderLoom.Text
