import ShaderLoom.Proofs.Text.WhiteSpace
import ShaderLoom.Text.Slice

/-!
# Cutting and searching

A text can be cut at a position exactly where the position is the size of a text in front
(`slice?_eq_some_iff`). So a slice exists exactly when its positions are in order and at ends of
characters: **`isSome_slice?_iff`**.

Bytes of ASCII characters and bytes of other characters do not meet. So a run of bytes of an ASCII
class is a run of its characters (`takeWhile_onByte`).

What a search finds is the first of its kind (`exists_of_find?_eq_some`, `elim_findWhere?`).
-/

namespace ShaderLoom.Text

variable {s t u w word : Text} {c : Char} {n start stop : Nat}

/-! ## Sizes -/

theorem byteSize_eq_zero_iff : byteSize t = 0 ↔ t = [] := by
  cases t with
  | nil => simp
  | cons c t =>
    have hpos := Char.utf8Size_pos c
    rw [byteSize_cons]
    exact iff_of_false (by omega) (by simp)

/-- A position settles where a text is cut. -/
theorem append_inj_of_byteSize (h : s ++ t = u ++ w) (hsize : byteSize s = byteSize u) :
    s = u ∧ t = w := by
  obtain ⟨v, rfl, rfl⟩ | ⟨v, rfl, rfl⟩ := List.append_eq_append_iff.mp h
  · rw [byteSize_append] at hsize
    have hv : v = [] := byteSize_eq_zero_iff.mp (by omega)
    simp [hv]
  · rw [byteSize_append] at hsize
    have hv : v = [] := byteSize_eq_zero_iff.mp (by omega)
    simp [hv]

/-! ## Bytes -/

@[simp] theorem bytes_nil : bytes [] = [] := rfl

theorem bytes_cons : bytes (c :: t) = String.utf8EncodeChar c ++ bytes t := List.flatMap_cons

@[simp] theorem bytes_append : bytes (s ++ t) = bytes s ++ bytes t := List.flatMap_append

@[simp] theorem length_bytes (t : Text) : (bytes t).length = byteSize t := by
  induction t with
  | nil => rfl
  | cons c t ih => rw [bytes_cons, List.length_append, String.length_utf8EncodeChar, ih, byteSize_cons]

/-- The bytes behind a text are those of what follows. -/
theorem getElem?_bytes_append (s t : Text) (n : Nat) :
    (bytes (s ++ t))[byteSize s + n]? = (bytes t)[n]? := by
  rw [bytes_append, List.getElem?_append_right (by simp), length_bytes, Nat.add_sub_cancel_left]

/-- The character is its own byte. -/
def IsAscii (c : Char) : Prop := c.toNat < 128

instance (c : Char) : Decidable (IsAscii c) := inferInstanceAs (Decidable (_ < _))

theorem utf8EncodeChar_of_isAscii (h : IsAscii c) : String.utf8EncodeChar c = [c.toUInt8] := by
  have hle : c.val.toNat ≤ 127 := Nat.le_of_lt_succ h
  rw [String.utf8EncodeChar]
  simp only [hle, if_true]
  rfl

theorem bytes_cons_of_isAscii (h : IsAscii c) : bytes (c :: t) = c.toUInt8 :: bytes t := by
  rw [bytes_cons, utf8EncodeChar_of_isAscii h, List.singleton_append]

theorem utf8Size_of_isAscii (h : IsAscii c) : c.utf8Size = 1 := by
  rw [← String.length_utf8EncodeChar, utf8EncodeChar_of_isAscii h, List.length_singleton]

theorem byteSize_concat (h : IsAscii c) (t : Text) : byteSize (t ++ [c]) = byteSize t + 1 := by
  rw [byteSize_append, byteSize_cons, utf8Size_of_isAscii h, byteSize_nil]

/-- A byte of a longer encoding is the byte of no ASCII character. -/
theorem le_of_mem_utf8EncodeChar (h : ¬IsAscii c) {byte : UInt8}
    (hbyte : byte ∈ String.utf8EncodeChar c) : 128 ≤ byte.toNat := by
  have hofNat : ∀ n, 128 ≤ n ∧ n < 256 → 128 ≤ (UInt8.ofNat n).toNat := by
    intro n hn
    rw [UInt8.toNat_ofNat_of_lt' hn.2]
    exact hn.1
  have hlong : ¬c.val.toNat ≤ 127 := fun hle => h (Nat.lt_succ_of_le hle)
  rw [String.utf8EncodeChar] at hbyte
  simp only [hlong, if_false] at hbyte
  split at hbyte
  · simp only [List.mem_cons, List.not_mem_nil, or_false] at hbyte
    rcases hbyte with rfl | rfl <;> exact hofNat _ (by omega)
  · split at hbyte
    · simp only [List.mem_cons, List.not_mem_nil, or_false] at hbyte
      rcases hbyte with rfl | rfl | rfl <;> exact hofNat _ (by omega)
    · simp only [List.mem_cons, List.not_mem_nil, or_false] at hbyte
      rcases hbyte with rfl | rfl | rfl | rfl <;> exact hofNat _ (by omega)

theorem toNat_toUInt8 (h : IsAscii c) : c.toUInt8.toNat = c.toNat := by
  have hlt : c.val.toNat < 128 := h
  rw [Char.toUInt8, UInt32.toNat_toUInt8]
  exact Nat.mod_eq_of_lt (by omega)

theorem ofUInt8_toUInt8 (h : IsAscii c) : Char.ofUInt8 c.toUInt8 = c := by
  apply Char.toNat_inj.mp
  exact toNat_toUInt8 h

theorem toUInt8_inj {e : Char} (hc : IsAscii c) (he : IsAscii e) :
    c.toUInt8 = e.toUInt8 ↔ c = e := by
  refine ⟨fun h => ?_, congrArg _⟩
  rw [← ofUInt8_toUInt8 hc, h, ofUInt8_toUInt8 he]

theorem ne_toUInt8_of_le {byte : UInt8} (h : 128 ≤ byte.toNat) (hc : IsAscii c) :
    byte ≠ c.toUInt8 := by
  rintro rfl
  rw [toNat_toUInt8 hc] at h
  exact absurd hc (Nat.not_lt.mpr h)

/-- The byte that a text begins with is that of an ASCII character exactly when the text begins with
the character. -/
theorem head?_bytes_eq_some_iff (hc : IsAscii c) :
    (bytes t)[0]? = some c.toUInt8 ↔ t.head? = some c := by
  cases t with
  | nil => simp
  | cons e t =>
    rw [List.head?_cons, Option.some_inj]
    by_cases he : IsAscii e
    · rw [bytes_cons_of_isAscii he, List.getElem?_cons_zero, Option.some_inj, toUInt8_inj he hc]
    · refine iff_of_false (fun h => ?_) fun h => he (h ▸ hc)
      obtain ⟨byte, rest, hbytes⟩ := List.exists_cons_of_ne_nil (String.utf8EncodeChar_ne_nil (c := e))
      have hle := le_of_mem_utf8EncodeChar he (hbytes ▸ List.mem_cons_self ..)
      rw [bytes_cons, hbytes, List.cons_append, List.getElem?_cons_zero, Option.some_inj] at h
      exact ne_toUInt8_of_le hle hc h

/-! ## Runs of bytes -/

/-- A byte is of an ASCII class exactly when its character is. -/
theorem onByte_of_mem {p : Char → Bool} (hp : ∀ c, p c = true → IsAscii c) {byte : UInt8}
    (hbyte : byte ∈ String.utf8EncodeChar c) : onByte p byte = p c := by
  by_cases hc : IsAscii c
  · rw [utf8EncodeChar_of_isAscii hc, List.mem_singleton] at hbyte
    rw [hbyte, onByte, ofUInt8_toUInt8 hc]
  · have hle := le_of_mem_utf8EncodeChar hc hbyte
    have hbyte : onByte p byte = false :=
      Bool.eq_false_iff.mpr fun h => Nat.not_lt.mpr hle (hp _ h)
    rw [hbyte, Bool.eq_false_iff.mpr fun h => hc (hp c h)]

/-- **A run of bytes of an ASCII class** is a run of its characters. -/
theorem takeWhile_onByte {p : Char → Bool} (hp : ∀ c, p c = true → IsAscii c) (t : Text) :
    (bytes t).takeWhile (onByte p) = bytes (t.takeWhile p) := by
  induction t with
  | nil => rfl
  | cons c t ih =>
    have hbytes : ∀ byte ∈ String.utf8EncodeChar c, onByte p byte = p c :=
      fun _ hbyte => onByte_of_mem hp hbyte
    cases hc : p c with
    | true =>
      rw [List.takeWhile_cons_of_pos hc, bytes_cons, bytes_cons,
        List.takeWhile_append_of_pos fun byte hbyte => (hbytes byte hbyte).trans hc, ih]
    | false =>
      obtain ⟨byte, rest, he⟩ := List.exists_cons_of_ne_nil (String.utf8EncodeChar_ne_nil (c := c))
      have hbyte : ¬onByte p byte = true := by
        rw [hbytes byte (he ▸ List.mem_cons_self ..), hc]
        decide
      rw [List.takeWhile_cons_of_neg (by simp [hc]), bytes_cons, he, List.cons_append,
        List.takeWhile_cons_of_neg hbyte, bytes_nil]

theorem isAscii_of_isIdentifier (h : isIdentifier c = true) : IsAscii c := by
  have hcode := toNat_of_isIdentifier h
  rw [IsAscii]
  omega

theorem isAscii_of_isBlank (h : isBlank c = true) : IsAscii c := by
  simp only [isBlank, Bool.or_eq_true, beq_iff_eq] at h
  rcases h with ((rfl | rfl) | rfl) | rfl <;> decide

/-! ## Cutting -/

theorem cutAt?_eq_some_iff : cutAt? n t = some (s, u) ↔ t = s ++ u ∧ byteSize s = n := by
  fun_induction cutAt? n t generalizing s with
  | case1 t =>
    rw [byteSize_eq_zero_iff]
    constructor
    · rintro ⟨⟩
      exact ⟨rfl, rfl⟩
    · rintro ⟨rfl, rfl⟩
      rfl
  | case2 n =>
    refine iff_of_false (by simp) ?_
    rintro ⟨h, hsize⟩
    rw [(List.append_eq_nil_iff.mp h.symm).1] at hsize
    cases hsize
  | case3 n c t hle ih =>
    rw [Option.map_eq_some_iff]
    constructor
    · rintro ⟨⟨v, w⟩, hcut, he⟩
      cases he
      obtain ⟨rfl, hsize⟩ := ih.mp hcut
      refine ⟨rfl, ?_⟩
      dsimp only at hsize ⊢
      rw [byteSize_cons, hsize]
      omega
    · rintro ⟨h, hsize⟩
      cases s with
      | nil => cases hsize
      | cons e s =>
        obtain ⟨rfl, rfl⟩ := List.cons.inj h
        rw [byteSize_cons] at hsize
        exact ⟨(s, u), ih.mpr ⟨rfl, by omega⟩, rfl⟩
  | case4 n c t hlt =>
    refine iff_of_false (by simp) ?_
    rintro ⟨h, hsize⟩
    cases s with
    | nil => cases hsize
    | cons e s =>
      obtain ⟨rfl, rfl⟩ := List.cons.inj h
      rw [byteSize_cons] at hsize
      omega

/-- **A slice** stands behind a text of the size of its start. -/
theorem slice?_eq_some_iff :
    slice? start stop t = some w ↔
      ∃ s u, t = s ++ (w ++ u) ∧ byteSize s = start ∧ start + byteSize w = stop := by
  rw [slice?]
  constructor
  · intro h
    split at h
    · next hle =>
      obtain ⟨⟨s, tail⟩, hstart, h⟩ := Option.bind_eq_some_iff.mp h
      obtain ⟨⟨v, u⟩, hstop, he⟩ := Option.map_eq_some_iff.mp h
      cases he
      obtain ⟨rfl, hs⟩ := cutAt?_eq_some_iff.mp hstart
      obtain ⟨rfl, hv⟩ := cutAt?_eq_some_iff.mp hstop
      dsimp only at hv ⊢
      exact ⟨s, u, rfl, hs, by omega⟩
    · cases h
  · rintro ⟨s, u, rfl, rfl, rfl⟩
    rw [if_pos (Nat.le_add_right ..), cutAt?_eq_some_iff.mpr ⟨rfl, rfl⟩, Option.bind_some,
      cutAt?_eq_some_iff.mpr ⟨rfl, (Nat.add_sub_cancel_left ..).symm⟩]
    rfl

/-- A character ends at the position, or the text begins there. -/
def IsBoundary (t : Text) (n : Nat) : Prop := ∃ s, s <+: t ∧ byteSize s = n

/-- **What a slice takes for granted**: its positions are in order, not behind the end, and not
inside a character. -/
theorem isSome_slice?_iff :
    (slice? start stop t).isSome ↔
      start ≤ stop ∧ stop ≤ byteSize t ∧ IsBoundary t start ∧ IsBoundary t stop := by
  constructor
  · intro h
    obtain ⟨w, hw⟩ := Option.isSome_iff_exists.mp h
    obtain ⟨s, u, rfl, rfl, rfl⟩ := slice?_eq_some_iff.mp hw
    refine ⟨Nat.le_add_right .., ?_, ⟨s, List.prefix_append .., rfl⟩, s ++ w, ?_, ?_⟩
    · rw [byteSize_append, byteSize_append]
      omega
    · rw [← List.append_assoc]
      exact List.prefix_append ..
    · exact byteSize_append s w
  · rintro ⟨hle, -, ⟨s, ⟨tail, rfl⟩, rfl⟩, v, ⟨u, hv⟩, rfl⟩
    -- the shorter text in front is in front of the longer one
    obtain ⟨w, rfl, rfl⟩ | ⟨w, rfl, rfl⟩ := List.append_eq_append_iff.mp hv
    · rw [byteSize_append] at hle
      have hw : w = [] := byteSize_eq_zero_iff.mp (by omega)
      subst hw
      have hslice : slice? (byteSize (v ++ [])) (byteSize v) (v ++ [] ++ tail) = some [] :=
        slice?_eq_some_iff.mpr ⟨v, tail, by simp, by simp, by simp⟩
      rw [hslice]
      rfl
    · have hslice : slice? (byteSize s) (byteSize (s ++ w)) (s ++ (w ++ u)) = some w :=
        slice?_eq_some_iff.mpr ⟨s, u, rfl, rfl, (byteSize_append s w).symm⟩
      rw [hslice]
      rfl

/-! ## Searching -/

theorem find?_eq_none_iff : find? word t = none ↔ ¬word <:+: t := by
  induction t with
  | nil => simp [find?, List.infix_nil]
  | cons c t ih =>
    rw [find?, List.infix_cons_iff, not_or]
    split
    · next h =>
      exact iff_of_false (by simp) fun hno => hno.1 (List.isPrefixOf_iff_prefix.mp h)
    · next h =>
      rw [Option.map_eq_none_iff, ih]
      exact (and_iff_right fun hp => h (List.isPrefixOf_iff_prefix.mpr hp)).symm

/-- **What is found is the first of its kind.** -/
theorem exists_of_find?_eq_some (h : find? word t = some n) :
    ∃ s u, t = s ++ (word ++ u) ∧ byteSize s = n ∧
      ∀ a b, s = a ++ b → b ≠ [] → ¬word <+: b ++ (word ++ u) := by
  induction t generalizing n with
  | nil =>
    rw [find?] at h
    split at h
    · next hword =>
      cases h
      subst hword
      refine ⟨[], [], rfl, rfl, fun a b hab hb => absurd (List.append_eq_nil_iff.mp hab.symm).2 hb⟩
    · cases h
  | cons c t ih =>
    rw [find?] at h
    split at h
    · next hp =>
      cases h
      obtain ⟨u, hu⟩ := List.isPrefixOf_iff_prefix.mp hp
      exact ⟨[], u, hu.symm, rfl, fun a b hab hb => absurd (List.append_eq_nil_iff.mp hab.symm).2 hb⟩
    · next hp =>
      obtain ⟨m, hm, rfl⟩ := Option.map_eq_some_iff.mp h
      obtain ⟨s, u, rfl, rfl, hfirst⟩ := ih hm
      refine ⟨c :: s, u, rfl, rfl, fun a b hab hb hpre => ?_⟩
      cases a with
      | nil =>
        rw [List.nil_append] at hab
        subst hab
        exact hp (List.isPrefixOf_iff_prefix.mpr hpre)
      | cons e a => exact hfirst a b (List.cons.inj hab).2 hb hpre

/-- The first character of a class, or the end of the text. -/
theorem elim_findWhere? {p : Char → Bool} (hs : ∀ c ∈ s, p c = false)
    (ht : ∀ c ∈ t.head?, p c = true) (n : Nat) :
    (findWhere? p (s ++ t)).elim (n + byteSize (s ++ t)) (n + ·) = n + byteSize s := by
  have hfind : findWhere? p (s ++ t) = if t = [] then none else some (byteSize s) := by
    induction s with
    | nil =>
      cases t with
      | nil => rfl
      | cons c t => simp [findWhere?, ht c rfl]
    | cons c s ih =>
      have hc : ¬p c = true := by simp [hs c (List.mem_cons_self ..)]
      rw [List.cons_append, findWhere?, if_neg hc, ih fun e he => hs e (List.mem_cons_of_mem c he)]
      split <;> rfl
  rw [hfind]
  split
  · next hnil => rw [hnil, List.append_nil, Option.elim_none]
  · rw [Option.elim_some]

end ShaderLoom.Text
