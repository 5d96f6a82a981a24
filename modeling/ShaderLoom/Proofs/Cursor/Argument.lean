import ShaderLoom.Cursor.Argument
import ShaderLoom.Error
import ShaderLoom.Proofs.Cursor.Step
import ShaderLoom.Proofs.Intrinsic.Stop

/-!
# The cursor finds the first stop

The cursor moves glyph by glyph: byte by byte through a character of code, whose bytes are mistaken
for no others, and in one jump over a comment. So it comes to where `readArgument` comes to
(**`argumentEnd_append`**), which is the first stop, and it makes no misstep.

**`argumentEnd_firstStop`** says this of glyphs alone.
-/

namespace ShaderLoom.Cursor

open Text

variable {s t u w : Text} {c : Char} {n position : Nat} {byte : UInt8}

/-! ## One character -/

theorem lt_of_byteAt (h : byteAt t position = .ok byte) : position < byteSize t := by
  rw [byteAt] at h
  split at h
  · next hbyte =>
    obtain ⟨hlt, -⟩ := List.getElem?_eq_some_iff.mp hbyte
    rwa [length_bytes] at hlt
  · cases h

/-- A byte that does not belong to an ASCII character is passed. -/
theorem argumentEnd_of_byteAt (h : byteAt t position = .ok byte) (hbyte : 128 ≤ byte.toNat)
    (n : Nat) : argumentEnd t n position = argumentEnd t n (position + 1) := by
  have hne : ∀ c, IsAscii c → byte ≠ c.toUInt8 := fun c hc => ne_toUInt8_of_le hbyte hc
  rw [argumentEnd, dif_pos (lt_of_byteAt h), h]
  simp only [bind, Except.bind, hne ',' (by decide), hne ')' (by decide), hne '(' (by decide),
    hne '/' (by decide), or_self, and_false, false_and, if_false]

/-- A character outside ASCII is passed byte by byte. -/
theorem argumentEnd_of_not_isAscii (hc : ¬IsAscii c) (s u : Text) (n : Nat) :
    argumentEnd (s ++ c :: u) n (byteSize s) =
      argumentEnd (s ++ c :: u) n (byteSize s + c.utf8Size) := by
  have hpass : ∀ k ≤ c.utf8Size, argumentEnd (s ++ c :: u) n (byteSize s) =
      argumentEnd (s ++ c :: u) n (byteSize s + k) := by
    intro k hk
    induction k with
    | zero => rfl
    | succ k ih =>
      obtain ⟨byte, hbyte, h⟩ := exists_byteAt hk s u
      rw [ih (Nat.le_of_succ_le hk), argumentEnd_of_byteAt h (le_of_mem_utf8EncodeChar hc hbyte)]
      rfl
  exact hpass _ le_rfl

/-- The byte behind an ASCII character tells which character comes next. -/
theorem getElem?_bytes_behind (hc : IsAscii c) {e : Char} (he : IsAscii e) (s u : Text) :
    (bytes (s ++ c :: u))[byteSize s + 1]? = some e.toUInt8 ↔ u.head? = some e := by
  rw [getElem?_bytes_append, bytes_cons_of_isAscii hc, List.getElem?_cons_succ,
    head?_bytes_eq_some_iff he]

/-- **A character of code** is a stop, or it is passed and changes the depth. -/
theorem argumentEnd_code (hc : ∀ e ∈ u.head?, ¬Opens c e) (s : Text) (n : Nat) :
    argumentEnd (s ++ c :: u) n (byteSize s) =
      match depthStep n c with
      | none => .ok (byteSize s)
      | some m => argumentEnd (s ++ c :: u) m (byteSize s + c.utf8Size) := by
  by_cases hascii : IsAscii c
  · have hlt := lt_of_byteAt (byteAt_append hascii s u)
    have hslash : ¬(c = '/' ∧ (bytes (s ++ c :: u))[byteSize s + 1]? = some '/'.toUInt8) := by
      rintro ⟨rfl, h⟩
      exact hc '/' ((getElem?_bytes_behind hascii (by decide) s u).mp h) ⟨rfl, .inl rfl⟩
    have hstar : ¬(c = '/' ∧ (bytes (s ++ c :: u))[byteSize s + 1]? = some '*'.toUInt8) := by
      rintro ⟨rfl, h⟩
      exact hc '*' ((getElem?_bytes_behind hascii (by decide) s u).mp h) ⟨rfl, .inr rfl⟩
    rw [argumentEnd, dif_pos hlt, byteAt_append hascii, utf8Size_of_isAscii hascii]
    simp only [bind, Except.bind, toUInt8_inj hascii (show IsAscii ',' by decide),
      toUInt8_inj hascii (show IsAscii ')' by decide),
      toUInt8_inj hascii (show IsAscii '(' by decide),
      toUInt8_inj hascii (show IsAscii '/' by decide), if_neg hslash, if_neg hstar]
    by_cases hstop : n = 0 ∧ (c = ',' ∨ c = ')')
    · rw [if_pos hstop, depthStep_eq_none_iff.mpr hstop]
      rfl
    · rw [if_neg hstop, depthStep, if_neg hstop]
      by_cases hopen : c = '('
      · rw [if_pos hopen, if_pos hopen]
      · rw [if_neg hopen, if_neg hopen]
        by_cases hclose : c = ')'
        · obtain ⟨k, rfl⟩ : ∃ k, n = 1 + k :=
            Nat.exists_eq_add_of_le (Nat.pos_of_ne_zero fun hn => hstop ⟨hn, .inr hclose⟩)
          rw [if_pos hclose, if_pos hclose, difference_add, Nat.add_sub_cancel_left]
        · rw [if_neg hclose, if_neg hclose]
  · have hne : ∀ e, IsAscii e → c ≠ e := by
      rintro e he rfl
      exact hascii he
    have hflat : IsFlat c := ⟨hne _ (by decide), hne _ (by decide), hne _ (by decide)⟩
    rw [depthStep_of_isFlat hflat]
    exact argumentEnd_of_not_isAscii hascii s u n

/-! ## One comment -/

/-- The end of a block comment is found where `cutBlock?` cuts. -/
theorem find?_of_cutBlock? {body : Text} (h : cutBlock? t = some (body, u)) :
    ∃ found, find? ['*', '/'] t = some found ∧ found + 2 = byteSize body := by
  fun_induction cutBlock? t generalizing body with
  | case1 => cases h
  | case2 t =>
    cases h
    exact ⟨0, rfl, rfl⟩
  | case3 c t hends ih =>
    obtain ⟨⟨body, behind⟩, hcut, he⟩ := Option.map_eq_some_iff.mp h
    cases he
    obtain ⟨found, hfound, hsize⟩ := ih hcut
    have hno : ¬['*', '/'].isPrefixOf (c :: t) = true := by
      rw [List.isPrefixOf_iff_prefix, List.cons_prefix_cons]
      rintro ⟨rfl, u, rfl⟩
      exact hends u rfl rfl
    refine ⟨c.utf8Size + found, ?_, ?_⟩
    · rw [find?, if_neg hno, hfound, Option.map_some]
    · rw [byteSize_cons, Nat.add_assoc, hsize]

theorem find?_of_cutBlock?_eq_none (h : cutBlock? t = none) : find? ['*', '/'] t = none := by
  rw [find?_eq_none_iff]
  rintro ⟨v, w, rfl⟩
  have hpair := (cutBlock?_eq_none_iff.mp h).left_of_append.right_of_append
  exact (List.isChain_cons_cons.mp hpair).1 ⟨rfl, rfl⟩

/-- A slash begins a comment if a slash or a star comes next. -/
theorem argumentEnd_slash (h : byteAt t position = .ok '/'.toUInt8) (n : Nat) {e : Char}
    (he : (bytes t)[position + 1]? = some e.toUInt8) :
    argumentEnd t n position =
      if e.toUInt8 = '/'.toUInt8 then do
        let tail ← behind t position
        let next := (findWhere? isLineEnd tail).elim (byteSize t) (position + ·)
        if MovesOn t position next then argumentEnd t n next else .error (.misstep .standstill)
      else if e.toUInt8 = '*'.toUInt8 then do
        let tail ← behind t (position + 2)
        match find? ['*', '/'] tail with
        | none => .error (.fault .openComment)
        | some found =>
          if MovesOn t position (position + 2 + found + 2) then
            argumentEnd t n (position + 2 + found + 2)
          else .error (.misstep .standstill)
      else argumentEnd t n (position + 1) := by
  have hdelimiter : ¬(n = 0 ∧ ('/'.toUInt8 = ','.toUInt8 ∨ '/'.toUInt8 = ')'.toUInt8)) := by
    rintro ⟨-, h | h⟩ <;> exact absurd h (by decide)
  conv_lhs => rw [argumentEnd, dif_pos (lt_of_byteAt h), h, he]
  simp only [bind, Except.bind]
  rw [if_neg hdelimiter, if_neg (by decide), if_neg (by decide)]
  simp only [true_and, Option.some.injEq]
  rfl

/-- Where a comment may begin, its first two characters are seen. -/
theorem seen_opening {e : Char} (he : IsAscii e) (s t : Text) :
    byteAt (s ++ '/' :: e :: t) (byteSize s) = .ok '/'.toUInt8 ∧
      (bytes (s ++ '/' :: e :: t))[byteSize s + 1]? = some e.toUInt8 :=
  ⟨byteAt_append (by decide) s (e :: t), (getElem?_bytes_behind (by decide) he s _).mpr rfl⟩

theorem behind_opening (s t : Text) : behind (s ++ '/' :: '*' :: t) (byteSize s + 2) = .ok t := by
  have h := behind_append (s ++ ['/', '*']) t
  rwa [byteSize_append, List.append_assoc] at h

/-- **A comment** is jumped over. -/
theorem argumentEnd_comment (hw : FirstComment w t) (s : Text) (n : Nat) :
    argumentEnd (s ++ (w ++ t)) n (byteSize s) =
      argumentEnd (s ++ (w ++ t)) n (byteSize s + byteSize w) := by
  have hmoves := movesOn_append s t hw.ne_nil
  cases hw with
  | @line body t hbody ht =>
    have hinside : ∀ c ∈ '/' :: '/' :: body, isLineEnd c = false :=
      List.forall_mem_cons.mpr ⟨rfl, List.forall_mem_cons.mpr ⟨rfl, hbody⟩⟩
    have hnext := elim_findWhere? hinside ht (byteSize s)
    rw [← byteSize_append] at hnext
    rw [List.cons_append, List.cons_append] at hmoves hnext ⊢
    obtain ⟨hbyte, hslash⟩ := seen_opening (e := '/') (by decide) s (body ++ t)
    conv_lhs => rw [argumentEnd_slash hbyte n hslash, if_pos rfl, behind_append]
    simp only [bind, Except.bind, hnext, if_pos hmoves]
  | @block body t hbody =>
    obtain ⟨found, hfound, hsize⟩ := find?_of_cutBlock? (cutBlock?_body hbody t)
    have hopening : byteSize ('/' :: '*' :: body) = 2 + byteSize body :=
      byteSize_append ['/', '*'] body
    have hnext : byteSize s + 2 + found + 2 = byteSize s + byteSize ('/' :: '*' :: body) := by
      rw [hopening, ← hsize]
      omega
    rw [List.cons_append, List.cons_append] at hmoves ⊢
    obtain ⟨hbyte, hstar⟩ := seen_opening (e := '*') (by decide) s (body ++ t)
    conv_lhs => rw [argumentEnd_slash hbyte n hstar, if_neg (by decide), if_pos rfl, behind_opening]
    simp only [bind, Except.bind, hfound, hnext, if_pos hmoves]

/-- A block comment that does not end is a fault. -/
theorem argumentEnd_unclosed (ht : cutBlock? t = none) (s : Text) (n : Nat) :
    argumentEnd (s ++ '/' :: '*' :: t) n (byteSize s) = .error (.fault .openComment) := by
  obtain ⟨hbyte, hstar⟩ := seen_opening (e := '*') (by decide) s t
  rw [argumentEnd_slash hbyte n hstar, if_neg (by decide), if_pos rfl, behind_opening]
  simp only [bind, Except.bind, find?_of_cutBlock?_eq_none ht]

/-! ## The whole argument -/

theorem ofReading_prepend (r : Except CallFault Argument) (s w : Text) :
    Checked.ofReading (r.map fun a => byteSize (s ++ w) + byteSize a.text) =
      .ofReading ((r.map (Argument.prepend w)).map fun a => byteSize s + byteSize a.text) := by
  cases r with
  | error fault => rfl
  | ok a =>
    simp only [Except.map, Argument.prepend, byteSize_append, Nat.add_assoc]

/-- **The cursor comes to where the argument ends.** It makes no misstep, and reports the faults that
reading reports. -/
theorem argumentEnd_append (s u : Text) (n : Nat) :
    argumentEnd (s ++ u) n (byteSize s) =
      .ofReading ((readArgument (.code n) u).map fun a => byteSize s + byteSize a.text) := by
  induction u using glyphInduction generalizing s n with
  | nil =>
    rw [argumentEnd, dif_neg (by simp), readArgument]
    rfl
  | code c t hc ih =>
    rw [argumentEnd_code hc]
    cases hstep : depthStep n c with
    | none =>
      obtain ⟨rfl, hstop⟩ := depthStep_eq_none_iff.mp hstep
      obtain ⟨stop, rfl⟩ := Delimiter.exists_char hstop
      rw [readArgument_delimiter]
      rfl
    | some m =>
      have hrest := ih (s ++ [c]) m
      rw [ofReading_prepend, byteSize_append, List.append_assoc] at hrest
      rw [readArgument_cons_of_step hc hstep]
      exact hrest
  | unclosed t ht _ =>
    rw [argumentEnd_unclosed ht, readArgument, readArgument_blockComment, ht]
    rfl
  | comment w t hw ih =>
    have hrest := ih (s ++ w) n
    rw [ofReading_prepend, byteSize_append, List.append_assoc] at hrest
    rw [argumentEnd_comment hw, readArgument_comment hw]
    exact hrest

theorem argumentEnd_eq_ok_iff :
    argumentEnd (s ++ u) n (byteSize s) = .ok position ↔
      ∃ a, readArgument (.code n) u = .ok a ∧ position = byteSize s + byteSize a.text := by
  rw [argumentEnd_append]
  cases readArgument (.code n) u with
  | error fault => simp [Checked.ofReading, Except.map, Except.mapError]
  | ok a => simp [Checked.ofReading, Except.map, Except.mapError, eq_comm]

/-- **What stands behind the delimiter makes no difference.** -/
theorem argumentEnd_of_front {front behind : Text} (ht : s ++ u = front ++ c :: behind)
    (h : argumentEnd (s ++ u) n (byteSize s) = .ok (byteSize front)) (behind' : Text) :
    argumentEnd (front ++ c :: behind') n (byteSize s) = .ok (byteSize front) := by
  obtain ⟨a, ha, hposition⟩ := argumentEnd_eq_ok_iff.mp h
  have hu := eq_of_readArgument ha
  have hsize : byteSize front = byteSize (s ++ a.text) := by rw [hposition, byteSize_append]
  rw [hu, ← List.append_assoc] at ht
  obtain ⟨rfl, hstop⟩ := append_inj_of_byteSize ht.symm hsize
  obtain ⟨rfl, -⟩ := List.cons.inj hstop
  rw [List.append_assoc]
  exact argumentEnd_eq_ok_iff.mpr ⟨_, readArgument_stop_append ha behind', byteSize_append ..⟩

/-- A comment may begin with an opening that overlaps its end, and hide delimiters. -/
example : argumentEnd "/*/,*/ é(,)),x".toList 0 0 = .ok 12 := by cbv

end ShaderLoom.Cursor
