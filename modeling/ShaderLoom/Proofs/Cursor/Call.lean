import ShaderLoom.Cursor.Call
import ShaderLoom.Proofs.Cursor.Argument

/-!
# The cursor finds the parts of a call

What `Intrinsic.readCall` takes out of a text stands where `callSpans` says it stands, and no
identifier reaches out of it. **`callSpans_agree`**: the two report the same faults, and otherwise
belong together. So reading the parts of a call makes no misstep.
-/

namespace ShaderLoom.Cursor

open Text

variable {s t u w part : Text} {c : Char} {f : Intrinsic} {first : Argument} {call : Call}
  {start stop : Nat} {span : Span} {spans : CallSpans}

/-! ## Spans and their texts -/

/-- The text stands at the span, and no identifier reaches out of it. -/
def Span.Tells (t : Text) (span : Span) (part : Text) : Prop :=
  ∃ before after, t = before ++ (part ++ after) ∧
    span = ⟨byteSize before, byteSize before + byteSize part⟩ ∧
      endsIdentifier before = false ∧ beginsIdentifier after = false

theorem Span.Tells.slice_eq (h : span.Tells t part) : slice t span.start span.stop = .ok part := by
  obtain ⟨before, after, rfl, rfl, -, -⟩ := h
  exact slice_append before part after

/-- The second argument of a video call, or nothing. -/
def TellsCoordinates (t : Text) (f : Intrinsic) (coordinates : Text) : Option Span → Prop
  | some span => f.isVideo = true ∧ span.Tells t coordinates
  | none => f.isVideo = false ∧ coordinates = []

/-- The spans tell where the parts of a call stand. -/
structure CallSpans.Tell (t : Text) (f : Intrinsic) (call : Call) (spans : CallSpans) : Prop where
  /-- the first argument -/
  texture : spans.texture.Tells t call.texture
  /-- the second argument -/
  coordinates : TellsCoordinates t f call.coordinates spans.coordinates?
  /-- the text behind the call -/
  rest : ∃ before, t = before ++ call.rest ∧ spans.stop = byteSize before ∧ Apart before call.rest

/-! ## Steps between the parts -/

theorem exists_skipBlanks (s u : Text) :
    ∃ blanks, u = blanks ++ u.dropWhile isBlank ∧ (∀ c ∈ blanks, isBlank c = true) ∧
      skipBlanks (s ++ u) (byteSize s) = .ok (byteSize (s ++ blanks)) := by
  refine ⟨u.takeWhile isBlank, (List.takeWhile_append_dropWhile ..).symm,
    fun c hc => List.all_eq_true.mp List.all_takeWhile c hc, ?_⟩
  rw [skipBlanks, behind_append, byteSize_append]
  simp only [bind, Except.bind, takeWhile_onByte fun _ => isAscii_of_isBlank, length_bytes]
  rfl

/-- The position behind a character and blanks. -/
theorem exists_skipBlanks_behind (hc : IsAscii c) (hspacing : isIdentifier c = false) (s u : Text) :
    ∃ front, s ++ c :: u = front ++ u.dropWhile isBlank ∧ endsIdentifier front = false ∧
      skipBlanks (s ++ c :: u) (byteSize s + 1) = .ok (byteSize front) := by
  obtain ⟨blanks, hu, hblanks, hskip⟩ := exists_skipBlanks (s ++ [c]) u
  rw [byteSize_concat hc, List.append_assoc] at hskip
  refine ⟨s ++ [c] ++ blanks, ?_, ?_, hskip⟩
  · conv_lhs => rw [hu]
    rw [List.append_assoc, List.append_assoc, List.singleton_append]
  · have hall : ∀ e ∈ [c] ++ blanks, isIdentifier e = false :=
      List.forall_mem_append.mpr ⟨by simpa using hspacing, isSpacing_of_blank hblanks⟩
    rw [List.append_assoc, endsIdentifier_append_of_ne_nil (by simp)]
    exact endsIdentifier_of_all hall

theorem trimmed_append (s w u : Text) :
    trimmed (s ++ (w ++ u)) (byteSize s) (byteSize (s ++ w)) =
      .ok ⟨byteSize s, byteSize s + byteSize (trimEnd w)⟩ := by
  rw [trimmed, byteSize_append, slice_append]
  rfl

/-- What trimming leaves is told, if white space or something else outside identifiers follows. -/
theorem tells_trimEnd (hs : endsIdentifier s = false) (hu : beginsIdentifier u = false)
    (w : Text) :
    Span.Tells (s ++ (w ++ u)) ⟨byteSize s, byteSize s + byteSize (trimEnd w)⟩ (trimEnd w) := by
  obtain ⟨gap, hgap, hwhite⟩ := exists_trimEnd w
  refine ⟨s, gap ++ u, ?_, rfl, hs, ?_⟩
  · conv_lhs => rw [hgap]
    rw [List.append_assoc]
  · cases gap with
    | nil => exact hu
    | cons c gap => exact isSpacing_of_white hwhite c (List.mem_cons_self ..)

theorem isAscii_char (stop : Delimiter) : IsAscii stop.char := by
  cases stop <;> decide

/-- The end of the argument that begins here. -/
theorem argumentEnd_argument (s u : Text) :
    argumentEnd (s ++ u) 0 (byteSize s) =
      .ofReading ((argument u).map fun a => byteSize (s ++ a.text)) := by
  simp only [argumentEnd_append, byteSize_append]
  rfl

theorem closeArguments_comma (t : Text) :
    closeArguments .comma t =
      match argument t with
      | .error fault => .error fault
      | .ok a => closeArguments a.stop a.rest := by
  rw [closeArguments]
  split <;> simp [*]

/-- **The other arguments are passed** as they are read. -/
theorem passArguments_append (s : Text) (stop : Delimiter) (u : Text) :
    passArguments (s ++ stop.char :: u) (byteSize s) = .ofReading (closeArguments stop u) := by
  induction hn : u.length using Nat.strongRecOn generalizing s stop u with
  | ind n ih =>
    subst hn
    cases stop with
    | close =>
      rw [passArguments, byteAt_append (isAscii_char _), closeArguments_close]
      rfl
    | comma =>
      change passArguments (s ++ ',' :: u) (byteSize s) = _
      have hend := argumentEnd_argument (s ++ [',']) u
      rw [byteSize_concat (by decide), List.append_assoc, List.singleton_append] at hend
      rw [passArguments, byteAt_append (by decide), closeArguments_comma]
      simp only [bind, Except.bind, if_true, hend]
      cases ha : argument u with
      | error fault => rfl
      | ok a =>
        have hlt := length_of_argument ha
        have hu := eq_of_readArgument ha
        have hmoves : MovesOn (s ++ ',' :: u) (byteSize s) (byteSize (s ++ [','] ++ a.text)) := by
          have h := movesOn_append s a.remainder (List.cons_ne_nil ',' a.text)
          rw [List.cons_append, ← hu, ← byteSize_append] at h
          rw [List.append_assoc]
          exact h
        have hrest := ih a.rest.length (by omega) (s ++ [','] ++ a.text) a.stop a.rest rfl
        rw [List.append_assoc, ← Argument.remainder, ← hu, List.append_assoc,
          List.singleton_append] at hrest
        simp only [Checked.ofReading, Except.map, Except.mapError]
        exact (dif_pos hmoves).trans hrest

/-! ## The rest of a call -/

theorem isEmpty_iff : Span.IsEmpty ⟨byteSize s, byteSize s + byteSize t⟩ ↔ t = [] := by
  rw [← byteSize_eq_zero_iff, Span.IsEmpty]
  dsimp only
  omega

theorem isVideo_eq_false_iff : f.isVideo = false ↔ f.internalName?.isSome := by
  cases f <;> decide

/-- A simple call ends in front of the delimiter. -/
theorem simpleSpans_agree (hf : f.isVideo = false) {front : Text} {texture : Span}
    (htexture : texture.Tells (front ++ first.remainder) (trimEnd first.text)) :
    Agree (CallSpans.Tell (front ++ first.remainder) f) (Intrinsic.simpleCall first)
      (simpleSpans (front ++ first.remainder) texture (byteSize front)) := by
  rw [Intrinsic.simpleCall, simpleSpans, Argument.remainder, passArguments_append]
  cases closeArguments first.stop first.rest with
  | error fault => exact .fault fault
  | ok _ =>
    refine .ok ⟨htexture, ⟨hf, rfl⟩, front, rfl, rfl, .inr ?_⟩
    exact first.stop.isIdentifier_char

/-- A video call has its coordinates behind the delimiter. -/
theorem videoSpans_agree (hf : f.isVideo = true) {front : Text} {texture : Span}
    (htexture : texture.Tells (front ++ first.remainder) (trimEnd first.text)) :
    Agree (CallSpans.Tell (front ++ first.remainder) f) (f.videoCall first)
      (videoSpans (front ++ first.remainder) f texture (byteSize front)) := by
  rw [Argument.remainder] at htexture
  rw [Intrinsic.videoCall, videoSpans, Argument.remainder, byteAt_append (isAscii_char _)]
  cases hstop : first.stop with
  | close => exact .fault _
  | comma =>
    rw [hstop, Delimiter.char] at htexture
    obtain ⟨start, ht, hstart, hskip⟩ :=
      exists_skipBlanks_behind (c := ',') (by decide) (by decide) front first.rest
    simp only [bind, Except.bind, Delimiter.char, ne_eq, not_true, if_false, hskip]
    rw [ht] at htexture ⊢
    rw [argumentEnd_argument]
    cases hsecond : argument (first.rest.dropWhile isBlank) with
    | error fault => exact .fault fault
    | ok second =>
      have hu := eq_of_readArgument hsecond
      rw [Argument.remainder] at hu
      rw [hu] at htexture ⊢
      have hbyte := byteAt_append (isAscii_char second.stop) (start ++ second.text) second.rest
      rw [List.append_assoc] at hbyte
      simp only [Checked.ofReading, Except.map, Except.mapError, hbyte]
      cases hclose : second.stop with
      | comma => exact .fault _
      | close =>
        rw [hclose] at htexture
        rw [trimmed_append]
        refine .ok ⟨htexture, ⟨hf, tells_trimEnd hstart rfl second.text⟩,
          start ++ second.text ++ [')'], ?_, ?_, ?_⟩
        · simp [Delimiter.char]
        · rw [byteSize_concat (by decide)]
        · refine .inl ?_
          rw [endsIdentifier_append_of_ne_nil (by simp)]
          rfl

/-- What stands behind the opening is completed as it is read. -/
theorem completeSpans_agree (f : Intrinsic) (first : Argument) {front : Text}
    (hfront : endsIdentifier front = false) :
    Agree (CallSpans.Tell (front ++ (first.text ++ first.remainder)) f) (f.completeCall first)
      (completeSpans (front ++ (first.text ++ first.remainder)) f (byteSize front)
        (byteSize (front ++ first.text))) := by
  have htexture :=
    tells_trimEnd hfront (u := first.remainder) first.stop.isIdentifier_char first.text
  rw [Intrinsic.completeCall, completeSpans, trimmed_append]
  simp only [bind, Except.bind, isEmpty_iff]
  split
  · exact .fault _
  · rw [← List.append_assoc] at htexture ⊢
    cases hf : f.isVideo with
    | false =>
      rw [if_pos (isVideo_eq_false_iff.mp hf)]
      exact simpleSpans_agree hf htexture
    | true =>
      have hname : ¬f.internalName?.isSome = true := fun h => by
        rw [isVideo_eq_false_iff.mpr h] at hf
        cases hf
      rw [if_neg hname]
      exact videoSpans_agree hf htexture

/-- **The cursor finds the parts of a call** where reading finds them, and reports the same faults. -/
theorem callSpans_agree (s u : Text) (f : Intrinsic) :
    Agree (CallSpans.Tell (s ++ (f.token.toList ++ u)) f) (f.readCall u)
      (callSpans (s ++ (f.token.toList ++ u)) (byteSize s) f) := by
  obtain ⟨blanks, hu, -, hskip⟩ := exists_skipBlanks (s ++ f.token.toList) u
  have ht : s ++ (f.token.toList ++ u) =
      s ++ f.token.toList ++ blanks ++ u.dropWhile isBlank := by
    conv_lhs => rw [hu]
    simp only [List.append_assoc]
  rw [List.append_assoc, byteSize_append] at hskip
  have hbyte : (bytes (s ++ (f.token.toList ++ u)))[byteSize (s ++ f.token.toList ++ blanks)]? =
      some '('.toUInt8 ↔ (u.dropWhile isBlank).head? = some '(' := by
    rw [ht, ← head?_bytes_eq_some_iff (by decide), ← getElem?_bytes_append _ _ 0, Nat.add_zero]
  rw [Intrinsic.readCall, callSpans, hskip]
  simp only [bind, Except.bind, ne_eq, hbyte]
  split
  · next inside hinside =>
    rw [hinside] at ht
    obtain ⟨front, hfront, hends, hopening⟩ :=
      exists_skipBlanks_behind (c := '(') (by decide) (by decide) (s ++ f.token.toList ++ blanks)
        inside
    rw [if_neg (by simp [hinside]), ht, hopening, hfront]
    simp only [argumentEnd_argument]
    cases ha : argument (inside.dropWhile isBlank) with
    | error fault => exact .fault fault
    | ok first =>
      rw [eq_of_readArgument ha]
      exact completeSpans_agree f first hends
  · next hinside =>
    rw [if_pos ?_]
    · exact .fault _
    · intro hopen
      obtain ⟨inside, hopen⟩ := List.head?_eq_some_iff.mp hopen
      exact hinside inside hopen

end ShaderLoom.Cursor
