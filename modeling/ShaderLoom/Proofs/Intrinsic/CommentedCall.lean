import ShaderLoom.Proofs.Intrinsic.Grammar
import ShaderLoom.Proofs.Text.Uncomment

/-!
# Calls with comments

Comments are passed over when an argument is read, so an argument is closed, and it is read again
when comments have been taken out of the text. What is different then are its ends: white space is
trimmed off an argument, but a comment counts as ink, and keeps what stands in front of it.

A part of a call has a **clean end** when this makes no difference but for blanks.
**`exists_readCall_uncomment`**: a call whose parts have clean ends, and whose texture is more than
comments, is read again when comments have been taken out.
-/

namespace ShaderLoom

open Text

variable {s t u w : Text} {c : Char} {f : Intrinsic} {call : Call} {a : Argument}
  {stop : Delimiter} {n : Nat}

/-! ## Reading past comments -/

theorem map_prepend_prepend (r : Except CallFault Argument) (s t : Text) :
    (r.map (Argument.prepend t)).map (Argument.prepend s) = r.map (Argument.prepend (s ++ t)) := by
  cases r with
  | error fault => rfl
  | ok a => simp only [Except.map, Argument.prepend, List.append_assoc]

theorem readArgument_lineComment_append (hs : ∀ c ∈ s, isLineEnd c = false) (n : Nat) (t : Text) :
    readArgument (.lineComment n) (s ++ t) =
      (readArgument (.lineComment n) t).map (Argument.prepend s) := by
  induction s with
  | nil => cases h : readArgument (.lineComment n) t <;> simp [h, Except.map, Argument.prepend]
  | cons c s ih =>
    have hc : ¬isLineEnd c = true := by simp [hs c (List.mem_cons_self ..)]
    rw [List.cons_append, readArgument, if_neg hc, ih fun e he => hs e (List.mem_cons_of_mem c he),
      map_prepend_prepend, List.singleton_append]

/-- A block comment is read up to its end. -/
theorem readArgument_blockComment (n : Nat) (t : Text) :
    readArgument (.blockComment n) t =
      match cutBlock? t with
      | some (body, behind) => (readArgument (.code n) behind).map (Argument.prepend body)
      | none => .error .openComment := by
  fun_induction cutBlock? t with
  | case1 => rw [readArgument]
  | case2 t => rw [readArgument]
  | case3 c t hends ih =>
    rw [readArgument, ih]
    · cases cutBlock? t with
      | none => rfl
      | some cut => exact map_prepend_prepend _ _ _
    · exact hends

/-- A line comment ends before the line end, which is code again. -/
theorem readArgument_lineComment (ht : ∀ c ∈ t.head?, isLineEnd c = true) (n : Nat) :
    readArgument (.lineComment n) t = readArgument (.code n) t := by
  cases t with
  | nil => rw [readArgument, readArgument]
  | cons c t =>
    have hc : isLineEnd c = true := ht c rfl
    have hwhite := isWhite_of_isLineEnd hc
    have hslash : c ≠ '/' := by
      rintro rfl
      revert hwhite
      decide
    rw [readArgument_cons_of_step (fun e _ => not_opens_of_ne hslash e)
      (depthStep_of_isFlat (isFlat_of_isWhite hwhite)), readArgument, if_pos hc]

/-- **Comments are passed over** when an argument is read. -/
theorem readArgument_comment (hw : FirstComment w t) (n : Nat) :
    readArgument (.code n) (w ++ t) = (readArgument (.code n) t).map (Argument.prepend w) := by
  cases hw with
  | line hbody ht =>
    rw [List.cons_append, List.cons_append, readArgument, readArgument_lineComment_append hbody,
      readArgument_lineComment ht, map_prepend_prepend]
    rfl
  | @block body t hbody =>
    have hcut := cutBlock?_body hbody t
    rw [List.cons_append, List.cons_append, readArgument, readArgument_blockComment, hcut]
    exact map_prepend_prepend _ _ _

theorem Delimiter.isLineEnd_char (stop : Delimiter) : isLineEnd stop.char = false := by
  cases stop <;> decide

/-- A comment in an argument ends there. -/
theorem FirstComment.of_readArgument (hw : FirstComment w t) (h : readArgument (.code n) t = .ok a)
    (u : Text) : FirstComment w (a.text ++ u) := by
  cases hw with
  | block hbody => exact .block hbody
  | line hbody ht =>
    refine .line hbody ?_
    rw [eq_of_readArgument h] at ht
    cases ha : a.text with
    | nil =>
      rw [ha] at ht
      have hstop := ht a.stop.char rfl
      rw [a.stop.isLineEnd_char] at hstop
      cases hstop
    | cons e s =>
      rw [ha] at ht
      exact ht

/-- **What is read as an argument is closed**, and without its comments it closes the parentheses
that are open. -/
theorem isClosed_of_readArgument (h : readArgument (.code n) t = .ok a) :
    IsClosed a.text ∧ depthAfter n (uncomment a.text) = some 0 := by
  induction t using glyphInduction generalizing n a with
  | nil =>
    rw [readArgument] at h
    cases h
  | code c t hc ih =>
    cases hstep : depthStep n c with
    | none =>
      obtain ⟨rfl, hstop⟩ := depthStep_eq_none_iff.mp hstep
      obtain ⟨stop, rfl⟩ := Delimiter.exists_char hstop
      rw [readArgument_delimiter] at h
      cases h
      rw [uncomment_nil]
      exact ⟨isClosed_nil, rfl⟩
    | some m =>
      rw [readArgument_cons_of_step hc hstep] at h
      obtain ⟨b, hb, rfl⟩ := Argument.map_prepend_eq_ok h
      obtain ⟨hclosed, hdepth⟩ := ih hb
      have hc' : ∀ e ∈ b.text.head?, ¬Opens c e := by
        rw [eq_of_readArgument hb] at hc
        cases hs : b.text with
        | nil => exact fun e he => by cases he
        | cons e s =>
          rw [hs] at hc
          exact hc
      refine ⟨(isClosed_cons_iff hc').mpr hclosed, ?_⟩
      rw [Argument.prepend, List.singleton_append, uncomment_code hc', depthAfter_cons, hstep]
      exact hdepth
  | unclosed t ht _ =>
    rw [readArgument, readArgument_blockComment, ht] at h
    cases h
  | comment w t hw ih =>
    rw [readArgument_comment hw] at h
    obtain ⟨b, hb, rfl⟩ := Argument.map_prepend_eq_ok h
    obtain ⟨hclosed, hdepth⟩ := ih hb
    have hw' := FirstComment.of_readArgument hw hb
    have hfirst : FirstComment w b.text := by simpa using hw' []
    refine ⟨hclosed.comment hw', ?_⟩
    have hblank : IsFlat ' ' := isFlat_of_isWhite (by decide)
    rw [Argument.prepend, uncomment_comment hfirst, depthAfter_cons, depthStep_of_isFlat hblank]
    exact hdepth

theorem not_opens_delimiter (stop : Delimiter) (c : Char) : ¬Opens c stop.char := by
  cases stop <;> exact not_opens_of_right (by decide) (by decide) c

/-- The glyphs of a text from which an argument is read. -/
theorem glyphs_of_argument (h : argument t = .ok a) :
    glyphs t = glyphs a.text ++ .code a.stop.char :: glyphs a.rest := by
  have hjoins : Joins a.text a.remainder := by
    rintro c - e he
    cases he
    exact not_opens_delimiter a.stop c
  have hstop : ∀ e ∈ a.rest.head?, ¬Opens a.stop.char e := fun e _ => by
    cases a.stop <;> exact not_opens_of_ne (by decide) e
  conv_lhs => rw [eq_of_readArgument h, (isClosed_of_readArgument h).1 _ hjoins, Argument.remainder,
    glyphs_code hstop]

theorem uncomment_of_argument (h : argument t = .ok a) :
    uncomment t = uncomment a.text ++ a.stop.char :: uncomment a.rest := by
  rw [uncomment, glyphs_of_argument h, List.flatMap_append]
  rfl

/-- **An argument is read again** when comments have been taken out. -/
theorem argument_uncomment (h : argument t = .ok a) :
    argument (uncomment t) = .ok ⟨uncomment a.text, a.stop, uncomment a.rest⟩ := by
  obtain ⟨hclosed, hbalanced⟩ := isClosed_of_readArgument h
  rw [uncomment_of_argument h]
  exact argument_balanced hclosed.uncommented hbalanced a.stop _

theorem argument_dropWhile_uncomment (h : argument (t.dropWhile isBlank) = .ok a) :
    argument ((uncomment t).dropWhile isBlank) =
      .ok ⟨(uncomment a.text).dropWhile isBlank, a.stop, uncomment a.rest⟩ := by
  obtain ⟨hclosed, hbalanced⟩ := isClosed_of_readArgument h
  obtain ⟨blanks, ht, hblanks⟩ := exists_blanks t
  have huncomment := uncomment_append_of_notMem (notMem_of_blanks hblanks) (t.dropWhile isBlank)
  rw [← ht] at huncomment
  rw [huncomment, List.dropWhile_append_of_pos hblanks, uncomment_of_argument h,
    a.stop.dropWhile_append]
  refine argument_balanced hclosed.uncommented.dropWhile ?_ a.stop _
  rw [Text.Balanced, depthAfter_dropWhile_isBlank]
  exact hbalanced

theorem closeArguments_uncomment (h : closeArguments stop t = .ok ()) :
    closeArguments stop (uncomment t) = .ok () := by
  induction hn : t.length using Nat.strongRecOn generalizing t stop with
  | ind n ih =>
    subst hn
    cases stop with
    | close => exact closeArguments_close _
    | comma =>
      obtain ⟨a, ha, hclose⟩ := closeArguments_comma_iff.mp h
      have hlt := length_of_argument ha
      exact closeArguments_comma_iff.mpr
        ⟨_, argument_uncomment ha, ih a.rest.length (by omega) hclose rfl⟩

/-- **Induction along the calls between comments**: a call comes down to its parts, and anything
else to what is behind it. What a comment holds is no call. -/
@[elab_as_elim]
theorem commentedInduction {motive : Text → Prop} (nil : motive [])
    (code : ∀ c t, isIdentifier c = false → (∀ e ∈ t.head?, ¬Opens c e) → motive t →
      motive (c :: t))
    (word : ∀ w t, FirstWord w t → Intrinsic.ofToken? w = none → motive t → motive (w ++ t))
    (call : ∀ w t f, FirstWord w t → Intrinsic.ofToken? w = some f →
      (∀ call, f.readCall t = .ok call →
        motive call.texture ∧ motive call.coordinates ∧ motive call.rest) → motive (w ++ t))
    (unclosed : ∀ t, cutBlock? t = none → motive t → motive ('/' :: '*' :: t))
    (comment : ∀ w t, FirstComment w t → motive t → motive (w ++ t)) (t : Text) : motive t := by
  induction t using tokenInduction with
  | other t hbegins ih =>
    rcases glyph_cases t with rfl | ⟨c, t, rfl, hopens⟩ | ⟨t, rfl, ht⟩ | ⟨w, t, rfl, hw⟩
    · exact nil
    · exact code c t hbegins hopens (ih t (by simp))
    · exact unclosed t ht (ih t (by simp only [List.length_cons]; omega))
    · have hpos : 0 < w.length := List.length_pos_iff.mpr hw.ne_nil
      exact comment w t hw (ih t (by rw [List.length_append]; omega))
  | word w t hw ho ih => exact word w t hw ho ih
  | call w t f hw ho ih => exact call w t f hw ho ih

/-! ## Blanks at the ends -/

/-- `s` is what is left of `t` when blanks are taken away at both ends. -/
def Trims (t s : Text) : Prop :=
  ∃ lead gap, t = lead ++ (s ++ gap) ∧ (∀ c ∈ lead, isBlank c = true) ∧ ∀ c ∈ gap, isBlank c = true

/-- The white space at the end of the text is blanks. -/
def EndsInBlanks (t : Text) : Prop := trimEnd t = dropEndWhile isBlank t

instance (t : Text) : Decidable (EndsInBlanks t) := inferInstanceAs (Decidable (_ = _))

theorem EndsInBlanks.exists_gap (h : EndsInBlanks t) :
    ∃ gap, t = trimEnd t ++ gap ∧ ∀ c ∈ gap, isBlank c = true :=
  ⟨t.rtakeWhile isBlank, by rw [h]; exact (List.rdropWhile_append_rtakeWhile ..).symm,
    fun _ hc => List.mem_rtakeWhile_imp hc⟩

/-- Trimming an argument takes away blanks, if the argument ends in blanks. -/
theorem EndsInBlanks.trims (h : EndsInBlanks t) {gap : Text} (hgap : ∀ c ∈ gap, isWhite c = true) :
    Trims t (trimEnd ((t ++ gap).dropWhile isBlank)) := by
  obtain ⟨tail, ht, htail⟩ := h.exists_gap
  have hwhite : ∀ c ∈ tail ++ gap, isWhite c = true :=
    List.forall_mem_append.mpr ⟨fun c hc => isWhite_of_isBlank (htail c hc), hgap⟩
  have hink := getLast?_trimEnd t
  rw [ht, List.append_assoc]
  generalize trimEnd t = x at hink
  by_cases hnil : x = []
  · subst hnil
    have hall : ∀ c ∈ (tail ++ gap).dropWhile isBlank, isWhite c = true :=
      fun c hc => hwhite c (List.dropWhile_subset isBlank hc)
    rw [List.nil_append, List.nil_append, trimEnd_of_white hall]
    exact ⟨tail, [], by rw [List.append_nil]; exact (List.append_nil tail).symm, htail,
      List.forall_mem_nil _⟩
  · -- the last character of `x` is no blank, so the blanks in front end within `x`
    obtain ⟨lead, hx, hlead⟩ := exists_blanks x
    have hne : x.dropWhile isBlank ≠ [] := by
      intro hdrop
      rw [hdrop, List.append_nil] at hx
      have hlast := List.getLast_mem hnil
      have hblank := hlead (x.getLast hnil) (hx ▸ hlast)
      have hwhite' := hink _ (List.getLast?_eq_some_getLast hnil)
      rw [isWhite_of_isBlank hblank] at hwhite'
      cases hwhite'
    have hend : ∀ c ∈ (x.dropWhile isBlank).getLast?, isWhite c = false := by
      rw [hx, List.getLast?_append_of_ne_nil _ hne] at hink
      exact hink
    rw [List.dropWhile_append, if_neg (by simpa using hne), trimEnd_append_of_all hwhite,
      trimEnd_of_getLast? hend]
    refine ⟨lead, tail, ?_, hlead, htail⟩
    rw [← List.append_assoc, ← hx]

theorem Trims.ne_nil (h : Trims t s) (ht : trimEnd t ≠ []) : s ≠ [] := by
  rintro rfl
  obtain ⟨lead, gap, rfl, hlead, hgap⟩ := h
  have hall : ∀ c ∈ lead ++ gap, isBlank c = true := List.forall_mem_append.mpr ⟨hlead, hgap⟩
  exact ht (trimEnd_of_white fun c hc => isWhite_of_isBlank (hall c hc))

/-! ## The parts of a call -/

/-- What a part of a call needs to be pasted: no line comment reaches its end, and the white space
that the comments at the end stand in is blanks. -/
structure HasCleanEnd (part : Text) : Prop where
  /-- no line comment reaches the end -/
  line : endsInLineComment part = false
  /-- without comments there is no other white space than blanks at the end -/
  blanks : EndsInBlanks (uncomment part)

/-- The parts of a call can be pasted, and there is a texture besides comments. -/
structure Call.KeepsComments (call : Call) : Prop where
  /-- the texture can be pasted -/
  texture : HasCleanEnd call.texture
  /-- the coordinates can be pasted -/
  coordinates : HasCleanEnd call.coordinates
  /-- the texture is more than comments -/
  ink : trimEnd (uncomment call.texture) ≠ []

instance (part : Text) : Decidable (HasCleanEnd part) :=
  decidable_of_iff (endsInLineComment part = false ∧ EndsInBlanks (uncomment part))
    ⟨fun h => ⟨h.1, h.2⟩, fun h => ⟨h.1, h.2⟩⟩

instance (call : Call) : Decidable call.KeepsComments :=
  decidable_of_iff
    (HasCleanEnd call.texture ∧ HasCleanEnd call.coordinates ∧
      trimEnd (uncomment call.texture) ≠ [])
    ⟨fun h => ⟨h.1, h.2.1, h.2.2⟩, fun h => ⟨h.1, h.2, h.3⟩⟩

/-- `part` is a part of a call in `t`, and `part'` the same part when comments have been taken
out. -/
structure IsPart (t part part' : Text) : Prop where
  /-- no comment of the part is left open -/
  closed : IsClosed part
  /-- no parenthesis is left open -/
  balanced : Balanced (uncomment part)
  /-- only blanks are taken away -/
  trims : Trims (uncomment part) part'
  /-- the comments are those of the text -/
  comments : ∀ w ∈ comments part, w ∈ comments t

theorem Text.IsBehind.mem_comments (h : IsBehind u t) : ∀ w ∈ comments u, w ∈ comments t := by
  obtain ⟨front, hfront⟩ := h.glyphs_eq
  intro w hw
  rw [comments, hfront, List.filterMap_append]
  exact List.mem_append_right _ hw

theorem IsPart.of_isBehind {part part' : Text} (h : IsPart u part part') (hu : IsBehind u t) :
    IsPart t part part' :=
  { h with comments := fun w hw => hu.mem_comments w (h.comments w hw) }

theorem isPart_nil (t : Text) : IsPart t [] [] where
  closed := isClosed_nil
  balanced := by
    rw [uncomment_nil]
    exact balanced_nil
  trims := by
    rw [uncomment_nil]
    exact ⟨[], [], rfl, List.forall_mem_nil _, List.forall_mem_nil _⟩
  comments := by
    intro w hw
    rw [comments, glyphs_nil] at hw
    cases hw

/-- **An argument as a part of its call.** -/
theorem isPart_of_argument (h : argument t = .ok a) (hclean : HasCleanEnd (trimEnd a.text)) :
    IsPart t (trimEnd a.text) (trimEnd ((uncomment a.text).dropWhile isBlank)) := by
  obtain ⟨hclosed, hbalanced⟩ := isClosed_of_readArgument h
  have hglyphs := glyphs_of_argument h
  obtain ⟨gap, ha, hgap⟩ := exists_trimEnd a.text
  generalize trimEnd a.text = part at ha hclean
  rw [ha] at hclosed hbalanced hglyphs ⊢
  have hpart := hclosed.of_append_white hgap hclean.line
  have hslash := notMem_of_white hgap
  have hjoins : Joins part gap := by
    refine joins_of_getLast? fun c _ e he => ?_
    exact not_opens_of_isWhite (hgap e (List.mem_of_head? he)) c
  have huncomment : uncomment (part ++ gap) = uncomment part ++ gap := by
    rw [uncomment_append (hpart gap hjoins), (uncommented_of_notMem hslash).uncomment_eq]
  rw [huncomment] at hbalanced ⊢
  have hbalanced' : Balanced (uncomment part) :=
    Balanced.of_append hbalanced (balanced_of_white hgap)
  refine ⟨hpart, hbalanced', hclean.blanks.trims hgap, fun w hw => ?_⟩
  rw [hpart gap hjoins, List.append_assoc] at hglyphs
  rw [comments, hglyphs, List.filterMap_append]
  exact List.mem_append_left _ hw

/-! ## Calls -/

/-- `call'` is what becomes of a call in `t` when comments have been taken out. -/
structure UncommentedCall (t : Text) (call call' : Call) : Prop where
  /-- the first argument -/
  texture : IsPart t call.texture call'.texture
  /-- the coordinates -/
  coordinates : IsPart t call.coordinates call'.coordinates
  /-- what the call leaves stands behind closed text -/
  behind : IsBehind call.rest t
  /-- what the call leaves -/
  rest : call'.rest = uncomment call.rest

theorem isBehind_dropWhile (t : Text) : IsBehind (t.dropWhile isBlank) t := by
  obtain ⟨blanks, ht, hblanks⟩ := exists_blanks t
  have h := IsBehind.of_notMem (notMem_of_blanks hblanks) (t.dropWhile isBlank)
  rwa [← ht] at h

theorem isBehind_of_argument (h : argument t = .ok a) : IsBehind a.remainder t := by
  refine ⟨a.text, eq_of_readArgument h, (isClosed_of_readArgument h).1, ?_⟩
  rintro c - e he
  cases he
  exact not_opens_delimiter a.stop c

theorem isBehind_rest (a : Argument) : IsBehind a.rest a.remainder := by
  have hslash : '/' ∉ [a.stop.char] := by
    rw [List.mem_singleton]
    cases a.stop <;> decide
  exact IsBehind.of_notMem hslash a.rest

theorem uncomment_remainder (a : Argument) :
    uncomment a.remainder = a.stop.char :: uncomment a.rest := by
  refine uncomment_code fun e _ => not_opens_of_ne ?_ e
  cases a.stop <;> decide

/-- **A call is read again** when comments have been taken out. -/
theorem exists_readCall_uncomment (h : f.readCall t = .ok call) (hclean : call.KeepsComments) :
    ∃ call', f.readCall (uncomment t) = .ok call' ∧ UncommentedCall t call call' := by
  obtain ⟨inside, first, hopen, harg, hc⟩ := readCall_iff.mp h
  obtain ⟨blanks, ht, hblanks⟩ := exists_blanks t
  have hslash : '/' ∉ blanks ++ ['('] := by
    intro hmem
    rcases List.mem_append.mp hmem with hmem | hmem
    · exact notMem_of_blanks hblanks hmem
    · exact absurd hmem (by decide)
  rw [hopen, List.append_cons] at ht
  have hopen' : (uncomment t).dropWhile isBlank = '(' :: uncomment inside := by
    rw [ht, uncomment_append_of_notMem hslash, List.append_assoc,
      List.dropWhile_append_of_pos hblanks]
    rfl
  have hinside : IsBehind (inside.dropWhile isBlank) t := by
    rw [ht]
    exact (IsBehind.of_notMem hslash inside).trans (isBehind_dropWhile inside)
  have harg' := argument_dropWhile_uncomment harg
  have hbehind := hinside.trans (isBehind_of_argument harg)
  cases hf : f.isVideo with
  | false =>
    obtain ⟨-, hclose, rfl⟩ := (simpleCall_iff hf).mp hc
    have htexture := isPart_of_argument harg hclean.texture
    exact ⟨_, readCall_iff.mpr ⟨_, _, hopen', harg', (simpleCall_iff hf).mpr
        ⟨htexture.trims.ne_nil hclean.ink, closeArguments_uncomment hclose, rfl⟩⟩,
      htexture.of_isBehind hinside, isPart_nil t, hbehind, (uncomment_remainder first).symm⟩
  | true =>
    obtain ⟨-, hstop, second, harg₂, hclose, rfl⟩ := (videoCall_iff hf).mp hc
    have htexture := isPart_of_argument harg hclean.texture
    have hcoordinates := isPart_of_argument harg₂ hclean.coordinates
    have harg₂' := argument_dropWhile_uncomment harg₂
    have hsecond := (hbehind.trans (isBehind_rest first)).trans (isBehind_dropWhile first.rest)
    exact ⟨_, readCall_iff.mpr ⟨_, _, hopen', harg', (videoCall_iff hf).mpr
        ⟨htexture.trims.ne_nil hclean.ink, hstop, _, harg₂', hclose, rfl⟩⟩,
      htexture.of_isBehind hinside, hcoordinates.of_isBehind hsecond,
      (hsecond.trans (isBehind_of_argument harg₂)).trans (isBehind_rest second), rfl⟩

end ShaderLoom
