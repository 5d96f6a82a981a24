import ShaderLoom.Intrinsic.Call
import ShaderLoom.Proofs.Outcome
import ShaderLoom.Proofs.Text.WhiteSpace

/-!
# The text of a call

A call that can be read fixes the text it is read from up to blanks: an **opening** (blanks, the
parenthesis, blanks), the texture, white space, and then either a delimiter, with which the rest
of a simple call begins, or the comma, the coordinates and the closing parenthesis of a video call.

`readCall_iff`, `simpleCall_iff` and `videoCall_iff` take the reading of a call apart, step by step;
`text_of_simpleCall` and `text_of_videoCall` put the text together again.
-/

namespace ShaderLoom

open Text

variable {f : Intrinsic} {t : Text} {first : Argument} {call : Call} {c : Char}

theorem Delimiter.isIdentifier_char (stop : Delimiter) : isIdentifier stop.char = false := by
  cases stop <;> decide

/-! ## Openings -/

/-- What stands between a token and its first argument. -/
def IsOpening (lead : Text) : Prop :=
  ∃ before behind, lead = before ++ '(' :: behind ∧
    (∀ c ∈ before, isBlank c = true) ∧ ∀ c ∈ behind, isBlank c = true

theorem IsOpening.isIdentifier {lead : Text} (h : IsOpening lead) :
    ∀ c ∈ lead, isIdentifier c = false := by
  obtain ⟨before, behind, rfl, hbefore, hbehind⟩ := h
  intro c hc
  rcases List.mem_append.mp hc with hc | hc
  · exact isIdentifier_of_isBlank (hbefore c hc)
  · rcases List.mem_cons.mp hc with rfl | hc
    · decide
    · exact isIdentifier_of_isBlank (hbehind c hc)

theorem exists_opening {inside : Text} (h : t.dropWhile isBlank = '(' :: inside) :
    ∃ lead, t = lead ++ inside.dropWhile isBlank ∧ IsOpening lead := by
  obtain ⟨before, ht, hbefore⟩ := exists_blanks t
  obtain ⟨behind, hin, hbehind⟩ := exists_blanks inside
  refine ⟨before ++ '(' :: behind, ?_, before, behind, rfl, hbefore, hbehind⟩
  rw [h] at ht
  rw [List.append_assoc, List.cons_append, ← hin]
  exact ht

/-! ## Steps of reading -/

/-- **Reading a call** means reading its first argument behind the opening. -/
theorem readCall_iff :
    f.readCall t = .ok call ↔
      ∃ inside first, t.dropWhile isBlank = '(' :: inside ∧
        argument (inside.dropWhile isBlank) = .ok first ∧ f.completeCall first = .ok call := by
  rw [Intrinsic.readCall]
  constructor
  · intro h
    split at h
    · next inside hopen =>
      split at h
      · cases h
      · next first hfirst => exact ⟨inside, first, hopen, hfirst, h⟩
    · cases h
  · rintro ⟨inside, first, hopen, hfirst, hc⟩
    simp only [hopen, hfirst, hc]

/-- **A simple call** takes up its first argument; the others must end. -/
theorem simpleCall_iff (hf : f.isVideo = false) :
    f.completeCall first = .ok call ↔
      trimEnd first.text ≠ [] ∧ closeArguments first.stop first.rest = .ok () ∧
        call = ⟨trimEnd first.text, [], first.remainder⟩ := by
  rw [Intrinsic.completeCall]
  split
  · next h => simp [h]
  · next h =>
    simp only [hf, Bool.false_eq_true, if_false, Intrinsic.simpleCall, map_eq_ok]
    constructor
    · rintro ⟨_, hc, rfl⟩
      exact ⟨h, hc, rfl⟩
    · rintro ⟨-, hc, rfl⟩
      exact ⟨(), hc, rfl⟩

/-- **A video call** has one more argument, and is taken up whole. -/
theorem videoCall_iff (hf : f.isVideo = true) :
    f.completeCall first = .ok call ↔
      trimEnd first.text ≠ [] ∧ first.stop = .comma ∧
        ∃ second, argument (first.rest.dropWhile isBlank) = .ok second ∧ second.stop = .close ∧
          call = ⟨trimEnd first.text, trimEnd second.text, second.rest⟩ := by
  rw [Intrinsic.completeCall]
  split
  · next h => simp [h]
  · next h =>
    rw [Intrinsic.videoCall]
    constructor
    · intro hc
      refine ⟨h, ?_⟩
      split at hc
      · cases hc
      · next hstop =>
        refine ⟨hstop, ?_⟩
        split at hc
        · cases hc
        · next second hs =>
          split at hc
          · cases hc
          · next hclose =>
            cases hc
            exact ⟨second, hs, hclose, rfl⟩
    · rintro ⟨-, hstop, second, hs, hclose, rfl⟩
      simp only [hstop, hs, hclose]

/-! ## Putting the text together again -/

/-- What keeps the parts of a call apart: characters that belong to no identifier. -/
def IsSpacing (s : Text) : Prop := ∀ c ∈ s, isIdentifier c = false

theorem isSpacing_of_white {gap : Text} (h : ∀ c ∈ gap, isWhite c = true) : IsSpacing gap :=
  fun c hc => isIdentifier_of_isWhite (h c hc)

theorem isSpacing_of_blank {gap : Text} (h : ∀ c ∈ gap, isBlank c = true) : IsSpacing gap :=
  fun c hc => isIdentifier_of_isBlank (h c hc)

theorem IsSpacing.apart {gap : Text} (h : IsSpacing gap) (t : Text) : Apart gap t :=
  .inl (endsIdentifier_of_all h)

theorem IsSpacing.apart_append {gap : Text} (h : IsSpacing gap) (hne : gap ≠ []) (s u : Text) :
    Apart s (gap ++ u) := by
  obtain ⟨c, gap, rfl⟩ := List.exists_cons_of_ne_nil hne
  exact .inr (h c (List.mem_cons_self ..))

/-- The text of a simple call. -/
theorem text_of_simpleCall (hf : f.isVideo = false) (h : f.readCall t = .ok call) :
    ∃ lead gap stop rest, t = lead ++ (call.texture ++ (gap ++ call.rest)) ∧
      IsSpacing lead ∧ IsSpacing gap ∧ Apart call.texture (gap ++ call.rest) ∧
      call.coordinates = [] ∧ call.rest = Delimiter.char stop :: rest := by
  obtain ⟨inside, first, hopen, harg, hc⟩ := readCall_iff.mp h
  obtain ⟨lead, ht, hlead⟩ := exists_opening hopen
  obtain ⟨-, -, rfl⟩ := (simpleCall_iff hf).mp hc
  obtain ⟨gap, hgap, hwhite⟩ := exists_trimEnd first.text
  have hspacing := isSpacing_of_white hwhite
  refine ⟨lead, gap, first.stop, first.rest, ?_, hlead.isIdentifier, hspacing, ?_, rfl, rfl⟩
  · rw [ht, eq_of_readArgument harg]
    conv_lhs => rw [hgap]
    simp only [List.append_assoc]
  · by_cases hnil : gap = []
    · rw [hnil]
      exact .inr first.stop.isIdentifier_char
    · exact hspacing.apart_append hnil ..

/-- What is left of a simple call begins with a delimiter. -/
theorem beginsIdentifier_rest (hf : f.isVideo = false) (h : f.readCall t = .ok call) :
    beginsIdentifier call.rest = false := by
  obtain ⟨-, -, stop, rest, -, -, -, -, -, hrest⟩ := text_of_simpleCall hf h
  rw [hrest]
  exact stop.isIdentifier_char

/-- The text of a video call. -/
theorem text_of_videoCall (hf : f.isVideo = true) (h : f.readCall t = .ok call) :
    ∃ lead gap close,
      t = lead ++ (call.texture ++ (gap ++ (call.coordinates ++ (close ++ call.rest)))) ∧
        IsSpacing lead ∧ IsSpacing gap ∧ IsSpacing close ∧ (∀ u, Apart call.texture (gap ++ u)) ∧
          ∀ u, Apart call.coordinates (close ++ u) := by
  obtain ⟨inside, first, hopen, harg, hc⟩ := readCall_iff.mp h
  obtain ⟨lead, ht, hlead⟩ := exists_opening hopen
  obtain ⟨-, hstop, second, harg₂, hclose, rfl⟩ := (videoCall_iff hf).mp hc
  obtain ⟨blanks, hrest, hblanks⟩ := exists_blanks first.rest
  obtain ⟨gap, hgap, hwhite⟩ := exists_trimEnd first.text
  obtain ⟨gap₂, hgap₂, hwhite₂⟩ := exists_trimEnd second.text
  have hcomma : IsSpacing (gap ++ ',' :: blanks) := by
    intro c hc
    rcases List.mem_append.mp hc with hc | hc
    · exact isSpacing_of_white hwhite c hc
    · rcases List.mem_cons.mp hc with rfl | hc
      · decide
      · exact isSpacing_of_blank hblanks c hc
  have hend : IsSpacing (gap₂ ++ [')']) := by
    intro c hc
    rcases List.mem_append.mp hc with hc | hc
    · exact isSpacing_of_white hwhite₂ c hc
    · rw [List.mem_singleton.mp hc]
      decide
  refine ⟨lead, gap ++ ',' :: blanks, gap₂ ++ [')'], ?_, hlead.isIdentifier, hcomma, hend,
    hcomma.apart_append (by simp) _, hend.apart_append (by simp) _⟩
  rw [ht, eq_of_readArgument harg]
  conv_lhs => rw [hgap]
  rw [Argument.remainder, hstop, hrest, eq_of_readArgument harg₂]
  conv_lhs => rw [hgap₂]
  rw [Argument.remainder, hclose]
  simp [Delimiter.char]

end ShaderLoom
