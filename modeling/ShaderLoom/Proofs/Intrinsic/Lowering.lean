import ShaderLoom.Intrinsic.Lowering
import ShaderLoom.Proofs.Intrinsic.Call
import ShaderLoom.Proofs.Intrinsic.Site

/-!
# Lowering as a relation

`Lowers d t l` says that `l` is the text `t` with every call replaced, by four rules that follow
the identifiers of the text: the empty text, a character outside identifiers, an identifier that is
no token, and a call. `lower_eq_ok_iff`: lowering succeeds with `l` exactly when the rules derive
it, so what is true of every lowered text is proved by induction on the rules. What is to be shown
of texts that need not be lowered is proved by `callInduction`.
-/

namespace ShaderLoom

open Text

variable {d : Dialect} {s t w : Text} {c : Char} {f : Intrinsic} {l : Lowered}

/-! ## Equations -/

theorem lower_nil : lower d [] = .ok ⟨[], 0⟩ := by
  rw [lower]

theorem lower_cons_of_not (h : isIdentifier c = false) :
    lower d (c :: t) = (lower d t).map (Lowered.prepend [c]) := by
  rw [lower]
  simp [h]

theorem lower_word_of_none (h : FirstWord w t) (hw : Intrinsic.ofToken? w = none) :
    lower d (w ++ t) = (lower d t).map (Lowered.prepend w) := by
  obtain ⟨c, w, rfl⟩ := List.exists_cons_of_ne_nil h.ne_nil
  have hc : isIdentifier c = true := h.all c (List.mem_cons_self ..)
  rw [List.cons_append, lower, if_pos hc]
  simp only [h.takeWhile_append, h.dropWhile_append]
  rw [hw]

theorem lower_word_of_some (h : FirstWord w t) (hw : Intrinsic.ofToken? w = some f) :
    lower d (w ++ t) = (do
      let call ← f.readCall t
      let texture ← lower d call.texture
      let coordinates ← lower d call.coordinates
      let behind ← lower d call.rest
      pure (Lowered.ofCall (f.pieces d.frames d.rg) texture coordinates behind)) := by
  obtain ⟨c, w, rfl⟩ := List.exists_cons_of_ne_nil h.ne_nil
  have hc : isIdentifier c = true := h.all c (List.mem_cons_self ..)
  rw [List.cons_append, lower, if_pos hc]
  simp only [h.takeWhile_append]
  rw [hw]
  split
  · next hf => cases hf
  · next g hg =>
    cases hg
    split
    · next fault hr =>
      rw [h.dropWhile_append] at hr
      rw [hr]
      rfl
    · next call hr =>
      rw [h.dropWhile_append] at hr
      rw [hr]
      rfl

/-! ## Induction along calls -/

/-- **Induction along the identifiers of a text, and into its calls.** Where no identifier begins,
it is on the length. -/
@[elab_as_elim]
theorem tokenInduction {motive : Text → Prop}
    (other : ∀ t, beginsIdentifier t = false → (∀ u : Text, u.length < t.length → motive u) →
      motive t)
    (word : ∀ w t, FirstWord w t → Intrinsic.ofToken? w = none → motive t → motive (w ++ t))
    (call : ∀ w t f, FirstWord w t → Intrinsic.ofToken? w = some f →
      (∀ call, f.readCall t = .ok call →
        motive call.texture ∧ motive call.coordinates ∧ motive call.rest) → motive (w ++ t))
    (t : Text) : motive t := by
  induction hn : t.length using Nat.strongRecOn generalizing t with
  | ind n ih =>
    subst hn
    cases hbegins : beginsIdentifier t with
    | false => exact other t hbegins fun u hu => ih u.length hu u rfl
    | true =>
      cases t with
      | nil => cases hbegins
      | cons c t =>
        obtain ⟨w, u, hwu, hw⟩ := exists_firstWord (t := t) hbegins
        have hpos : 0 < w.length := List.length_pos_iff.mpr hw.ne_nil
        rw [hwu, List.length_append] at ih
        rw [hwu]
        cases ho : Intrinsic.ofToken? w with
        | none => exact word w u hw ho (ih _ (by omega) _ rfl)
        | some f =>
          refine call w u f hw ho fun call hread => ?_
          have hlt := Call.length_lt hread
          exact ⟨ih _ (by omega) _ rfl, ih _ (by omega) _ rfl, ih _ (by omega) _ rfl⟩

/-- **Induction along the calls of a text**: a call comes down to its parts, and anything else to
what is behind it. -/
@[elab_as_elim]
theorem callInduction {motive : Text → Prop} (nil : motive [])
    (other : ∀ c t, isIdentifier c = false → motive t → motive (c :: t))
    (word : ∀ w t, FirstWord w t → Intrinsic.ofToken? w = none → motive t → motive (w ++ t))
    (call : ∀ w t f, FirstWord w t → Intrinsic.ofToken? w = some f →
      (∀ call, f.readCall t = .ok call →
        motive call.texture ∧ motive call.coordinates ∧ motive call.rest) → motive (w ++ t))
    (t : Text) : motive t := by
  induction t using tokenInduction with
  | other t hbegins ih =>
    cases t with
    | nil => exact nil
    | cons c t => exact other c t hbegins (ih t (by simp))
  | word w t hw ho ih => exact word w t hw ho ih
  | call w t f hw ho ih => exact call w t f hw ho ih

/-! ## Rules -/

/-- The rules by which a text is lowered. -/
inductive Lowers (d : Dialect) : Text → Lowered → Prop
  /-- nothing is left -/
  | nil : Lowers d [] ⟨[], 0⟩
  /-- a character outside identifiers is kept -/
  | other {c : Char} {t : Text} {l : Lowered} (hc : isIdentifier c = false) (ht : Lowers d t l) :
    Lowers d (c :: t) (l.prepend [c])
  /-- an identifier that is no token is kept -/
  | word {w t : Text} {l : Lowered} (hw : FirstWord w t) (ho : Intrinsic.ofToken? w = none)
    (ht : Lowers d t l) :
    Lowers d (w ++ t) (l.prepend w)
  /-- a call is replaced, and what stands in its arguments is lowered first -/
  | call {w t : Text} {f : Intrinsic} {call : Call} {texture coordinates behind : Lowered}
    (hw : FirstWord w t) (ho : Intrinsic.ofToken? w = some f) (hr : f.readCall t = .ok call)
    (htexture : Lowers d call.texture texture)
    (hcoordinates : Lowers d call.coordinates coordinates)
    (hbehind : Lowers d call.rest behind) :
    Lowers d (w ++ t) (Lowered.ofCall (f.pieces d.frames d.rg) texture coordinates behind)

theorem Lowers.lower_eq (h : Lowers d t l) : lower d t = .ok l := by
  induction h with
  | nil => exact lower_nil
  | other hc _ ih =>
    rw [lower_cons_of_not hc, ih]
    rfl
  | word hw ho _ ih =>
    rw [lower_word_of_none hw ho, ih]
    rfl
  | call hw ho hr _ _ _ ihtexture ihcoordinates ihbehind =>
    rw [lower_word_of_some hw ho, hr]
    simp only [bind_eq_ok]
    exact ⟨_, rfl, _, ihtexture, _, ihcoordinates, _, ihbehind, rfl⟩

theorem lowers_of_lower (h : lower d t = .ok l) : Lowers d t l := by
  induction t using callInduction generalizing l with
  | nil =>
    rw [lower_nil] at h
    cases h
    exact .nil
  | other c t hc ih =>
    rw [lower_cons_of_not hc] at h
    obtain ⟨l', hl', rfl⟩ := map_eq_ok.mp h
    exact .other hc (ih hl')
  | word w t hw ho ih =>
    rw [lower_word_of_none hw ho] at h
    obtain ⟨l', hl', rfl⟩ := map_eq_ok.mp h
    exact .word hw ho (ih hl')
  | call w t f hw ho ih =>
    rw [lower_word_of_some hw ho] at h
    simp only [bind_eq_ok] at h
    obtain ⟨call, hr, texture, htexture, coordinates, hcoordinates, behind, hbehind, he⟩ := h
    cases he
    obtain ⟨ihtexture, ihcoordinates, ihbehind⟩ := ih call hr
    exact .call hw ho hr (ihtexture htexture) (ihcoordinates hcoordinates) (ihbehind hbehind)

/-- **Lowering is derived by the rules**, and by nothing else. -/
theorem lower_eq_ok_iff : lower d t = .ok l ↔ Lowers d t l :=
  ⟨lowers_of_lower, Lowers.lower_eq⟩

/-! ## First consequences -/

/-- Lowering lets no identifier begin where none began. -/
theorem Lowers.beginsIdentifier (h : Lowers d t l) (ht : beginsIdentifier t = false) :
    beginsIdentifier l.text = false := by
  cases h with
  | nil => rfl
  | other hc _ => exact hc
  | word hw _ _ =>
    rw [hw.beginsIdentifier_append] at ht
    cases ht
  | call hw _ _ _ _ _ =>
    rw [hw.beginsIdentifier_append] at ht
    cases ht

/-- **A text without calls is left as it is.** -/
theorem lowers_of_callFree (h : CallFree t) : Lowers d t ⟨t, 0⟩ := by
  induction t using wordInduction with
  | nil => exact .nil
  | other c t hc ih => exact .other hc (ih ((callFree_cons_of_not hc).mp h))
  | word w t hw ih =>
    obtain ⟨ho, ht⟩ := (callFree_word hw).mp h
    exact .word hw ho (ih ht)

/-! ## Text in front -/

/-- **Text without calls stays in front**, and what follows is lowered on its own. -/
theorem lower_append_of_callFree (hs : CallFree s) (h : Apart s t) :
    lower d (s ++ t) = (lower d t).map (Lowered.prepend s) := by
  have hprepend : ∀ (x : Except CallFault Lowered) (a b : Text),
      (x.map (Lowered.prepend b)).map (Lowered.prepend a) = x.map (Lowered.prepend (a ++ b)) := by
    intro x a b
    cases x with
    | error e => rfl
    | ok l => simp [Except.map, Lowered.prepend]
  induction s using wordInduction with
  | nil =>
    rw [List.nil_append]
    cases lower d t <;> rfl
  | other c s hc ih =>
    rw [List.cons_append, lower_cons_of_not hc, ih ((callFree_cons_of_not hc).mp hs) h.tail,
      hprepend, List.singleton_append]
  | word w s hw ih =>
    obtain ⟨ho, hs⟩ := (callFree_word hw).mp hs
    rw [List.append_assoc, lower_word_of_none (hw.append h) ho, ih hs h.behind_word, hprepend]

/-- **A text without parentheses has no calls** in front of something that is no parenthesis, if
lowering succeeds: a token would be followed by its parenthesis. -/
theorem callFree_of_lower (hs : '(' ∉ s) (hc : isIdentifier c = false) (hblank : isBlank c = false)
    (hparen : c ≠ '(') (h : lower d (s ++ c :: t) = .ok l) : CallFree s := by
  induction s using wordInduction generalizing l with
  | nil => exact callFree_nil
  | other e s he ih =>
    rw [List.cons_append, lower_cons_of_not he] at h
    obtain ⟨l', hl', -⟩ := map_eq_ok.mp h
    exact (callFree_cons_of_not he).mpr (ih (fun hmem => hs (List.mem_cons_of_mem e hmem)) hl')
  | word w s hw ih =>
    have hs' : '(' ∉ s := fun hmem => hs (List.mem_append_right w hmem)
    have hword : FirstWord w (s ++ c :: t) := by
      apply hw.congr
      cases s with
      | nil => exact hc
      | cons e s => exact hw.ends
    rw [List.append_assoc] at h
    cases ho : Intrinsic.ofToken? w with
    | none =>
      rw [lower_word_of_none hword ho] at h
      obtain ⟨l', hl', -⟩ := map_eq_ok.mp h
      exact (callFree_word hw).mpr ⟨ho, ih hs' hl'⟩
    | some f =>
      rw [lower_word_of_some hword ho] at h
      obtain ⟨call, hr, -⟩ := bind_eq_ok.mp h
      obtain ⟨inside, -, hopen, -, -⟩ := readCall_iff.mp hr
      -- the first character behind the blanks is in `s`, or it is `c`
      rw [List.dropWhile_append] at hopen
      split at hopen
      · rw [List.dropWhile_cons_of_neg (by simp [hblank])] at hopen
        exact absurd (List.cons.inj hopen).1 hparen
      · next hne =>
        have hmem : '(' ∈ s.dropWhile isBlank := by
          cases hd : s.dropWhile isBlank with
          | nil =>
            rw [hd] at hne
            exact absurd rfl hne
          | cons e u =>
            rw [hd] at hopen
            rw [(List.cons.inj hopen).1]
            exact List.mem_cons_self ..
        exact absurd (List.dropWhile_subset isBlank hmem) hs'

end ShaderLoom
