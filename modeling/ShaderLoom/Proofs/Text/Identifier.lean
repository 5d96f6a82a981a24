import ShaderLoom.Text.Identifier
import ShaderLoom.Text.Occurrence

/-!
# Identifiers of joined texts

An identifier is a maximal run, so it is settled by what stands around it. Two texts are **apart**
when no identifier reaches from the end of the first into the second; then the identifiers of the
two together are those of the first, followed by those of the second.

Every text is empty, begins with a character that belongs to no identifier, or begins with a
**first word**. `wordInduction` is induction along these three cases. It is the shape of every
function that goes through a text identifier by identifier.
-/

namespace ShaderLoom.Text

variable {s t u w : Text} {c : Char} {offset : Nat}

/-! ## The first character -/

@[simp] theorem beginsIdentifier_nil : beginsIdentifier [] = false := rfl

@[simp] theorem beginsIdentifier_cons : beginsIdentifier (c :: t) = isIdentifier c := rfl

theorem takeWhile_of_beginsIdentifier (h : beginsIdentifier t = false) :
    t.takeWhile isIdentifier = [] := by
  cases t with
  | nil => rfl
  | cons c t => simpa [List.takeWhile_cons] using h

theorem dropWhile_of_beginsIdentifier (h : beginsIdentifier t = false) :
    t.dropWhile isIdentifier = t := by
  cases t with
  | nil => rfl
  | cons c t =>
    rw [beginsIdentifier_cons] at h
    simp [h]

/-! ## First words -/

/-- `w` is the first identifier of `w ++ t`. -/
structure FirstWord (w t : Text) : Prop where
  /-- there is at least one character -/
  ne_nil : w ≠ []
  /-- all of them are identifier characters -/
  all : ∀ c ∈ w, isIdentifier c = true
  /-- the text behind them goes on with something else -/
  ends : beginsIdentifier t = false

namespace FirstWord

theorem takeWhile_append (h : FirstWord (c :: w) t) : (w ++ t).takeWhile isIdentifier = w := by
  have hw : ∀ d ∈ w, isIdentifier d = true := fun d hd => h.all d (List.mem_cons_of_mem c hd)
  rw [List.takeWhile_append_of_pos hw, takeWhile_of_beginsIdentifier h.ends, List.append_nil]

theorem dropWhile_append (h : FirstWord (c :: w) t) : (w ++ t).dropWhile isIdentifier = t := by
  have hw : ∀ d ∈ w, isIdentifier d = true := fun d hd => h.all d (List.mem_cons_of_mem c hd)
  rw [List.dropWhile_append_of_pos hw, dropWhile_of_beginsIdentifier h.ends]

theorem beginsIdentifier_append (h : FirstWord w t) : beginsIdentifier (w ++ u) = true := by
  obtain ⟨c, w, rfl⟩ := List.exists_cons_of_ne_nil h.ne_nil
  exact h.all c (List.mem_cons_self ..)

/-- What a word is the first word of may be changed behind the word. -/
theorem congr (h : FirstWord w t) (hu : beginsIdentifier u = false) : FirstWord w u :=
  ⟨h.ne_nil, h.all, hu⟩

end FirstWord

/-- A text that begins with an identifier character begins with a first word. -/
theorem exists_firstWord (h : isIdentifier c = true) :
    ∃ w u, c :: t = w ++ u ∧ FirstWord w u := by
  refine ⟨c :: t.takeWhile isIdentifier, t.dropWhile isIdentifier, ?_, by simp, ?_, ?_⟩
  · rw [List.cons_append, List.takeWhile_append_dropWhile]
  · intro d hd
    rcases List.mem_cons.mp hd with rfl | hd
    · exact h
    · exact List.all_eq_true.mp List.all_takeWhile d hd
  · cases hu : t.dropWhile isIdentifier with
    | nil => rfl
    | cons d u =>
      have hne : t.dropWhile isIdentifier ≠ [] := by simp [hu]
      simpa [hu] using List.head_dropWhile_not isIdentifier hne

/-- **Induction along the identifiers of a text.** -/
@[elab_as_elim]
theorem wordInduction {motive : Text → Prop} (nil : motive [])
    (other : ∀ c t, isIdentifier c = false → motive t → motive (c :: t))
    (word : ∀ w t, FirstWord w t → motive t → motive (w ++ t)) (t : Text) : motive t := by
  induction hn : t.length using Nat.strongRecOn generalizing t with
  | ind n ih =>
    subst hn
    cases t with
    | nil => exact nil
    | cons c t =>
      by_cases hc : isIdentifier c = true
      · obtain ⟨w, u, hwu, hw⟩ := exists_firstWord (t := t) hc
        have hpos : 0 < w.length := List.length_pos_iff.mpr hw.ne_nil
        rw [hwu]
        exact word w u hw (ih u.length (by rw [hwu, List.length_append]; omega) u rfl)
      · exact other c t (by simpa using hc) (ih t.length (by simp) t rfl)

/-! ## Texts that are apart -/

/-- No identifier reaches from `s` into `t`. -/
def Apart (s t : Text) : Prop := endsIdentifier s = false ∨ beginsIdentifier t = false

theorem apart_nil_left : Apart [] t := .inl rfl

theorem apart_nil_right : Apart s [] := .inr rfl

theorem apart_of_begins (h : beginsIdentifier t = false) : Apart s t := .inr h

theorem endsIdentifier_append_of_ne_nil (h : t ≠ []) :
    endsIdentifier (s ++ t) = endsIdentifier t := by
  obtain ⟨c, hc⟩ := Option.ne_none_iff_exists'.mp (mt List.getLast?_eq_none_iff.mp h)
  simp [endsIdentifier, List.getLast?_append, hc]

theorem endsIdentifier_of_all (h : ∀ c ∈ s, isIdentifier c = false) :
    endsIdentifier s = false := by
  rw [endsIdentifier]
  cases hl : s.getLast? with
  | none => rfl
  | some c => exact h c (List.mem_of_getLast? hl)

/-- Only the end of the first text counts. -/
theorem Apart.of_append_left (h : Apart (s ++ t) u) (ht : t ≠ []) : Apart t u := by
  rwa [Apart, endsIdentifier_append_of_ne_nil ht] at h

/-- A word and what it is apart from: the word ends there. -/
theorem Apart.begins_of_word (h : Apart w t) (hw : FirstWord w s) : beginsIdentifier t = false := by
  refine h.resolve_left fun he => ?_
  obtain ⟨c, hc⟩ := Option.ne_none_iff_exists'.mp (mt List.getLast?_eq_none_iff.mp hw.ne_nil)
  rw [endsIdentifier, hc] at he
  exact absurd (hw.all c (List.mem_of_getLast? hc)) (by simpa using he)

theorem Apart.tail (h : Apart (c :: s) t) : Apart s t := by
  cases s with
  | nil => exact apart_nil_left
  | cons d s => exact h.of_append_left (s := [c]) (by simp)

/-- A first word stays one when something is joined behind. -/
theorem FirstWord.append (hw : FirstWord w s) (h : Apart (w ++ s) t) : FirstWord w (s ++ t) := by
  apply hw.congr
  cases s with
  | nil => exact Apart.begins_of_word (by simpa using h) hw
  | cons d s => exact hw.ends

theorem Apart.behind_word (h : Apart (w ++ s) t) : Apart s t := by
  cases s with
  | nil => exact apart_nil_left
  | cons d s => exact h.of_append_left (by simp)

/-! ## Identifiers -/

@[simp] theorem identifiersFrom_nil : identifiersFrom offset [] = [] := by
  unfold identifiersFrom
  rfl

theorem identifiersFrom_cons_of_not (h : isIdentifier c = false) :
    identifiersFrom offset (c :: t) = identifiersFrom (offset + c.utf8Size) t := by
  rw [identifiersFrom]
  simp [h]

theorem identifiersFrom_word (h : FirstWord w t) :
    identifiersFrom offset (w ++ t) =
      ⟨w, offset⟩ :: identifiersFrom (offset + byteSize w) t := by
  obtain ⟨c, w, rfl⟩ := List.exists_cons_of_ne_nil h.ne_nil
  have hc : isIdentifier c = true := h.all c (List.mem_cons_self ..)
  rw [List.cons_append, identifiersFrom]
  simp only [hc, if_true, h.takeWhile_append, h.dropWhile_append]

/-- **The identifiers of texts that are apart** are those of the one and then those of the other. -/
theorem identifiersFrom_append (h : Apart s t) :
    identifiersFrom offset (s ++ t) =
      identifiersFrom offset s ++ identifiersFrom (offset + byteSize s) t := by
  induction s using wordInduction generalizing offset with
  | nil => simp
  | other c s hc ih =>
    rw [List.cons_append, identifiersFrom_cons_of_not hc, identifiersFrom_cons_of_not hc, ih h.tail,
      byteSize_cons, Nat.add_assoc]
  | word w s hw ih =>
    rw [List.append_assoc, identifiersFrom_word (hw.append h), identifiersFrom_word hw,
      ih h.behind_word, byteSize_append, Nat.add_assoc, List.cons_append]

/-! ## Maximal runs -/

/-- **The identifiers of a text are its maximal runs** of identifier characters: what stands in
front of one does not end with an identifier character, and what stands behind it does not begin
with one. -/
theorem mem_identifiersFrom_iff {i : Identifier} :
    i ∈ identifiersFrom offset t ↔
      ∃ before after, t = before ++ (i.word ++ after) ∧ i.offset = offset + byteSize before ∧
        endsIdentifier before = false ∧ FirstWord i.word after := by
  constructor
  · intro h
    induction t using wordInduction generalizing offset with
    | nil => simp at h
    | other c t hc ih =>
      rw [identifiersFrom_cons_of_not hc] at h
      obtain ⟨before, after, rfl, hoffset, hbefore, hword⟩ := ih h
      refine ⟨c :: before, after, rfl, ?_, ?_, hword⟩
      · rw [hoffset, byteSize_cons, Nat.add_assoc]
      · cases before with
        | nil => exact endsIdentifier_of_all (by simpa using hc)
        | cons e before => rwa [← List.singleton_append, endsIdentifier_append_of_ne_nil (by simp)]
    | word w t hw ih =>
      rw [identifiersFrom_word hw] at h
      rcases List.mem_cons.mp h with rfl | h
      · exact ⟨[], t, rfl, rfl, rfl, hw⟩
      · obtain ⟨before, after, rfl, hoffset, hbefore, hword⟩ := ih h
        refine ⟨w ++ before, after, (List.append_assoc ..).symm, ?_, ?_, hword⟩
        · rw [hoffset, byteSize_append, Nat.add_assoc]
        · cases before with
          | nil =>
            -- `w` would go on with the next word
            have hends := hw.ends
            rw [List.nil_append, hword.beginsIdentifier_append] at hends
            cases hends
          | cons e before => rwa [endsIdentifier_append_of_ne_nil (by simp)]
  · obtain ⟨word, place⟩ := i
    rintro ⟨before, after, rfl, hoffset, hbefore, hword⟩
    dsimp only at hoffset hword ⊢
    rw [identifiersFrom_append (.inl hbefore), identifiersFrom_word hword, hoffset]
    exact List.mem_append_right _ (List.mem_cons_self ..)

/-- Identifiers follow each other. -/
theorem pairwise_identifiersFrom (offset : Nat) (t : Text) :
    (identifiersFrom offset t).Pairwise fun i j => i.offset < j.offset := by
  induction t using wordInduction generalizing offset with
  | nil => simp
  | other c t hc ih =>
    rw [identifiersFrom_cons_of_not hc]
    exact ih _
  | word w t hw ih =>
    rw [identifiersFrom_word hw, List.pairwise_cons]
    refine ⟨fun j hj => ?_, ih _⟩
    obtain ⟨before, -, -, hoffset, -⟩ := mem_identifiersFrom_iff.mp hj
    obtain ⟨c, w, rfl⟩ := List.exists_cons_of_ne_nil hw.ne_nil
    have hpos := Char.utf8Size_pos c
    rw [byteSize_cons] at hoffset
    dsimp only
    omega

end ShaderLoom.Text
