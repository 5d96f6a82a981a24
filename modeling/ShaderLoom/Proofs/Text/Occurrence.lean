import ShaderLoom.Proofs.Text.Identifier
import ShaderLoom.Proofs.Text.Words
import ShaderLoom.Text.Occurrence

/-!
# Whole words

No whole word reaches across a character that is not one of an identifier. So the whole words of
the text behind such a character are whole words of the whole text: **`wholeWords_le_append`**.

The search for whole words jumps, but for a name it finds just the identifiers of the text that are
equal to it: **`wholeWords_eq`**. So the whole words of texts that are apart add up.
-/

namespace ShaderLoom.Text

variable {word s t u : Text} {c e : Char}

/-- A name at the start of a text does not reach across a break. -/
theorem IsName.prefix_of_append (hw : IsName word) (hc : isIdentifier c = false)
    (h : word <+: s ++ c :: t) : word <+: s := by
  have hbreak : s ++ [c] <+: s ++ c :: t := by simp
  have hmem : c ∉ word := hw.not_mem hc
  rcases List.prefix_or_prefix_of_prefix h hbreak with h | h
  · rcases List.prefix_concat_iff.mp h with rfl | h
    · exact absurd (List.mem_append_right s (List.mem_singleton_self c)) hmem
    · exact h
  · exact absurd (h.subset (List.mem_append_right s (List.mem_singleton_self c))) hmem

theorem wholeWordsFrom_cons_of_not (h : word ≠ []) (inside : Bool)
    (hc : word.isPrefixOf (c :: t) = false) :
    wholeWordsFrom word h inside (c :: t) = wholeWordsFrom word h (isIdentifier c) t := by
  rw [wholeWordsFrom, if_neg (by rw [hc]; decide)]

theorem wholeWordsFrom_word (h : word ≠ []) (inside : Bool) :
    wholeWordsFrom word h inside (word ++ t) =
      (if !inside && !beginsIdentifier t then 1 else 0) +
        wholeWordsFrom word h (endsIdentifier word) t := by
  obtain ⟨c, rest, he⟩ := List.exists_cons_of_ne_nil (List.append_ne_nil_of_left_ne_nil h t)
  rw [he, wholeWordsFrom, ← he, if_pos (List.isPrefixOf_iff_prefix.mpr (List.prefix_append word t)),
    List.drop_left]

/-- **Whole words behind a break** are counted. -/
theorem wholeWordsFrom_le_append (hw : IsName word) (hc : isIdentifier c = false) (inside : Bool) :
    wholeWordsFrom word hw.ne_nil false t ≤ wholeWordsFrom word hw.ne_nil inside (s ++ c :: t) := by
  induction hn : s.length using Nat.strongRecOn generalizing s inside with
  | ind n ih =>
    subst hn
    by_cases hp : word.isPrefixOf (s ++ c :: t) = true
    · obtain ⟨s, rfl⟩ := hw.prefix_of_append hc (List.isPrefixOf_iff_prefix.mp hp)
      have hlt : s.length < (word ++ s).length := by
        rw [List.length_append]
        have hpos := List.length_pos_iff.mpr hw.ne_nil
        omega
      rw [List.append_assoc, wholeWordsFrom_word hw.ne_nil]
      exact Nat.le_trans (ih s.length hlt _ rfl) (Nat.le_add_left ..)
    · rw [Bool.not_eq_true] at hp
      cases s with
      | nil =>
        rw [List.nil_append] at hp ⊢
        rw [wholeWordsFrom_cons_of_not hw.ne_nil inside hp, hc]
      | cons e s =>
        rw [List.cons_append] at hp ⊢
        rw [wholeWordsFrom_cons_of_not hw.ne_nil inside hp]
        exact ih s.length (Nat.lt_succ_self _) _ rfl

theorem wholeWords_le_append (hw : IsName word) (hc : isIdentifier c = false) :
    wholeWords word t ≤ wholeWords word (s ++ c :: t) := by
  unfold wholeWords
  rw [dif_neg hw.ne_nil, dif_neg hw.ne_nil]
  exact wholeWordsFrom_le_append hw hc false

/-! ## Identifiers -/

/-- How often a word is an identifier of a text. -/
def mentions (word t : Text) : Nat := ((identifiers t).map Identifier.word).count word

theorem map_word_identifiersFrom (offset : Nat) (t : Text) :
    (identifiersFrom offset t).map Identifier.word = (identifiers t).map Identifier.word := by
  unfold identifiers
  induction t using wordInduction generalizing offset with
  | nil => simp
  | other c t hc ih =>
    rw [identifiersFrom_cons_of_not hc, identifiersFrom_cons_of_not hc, ih, ih (0 + c.utf8Size)]
  | word w t hw ih =>
    rw [identifiersFrom_word hw, identifiersFrom_word hw, List.map_cons, List.map_cons, ih,
      ih (0 + byteSize w)]

@[simp] theorem mentions_nil : mentions word [] = 0 := by
  simp [mentions, identifiers]

/-- **Texts that are apart** mention a word as often as both of them do. -/
theorem mentions_append (h : Apart s t) :
    mentions word (s ++ t) = mentions word s + mentions word t := by
  rw [mentions, identifiers, identifiersFrom_append h, List.map_append, List.count_append,
    map_word_identifiersFrom, map_word_identifiersFrom]
  rfl

theorem mentions_cons_of_not (hc : isIdentifier c = false) :
    mentions word (c :: t) = mentions word t := by
  rw [mentions, identifiers, identifiersFrom_cons_of_not hc, map_word_identifiersFrom, mentions]

theorem mentions_word (hu : FirstWord u t) :
    mentions word (u ++ t) = (if u = word then 1 else 0) + mentions word t := by
  rw [mentions, identifiers, identifiersFrom_word hu, List.map_cons, List.count_cons,
    map_word_identifiersFrom, Nat.add_comm]
  simp only [beq_iff_eq]
  rfl

theorem isPrefixOf_eq_false (hw : IsName word) (ht : beginsIdentifier t = false) :
    word.isPrefixOf t = false := by
  rw [Bool.eq_false_iff]
  intro hp
  obtain ⟨t', rfl⟩ := List.isPrefixOf_iff_prefix.mp hp
  obtain ⟨c, w, rfl⟩ := List.exists_cons_of_ne_nil hw.ne_nil
  have hc := hw.all c (List.mem_cons_self ..)
  rw [List.cons_append, beginsIdentifier_cons, hc] at ht
  cases ht

/-- Behind an identifier it does not matter that there is one in front. -/
theorem wholeWordsFrom_of_begins (hw : IsName word) (ht : beginsIdentifier t = false)
    (inside : Bool) :
    wholeWordsFrom word hw.ne_nil inside t = wholeWordsFrom word hw.ne_nil false t := by
  cases t with
  | nil => rw [wholeWordsFrom, wholeWordsFrom]
  | cons c t =>
    have hp := isPrefixOf_eq_false hw ht
    rw [wholeWordsFrom_cons_of_not _ _ hp, wholeWordsFrom_cons_of_not _ _ hp]

/-- A name at the start of a text does not reach past the identifier there. -/
theorem IsName.prefix_of_begins (hw : IsName word) (ht : beginsIdentifier t = false)
    (h : word <+: u ++ t) : word <+: u := by
  cases t with
  | nil => rwa [List.append_nil] at h
  | cons c t => exact hw.prefix_of_append ht h

theorem IsName.endsIdentifier (hw : IsName word) : endsIdentifier word = true := by
  rw [Text.endsIdentifier, List.getLast?_eq_some_getLast hw.ne_nil]
  exact hw.all _ (List.getLast_mem hw.ne_nil)

/-- Inside an identifier no whole word is found. -/
theorem wholeWordsFrom_inside (hw : IsName word) (hu : ∀ c ∈ u, isIdentifier c = true)
    (ht : beginsIdentifier t = false) :
    wholeWordsFrom word hw.ne_nil true (u ++ t) = wholeWordsFrom word hw.ne_nil false t := by
  induction hn : u.length using Nat.strongRecOn generalizing u with
  | ind n ih =>
    subst hn
    cases u with
    | nil => exact wholeWordsFrom_of_begins hw ht true
    | cons c u =>
      by_cases hp : word.isPrefixOf (c :: u ++ t) = true
      · -- the search goes on behind the name, still inside the identifier
        obtain ⟨v, hv⟩ := hw.prefix_of_begins ht (List.isPrefixOf_iff_prefix.mp hp)
        have hlt : v.length < (c :: u).length := by
          rw [← hv, List.length_append]
          have hpos := List.length_pos_iff.mpr hw.ne_nil
          omega
        have hall : ∀ e ∈ v, isIdentifier e = true := fun e he =>
          hu e (hv ▸ List.mem_append_right word he)
        rw [← hv, List.append_assoc, wholeWordsFrom_word hw.ne_nil, hw.endsIdentifier,
          ih v.length hlt hall rfl]
        exact Nat.zero_add _
      · rw [Bool.not_eq_true] at hp
        rw [List.cons_append] at hp ⊢
        rw [wholeWordsFrom_cons_of_not _ _ hp, hu c (List.mem_cons_self ..)]
        exact ih u.length (Nat.lt_succ_self _) (fun e he => hu e (List.mem_cons_of_mem c he)) rfl

/-- **The whole words of a text** are its identifiers. -/
theorem wholeWords_eq (hw : IsName word) (t : Text) : wholeWords word t = mentions word t := by
  rw [wholeWords, dif_neg hw.ne_nil]
  induction t using wordInduction with
  | nil => rw [wholeWordsFrom, mentions_nil]
  | other c t hc ih =>
    rw [wholeWordsFrom_cons_of_not _ _ (isPrefixOf_eq_false hw hc), hc, ih, mentions_cons_of_not hc]
  | word u t hu ih =>
    rw [mentions_word hu, ← ih]
    by_cases he : u = word
    · subst he
      rw [wholeWordsFrom_word hw.ne_nil, wholeWordsFrom_of_begins hw hu.ends, if_pos rfl, hu.ends]
      rfl
    · rw [if_neg he, Nat.zero_add]
      by_cases hp : word.isPrefixOf (u ++ t) = true
      · obtain ⟨v, rfl⟩ := hw.prefix_of_begins hu.ends (List.isPrefixOf_iff_prefix.mp hp)
        have hall : ∀ e ∈ v, isIdentifier e = true := fun e he =>
          hu.all e (List.mem_append_right word he)
        obtain ⟨c, v', rfl⟩ := List.exists_cons_of_ne_nil (l := v) (by
          rintro rfl
          exact he (List.append_nil word))
        have hbegins : beginsIdentifier (c :: v' ++ t) = true := hall c (List.mem_cons_self ..)
        rw [List.append_assoc, wholeWordsFrom_word hw.ne_nil, hw.endsIdentifier, hbegins,
          wholeWordsFrom_inside hw hall hu.ends]
        exact Nat.zero_add _
      · rw [Bool.not_eq_true] at hp
        obtain ⟨c, u, rfl⟩ := List.exists_cons_of_ne_nil hu.ne_nil
        rw [List.cons_append] at hp ⊢
        rw [wholeWordsFrom_cons_of_not _ _ hp, hu.all c (List.mem_cons_self ..)]
        exact wholeWordsFrom_inside hw (fun e he => hu.all e (List.mem_cons_of_mem c he)) hu.ends

/-! ## Words between other characters -/

/-- A word stands in a text between characters that are not those of an identifier. -/
def StandsIn (word t : Text) : Prop :=
  ∃ u v c e, t = u ++ c :: (word ++ e :: v) ∧ isIdentifier c = false ∧ isIdentifier e = false

theorem StandsIn.of_isInfix (h : StandsIn word s) (hst : s <:+: t) : StandsIn word t := by
  obtain ⟨u, v, c, e, rfl, hc, he⟩ := h
  obtain ⟨front, back, rfl⟩ := hst
  exact ⟨front ++ u, v ++ back, c, e, by simp, hc, he⟩

theorem StandsIn.mentions_pos (h : StandsIn word t) (hw : IsName word) : 0 < mentions word t := by
  obtain ⟨u, v, c, e, rfl, hc, he⟩ := h
  have hfirst : FirstWord word (e :: v) := ⟨hw.ne_nil, hw.all, he⟩
  have hapart : Apart u (c :: (word ++ e :: v)) := apart_of_begins hc
  rw [mentions_append hapart, mentions_cons_of_not hc, mentions_word hfirst, if_pos rfl]
  omega

end ShaderLoom.Text
