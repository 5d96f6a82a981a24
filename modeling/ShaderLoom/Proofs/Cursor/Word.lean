import ShaderLoom.Cursor.Word
import ShaderLoom.Proofs.Cursor.Search
import ShaderLoom.Proofs.Text.ByteRun

/-!
# Counting a word finds the runs

The search for a word takes places that are then not counted, because the word does not stand alone
there, and goes on behind them. That hides nothing: what it takes is made of identifier characters,
so it does not reach beyond the identifier in which it begins, and no identifier begins in the midst
of it (`mem_placesFrom_append`).

**`countWord_eq_length_runs`**: the places that are counted are the maximal runs of identifier bytes
that are equal to the word, and looking at the bytes around the places makes no misstep. The count is
the one by which variables are told to be used or not (`countWord_eq`).
-/

namespace ShaderLoom.Cursor

open Text

variable {s t u word : Text} {starts : List Nat} {start position size : Nat}

/-! ## Places -/

theorem placesFrom_nil (h : word ≠ []) : placesFrom word h position [] = [] := by
  rw [placesFrom]

theorem placesFrom_cons_of_not {c : Char} (h : word ≠ []) (hp : word.isPrefixOf (c :: t) = false) :
    placesFrom word h position (c :: t) = placesFrom word h (position + c.utf8Size) t := by
  rw [placesFrom, if_neg (by rw [hp]; decide)]

theorem placesFrom_word (h : word ≠ []) :
    placesFrom word h position (word ++ t) =
      position :: placesFrom word h (position + byteSize word) t := by
  obtain ⟨c, rest, he⟩ := List.exists_cons_of_ne_nil (List.append_ne_nil_of_left_ne_nil h t)
  rw [he, placesFrom, ← he, if_pos (List.isPrefixOf_iff_prefix.mpr (List.prefix_append word t)),
    List.drop_left]

/-- **Induction along the search**: at every character the word stands there, or it does not. -/
@[elab_as_elim]
theorem searchInduction {motive : Text → Prop} (h : word ≠ []) (nil : motive [])
    (other : ∀ c t, word.isPrefixOf (c :: t) = false → motive t → motive (c :: t))
    (found : ∀ t, motive t → motive (word ++ t)) (t : Text) : motive t := by
  induction hn : t.length using Nat.strongRecOn generalizing t with
  | ind n ih =>
    subst hn
    by_cases hp : word.isPrefixOf t = true
    · obtain ⟨t, rfl⟩ := List.isPrefixOf_iff_prefix.mp hp
      have hpos := List.length_pos_iff.mpr h
      exact found t (ih t.length (by rw [List.length_append]; omega) t rfl)
    · rw [Bool.not_eq_true] at hp
      cases t with
      | nil => exact nil
      | cons c t => exact other c t hp (ih t.length (Nat.lt_succ_self _) t rfl)

/-- The word stands wherever it is found. -/
theorem exists_of_mem_placesFrom (h : word ≠ []) (hstart : start ∈ placesFrom word h position t) :
    ∃ s u, t = s ++ (word ++ u) ∧ start = position + byteSize s := by
  induction t using searchInduction h generalizing position with
  | nil =>
    rw [placesFrom_nil] at hstart
    cases hstart
  | other c t hp ih =>
    rw [placesFrom_cons_of_not h hp] at hstart
    obtain ⟨s, u, rfl, rfl⟩ := ih hstart
    exact ⟨c :: s, u, rfl, by rw [byteSize_cons, Nat.add_assoc]⟩
  | found t ih =>
    rw [placesFrom_word] at hstart
    rcases List.mem_cons.mp hstart with rfl | hstart
    · exact ⟨[], t, rfl, rfl⟩
    · obtain ⟨s, u, rfl, rfl⟩ := ih hstart
      exact ⟨word ++ s, u, (List.append_assoc ..).symm, by rw [byteSize_append, Nat.add_assoc]⟩

/-- Places follow each other. -/
theorem pairwise_placesFrom (h : word ≠ []) (position : Nat) (t : Text) :
    (placesFrom word h position t).Pairwise (· < ·) := by
  induction t using searchInduction h generalizing position with
  | nil =>
    rw [placesFrom_nil]
    exact .nil
  | other c t hp ih =>
    rw [placesFrom_cons_of_not h hp]
    exact ih _
  | found t ih =>
    have hpos := Nat.pos_of_ne_zero (mt byteSize_eq_zero_iff.mp h)
    rw [placesFrom_word, List.pairwise_cons]
    refine ⟨fun start hstart => ?_, ih _⟩
    obtain ⟨s, -, -, rfl⟩ := exists_of_mem_placesFrom h hstart
    omega

/-- **The search goes on behind every break**: what it takes in front does not reach beyond it. -/
theorem placesFrom_subset_append {e : Char} (hw : IsName word) (he : isIdentifier e = false)
    (position : Nat) (s t : Text) :
    placesFrom word hw.ne_nil (position + byteSize s + e.utf8Size) t ⊆
      placesFrom word hw.ne_nil position (s ++ e :: t) := by
  induction hn : s.length using Nat.strongRecOn generalizing s position with
  | ind n ih =>
    subst hn
    by_cases hp : word.isPrefixOf (s ++ e :: t) = true
    · obtain ⟨s, rfl⟩ := hw.prefix_of_append he (List.isPrefixOf_iff_prefix.mp hp)
      have hlt : s.length < (word ++ s).length := by
        rw [List.length_append]
        have hpos := List.length_pos_iff.mpr hw.ne_nil
        omega
      rw [List.append_assoc, placesFrom_word, byteSize_append, ← Nat.add_assoc]
      exact List.subset_cons_of_subset _ (ih s.length hlt _ s rfl)
    · rw [Bool.not_eq_true] at hp
      cases s with
      | nil =>
        rw [List.nil_append] at hp ⊢
        rw [placesFrom_cons_of_not hw.ne_nil hp]
        exact List.Subset.refl _
      | cons c s =>
        rw [List.cons_append] at hp ⊢
        rw [placesFrom_cons_of_not hw.ne_nil hp, byteSize_cons, ← Nat.add_assoc]
        exact ih s.length (Nat.lt_succ_self _) _ s rfl

/-- **The search skips no identifier** that begins with the word. -/
theorem mem_placesFrom_append (hw : IsName word) (hs : endsIdentifier s = false) (position : Nat)
    (u : Text) : position + byteSize s ∈ placesFrom word hw.ne_nil position (s ++ (word ++ u)) := by
  obtain rfl | ⟨s, e, rfl⟩ := s.eq_nil_or_concat
  · rw [List.nil_append, placesFrom_word]
    exact List.mem_cons_self ..
  · rw [List.concat_eq_append] at hs ⊢
    have he : isIdentifier e = false := by simpa [endsIdentifier] using hs
    have hsubset := placesFrom_subset_append hw he position s (word ++ u)
    rw [placesFrom_word] at hsubset
    rw [List.append_assoc, List.singleton_append, byteSize_append, byteSize_cons, byteSize_nil,
      Nat.add_zero, ← Nat.add_assoc]
    exact hsubset (List.mem_cons_self ..)

/-! ## Standing alone -/

/-- The byte behind tells whether an identifier character stands behind. -/
theorem goesOn_append (s t : Text) : goesOn (s ++ t) (byteSize s) = .ok (beginsIdentifier t) := by
  cases t with
  | nil => rw [List.append_nil, goesOn, if_pos rfl, beginsIdentifier_nil]
  | cons c t =>
    have hpos := Char.utf8Size_pos c
    obtain ⟨byte, hbyte, h⟩ := exists_byteAt hpos s t
    rw [goesOn, if_neg (by rw [byteSize_append, byteSize_cons]; omega), ← Nat.add_zero (byteSize s),
      h, beginsIdentifier_cons, ← onByte_of_mem (fun _ => isAscii_of_isIdentifier) hbyte]
    rfl

/-- **A word stands alone** where its neighbours are none of an identifier, and asking for it makes
no misstep. -/
theorem standsAlone_append (s word u : Text) :
    standsAlone (s ++ (word ++ u)) (byteSize s) (byteSize word) =
      .ok (!endsIdentifier s && !beginsIdentifier u) := by
  have hgoesOn := goesOn_append (s ++ word) u
  rw [List.append_assoc, byteSize_append] at hgoesOn
  rw [standsAlone, insideIdentifier_append, hgoesOn]
  rfl

/-- Among places where it can be asked, those are found where it is so. -/
theorem exists_aloneAmong (h : ∀ start ∈ starts, ∃ alone, standsAlone t start size = .ok alone) :
    ∃ found, aloneAmong t size starts = .ok found ∧ found.Sublist starts ∧
      ∀ start, start ∈ found ↔ start ∈ starts ∧ standsAlone t start size = .ok true := by
  induction starts with
  | nil => exact ⟨[], rfl, .slnil, by simp⟩
  | cons first starts ih =>
    obtain ⟨⟨alone, halone⟩, h⟩ := List.forall_mem_cons.mp h
    obtain ⟨found, hfound, hsub, hmem⟩ := ih h
    refine ⟨if alone then first :: found else found, ?_, ?_, fun start => ?_⟩
    · rw [aloneAmong, halone, hfound]
      rfl
    · cases alone with
      | true => exact hsub.cons_cons first
      | false => exact hsub.cons first
    · rw [List.mem_cons, or_and_right, ← hmem]
      cases alone with
      | true =>
        rw [if_pos rfl, List.mem_cons]
        refine or_congr_left (iff_self_and.mpr ?_)
        rintro rfl
        exact halone
      | false =>
        rw [if_neg Bool.false_ne_true]
        refine (or_iff_right ?_).symm
        rintro ⟨rfl, htrue⟩
        rw [halone] at htrue
        cases htrue

/-! ## The count -/

/-- The places behind some text that are counted are as many as the whole words there. -/
theorem exists_aloneAmong_placesFrom (h : word ≠ []) (s t : Text) :
    ∃ found, aloneAmong (s ++ t) (byteSize word) (placesFrom word h (byteSize s) t) = .ok found ∧
      found.length = wholeWordsFrom word h (endsIdentifier s) t := by
  induction t using searchInduction h generalizing s with
  | nil =>
    rw [placesFrom_nil, wholeWordsFrom]
    exact ⟨[], rfl, rfl⟩
  | other c t hp ih =>
    obtain ⟨found, hfound, hlength⟩ := ih (s ++ [c])
    have hends : endsIdentifier (s ++ [c]) = isIdentifier c := by simp [endsIdentifier]
    rw [List.append_assoc, List.singleton_append, byteSize_append, byteSize_cons, byteSize_nil,
      Nat.add_zero] at hfound
    rw [placesFrom_cons_of_not h hp, wholeWordsFrom_cons_of_not h _ hp, ← hends]
    exact ⟨found, hfound, hlength⟩
  | found t ih =>
    obtain ⟨found, hfound, hlength⟩ := ih (s ++ word)
    rw [List.append_assoc, byteSize_append] at hfound
    rw [endsIdentifier_append_of_ne_nil h] at hlength
    refine ⟨if !endsIdentifier s && !beginsIdentifier t then byteSize s :: found else found, ?_, ?_⟩
    · rw [placesFrom_word, aloneAmong, standsAlone_append, hfound]
      rfl
    · rw [wholeWordsFrom_word h, ← hlength]
      split
      · rw [List.length_cons, Nat.add_comm]
      · rw [Nat.zero_add]

theorem exists_standsAlone (h : start ∈ places word t) :
    ∃ s u, t = s ++ (word ++ u) ∧ byteSize s = start ∧
      standsAlone t start (byteSize word) = .ok (!endsIdentifier s && !beginsIdentifier u) := by
  rw [places] at h
  split at h
  · cases h
  · next hne =>
    obtain ⟨s, u, rfl, rfl⟩ := exists_of_mem_placesFrom hne h
    rw [Nat.zero_add]
    exact ⟨s, u, rfl, rfl, standsAlone_append s word u⟩

/-- **Counting in place is counting whole words**, whatever the word, and makes no misstep. -/
theorem countWord_eq (word t : Text) : countWord word t = .ok (wholeWords word t) := by
  rw [countWord, wholePlaces, places, wholeWords]
  split
  · rfl
  · next h =>
    obtain ⟨found, hfound, hlength⟩ := exists_aloneAmong_placesFrom h [] t
    rw [List.nil_append, byteSize_nil] at hfound
    rw [hfound]
    exact congrArg Except.ok hlength

/-- **A word is counted once for each run of identifier bytes that is equal to it.** The search goes
through the text and makes no misstep, and of the places that it finds it keeps, in strictly
ascending order, those where such a run stands: it has skipped none, even if the word overlaps
itself. -/
theorem countWord_eq_length_runs (hw : IsName word) (t : Text) :
    countWord word t = .ok (wholeWords word t) ∧
      ∃ runs, wholePlaces word t = .ok runs ∧ runs.length = wholeWords word t ∧
        runs.Sublist (places word t) ∧ runs.Pairwise (· < ·) ∧
          ∀ start, start ∈ runs ↔ IsRunAt (bytes t) (bytes word) start := by
  have hplaces : places word t = placesFrom word hw.ne_nil 0 t := dif_neg hw.ne_nil
  have hasked : ∀ start ∈ places word t,
      ∃ alone, standsAlone t start (byteSize word) = .ok alone := fun start hstart => by
    obtain ⟨s, u, -, -, halone⟩ := exists_standsAlone hstart
    exact ⟨_, halone⟩
  obtain ⟨runs, hruns, hsub, hmem⟩ := exists_aloneAmong hasked
  have hcount : countWord word t = .ok runs.length := by
    rw [countWord, wholePlaces, hruns]
    rfl
  have hlength : runs.length = wholeWords word t :=
    Except.ok.inj (hcount.symm.trans (countWord_eq word t))
  have hsorted : runs.Pairwise (· < ·) :=
    (hplaces ▸ pairwise_placesFrom hw.ne_nil 0 t : (places word t).Pairwise (· < ·)).sublist hsub
  refine ⟨countWord_eq word t, runs, hruns, hlength, hsub, hsorted, fun start => ?_⟩
  rw [hmem, isRunAt_bytes_iff hw]
  constructor
  · rintro ⟨hstart, halone⟩
    obtain ⟨s, u, ht, hsize, hasks⟩ := exists_standsAlone hstart
    have hends : (!endsIdentifier s && !beginsIdentifier u) = true :=
      Except.ok.inj (hasks.symm.trans halone)
    rw [Bool.and_eq_true, Bool.not_eq_true', Bool.not_eq_true'] at hends
    exact ⟨s, u, ht, hsize, hends.1, hends.2⟩
  · rintro ⟨s, u, rfl, rfl, hs, hu⟩
    have hstart := mem_placesFrom_append hw hs 0 u
    rw [Nat.zero_add, ← hplaces] at hstart
    refine ⟨hstart, ?_⟩
    rw [standsAlone_append, hs, hu]
    rfl

/-- A word that overlaps itself, in longer identifiers and on its own. -/
theorem countWord_eq_length_runs_overlapping :
    let text := "aa aaaa é_aa aaa/aa".toList
    IsName "aa".toList ∧ countWord "aa".toList text = .ok 2 ∧
      ∃ runs, wholePlaces "aa".toList text = .ok runs ∧ runs.length = 2 ∧
        ∀ start, start ∈ runs ↔ IsRunAt (bytes text) (bytes "aa".toList) start := by
  have hw : IsName "aa".toList := by decide
  have hwhole : wholeWords "aa".toList "aa aaaa é_aa aaa/aa".toList = 2 := by
    decide +kernel
  obtain ⟨hcount, runs, hruns, hlength, -, -, hmem⟩ :=
    countWord_eq_length_runs hw "aa aaaa é_aa aaa/aa".toList
  rw [hwhole] at hcount hlength
  exact ⟨hw, hcount, runs, hruns, hlength, hmem⟩

end ShaderLoom.Cursor
