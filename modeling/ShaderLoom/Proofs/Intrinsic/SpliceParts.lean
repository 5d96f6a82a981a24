import ShaderLoom.Proofs.Intrinsic.SpliceShape

/-!
# Splicing by parts

A text is spliced part by part where its parts are apart (`Splices.append`). The other direction
needs more, since a call reaches behind its token: a text can be split in front of anything that
closes what it opens, provided that every token of the first part is **called** there
(`Splices.split`). Arguments are such parts.
-/

namespace ShaderLoom

open Text

variable {d : Dialect} {s t u a b r w : Text} {c : Char} {f : Intrinsic} {n : Nat}

/-! ## Joining -/

theorem IsSpacing.splices {gap : Text} (h : IsSpacing gap) : Splices d gap gap := by
  induction gap with
  | nil => exact .nil
  | cons c gap ih =>
    exact .other (h c (List.mem_cons_self ..)) (ih fun e he => h e (List.mem_cons_of_mem c he))

theorem IsSpacing.called {gap : Text} (h : IsSpacing gap) : Called gap := by
  induction gap with
  | nil => exact called_nil
  | cons c gap ih =>
    rw [called_cons_of_not (h c (List.mem_cons_self ..))]
    exact ih fun e he => h e (List.mem_cons_of_mem c he)

/-- **Texts that are apart** are spliced one by one. -/
theorem Splices.append (h : Splices d s a) (hu : Splices d u b) (hapart : Apart s u) :
    Splices d (s ++ u) (a ++ b) := by
  induction h with
  | nil => exact hu
  | @other c s a hc _ ih => exact .other hc (ih hapart.tail)
  | @word w s a hw ho _ ih =>
    rw [List.append_assoc, List.append_assoc]
    exact .word (hw.append hapart) ho (ih hapart.behind_word)
  | @call w s a f call hw ho _ hr ih =>
    rw [List.append_assoc, List.append_assoc]
    exact .call (hw.append hapart) ho (ih hapart.behind_word) (readCall_append hr b)

theorem head?_dropWhile_append (h : ((s ++ u).dropWhile isBlank).head? = some '(')
    (hu : (u.dropWhile isBlank).head? ≠ some '(') : (s.dropWhile isBlank).head? = some '(' := by
  rw [List.dropWhile_append] at h
  split at h
  · exact absurd h hu
  · next hne =>
    obtain ⟨c, s', hs⟩ := List.exists_cons_of_ne_nil (l := s.dropWhile isBlank) (by simpa using hne)
    rw [hs] at h ⊢
    exact h

/-- The tokens in front are called in front, unless the parenthesis stands behind. -/
theorem called_append_iff (hapart : Apart s u) (hu : (u.dropWhile isBlank).head? ≠ some '(') :
    Called (s ++ u) ↔ Called s ∧ Called u := by
  induction s using wordInduction with
  | nil => simp [called_nil]
  | other c s hc ih =>
    rw [List.cons_append, called_cons_of_not hc, called_cons_of_not hc, ih hapart.tail]
  | word w s hw ih =>
    rw [List.append_assoc]
    cases ho : Intrinsic.ofToken? w with
    | none =>
      rw [called_word_of_none (hw.append hapart) ho, called_word_of_none hw ho,
        ih hapart.behind_word]
    | some f =>
      rw [called_word_of_some (hw.append hapart) ho, called_word_of_some hw ho,
        ih hapart.behind_word, and_assoc]
      refine and_congr_left fun _ => ⟨fun h => head?_dropWhile_append h hu, fun h => ?_⟩
      -- the parenthesis stands in `s`, so `s` is not all blanks
      rw [List.dropWhile_append, if_neg, List.head?_append, h]
      · rfl
      · intro hempty
        rw [List.isEmpty_iff] at hempty
        rw [hempty] at h
        cases h

/-! ## Splitting -/

/-- What is left behind blanks of the buffer is what becomes of what is left behind the blanks of
the text. -/
theorem Splices.dropWhile (hrg : d.rg = "rg" ∨ d.rg = "ra") (h : Splices d t b) :
    Splices d (t.dropWhile isBlank) (b.dropWhile isBlank) := by
  induction t generalizing b with
  | nil =>
    obtain rfl := h.unique .nil
    exact .nil
  | cons c t ih =>
    by_cases hc : isBlank c = true
    · obtain ⟨b, hb, rfl⟩ := (splices_cons_iff (isIdentifier_of_isBlank hc)).mp h
      rw [List.dropWhile_cons_of_pos hc, List.dropWhile_cons_of_pos hc]
      exact ih hb
    · -- no expression begins with a blank
      have hink : ∀ e ∈ b.head?, isBlank e = false := by
        intro e he
        rcases h.head? hrg with hhead | hhead | hhead
        · cases hhead.symm.trans he
          simpa using hc
        · cases hhead.symm.trans he
          decide
        · cases hhead.symm.trans he
          decide
      rw [List.dropWhile_cons_of_neg hc, dropWhile_isBlank_of_head? hink]
      exact h

theorem Splices.inside (hrg : d.rg = "rg" ∨ d.rg = "ra") (h : Splices d t b) {inside : Text}
    (hopen : t.dropWhile isBlank = '(' :: inside) :
    ∃ b', b.dropWhile isBlank = '(' :: b' ∧ Splices d inside b' := by
  have hdrop := h.dropWhile hrg
  rw [hopen] at hdrop
  obtain ⟨b', hb', he⟩ := (splices_cons_iff (by decide)).mp hdrop
  exact ⟨b', he, hb'⟩

/-- **A text that closes its parentheses is spliced on its own**, if its tokens have parentheses in
it and no identifier goes on behind it. -/
theorem Splices.split (hrg : d.rg = "rg" ∨ d.rg = "ra") (h : Splices d (s ++ u) b)
    (ht : Uncommented (s ++ u)) (hcalled : Called s) (hd : depthAfter n s = some 0)
    (hu : beginsIdentifier u = false) :
    ∃ a r, b = a ++ r ∧ Splices d s a ∧ Splices d u r := by
  induction s using wordInduction generalizing b n with
  | nil => exact ⟨[], b, rfl, .nil, h⟩
  | other c s hc ih =>
    rw [List.cons_append] at h ht
    obtain ⟨b, hb, rfl⟩ := (splices_cons_iff hc).mp h
    rw [depthAfter_cons, Option.bind_eq_some_iff] at hd
    obtain ⟨m, -, hd⟩ := hd
    obtain ⟨a, r, rfl, ha, hr⟩ :=
      ih hb (uncommented_cons.mp ht).2 ((called_cons_of_not hc).mp hcalled) hd
    exact ⟨c :: a, r, rfl, .other hc ha, hr⟩
  | word w s hw ih =>
    have hw' : FirstWord w (s ++ u) := hw.append (.inr hu)
    rw [List.append_assoc] at h ht
    rw [hw.balanced.depthAfter_append] at hd
    cases ho : Intrinsic.ofToken? w with
    | none =>
      obtain ⟨b, hb, rfl⟩ := (splices_word_of_none_iff hw' ho).mp h
      obtain ⟨a, r, rfl, ha, hr⟩ :=
        ih hb ht.of_append_right ((called_word_of_none hw ho).mp hcalled) hd
      exact ⟨w ++ a, r, (List.append_assoc ..).symm, .word hw ho ha, hr⟩
    | some f =>
      obtain ⟨hopen, hcalled⟩ := (called_word_of_some hw ho).mp hcalled
      obtain ⟨b, call, hb, hread, rfl⟩ := (splices_word_of_some_iff hw' ho).mp h
      obtain ⟨a, r, rfl, ha, hr⟩ := ih hb ht.of_append_right hcalled hd
      have hs := ht.of_append_right.of_append_left
      -- the call is closed in front of `u`, so it is read from what becomes of `s`
      obtain ⟨inside, hinside⟩ := List.head?_eq_some_iff.mp hopen
      obtain ⟨inside', hinside', -⟩ := ha.inside hrg hinside
      rw [← ha.depthAfter_eq hrg hs] at hd
      obtain ⟨inner, hinner, rfl⟩ :=
        exists_readCall_of_append (ha.uncommented hrg hs) hd hinside' hread
      exact ⟨_, r, (List.append_assoc ..).symm, .call hw ho ha hinner, hr⟩

end ShaderLoom
