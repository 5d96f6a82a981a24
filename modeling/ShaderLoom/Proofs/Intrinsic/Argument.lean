import ShaderLoom.Proofs.Intrinsic.Call
import ShaderLoom.Proofs.Text.Nesting

/-!
# Arguments without comments

What stands behind an argument has no part in reading it, so a call that was read stays the same
call when more text follows (`readCall_append`).

Where no comment begins, reading an argument is a question of nesting alone. **`argument_iff`**: the
argument of a text is the balanced text in front of the first stop. So a call that stands in a text
which closes all its parentheses is read within that text (`exists_readCall_of_append`).
-/

namespace ShaderLoom

open Text

variable {f : Intrinsic} {s t u : Text} {a : Argument} {call : Call} {c : Char} {m n : Nat}
  {stop : Delimiter}

/-! ## Delimiters -/

theorem Delimiter.char_eq (stop : Delimiter) : stop.char = ',' ∨ stop.char = ')' := by
  cases stop with
  | comma => exact .inl rfl
  | close => exact .inr rfl

theorem Delimiter.exists_char (h : c = ',' ∨ c = ')') : ∃ stop : Delimiter, stop.char = c := by
  rcases h with rfl | rfl
  · exact ⟨.comma, rfl⟩
  · exact ⟨.close, rfl⟩

/-! ## One argument -/

/-- A character that a comment does not begin with takes one step. -/
theorem readArgument_cons_of_step (h : ∀ d ∈ t.head?, ¬ Opens c d) (hc : depthStep n c = some m) :
    readArgument (.code n) (c :: t) = (readArgument (.code m) t).map (Argument.prepend [c]) := by
  rw [readArgument]
  · rw [depthStep] at hc
    split at hc
    · next hopen =>
      cases hc
      rw [if_pos hopen]
    · next hopen =>
      split at hc
      · cases hc
      · next hstop =>
        rw [if_neg hopen, if_neg fun hs => hstop ⟨hs.1, .inl hs.2⟩,
          if_neg fun hs => hstop ⟨hs.1, .inr hs.2⟩]
        split at hc
        · next hclose =>
          cases hc
          rw [if_pos hclose]
        · next hclose =>
          cases hc
          rw [if_neg hclose]
  · rintro u rfl rfl
    exact h '/' rfl ⟨rfl, .inl rfl⟩
  · rintro u rfl rfl
    exact h '*' rfl ⟨rfl, .inr rfl⟩

theorem readArgument_delimiter (stop : Delimiter) (rest : Text) :
    readArgument (.code 0) (stop.char :: rest) = .ok ⟨[], stop, rest⟩ := by
  cases stop with
  | comma => simp [Delimiter.char, readArgument]
  | close => simp [Delimiter.char, readArgument]

/-- An argument is read up to the first stop. -/
theorem readArgument_stop (hs : Uncommented s) (hd : depthAfter n s = some 0) (stop : Delimiter)
    (rest : Text) : readArgument (.code n) (s ++ stop.char :: rest) = .ok ⟨s, stop, rest⟩ := by
  induction s generalizing n with
  | nil =>
    cases hd
    exact readArgument_delimiter stop rest
  | cons c s ih =>
    obtain ⟨hhead, hs⟩ := uncommented_cons.mp hs
    rw [depthAfter_cons, Option.bind_eq_some_iff] at hd
    obtain ⟨m, hm, hd⟩ := hd
    have hhead' : ∀ d ∈ (s ++ stop.char :: rest).head?, ¬ Opens c d := by
      intro d hd
      cases s with
      | nil =>
        cases hd
        rcases stop.char_eq with he | he
        · exact not_opens_of_right (by rw [he]; decide) (by rw [he]; decide) c
        · exact not_opens_of_right (by rw [he]; decide) (by rw [he]; decide) c
      | cons e s => exact hhead d hd
    rw [List.cons_append, readArgument_cons_of_step hhead' hm, ih hs hd]
    rfl

/-- What is read as an argument has its stop right behind. -/
theorem depthAfter_of_readArgument (ht : Uncommented t) (h : readArgument (.code n) t = .ok a) :
    depthAfter n a.text = some 0 := by
  induction t generalizing n a with
  | nil =>
    rw [readArgument] at h
    cases h
  | cons c t ih =>
    obtain ⟨hhead, ht⟩ := uncommented_cons.mp ht
    cases hc : depthStep n c with
    | none =>
      obtain ⟨rfl, hstop⟩ := depthStep_eq_none_iff.mp hc
      obtain ⟨stop, rfl⟩ := Delimiter.exists_char hstop
      rw [readArgument_delimiter] at h
      cases h
      rfl
    | some m =>
      rw [readArgument_cons_of_step hhead hc] at h
      obtain ⟨b, hb, rfl⟩ := Argument.map_prepend_eq_ok h
      rw [Argument.prepend, List.singleton_append, depthAfter_cons, hc]
      exact ih ht hb

/-- **The argument of a text without comments** is the balanced text in front of its first stop. -/
theorem argument_iff (ht : Uncommented t) :
    argument t = .ok a ↔ t = a.text ++ a.stop.char :: a.rest ∧ Balanced a.text := by
  constructor
  · intro h
    exact ⟨eq_of_readArgument h, depthAfter_of_readArgument ht h⟩
  · rintro ⟨he, hbalanced⟩
    rw [he] at ht
    rw [he, argument, readArgument_stop ht.of_append_left hbalanced]

theorem argument_balanced (hs : Uncommented s) (hb : Balanced s) (stop : Delimiter) (rest : Text) :
    argument (s ++ stop.char :: rest) = .ok ⟨s, stop, rest⟩ :=
  readArgument_stop hs hb stop rest

/-- **A text has an argument** exactly when it has a stop. -/
theorem exists_argument_iff (ht : Uncommented t) :
    (∃ a, argument t = .ok a) ↔ depthAfter 0 t = none := by
  constructor
  · rintro ⟨a, h⟩
    obtain ⟨he, hbalanced⟩ := (argument_iff ht).mp h
    rw [he]
    exact depthAfter_stop hbalanced a.stop.char_eq
  · intro h
    obtain ⟨s, c, u, rfl, hs, hc⟩ := exists_stop h
    obtain ⟨stop, rfl⟩ := Delimiter.exists_char hc
    exact ⟨_, argument_balanced ht.of_append_left hs stop u⟩

/-- What stands behind the delimiter has no part in reading. -/
theorem readArgument_append {m : Argument.Mode} (h : readArgument m t = .ok a) (u : Text) :
    readArgument m (t ++ u) = .ok { a with rest := a.rest ++ u } := by
  have step {r r' : Except CallFault Argument} {lead : Text} {a : Argument}
      (ih : ∀ {a : Argument}, r = .ok a → r' = .ok { a with rest := a.rest ++ u })
      (h : r.map (Argument.prepend lead) = .ok a) :
      r'.map (Argument.prepend lead) = .ok { a with rest := a.rest ++ u } := by
    obtain ⟨b, hb, rfl⟩ := Argument.map_prepend_eq_ok h
    rw [ih hb]
    rfl
  -- the character ahead is the same
  have hahead {c e x y : Char} {rest : Text}
      (h : ∀ rest', c = x → e :: rest = y :: rest' → False) (rest' : Text) (hc : c = x)
      (he : e :: rest ++ u = y :: rest') : False :=
    h rest hc (congrArg (· :: rest) (List.cons.inj he).1)
  fun_induction readArgument m t generalizing a
  case case1 => cases h
  case case2 ih => exact step ih h
  case case3 ih => exact step ih h
  case case4 depth rest _ _ ih =>
    rw [List.cons_append, readArgument, if_pos rfl]
    · exact step ih h
    all_goals simp
  case case5 depth c rest _ _ _ hstop =>
    obtain ⟨rfl, rfl⟩ := hstop
    cases h
    exact readArgument_delimiter .comma (rest ++ u)
  case case6 depth c rest _ _ _ _ hstop =>
    obtain ⟨rfl, rfl⟩ := hstop
    cases h
    exact readArgument_delimiter .close (rest ++ u)
  case case7 depth rest _ _ _ _ hclose ih =>
    rw [List.cons_append, readArgument, if_neg (by decide), if_neg (by simp), if_neg hclose,
      if_pos rfl]
    · exact step ih h
    all_goals simp
  case case8 depth c rest hline hblock hopen hcomma hclose hparen ih =>
    cases rest with
    | nil =>
      rw [readArgument] at h
      cases h
    | cons e rest =>
      rw [List.cons_append, readArgument, if_neg hopen, if_neg hcomma, if_neg hclose,
        if_neg hparen]
      · exact step ih h
      · exact hahead hline
      · exact hahead hblock
  case case9 => cases h
  case case10 hend ih =>
    rw [List.cons_append, readArgument, if_pos hend]
    exact step ih h
  case case11 hend ih =>
    rw [List.cons_append, readArgument, if_neg hend]
    exact step ih h
  case case12 => cases h
  case case13 ih => exact step ih h
  case case14 depth c rest hends ih =>
    cases rest with
    | nil =>
      rw [readArgument] at h
      cases h
    | cons e rest =>
      rw [List.cons_append, readArgument]
      · exact step ih h
      · exact hahead hends

theorem argument_append (h : argument t = .ok a) (u : Text) :
    argument (t ++ u) = .ok { a with rest := a.rest ++ u } :=
  readArgument_append h u

theorem Text.Uncommented.rest (ht : Uncommented t) (h : argument t = .ok a) :
    Uncommented a.rest := by
  rw [eq_of_readArgument h] at ht
  exact (uncommented_cons.mp ht.of_append_right).2

theorem Text.Uncommented.text (ht : Uncommented t) (h : argument t = .ok a) :
    Uncommented a.text := by
  rw [eq_of_readArgument h] at ht
  exact ht.of_append_left

/-! ## The end of an argument list -/

theorem closeArguments_close (rest : Text) : closeArguments .close rest = .ok () := by
  rw [closeArguments]

theorem closeArguments_comma_iff :
    closeArguments .comma t = .ok () ↔
      ∃ a, argument t = .ok a ∧ closeArguments a.stop a.rest = .ok () := by
  rw [closeArguments]
  constructor
  · intro h
    split at h
    · cases h
    · next a ha => exact ⟨a, ha, h⟩
  · rintro ⟨a, ha, hc⟩
    split
    · next fault hf =>
      rw [ha] at hf
      cases hf
    · next b hb =>
      rw [ha] at hb
      cases hb
      exact hc

theorem closeArguments_append (h : closeArguments stop t = .ok ()) (u : Text) :
    closeArguments stop (t ++ u) = .ok () := by
  induction hn : t.length using Nat.strongRecOn generalizing t stop with
  | ind n ih =>
    subst hn
    cases stop with
    | close => exact closeArguments_close _
    | comma =>
      obtain ⟨a, ha, hc⟩ := closeArguments_comma_iff.mp h
      have hlt := length_of_argument ha
      exact closeArguments_comma_iff.mpr
        ⟨_, argument_append ha u, ih a.rest.length (by omega) hc rfl⟩

/-! ## Texts that close a parenthesis -/

/-- A text that closes a parenthesis in front of it has an argument, and behind a comma it still
closes the parenthesis. -/
theorem exists_argument_of_closes (ht : Uncommented t) (h : depthAfter (n + 1) t = some 0) :
    ∃ a, argument t = .ok a ∧ (a.stop = .comma → depthAfter (n + 1) a.rest = some 0) := by
  have hnone : depthAfter 0 t = none := by
    cases hd : depthAfter 0 t with
    | none => rfl
    | some k =>
      have hadd := depthAfter_add hd (n + 1)
      rw [Nat.add_zero, h, Option.some_inj] at hadd
      omega
  obtain ⟨a, ha⟩ := (exists_argument_iff ht).mpr hnone
  obtain ⟨he, hbalanced⟩ := (argument_iff ht).mp ha
  refine ⟨a, ha, fun hcomma => ?_⟩
  rw [he, hbalanced.depthAfter_append, hcomma] at h
  exact h

/-- Such a text ends the argument list. -/
theorem closeArguments_of_closes (ht : Uncommented t) (h : depthAfter (n + 1) t = some 0) :
    closeArguments .comma t = .ok () := by
  induction hn : t.length using Nat.strongRecOn generalizing t with
  | ind k ih =>
    subst hn
    obtain ⟨a, ha, hrest⟩ := exists_argument_of_closes ht h
    have hlt := length_of_argument ha
    refine closeArguments_comma_iff.mpr ⟨a, ha, ?_⟩
    cases hstop : a.stop with
    | close => exact closeArguments_close _
    | comma => exact ih a.rest.length (by omega) (ht.rest ha) (hrest hstop) rfl

/-! ## Whole calls -/

/-- Blanks leave the depth as it is. -/
theorem depthAfter_dropWhile_isBlank (t : Text) (n : Nat) :
    depthAfter n (t.dropWhile isBlank) = depthAfter n t := by
  obtain ⟨blanks, ht, hblanks⟩ := exists_blanks t
  conv_rhs => rw [ht, (balanced_of_blanks hblanks).depthAfter_append]

theorem Text.Uncommented.dropWhile (ht : Uncommented t) : Uncommented (t.dropWhile isBlank) := by
  obtain ⟨blanks, he, -⟩ := exists_blanks t
  rw [he] at ht
  exact ht.of_append_right

theorem Text.Uncommented.inside (ht : Uncommented t) {inside : Text}
    (hopen : t.dropWhile isBlank = '(' :: inside) : Uncommented inside := by
  have hdrop := ht.dropWhile
  rw [hopen] at hdrop
  exact (uncommented_cons.mp hdrop).2

theorem argument_nil : argument [] = .error .openArgument := by
  rw [argument, readArgument]

/-- An argument behind blanks is the same argument when more text follows. -/
theorem argument_dropWhile_append (h : argument (t.dropWhile isBlank) = .ok a) (u : Text) :
    argument ((t ++ u).dropWhile isBlank) = .ok { a with rest := a.rest ++ u } := by
  have hne : t.dropWhile isBlank ≠ [] := by
    intro hnil
    rw [hnil, argument_nil] at h
    cases h
  rw [List.dropWhile_append, if_neg (by simpa using hne)]
  exact argument_append h u

/-- What a call needs to be read again with `u` behind it. -/
theorem completeCall_append {first : Argument} (h : f.completeCall first = .ok call) (u : Text) :
    f.completeCall { first with rest := first.rest ++ u } =
      .ok { call with rest := call.rest ++ u } := by
  cases hf : f.isVideo with
  | false =>
    obtain ⟨hne, hclose, rfl⟩ := (simpleCall_iff hf).mp h
    exact (simpleCall_iff hf).mpr ⟨hne, closeArguments_append hclose u, rfl⟩
  | true =>
    obtain ⟨hne, hstop, second, harg, hclose, rfl⟩ := (videoCall_iff hf).mp h
    exact (videoCall_iff hf).mpr
      ⟨hne, hstop, _, argument_dropWhile_append harg u, hclose, rfl⟩

/-- **A call stays the call it is** when more text follows. -/
theorem readCall_append (h : f.readCall t = .ok call) (u : Text) :
    f.readCall (t ++ u) = .ok { call with rest := call.rest ++ u } := by
  obtain ⟨inside, first, hopen, harg, hc⟩ := readCall_iff.mp h
  have hdrop : (t ++ u).dropWhile isBlank = '(' :: (inside ++ u) := by
    rw [List.dropWhile_append, hopen]
    rfl
  exact readCall_iff.mpr ⟨inside ++ u, _, hdrop, argument_dropWhile_append harg u,
    completeCall_append hc u⟩

/-- A call whose arguments stand in a text that closes a parenthesis in front is completed within
that text. -/
theorem exists_completeCall_of_closes {first : Argument} (hrest : Uncommented first.rest)
    (hcloses : first.stop = .comma → depthAfter (n + 1) first.rest = some 0)
    (h : f.completeCall { first with rest := first.rest ++ u } = .ok call) :
    ∃ inner, f.completeCall first = .ok inner := by
  cases hf : f.isVideo with
  | false =>
    obtain ⟨hne, -, -⟩ := (simpleCall_iff hf).mp h
    refine ⟨_, (simpleCall_iff hf).mpr ⟨hne, ?_, rfl⟩⟩
    cases hstop : first.stop with
    | close => exact closeArguments_close _
    | comma => exact closeArguments_of_closes hrest (hcloses hstop)
  | true =>
    obtain ⟨hne, hstop, second, harg, hclose, -⟩ := (videoCall_iff hf).mp h
    have hdepth := hcloses hstop
    rw [← depthAfter_dropWhile_isBlank] at hdepth
    obtain ⟨inner, hinner, -⟩ := exists_argument_of_closes hrest.dropWhile hdepth
    rw [argument_dropWhile_append hinner u] at harg
    cases harg
    exact ⟨_, (videoCall_iff hf).mpr ⟨hne, hstop, inner, hinner, hclose, rfl⟩⟩

/-- **A call is read within a text** that closes all its parentheses, if its own parenthesis stands
there. -/
theorem exists_readCall_of_append (ht : Uncommented t) (hd : depthAfter n t = some 0)
    {inside : Text} (hopen : t.dropWhile isBlank = '(' :: inside)
    (h : f.readCall (t ++ u) = .ok call) :
    ∃ inner, f.readCall t = .ok inner ∧ call = { inner with rest := inner.rest ++ u } := by
  have hdepth : depthAfter (n + 1) (inside.dropWhile isBlank) = some 0 := by
    rw [← depthAfter_dropWhile_isBlank, hopen] at hd
    rw [depthAfter_dropWhile_isBlank]
    exact hd
  have hinside := ht.inside hopen
  obtain ⟨first, harg, hcloses⟩ := exists_argument_of_closes hinside.dropWhile hdepth
  have hread : ∃ inner, f.readCall t = .ok inner := by
    obtain ⟨inside', first', hopen', harg', hc⟩ := readCall_iff.mp h
    rw [List.dropWhile_append, hopen, if_neg (by simp), List.cons_append] at hopen'
    obtain ⟨-, rfl⟩ := List.cons.inj hopen'
    rw [argument_dropWhile_append harg u] at harg'
    cases harg'
    obtain ⟨inner, hinner⟩ :=
      exists_completeCall_of_closes (hinside.dropWhile.rest harg) hcloses hc
    exact ⟨inner, readCall_iff.mpr ⟨inside, first, hopen, harg, hinner⟩⟩
  obtain ⟨inner, hinner⟩ := hread
  refine ⟨inner, hinner, ?_⟩
  rw [readCall_append hinner u] at h
  cases h
  rfl

end ShaderLoom
