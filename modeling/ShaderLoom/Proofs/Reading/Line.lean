import ShaderLoom.Proofs.Reading.Qualifier
import ShaderLoom.Proofs.Text.Lines

/-!
# Lines that were written

The lines of a declaration are written from words. A **statement** is a layout qualifier, if there
is one, and words; a block begins with a statement, goes on with a line for each field, and ends
with a **closing line**. Each of them is read with one equation for `readLines` or `readBlock`.

A line that the reader passes over is **idle**: empty lines, directives and default precisions.
-/

namespace ShaderLoom.Reading

open Text

variable {vertex : Bool} {source line q text storage ty name w : Text} {rest more ws : List Text}
  {kind : DeclarationKind}

/-! ## Reading one line -/

/-- A line of less than three words declares nothing. -/
theorem readLines_of_short (hs : splitLayout line = .ok (q, text))
    (hw : (declarationWords text).length < 3) :
    readLines vertex source (line :: rest) = readLines vertex source rest := by
  rw [readLines, hs]
  simp only [bind, Except.bind]
  split
  · next h =>
    rw [h] at hw
    simp only [List.length_cons] at hw
    omega
  · rfl

/-- Neither does a line without a storage qualifier, but its layout qualifier is looked at. -/
theorem readLines_of_none (hs : splitLayout line = .ok (q, text))
    (hw : declarationWords text = storage :: ty :: name :: more)
    (hc : classify vertex storage ty name = none) :
    readLines vertex source (line :: rest) = (do
      let _ ← qualifierValue "location" q
      let _ ← qualifierValue "binding" q
      readLines vertex source rest) := by
  rw [readLines, hs]
  simp only [bind, Except.bind, hw]
  simp only [hc]

/-- A line that declares a variable. -/
theorem readLines_of_variable (hs : splitLayout line = .ok (q, text))
    (hw : declarationWords text = storage :: ty :: name :: more)
    (hc : classify vertex storage ty name = some kind) (hkind : ∀ k, kind ≠ .block k) :
    readLines vertex source (line :: rest) = (do
      let location ← qualifierValue "location" q
      let binding ← qualifierValue "binding" q
      (readLines vertex source rest).map
        (⟨String.ofList (bareName name), kind, location, binding,
          isUsed source (bareName name)⟩ :: ·)) := by
  rw [readLines, hs]
  simp only [bind, Except.bind, hw]
  simp only [hc]

/-- A line that opens a block. -/
theorem readLines_of_block {k : BlockKind} {body : BlockBody}
    (hs : splitLayout line = .ok (q, text))
    (hw : declarationWords text = storage :: ty :: name :: more)
    (hc : classify vertex storage ty name = some (.block k)) (hb : readBlock rest = some body) :
    readLines vertex source (line :: rest) = (do
      let _ ← qualifierValue "location" q
      let binding ← qualifierValue "binding" q
      (readLines vertex source body.rest).map
        (⟨String.ofList (dropEndWhile (· == '\x7b') ty), .block k, none, binding,
          body.isUsed source⟩ :: ·)) := by
  rw [readLines, hs]
  simp only [bind, Except.bind, hw]
  simp only [hc]
  split
  · rfl
  · split
    · rfl
    · split
      · next h =>
        rw [hb] at h
        cases h
      · next h =>
        rw [hb] at h
        cases h
        rfl

/-! ## Statements -/

/-- A line made of words, behind a layout qualifier if there is one. -/
def statement : Option Text → List Text → Text
  | none, ws => joinWords ws
  | some q, ws => "layout(".toList ++ (q ++ ')' :: ' ' :: joinWords ws)

theorem statement_none : statement none ws = joinWords ws := rfl

theorem statement_some :
    statement (some q) ws = "layout(".toList ++ (q ++ ')' :: ' ' :: joinWords ws) := rfl

/-- No parenthesis stands in code. -/
theorem parenthesis_not_mem_joinWords (hws : ∀ w ∈ ws, IsCode w) : '(' ∉ joinWords ws := by
  intro hmem
  rcases mem_joinWords hmem with he | ⟨w, hw, hmem⟩
  · revert he
    decide
  · exact (hws w hw).not_mem (by decide) hmem

/-- **A statement is split** behind its layout qualifier. -/
theorem splitLayout_statement {qualifiers : Option Text} (hq : ∀ q ∈ qualifiers, ')' ∉ q)
    (hne : ws ≠ []) (hws : ∀ w ∈ ws, IsCode w) :
    splitLayout (statement qualifiers ws) = .ok (qualifiers.getD [], joinWords ws) := by
  have hwords : ∀ w ∈ ws, IsWord w := fun w hw => (hws w hw).isWord
  have htrim : trim (joinWords ws) = joinWords ws := trim_joinWords hwords
  cases qualifiers with
  | none =>
    have hstrip : strip? "layout(".toList (joinWords ws) = none := by
      rw [strip?, if_neg]
      intro hlayout
      obtain ⟨s, hs⟩ := List.isPrefixOf_iff_prefix.mp hlayout
      refine parenthesis_not_mem_joinWords hws ?_
      rw [← hs]
      exact List.mem_append_left s (by decide)
    rw [statement_none, Option.getD_none, splitLayout, htrim, hstrip]
  | some q =>
    have hline : trim (statement (some q) ws) =
        "layout(".toList ++ (q ++ ')' :: ' ' :: joinWords ws) := by
      rw [statement_some]
      refine trim_eq_self (fun c hc => ?_) (fun c hc => ?_)
      · rw [List.head?_append, Option.mem_def] at hc
        obtain rfl := Option.some.inj hc
        decide
      · have hlast := joinWords_ne_nil hne hwords
        rw [List.getLast?_append, List.getLast?_append, List.getLast?_cons_of_ne_nil (by simp),
          List.getLast?_cons_of_ne_nil hlast, List.getLast?_eq_some_getLast hlast, Option.some_or,
          Option.some_or, ← List.getLast?_eq_some_getLast hlast] at hc
        exact getLast?_joinWords hwords c hc
    have hstrip : strip? "layout(".toList (trim (statement (some q) ws)) =
        some (q ++ ')' :: ' ' :: joinWords ws) := by
      rw [hline, strip?_eq_some_iff]
    have hrest : trim (' ' :: joinWords ws) = joinWords ws := by
      rw [trim_cons_of_white (by decide), htrim]
    rw [splitLayout, hstrip]
    simp only [cut?_append (hq q rfl), hrest, Option.getD_some]

/-- The words of a statement that say what is declared. -/
theorem declarationWords_joinWords (hws : ∀ w ∈ ws, IsCode w) :
    declarationWords (joinWords ws) =
      ws.filter fun w => !ignoredWords.contains (String.ofList w) := by
  rw [declarationWords, words_joinWords fun w hw => (hws w hw).isWord]

/-! ## Idle lines -/

/-- A line that declares nothing: an empty line, a directive, or a default precision. -/
def IsIdle (line : Text) : Prop :=
  line = [] ∨ line.head? = some '#' ∨ line = "precision highp float;".toList ∨
    line = "precision mediump float;".toList

instance (line : Text) : Decidable (IsIdle line) :=
  inferInstanceAs (Decidable (_ ∨ _ ∨ _ ∨ _))

theorem trim_directive (t : Text) : ∃ u, trim ('#' :: t) = '#' :: u := by
  have hdrop : ('#' :: t).dropWhile isWhite = '#' :: t := List.dropWhile_cons_of_neg (by decide)
  rw [trim, hdrop]
  obtain ⟨gap, he, hgap⟩ := exists_trimEnd ('#' :: t)
  cases hu : trimEnd ('#' :: t) with
  | nil =>
    rw [hu, List.nil_append] at he
    have hwhite := hgap '#' (by rw [← he]; exact List.mem_cons_self ..)
    exact absurd hwhite (by decide)
  | cons c u =>
    rw [hu] at he
    obtain rfl := (List.cons.inj he).1
    exact ⟨u, rfl⟩

/-- The first word of a directive is no qualifier. -/
theorem declarationWords_directive (t : Text) :
    ∃ w more, declarationWords ('#' :: t) = ('#' :: w) :: more := by
  have hdrop : ('#' :: t).dropWhile isWhite = '#' :: t := List.dropWhile_cons_of_neg (by decide)
  have hwords : ∃ w ws, words ('#' :: t) = ('#' :: w) :: ws := by
    rw [words]
    split
    · next h =>
      rw [hdrop] at h
      cases h
    · next c rest h =>
      rw [hdrop] at h
      cases h
      exact ⟨_, _, rfl⟩
  obtain ⟨w, ws, hwords⟩ := hwords
  have hcounts : ignoredWords.contains (String.ofList ('#' :: w)) = false := by
    rw [Bool.eq_false_iff, ne_eq, List.contains_iff_mem]
    intro hmem
    have hall : ∀ s ∈ ignoredWords, s.toList.head? ≠ some '#' := by decide
    refine hall _ hmem ?_
    rw [String.toList_ofList]
    rfl
  refine ⟨w, ws.filter fun w => !ignoredWords.contains (String.ofList w), ?_⟩
  rw [declarationWords, hwords, List.filter_cons_of_pos (by rw [hcounts]; rfl)]

theorem classify_directive : classify vertex ('#' :: w) ty name = none := by
  have hne : ∀ s : String, s.toList.head? ≠ some '#' → '#' :: w ≠ s.toList := by
    intro s hs h
    apply hs
    rw [← h]
    rfl
  have huniform := hne "uniform" (by decide)
  rw [classify, decide_eq_false huniform, decide_eq_false (hne "buffer" (by decide)),
    decide_eq_false (hne "in" (by decide)), decide_eq_false (hne "attribute" (by decide)),
    Bool.or_false, Bool.and_false, if_neg (by simp), if_neg huniform, if_neg (by simp)]

/-- A directive may have any number of words, but its first one is no storage qualifier. -/
theorem readLines_directive (t : Text) :
    readLines vertex source (('#' :: t) :: rest) = readLines vertex source rest := by
  obtain ⟨u, hu⟩ := trim_directive t
  obtain ⟨w, more, hwords⟩ := declarationWords_directive u
  have hstrip : strip? "layout(".toList ('#' :: u) = none := by
    rw [strip?, if_neg]
    simp
  have hsplit : splitLayout ('#' :: t) = .ok ([], '#' :: u) := by
    rw [splitLayout, hu, hstrip]
  rcases more with - | ⟨ty, - | ⟨name, more⟩⟩
  · refine readLines_of_short hsplit ?_
    rw [hwords]
    simp
  · refine readLines_of_short hsplit ?_
    rw [hwords]
    simp
  · rw [readLines_of_none hsplit hwords classify_directive, qualifierValue_nil, qualifierValue_nil]
    rfl

/-- Two words of a default precision count, and a declaration has three. -/
theorem readLines_defaultPrecision {precision : Text} (hprecision : IsCode precision)
    (hignored : ignoredWords.contains (String.ofList precision) = true) :
    readLines vertex source
        (statement none ["precision".toList, precision, "float;".toList] :: rest) =
      readLines vertex source rest := by
  have hws : ∀ w ∈ ["precision".toList, precision, "float;".toList], IsCode w := by
    intro w hw
    simp only [List.mem_cons, List.not_mem_nil, or_false] at hw
    rcases hw with rfl | rfl | rfl
    · decide
    · exact hprecision
    · decide
  refine readLines_of_short (splitLayout_statement (by simp) (by simp) hws) ?_
  rw [declarationWords_joinWords hws, List.filter_cons_of_pos (by decide),
    List.filter_cons_of_neg (by rw [hignored]; decide), List.filter_cons_of_pos (by decide),
    List.filter_nil]
  decide

/-- **An idle line is passed over.** -/
theorem readLines_idle (h : IsIdle line) :
    readLines vertex source (line :: rest) = readLines vertex source rest := by
  rcases h with rfl | h | rfl | rfl
  · have hsplit : splitLayout [] = .ok ([], []) := by decide
    refine readLines_of_short hsplit ?_
    rw [declarationWords, words_nil]
    decide
  · obtain ⟨t, rfl⟩ := List.head?_eq_some_iff.mp h
    exact readLines_directive t
  · have hprecision : IsCode "highp".toList := by decide
    exact readLines_defaultPrecision hprecision (by decide)
  · have hprecision : IsCode "mediump".toList := by decide
    exact readLines_defaultPrecision hprecision (by decide)

theorem readLines_append_of_idle {ls : List Text} (h : ∀ line ∈ ls, IsIdle line) :
    readLines vertex source (ls ++ rest) = readLines vertex source rest := by
  induction ls with
  | nil => rfl
  | cons line ls ih =>
    rw [List.cons_append, readLines_idle (h line (List.mem_cons_self ..)),
      ih fun l hl => h l (List.mem_cons_of_mem line hl)]

/-! ## Names -/

/-- The brackets behind a name: none, or a pair with digits in it or with nothing. -/
def IsBrackets (brackets : Text) : Prop :=
  brackets = [] ∨ ∃ count, brackets = '[' :: (count ++ [']']) ∧ ∀ c ∈ count, isIdentifier c = true

/-- The last word of a declaration: a name, brackets, and a semicolon. -/
def nameWord (name brackets : Text) : Text := name ++ brackets ++ [';']

theorem IsBrackets.isCode {brackets : Text} (hb : IsBrackets brackets) :
    ∀ c ∈ brackets, isCode c = true := by
  intro c hc
  rcases hb with rfl | ⟨count, rfl, hcount⟩
  · cases hc
  · rcases List.mem_cons.mp hc with rfl | hc
    · decide
    · rcases List.mem_append.mp hc with hc | hc
      · exact isCode_of_isIdentifier (hcount c hc)
      · obtain rfl := List.mem_singleton.mp hc
        decide

theorem isCode_nameWord {brackets : Text} (hname : IsName name) (hb : IsBrackets brackets) :
    IsCode (nameWord name brackets) := by
  refine (hname.isCode.append hb.isCode).append fun c hc => ?_
  obtain rfl := List.mem_singleton.mp hc
  decide

/-- **The name is found again.** -/
theorem bareName_nameWord {brackets : Text} (hname : IsName name) (hb : IsBrackets brackets) :
    bareName (nameWord name brackets) = name := by
  have hend : dropEndWhile (· == ';') (nameWord name brackets) = name ++ brackets := by
    have hlast : ∀ c ∈ (name ++ brackets).getLast?, (c == ';') = false := by
      intro c hc
      rcases hb with rfl | ⟨count, rfl, -⟩
      · rw [List.append_nil] at hc
        rw [beq_eq_false_iff_ne]
        rintro rfl
        exact hname.not_mem (by decide) (List.mem_of_getLast? hc)
      · rw [← List.cons_append, ← List.append_assoc, List.getLast?_concat] at hc
        cases hc
        decide
    change (name ++ brackets ++ [';']).rdropWhile (· == ';') = name ++ brackets
    rw [List.rdropWhile_concat_pos _ _ _ (by decide), List.rdropWhile_eq_self_iff]
    intro hne
    simpa using hlast _ (List.getLast?_eq_some_getLast hne)
  have hne : ∀ c ∈ name, (c != '[') = true := by
    intro c hc
    rw [bne_iff_ne]
    rintro rfl
    exact hname.not_mem (by decide) hc
  rw [bareName, hend, List.takeWhile_append_of_pos hne]
  rcases hb with rfl | ⟨count, rfl, -⟩
  · simp
  · simp

theorem getLast?_nameWord (name brackets : Text) :
    (nameWord name brackets).getLast? = some ';' := by
  rw [nameWord, List.getLast?_concat]

/-- The qualifiers without effect are told apart by their last characters. -/
theorem not_ignored_of_getLast? {c : Char} (h : w.getLast? = some c)
    (hc : ∀ s ∈ ignoredWords, s.toList.getLast? ≠ some c) :
    ignoredWords.contains (String.ofList w) = false := by
  rw [Bool.eq_false_iff, ne_eq, List.contains_iff_mem]
  intro hmem
  refine hc _ hmem ?_
  rw [String.toList_ofList]
  exact h

/-! ## Blocks -/

/-- The line of a field. -/
def fieldLine (ws : List Text) : Text := "    ".toList ++ joinWords ws

/-- The last line of a block. -/
def closingLine (instanceName : Text) : Text := '\x7d' :: ' ' :: (instanceName ++ [';'])

theorem readBlock_fieldLine (hty : IsName ty) (hname : IsCode name) :
    readBlock (fieldLine [ty, name] :: rest) =
      (readBlock rest).map fun body => { body with fields := bareName name :: body.fields } := by
  obtain ⟨c, ty, rfl⟩ := List.exists_cons_of_ne_nil hty.ne_nil
  have hwords : ∀ w ∈ [c :: ty, name], IsWord w := by
    intro w hw
    rcases List.mem_cons.mp hw with rfl | hw
    · exact hty.isCode.isWord
    · obtain rfl := List.mem_singleton.mp hw
      exact hname.isWord
  have htrim : trim (fieldLine [c :: ty, name]) = joinWords [c :: ty, name] := by
    have hblank : isWhite ' ' = true := by decide
    change trim (' ' :: ' ' :: ' ' :: ' ' :: joinWords [c :: ty, name]) = _
    rw [trim_cons_of_white hblank, trim_cons_of_white hblank, trim_cons_of_white hblank,
      trim_cons_of_white hblank, trim_joinWords hwords]
  have hstrip : strip? ['\x7d'] (joinWords [c :: ty, name]) = none := by
    have hc : c ≠ '\x7d' := by
      rintro rfl
      exact hty.not_mem (by decide) (List.mem_cons_self ..)
    rw [strip?, if_neg]
    simpa [joinWords, List.isPrefixOf] using Ne.symm hc
  have hadd : BlockBody.addLine (joinWords [c :: ty, name]) =
      fun body => { body with fields := bareName name :: body.fields } := by
    funext body
    rw [BlockBody.addLine, words_joinWords hwords]
  rw [readBlock, htrim, hstrip]
  simp only [hadd]

/-- **The instance name is found again.** -/
theorem readBlock_closingLine {instanceName : Text}
    (h : ∀ c ∈ instanceName, isIdentifier c = true) :
    readBlock (closingLine instanceName :: rest) = some ⟨[], instanceName, rest⟩ := by
  have hink : ∀ c ∈ instanceName, isWhite c = false :=
    fun c hc => isWhite_of_isCode (isCode_of_isIdentifier (h c hc))
  have hline : trim (closingLine instanceName) = '\x7d' :: ' ' :: (instanceName ++ [';']) := by
    refine trim_eq_self (fun c hc => ?_) (fun c hc => ?_)
    · cases hc
      decide
    · rw [closingLine, ← List.cons_append, ← List.cons_append, List.getLast?_concat] at hc
      cases hc
      decide
  have hafter : trim (' ' :: (instanceName ++ [';'])) = instanceName ++ [';'] := by
    rw [trim_cons_of_white (by decide)]
    refine trim_eq_self (fun c hc => ?_) (fun c hc => ?_)
    · rcases List.mem_append.mp (List.mem_of_head? hc) with hc | hc
      · exact hink c hc
      · obtain rfl := List.mem_singleton.mp hc
        decide
    · rw [List.getLast?_concat] at hc
      cases hc
      decide
  have hsemicolon : dropEndWhile (· == ';') (instanceName ++ [';']) = instanceName := by
    change (instanceName ++ [';']).rdropWhile (· == ';') = instanceName
    rw [List.rdropWhile_concat_pos _ _ _ (by decide), List.rdropWhile_eq_self_iff]
    intro hne hlast
    have hident := h _ (List.getLast_mem hne)
    rw [beq_iff_eq.mp hlast] at hident
    revert hident
    decide
  have htrim : trim instanceName = instanceName :=
    trim_eq_self (fun c hc => hink c (List.mem_of_head? hc))
      fun c hc => hink c (List.mem_of_getLast? hc)
  have hstrip : strip? ['\x7d'] (trim (closingLine instanceName)) =
      some (' ' :: (instanceName ++ [';'])) := by
    rw [hline, strip?_eq_some_iff]
    rfl
  rw [readBlock, hstrip]
  simp only [hafter, hsemicolon, htrim]

end ShaderLoom.Reading
