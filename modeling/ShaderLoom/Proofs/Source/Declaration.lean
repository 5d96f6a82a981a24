import ShaderLoom.Proofs.Reading.Item
import ShaderLoom.Proofs.Text.Braces

/-!
# The lines of declarations

The lines of an item are either the statement of one variable or a block (`Item.lines_spec`). In
both cases each line has at most the parenthesis of a layout qualifier, which stands at its start,
and ends with punctuation; and whatever braces are opened are closed again.
-/

namespace ShaderLoom

open Text Reading

variable {vertex : Bool} {ws ls : List Text} {w line : Text} {item : Item}

/-! ## Characters of declarations -/

/-- The characters of a declaration, but for the parenthesis that opens a layout qualifier. -/
def isPlain (c : Char) : Bool := isCode c || c == ' ' || c == ',' || c == '=' || c == ')'

/-- A line with at most one opening parenthesis, the one of a layout qualifier at its start, and
with punctuation at its end. -/
def IsDeclarationLine (line : Text) : Prop :=
  ∃ lead s c, line = lead ++ (s ++ [c]) ∧ (lead = [] ∨ lead = "layout(".toList) ∧
    (∀ e ∈ s, isPlain e = true) ∧ (c = ';' ∨ c = '\x7b')

theorem isPlain_of_isCode {c : Char} (h : isCode c = true) : isPlain c = true := by
  simp [isPlain, h]

theorem isPlain_of_mem_joinWords {c : Char} (hws : ∀ w ∈ ws, ∀ c ∈ w, isCode c = true)
    (hc : c ∈ joinWords ws) : isPlain c = true := by
  rcases mem_joinWords hc with rfl | ⟨w, hw, hc⟩
  · decide
  · exact isPlain_of_isCode (hws w hw c hc)

theorem joinWords_append_singleton (ws : List Text) (w t : Text) :
    joinWords (ws ++ [w ++ t]) = joinWords (ws ++ [w]) ++ t := by
  induction ws with
  | nil => rfl
  | cons v ws ih =>
    rw [List.cons_append, List.cons_append, joinWords_cons (by simp), joinWords_cons (by simp), ih,
      List.append_assoc, List.cons_append]

theorem statement_append_singleton (qualifiers : Option Text) (ws : List Text) (w t : Text) :
    statement qualifiers (ws ++ [w ++ t]) = statement qualifiers (ws ++ [w]) ++ t := by
  cases qualifiers with
  | none => exact joinWords_append_singleton ws w t
  | some q =>
    rw [statement_some, statement_some, joinWords_append_singleton, List.append_assoc,
      List.append_assoc, List.cons_append, List.cons_append]

/-- A line of words of code that ends with punctuation. -/
theorem isDeclarationLine_statement (ws : List Text) (w : Text) {qualifiers : Option Text}
    {c : Char} (hq : ∀ q ∈ qualifiers, ∀ e ∈ q, isPlain e = true)
    (hws : ∀ w ∈ ws, ∀ e ∈ w, isCode e = true) (hw : ∀ e ∈ w, isCode e = true)
    (hc : c = ';' ∨ c = '\x7b') :
    IsDeclarationLine (statement qualifiers (ws ++ [w ++ [c]])) := by
  have hall : ∀ v ∈ ws ++ [w], ∀ e ∈ v, isCode e = true := by
    intro v hv
    rcases List.mem_append.mp hv with hv | hv
    · exact hws v hv
    · obtain rfl := List.mem_singleton.mp hv
      exact hw
  have hplain : ∀ e ∈ joinWords (ws ++ [w]), isPlain e = true :=
    fun e he => isPlain_of_mem_joinWords hall he
  cases qualifiers with
  | none =>
    refine ⟨[], joinWords (ws ++ [w]), c, ?_, .inl rfl, hplain, hc⟩
    rw [statement_append_singleton, statement_none, List.nil_append]
  | some q =>
    refine ⟨"layout(".toList, q ++ ')' :: ' ' :: joinWords (ws ++ [w]), c, ?_, .inr rfl, ?_, hc⟩
    · rw [statement_append_singleton, statement_some, List.append_assoc]
    · intro e he
      rcases List.mem_append.mp he with he | he
      · exact hq q rfl e he
      · rcases List.mem_cons.mp he with rfl | he
        · decide
        · rcases List.mem_cons.mp he with rfl | he
          · decide
          · exact hplain e he

theorem isDeclarationLine_fieldLine {name brackets : Text} (ty : ShaderType) (hname : IsName name)
    (hb : IsBrackets brackets) :
    IsDeclarationLine (fieldLine [ty.keyword.toList, nameWord name brackets]) := by
  refine ⟨[], "    ".toList ++ joinWords ([ty.keyword.toList] ++ [name ++ brackets]), ';', ?_,
    .inl rfl, ?_, .inl rfl⟩
  · have hjoin := joinWords_append_singleton [ty.keyword.toList] (name ++ brackets) [';']
    rw [List.nil_append, List.append_assoc, ← hjoin]
    rfl
  · intro e he
    rcases List.mem_append.mp he with he | he
    · have hblanks : ∀ e ∈ "    ".toList, isPlain e = true := List.all_eq_true.mp (by decide)
      exact hblanks e he
    · refine isPlain_of_mem_joinWords (fun w hw => ?_) he
      rcases List.mem_cons.mp hw with rfl | hw
      · exact (isName_keyword ty).isCode.all
      · obtain rfl := List.mem_singleton.mp hw
        exact (hname.isCode.append hb.isCode).all

/-- A line of the fields of a block declares one name. -/
theorem exists_of_mem_fieldLines {openEnded : Bool} {fields : List BlockField}
    (h : ∀ f ∈ fields, IsName f.name.toList) (hline : line ∈ fieldLines openEnded fields) :
    ∃ (ty : ShaderType) (name brackets : Text), IsName name ∧ IsBrackets brackets ∧
      line = fieldLine [ty.keyword.toList, nameWord name brackets] := by
  fun_induction fieldLines openEnded fields with
  | case1 => cases hline
  | case2 f bracketText =>
    refine ⟨f.ty, f.name.toList, bracketText.toList, h f (List.mem_singleton_self f), ?_,
      List.mem_singleton.mp hline⟩
    simp only [bracketText]
    split
    · exact .inr ⟨[], rfl, fun c hc => absurd hc List.not_mem_nil⟩
    · exact isBrackets_arrayBrackets f.count
  | case3 f fields _ ih =>
    rcases List.mem_cons.mp hline with hline | hline
    · exact ⟨f.ty, f.name.toList, (arrayBrackets f.count).toList, h f (List.mem_cons_self ..),
        isBrackets_arrayBrackets f.count, hline⟩
    · exact ih (fun g hg => h g (List.mem_cons_of_mem f hg)) hline

theorem isDeclarationLine_closingLine {instanceName : Text}
    (h : ∀ c ∈ instanceName, isIdentifier c = true) :
    IsDeclarationLine (closingLine instanceName) := by
  refine ⟨[], '\x7d' :: ' ' :: instanceName, ';', rfl, .inl rfl, ?_, .inl rfl⟩
  intro e he
  rcases List.mem_cons.mp he with rfl | he
  · decide
  · rcases List.mem_cons.mp he with rfl | he
    · decide
    · exact isPlain_of_isCode (isCode_of_isIdentifier (h e he))

/-! ## Qualifiers -/

/-- The characters inside a layout qualifier. -/
def IsQualifier (c : Char) : Prop := isIdentifier c = true ∨ c = ',' ∨ c = ' ' ∨ c = '='

theorem IsQualifier.isPlain {c : Char} (h : IsQualifier c) : isPlain c = true := by
  rcases h with h | rfl | rfl | rfl
  · exact isPlain_of_isCode (isCode_of_isIdentifier h)
  all_goals decide

theorem IsQualifier.isBraceless {c : Char} (h : IsQualifier c) : isBraceless c = true := by
  rcases h with h | rfl | rfl | rfl
  · exact isBraceless_of_isIdentifier h
  all_goals decide

theorem isQualifier_location {number : Option Nat} :
    ∀ q ∈ layoutQualifiers none [] "location" number, ∀ c ∈ q, IsQualifier c := by
  intro q hq c hc
  refine mem_layoutQualifiers ?_ (.inl rfl) (by decide) hq hc
  rintro p ⟨⟩

theorem isQualifier_packing {b : Block} {number : Option Nat} {q : Text}
    (hq : q ∈ layoutQualifiers (some b.packing.qualifier.toList) [] "binding" number) :
    ∀ c ∈ q, IsQualifier c := by
  intro c hc
  refine mem_layoutQualifiers ?_ (.inl rfl) (by decide) hq hc
  rintro p ⟨⟩
  exact b.packing.isName_qualifier.all

/-! ## Variables and blocks -/

theorem Reading.IsVariable.isDeclarationLine {lead precision : List Text}
    {storage name brackets : Text}
    {qualifiers : Option Text} (h : IsVariable lead storage precision name brackets)
    (hq : ∀ q ∈ qualifiers, ∀ c ∈ q, IsQualifier c) (ty : ShaderType) :
    IsDeclarationLine
      (statement qualifiers (variableWords lead storage precision ty name brackets)) := by
  have hwords : variableWords lead storage precision ty name brackets =
      (lead ++ storage :: (precision ++ [ty.keyword.toList])) ++ [name ++ brackets ++ [';']] := by
    simp [variableWords, nameWord]
  have hcode := h.isCode (t := ty)
  rw [hwords] at hcode ⊢
  refine isDeclarationLine_statement _ _ (fun q hq' e he => (hq q hq' e he).isPlain)
    (fun w hw => ?_) (fun e he => ?_) (.inl rfl)
  · exact (hcode w (List.mem_append_left _ hw)).all
  · exact (h.name_isName.isCode.append h.brackets_isBrackets.isCode).all e he

theorem isDeclarationLine_blockLines {name instanceName : String} {b : Block} {binding : Option Nat}
    {openEnded : Bool} (hname : IsName name.toList)
    (hinstance : ∀ c ∈ instanceName.toList, isIdentifier c = true)
    (hfields : ∀ f ∈ b.fields, IsName f.name.toList) :
    ∀ line ∈ blockLines name instanceName b binding openEnded, IsDeclarationLine line := by
  intro line hline
  rcases List.mem_cons.mp hline with rfl | hline
  · refine isDeclarationLine_statement [b.kind.type.keyword.toList, name.toList] []
      (fun q hq e he => (isQualifier_packing hq e he).isPlain) ?_
      (fun e he => absurd he List.not_mem_nil) (.inr rfl)
    intro w hw
    rcases List.mem_cons.mp hw with rfl | hw
    · exact (isName_keyword _).isCode.all
    · obtain rfl := List.mem_singleton.mp hw
      exact hname.isCode.all
  · rcases List.mem_append.mp hline with hline | hline
    · obtain ⟨ty, field, brackets, hfield, hb, rfl⟩ := exists_of_mem_fieldLines hfields hline
      exact isDeclarationLine_fieldLine ty hfield hb
    · obtain rfl := List.mem_singleton.mp hline
      exact isDeclarationLine_closingLine hinstance

/-- The lines of a declaration: the statement of a variable, or a block. -/
inductive AreDeclaration : List Text → Prop
  /-- a variable -/
  | single {lead precision : List Text} {storage name brackets : Text} {qualifiers : Option Text}
      (ty : ShaderType) (h : IsVariable lead storage precision name brackets)
      (hq : ∀ q ∈ qualifiers, ∀ c ∈ q, IsQualifier c) :
      AreDeclaration [statement qualifiers (variableWords lead storage precision ty name brackets)]
  /-- a block -/
  | block {name instanceName : String} {b : Block} (binding : Option Nat) (openEnded : Bool)
      (hname : IsName name.toList) (hinstance : ∀ c ∈ instanceName.toList, isIdentifier c = true)
      (hfields : ∀ f ∈ b.fields, IsName f.name.toList) :
      AreDeclaration (blockLines name instanceName b binding openEnded)

/-- **The lines of an item** are those of a variable or a block. -/
theorem Item.lines_spec (h : item.IsReadable vertex) : AreDeclaration item.lines := by
  cases item with
  | colorOutput location colors =>
    exact .single .vec4 (isVariable_colorOutput colors) isQualifier_location
  | varying qualifier location v =>
    obtain ⟨hname, hqualifier⟩ := h
    exact .single v.ty (isVariable_varying hname hqualifier) isQualifier_location
  | uniform precision u =>
    obtain ⟨hname, -, hprecision⟩ := h
    exact .single u.ty
      (isVariable_uniform none hname (isBrackets_arrayBrackets u.count) hprecision) (by simp)
  | opaqueUniform precision image t =>
    obtain ⟨hname, -, hprecision, hformat⟩ := h
    refine .single t.ty (isVariable_uniform image hname (.inl rfl) hprecision) fun q hq c hc => ?_
    exact mem_layoutQualifiers (isIdentifier_of_mem_format hformat) (.inr rfl)
      (by decide) hq hc
  | block declaration binding =>
    obtain ⟨hname, hinstance, hfields⟩ := h
    exact .block binding declaration.variadic (BlockDecl.isName_identifier hname) hinstance hfields
  | uniformBlock u binding =>
    exact .block binding false u.stage.isName_uniformBlockName (by simp) h
  | vertexAttribute qualifier precision location a =>
    obtain ⟨hname, hqualifier, hprecision⟩ := h
    exact .single a.ty (isVariable_attribute hname hqualifier hprecision) isQualifier_location

theorem AreDeclaration.isDeclarationLine (h : AreDeclaration ls) :
    ∀ line ∈ ls, IsDeclarationLine line := by
  intro line hline
  cases h with
  | single ty h hq =>
    obtain rfl := List.mem_singleton.mp hline
    exact h.isDeclarationLine hq ty
  | block binding openEnded hname hinstance hfields =>
    exact isDeclarationLine_blockLines hname hinstance hfields line hline

/-- The lines of an item are lines of declarations. -/
theorem Item.isDeclarationLine (h : item.IsReadable vertex) :
    ∀ line ∈ item.lines, IsDeclarationLine line :=
  (Item.lines_spec h).isDeclarationLine

theorem isLine_of_isDeclarationLine (h : IsDeclarationLine line) : IsLine line := by
  obtain ⟨lead, s, c, rfl, hlead, hs, hc⟩ := h
  have hplain : isPlain '\n' = false := by decide
  refine ⟨fun hmem => ?_, ?_⟩
  · rcases List.mem_append.mp hmem with hmem | hmem
    · rcases hlead with rfl | rfl
      · cases hmem
      · revert hmem
        decide
    · rcases List.mem_append.mp hmem with hmem | hmem
      · rw [hs _ hmem] at hplain
        cases hplain
      · obtain rfl := List.mem_singleton.mp hmem
        revert hc
        decide
  · rw [← List.append_assoc, List.getLast?_concat]
    rcases hc with rfl | rfl <;> decide

/-! ## Braces of declarations -/

theorem isBraceless_of_mem_statement {qualifiers : Option Text} {c : Char}
    (hq : ∀ q ∈ qualifiers, ∀ c ∈ q, IsQualifier c)
    (hws : ∀ w ∈ ws, ∀ c ∈ w, isBraceless c = true) (hc : c ∈ statement qualifiers ws) :
    isBraceless c = true := by
  have hlayout : ∀ c ∈ "layout(".toList, isBraceless c = true := List.all_eq_true.mp (by decide)
  cases qualifiers with
  | none => exact isBraceless_of_mem_joinWords hws hc
  | some q =>
    rcases List.mem_append.mp hc with hc | hc
    · exact hlayout c hc
    · rcases List.mem_append.mp hc with hc | hc
      · exact (hq q rfl c hc).isBraceless
      · rcases List.mem_cons.mp hc with rfl | hc
        · decide
        · rcases List.mem_cons.mp hc with rfl | hc
          · decide
          · exact isBraceless_of_mem_joinWords hws hc

theorem isBraceless_of_mem_nameWord {name brackets : Text} (hname : IsName name)
    (hb : IsBrackets brackets) : ∀ c ∈ nameWord name brackets, isBraceless c = true := by
  intro c hc
  rcases List.mem_append.mp hc with hc | hc
  · rcases List.mem_append.mp hc with hc | hc
    · exact hname.isBraceless c hc
    · rcases hb with rfl | ⟨count, rfl, hcount⟩
      · cases hc
      · rcases List.mem_cons.mp hc with rfl | hc
        · decide
        · rcases List.mem_append.mp hc with hc | hc
          · exact isBraceless_of_isIdentifier (hcount c hc)
          · obtain rfl := List.mem_singleton.mp hc
            decide
  · obtain rfl := List.mem_singleton.mp hc
    decide

theorem Reading.IsVariable.isBraceless {lead precision : List Text} {storage name brackets : Text}
    {ty : ShaderType} (h : IsVariable lead storage precision name brackets) :
    ∀ w ∈ variableWords lead storage precision ty name brackets, ∀ c ∈ w, isBraceless c = true := by
  intro w hw
  rcases List.mem_append.mp hw with hw | hw
  · exact (h.lead_ignored w hw).isName.isBraceless
  · rcases List.mem_cons.mp hw with rfl | hw
    · exact h.storage_isName.isBraceless
    · rcases List.mem_append.mp hw with hw | hw
      · exact (h.precision_ignored w hw).isName.isBraceless
      · rcases List.mem_cons.mp hw with rfl | hw
        · exact (isName_keyword ty).isBraceless
        · obtain rfl := List.mem_singleton.mp hw
          exact isBraceless_of_mem_nameWord h.name_isName h.brackets_isBrackets

theorem isBalanced_fieldLine {name brackets : Text} (ty : ShaderType) (hname : IsName name)
    (hb : IsBrackets brackets) :
    IsBalanced (fieldLine [ty.keyword.toList, nameWord name brackets]) := by
  have hblanks : IsBalanced "    ".toList := by decide
  refine (isBalanced_append hblanks).mpr (isBalanced_of_isBraceless fun c hc => ?_)
  refine isBraceless_of_mem_joinWords (fun w hw => ?_) hc
  rcases List.mem_cons.mp hw with rfl | hw
  · exact (isName_keyword ty).isBraceless
  · obtain rfl := List.mem_singleton.mp hw
    exact isBraceless_of_mem_nameWord hname hb

/-- A block closes the brace that it opens. -/
theorem isBalanced_blockLines {name instanceName : String} {b : Block} {binding : Option Nat}
    {openEnded : Bool} (hname : IsName name.toList)
    (hinstance : ∀ c ∈ instanceName.toList, isIdentifier c = true)
    (hfields : ∀ f ∈ b.fields, IsName f.name.toList) :
    IsBalanced (unlines (blockLines name instanceName b binding openEnded)) := by
  have hwords : ∀ w ∈ [b.kind.type.keyword.toList, name.toList, []], ∀ c ∈ w,
      isBraceless c = true := by
    intro w hw
    rcases List.mem_cons.mp hw with rfl | hw
    · exact (isName_keyword _).isBraceless
    · rcases List.mem_cons.mp hw with rfl | hw
      · exact hname.isBraceless
      · obtain rfl := List.mem_singleton.mp hw
        intro c hc
        cases hc
  have hlines : ∀ line ∈ fieldLines openEnded b.fields, IsBalanced line := by
    intro line hline
    obtain ⟨ty, field, brackets, hfield, hb, rfl⟩ := exists_of_mem_fieldLines hfields hline
    exact isBalanced_fieldLine ty hfield hb
  have hfeed : IsBalanced ['\n'] := by decide
  have hinside : IsBalanced ('\n' :: unlines (fieldLines openEnded b.fields)) :=
    (isBalanced_append hfeed).mpr (isBalanced_unlines hlines)
  have hbehind : IsBalanced (' ' :: (instanceName.toList ++ [';', '\n'])) := by
    refine isBalanced_of_isBraceless fun c hc => ?_
    rcases List.mem_cons.mp hc with rfl | hc
    · decide
    · rcases List.mem_append.mp hc with hc | hc
      · exact isBraceless_of_isIdentifier (hinstance c hc)
      · have hend : ∀ c ∈ [';', '\n'], isBraceless c = true := List.all_eq_true.mp (by decide)
        exact hend c hc
  -- the brace at the end of the first line and the one in front of the instance name are a pair
  have htext : unlines (blockLines name instanceName b binding openEnded) =
      statement (layoutQualifiers (some b.packing.qualifier.toList) [] "binding" binding)
          [b.kind.type.keyword.toList, name.toList, []] ++
        '\x7b' :: ('\n' :: unlines (fieldLines openEnded b.fields) ++
          '\x7d' :: ' ' :: (instanceName.toList ++ [';', '\n'])) := by
    have hhead := statement_append_singleton
      (layoutQualifiers (some b.packing.qualifier.toList) [] "binding" binding)
      [b.kind.type.keyword.toList, name.toList] [] ['\x7b']
    rw [List.nil_append, List.cons_append, List.singleton_append] at hhead
    rw [blockLines, unlines_cons, hhead, unlines_append]
    simp [closingLine]
  rw [htext, isBalanced_append (isBalanced_of_isBraceless fun c hc =>
    isBraceless_of_mem_statement (fun q hq => isQualifier_packing hq) hwords hc)]
  exact (isBalanced_pair hinside).mpr hbehind

theorem AreDeclaration.isBalanced (h : AreDeclaration ls) : IsBalanced (unlines ls) := by
  cases h with
  | single ty h hq =>
    refine isBalanced_unlines fun line hline => ?_
    obtain rfl := List.mem_singleton.mp hline
    exact isBalanced_of_isBraceless fun c hc => isBraceless_of_mem_statement hq h.isBraceless hc
  | block binding openEnded hname hinstance hfields =>
    exact isBalanced_blockLines hname hinstance hfields

/-- **Items are balanced.** -/
theorem Item.isBalanced_lines (h : item.IsReadable vertex) : IsBalanced (unlines item.lines) :=
  (Item.lines_spec h).isBalanced

end ShaderLoom
