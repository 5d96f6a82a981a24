import ShaderLoom.Proofs.Source.Item

/-!
# Variables are read back

All items but blocks are written as variables: words without effect, a storage qualifier, the type,
and the name. **`Reading.IsVariable.readLines_eq`** says that the reader finds the name, the numbers
in the layout qualifier, and the kind that the storage qualifier and the type stand for.
-/

namespace ShaderLoom

open Text Reading

variable {vertex : Bool} {storage name brackets w : Text}

namespace Reading

/-! ## Words that do not count -/

/-- A word without effect on what is declared. -/
structure IsIgnored (w : Text) : Prop where
  /-- it is a name -/
  isName : IsName w
  /-- it is on the list -/
  mem : ignoredWords.contains (String.ofList w) = true

theorem isIgnored_of_mem_precisionWords {precision : String} (h : IsPrecision precision)
    (hw : w ∈ precisionWords precision) : IsIgnored w := by
  rcases h with rfl | rfl | rfl | rfl
  · cases hw
  all_goals
    obtain rfl := List.mem_singleton.mp hw
    exact ⟨by decide, by decide⟩

theorem isIgnored_of_mem_directionWords {image : Option ImageAccess}
    (hw : w ∈ directionWords image) : IsIgnored w := by
  cases image with
  | none => cases hw
  | some access =>
    obtain rfl := List.mem_singleton.mp hw
    cases access.writable
    · exact ⟨by decide, by decide⟩
    · exact ⟨by decide, by decide⟩

theorem not_ignored_keyword (ty : ShaderType) :
    ignoredWords.contains (String.ofList ty.keyword.toList) = false := by
  cases ty <;> decide

/-! ## Variables -/

/-- The words of a variable: qualifiers without effect, the storage qualifier, a precision, the
type, and the name. -/
def variableWords (lead : List Text) (storage : Text) (precision : List Text) (ty : ShaderType)
    (name brackets : Text) : List Text :=
  lead ++ storage :: (precision ++ [ty.keyword.toList, nameWord name brackets])

/-- The words of a variable are well formed. -/
structure IsVariable (lead : List Text) (storage : Text) (precision : List Text)
    (name brackets : Text) : Prop where
  /-- what stands in front has no effect -/
  lead_ignored : ∀ w ∈ lead, IsIgnored w
  /-- the storage qualifier is a name -/
  storage_isName : IsName storage
  /-- and has an effect -/
  storage_counts : ignoredWords.contains (String.ofList storage) = false
  /-- a precision has no effect -/
  precision_ignored : ∀ w ∈ precision, IsIgnored w
  /-- the name is one -/
  name_isName : IsName name
  /-- the brackets are empty or in pairs -/
  brackets_isBrackets : IsBrackets brackets

section

variable {lead precision : List Text} {t : ShaderType}

theorem IsVariable.isCode (h : IsVariable lead storage precision name brackets) :
    ∀ w ∈ variableWords lead storage precision t name brackets, IsCode w := by
  intro w hw
  rcases List.mem_append.mp hw with hw | hw
  · exact (h.lead_ignored w hw).isName.isCode
  · rcases List.mem_cons.mp hw with rfl | hw
    · exact h.storage_isName.isCode
    · rcases List.mem_append.mp hw with hw | hw
      · exact (h.precision_ignored w hw).isName.isCode
      · rcases List.mem_cons.mp hw with rfl | hw
        · exact (isName_keyword t).isCode
        · obtain rfl := List.mem_singleton.mp hw
          exact isCode_nameWord h.name_isName h.brackets_isBrackets

/-- **The words that count** are the storage qualifier, the type and the name. -/
theorem IsVariable.declarationWords_eq (h : IsVariable lead storage precision name brackets) :
    declarationWords (joinWords (variableWords lead storage precision t name brackets)) =
      [storage, t.keyword.toList, nameWord name brackets] := by
  have hignored : ∀ {ws : List Text}, (∀ w ∈ ws, IsIgnored w) →
      ws.filter (fun w => !ignoredWords.contains (String.ofList w)) = [] := by
    intro ws hws
    rw [List.filter_eq_nil_iff]
    intro w hw
    rw [(hws w hw).mem]
    decide
  have hname := not_ignored_of_getLast? (getLast?_nameWord name brackets) (by decide)
  rw [declarationWords_joinWords h.isCode, variableWords, List.filter_append,
    hignored h.lead_ignored, List.nil_append,
    List.filter_cons_of_pos (by rw [h.storage_counts]; rfl), List.filter_append,
    hignored h.precision_ignored, List.nil_append,
    List.filter_cons_of_pos (by rw [not_ignored_keyword]; rfl),
    List.filter_cons_of_pos (by rw [hname]; rfl), List.filter_nil]

/-- **A variable is read back**, if its storage qualifier declares anything to the reader. -/
theorem IsVariable.readLines_eq (h : IsVariable lead storage precision name brackets)
    (vertex : Bool) (source : Text) (rest : List Text) (t : ShaderType) (qualifiers : Option Text)
    (location binding : Option Nat) {kind : Option DeclarationKind}
    (hl : qualifierValue "location" (qualifiers.getD []) = readBack "location" location)
    (hb : qualifierValue "binding" (qualifiers.getD []) = readBack "binding" binding)
    (hparen : ∀ q ∈ qualifiers, ')' ∉ q)
    (hc : classify vertex storage t.keyword.toList (nameWord name brackets) = kind)
    (hkind : ∀ k, kind ≠ some (.block k)) :
    readLines vertex source
        (statement qualifiers (variableWords lead storage precision t name brackets) :: rest) =
      (do
        let _ ← readBack "location" location
        let _ ← readBack "binding" binding
        (readLines vertex source rest).map
          ((kind.map fun kind =>
            (⟨String.ofList name, kind, location, binding, isUsed source name⟩ :
              Declaration)).toList ++ ·)) := by
  have hne : variableWords lead storage precision t name brackets ≠ [] := by simp [variableWords]
  have hsplit := splitLayout_statement hparen hne h.isCode
  cases kind with
  | none =>
    have hid : ∀ x : Except CompileFault (List Declaration), x.map ([] ++ ·) = x := by
      intro x
      cases x <;> rfl
    rw [readLines_of_none hsplit h.declarationWords_eq hc, hl, hb]
    simp only [Option.map_none, Option.toList_none, hid]
  | some kind =>
    rw [readLines_of_variable hsplit h.declarationWords_eq hc fun k he => hkind k (by rw [he]), hl,
      hb, bareName_nameWord h.name_isName h.brackets_isBrackets]
    -- the numbers that were read are the ones that were written
    cases hlocation : readBack "location" location with
    | error e => rfl
    | ok l =>
      obtain rfl := readBack_eq_ok hlocation
      cases hbinding : readBack "binding" binding with
      | error e => rfl
      | ok b =>
        obtain rfl := readBack_eq_ok hbinding
        rfl

end

/-! ## The variables of items -/

theorem isVariable_colorOutput (colors : Nat) :
    IsVariable [] "out".toList [] "ngl_out_color".toList
      (if 1 < colors then arrayBrackets colors else "").toList := by
  have hbrackets : IsBrackets (if 1 < colors then arrayBrackets colors else "").toList := by
    split
    · exact isBrackets_arrayBrackets colors
    · exact .inl rfl
  exact ⟨by simp, by decide, by decide, by simp, by decide, hbrackets⟩

theorem isVariable_varying {qualifier : String} (hname : IsName name)
    (h : qualifier = "out" ∨ qualifier = "varying" ∨ vertex = false ∧ qualifier = "in") :
    IsVariable [] qualifier.toList [] name [] := by
  have hstorage : IsName qualifier.toList ∧
      ignoredWords.contains (String.ofList qualifier.toList) = false := by
    rcases h with rfl | rfl | ⟨-, rfl⟩
    all_goals exact ⟨by decide, by decide⟩
  exact ⟨by simp, hstorage.1, hstorage.2, by simp, hname, .inl rfl⟩

theorem isVariable_uniform {precision : String} (image : Option ImageAccess) (hname : IsName name)
    (hb : IsBrackets brackets) (hprecision : IsPrecision precision) :
    IsVariable (directionWords image) "uniform".toList (precisionWords precision) name brackets :=
  ⟨fun w hw => isIgnored_of_mem_directionWords hw, by decide, by decide,
    fun w hw => isIgnored_of_mem_precisionWords hprecision hw, hname, hb⟩

theorem isVariable_attribute {qualifier precision : String} (hname : IsName name)
    (h : qualifier = "in" ∨ qualifier = "attribute") (hprecision : IsPrecision precision) :
    IsVariable [] qualifier.toList (precisionWords precision) name [] := by
  have hstorage : IsName qualifier.toList ∧
      ignoredWords.contains (String.ofList qualifier.toList) = false := by
    rcases h with rfl | rfl
    all_goals exact ⟨by decide, by decide⟩
  exact ⟨by simp, hstorage.1, hstorage.2, fun w hw => isIgnored_of_mem_precisionWords hprecision hw,
    hname, .inl rfl⟩

/-! ## Storage qualifiers -/

theorem nameWord_ne_brace : nameWord name brackets ≠ ['\x7b'] := by
  intro h
  have hlast := getLast?_nameWord name brackets
  rw [h] at hlast
  revert hlast
  decide

theorem getLast?_keyword (t : ShaderType) : t.keyword.toList.getLast? ≠ some '\x7b' := by
  cases t <;> decide

/-- No block begins with a variable. -/
theorem opensBlock_variable (t : ShaderType) :
    (decide (nameWord name brackets = ['\x7b']) ||
      decide (t.keyword.toList.getLast? = some '\x7b')) = false := by
  rw [decide_eq_false nameWord_ne_brace, decide_eq_false (getLast?_keyword t), Bool.or_false]

theorem classify_uniform (vertex : Bool) (name brackets : Text) {t : ShaderType}
    (ht : t.isBlock = false) :
    classify vertex "uniform".toList t.keyword.toList (nameWord name brackets) =
      some (if t.isOpaque then .sampler else .uniform) := by
  rw [classify, opensBlock_variable, if_neg (by simp), if_pos rfl]
  have hsampler : ["sampler", "image", "__sampler"].any (·.toList.isPrefixOf t.keyword.toList) =
      t.isOpaque := by
    revert ht
    cases t <;> decide
  rw [hsampler]
  cases t.isOpaque <;> rfl

/-- What leaves a stage, or comes into a stage that is not the first, is not read. -/
theorem classify_varying {qualifier : String} (t : ShaderType)
    (h : qualifier = "out" ∨ qualifier = "varying" ∨ vertex = false ∧ qualifier = "in") :
    classify vertex qualifier.toList t.keyword.toList (nameWord name brackets) = none := by
  have huniform : qualifier.toList ≠ "uniform".toList := by
    rcases h with rfl | rfl | ⟨-, rfl⟩ <;> decide
  have hinput : (vertex && (decide (qualifier.toList = "in".toList) ||
      decide (qualifier.toList = "attribute".toList))) = false := by
    rcases h with rfl | rfl | ⟨rfl, rfl⟩
    · rw [show (decide ("out".toList = "in".toList) || _) = false from by decide, Bool.and_false]
    · rw [show (decide ("varying".toList = "in".toList) || _) = false from by decide,
        Bool.and_false]
    · rfl
  rw [classify, opensBlock_variable, if_neg (by simp), if_neg huniform, hinput, if_neg (by simp)]

theorem classify_attribute {qualifier : String} (t : ShaderType)
    (h : qualifier = "in" ∨ qualifier = "attribute") :
    classify vertex qualifier.toList t.keyword.toList (nameWord name brackets) =
      if vertex then some (.vertexAttribute t.locations) else none := by
  have huniform : qualifier.toList ≠ "uniform".toList := by
    rcases h with rfl | rfl <;> decide
  have hinput : (decide (qualifier.toList = "in".toList) ||
      decide (qualifier.toList = "attribute".toList)) = true := by
    rcases h with rfl | rfl <;> decide
  have hspan : (if t.keyword.toList = "mat4".toList then 4 else 1) = t.locations := by
    cases t <;> decide
  rw [classify, opensBlock_variable, if_neg (by simp), if_neg huniform, hinput, Bool.and_true,
    hspan]

theorem classify_block (k : BlockKind) (name : Text) :
    classify vertex k.type.keyword.toList name ['\x7b'] = some (.block k) := by
  rw [classify]
  cases k <;> rfl

end Reading

end ShaderLoom
