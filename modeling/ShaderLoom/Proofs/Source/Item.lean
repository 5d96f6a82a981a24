import ShaderLoom.Proofs.Reading.Line
import ShaderLoom.Source.Item

/-!
# The lines of an item

Most items are one statement; a block is a statement, the lines of its fields, and a closing line.
`Item.lines` puts the lines of an item together from words, and `Item.toList_render` says that
these are the lines that are written.

An item is **readable** in a stage when its names are identifiers and its qualifiers are among
those that are written. Only the vertex stage reads attributes, so a readable item of the vertex
stage is no input from another stage.
-/

namespace ShaderLoom

open Text Reading

variable {vertex : Bool} {ws : List Text} {w : Text} {item : Item}

/-! ## Layout qualifiers -/

/-- The inside of a layout qualifier: a plain word, and the assignment of a number. There is no
layout qualifier where there is neither. -/
def layoutQualifiers (plain : Option Text) (gap : Text) (key : String) : Option Nat → Option Text
  | none => plain
  | some n =>
    match plain with
    | none => some (assignment key n)
    | some p => some (p ++ ',' :: (gap ++ assignment key n))

section

variable {plain : Option Text} {gap : Text} {key other : String} {number : Option Nat}

/-- **The number is read back.** -/
theorem qualifierValue_layoutQualifiers
    (hplain : ∀ p ∈ plain, ∀ c ∈ p, isIdentifier c = true) (hgap : IsGap gap)
    (hkey : IsName key.toList) (number : Option Nat) :
    qualifierValue key ((layoutQualifiers plain gap key number).getD []) = readBack key number := by
  cases number with
  | none =>
    cases plain with
    | none => exact qualifierValue_nil
    | some p => exact qualifierValue_plain (hplain p rfl)
  | some n =>
    cases plain with
    | none => exact qualifierValue_assignment (.inl rfl : IsGap []) hkey n
    | some p =>
      have hp : qualifierValue key (p ++ ',' :: (gap ++ assignment key n)) =
          qualifierValue key (gap ++ assignment key n) :=
        qualifierValue_plain_append (hplain p rfl)
      exact hp.trans (qualifierValue_assignment hgap hkey n)

/-- No number is read for another key. -/
theorem qualifierValue_layoutQualifiers_other
    (hplain : ∀ p ∈ plain, ∀ c ∈ p, isIdentifier c = true) (hgap : IsGap gap)
    (hkey : IsName key.toList) (hne : key.toList ≠ other.toList) (number : Option Nat) :
    qualifierValue other ((layoutQualifiers plain gap key number).getD []) = .ok none := by
  cases number with
  | none =>
    cases plain with
    | none => exact qualifierValue_nil
    | some p => exact qualifierValue_plain (hplain p rfl)
  | some n =>
    cases plain with
    | none => exact qualifierValue_other (.inl rfl : IsGap []) hkey hne
    | some p =>
      have hp : qualifierValue other (p ++ ',' :: (gap ++ assignment key n)) =
          qualifierValue other (gap ++ assignment key n) :=
        qualifierValue_plain_append (hplain p rfl)
      exact hp.trans (qualifierValue_other hgap hkey hne)

/-- The punctuation of a layout qualifier is a comma, a blank and an equals sign. -/
theorem mem_layoutQualifiers {q : Text} {c : Char}
    (hplain : ∀ p ∈ plain, ∀ c ∈ p, isIdentifier c = true) (hgap : IsGap gap)
    (hkey : IsName key.toList) (hq : q ∈ layoutQualifiers plain gap key number) (hc : c ∈ q) :
    isIdentifier c = true ∨ c = ',' ∨ c = ' ' ∨ c = '=' := by
  have hassignment : ∀ {n : Nat}, c ∈ assignment key n → isIdentifier c = true ∨ c = '=' := by
    intro n hmem
    rcases List.mem_append.mp hmem with hmem | hmem
    · exact .inl (hkey.all c hmem)
    · rcases List.mem_cons.mp hmem with rfl | hmem
      · exact .inr rfl
      · exact .inl (isIdentifier_of_mem_repr hmem)
  cases number with
  | none => exact .inl (hplain q hq c hc)
  | some n =>
    cases plain with
    | none =>
      cases hq
      exact (hassignment hc).imp_right fun he => .inr (.inr he)
    | some p =>
      cases hq
      rcases List.mem_append.mp hc with hc | hc
      · exact .inl (hplain p rfl c hc)
      · rcases List.mem_cons.mp hc with rfl | hc
        · exact .inr (.inl rfl)
        · rcases List.mem_append.mp hc with hc | hc
          · rcases hgap with rfl | rfl
            · cases hc
            · exact .inr (.inr (.inl (List.mem_singleton.mp hc)))
          · exact (hassignment hc).imp_right fun he => .inr (.inr he)

theorem parenthesis_not_mem_layoutQualifiers {q : Text}
    (hplain : ∀ p ∈ plain, ∀ c ∈ p, isIdentifier c = true) (hgap : IsGap gap)
    (hkey : IsName key.toList) (hq : q ∈ layoutQualifiers plain gap key number) : ')' ∉ q := by
  intro hmem
  rcases mem_layoutQualifiers hplain hgap hkey hq hmem with hc | hc | hc | hc
  all_goals
    revert hc
    decide

end

/-! ## Parts of a statement -/

/-- The precision qualifiers that are written, with the blank behind them. -/
def IsPrecision (precision : String) : Prop :=
  precision = "" ∨ precision = "highp " ∨ precision = "mediump " ∨ precision = "lowp "

/-- The words of a precision qualifier: one or none. -/
def precisionWords (precision : String) : List Text :=
  if precision = "" then [] else [precision.toList.dropLast]

/-- The words between the layout qualifier of an image and its storage qualifier. -/
def directionWords : Option ImageAccess → List Text
  | none => []
  | some access => [if access.writable then "writeonly".toList else "readonly".toList]

theorem joinWords_cons (hne : ws ≠ []) : joinWords (w :: ws) = w ++ ' ' :: joinWords ws := by
  obtain ⟨v, ws, rfl⟩ := List.exists_cons_of_ne_nil hne
  rfl

theorem precision_append {precision : String} (h : IsPrecision precision) (hne : ws ≠ []) :
    precision.toList ++ joinWords ws = joinWords (precisionWords precision ++ ws) := by
  have hword : ∀ w : Text, joinWords ([w] ++ ws) = w ++ ' ' :: joinWords ws :=
    fun w => joinWords_cons hne
  rcases h with rfl | rfl | rfl | rfl
  · rfl
  all_goals
    simp only [precisionWords]
    rw [if_neg (by decide), hword]
    simp

theorem locationLayout_some (n : Nat) : locationLayout (some n) = s!"layout(location={n}) " := rfl

theorem locationLayout_append (location : Option Nat) (ws : List Text) :
    (locationLayout location).toList ++ joinWords ws =
      statement (layoutQualifiers none [] "location" location) ws := by
  cases location with
  | none => rfl
  | some n =>
    simp [locationLayout_some, layoutQualifiers, statement_some, assignment, toString_string]

theorem opaqueLayout_append (image : Option ImageAccess) (binding : Option Nat) (hne : ws ≠ []) :
    (opaqueLayout image binding).toList ++ joinWords ws =
      statement (layoutQualifiers (image.map (·.format.toList)) [' '] "binding" binding)
        (directionWords image ++ ws) := by
  have hword : ∀ w : Text, joinWords ([w] ++ ws) = w ++ ' ' :: joinWords ws :=
    fun w => joinWords_cons hne
  cases image with
  | none =>
    cases binding with
    | none => rfl
    | some n =>
      unfold opaqueLayout
      simp [layoutQualifiers, statement_some, assignment, toString_string, directionWords]
  | some access =>
    obtain ⟨format, writable⟩ := access
    rw [directionWords]
    cases binding with
    | none =>
      simp only [layoutQualifiers, Option.map_some, statement_some, hword]
      unfold opaqueLayout
      cases writable <;> simp [toString_string]
    | some n =>
      simp only [layoutQualifiers, Option.map_some, statement_some, hword]
      unfold opaqueLayout
      cases writable <;> simp [assignment, toString_string]

theorem isBrackets_arrayBrackets (count : Nat) : IsBrackets (arrayBrackets count).toList := by
  rw [arrayBrackets]
  split
  · exact .inl rfl
  · refine .inr ⟨count.repr.toList, ?_, fun c hc => isIdentifier_of_mem_repr hc⟩
    simp [toString_string]

theorem isName_keyword (ty : ShaderType) : IsName ty.keyword.toList := by
  cases ty <;> decide

theorem Packing.isName_qualifier (p : Packing) : IsName p.qualifier.toList := by
  cases p <;> decide

/-! ## Names of blocks -/

theorem BlockDecl.toList_identifier (b : BlockDecl) :
    b.identifier.toList = b.name.toList ++ "_block".toList := by
  simp [BlockDecl.identifier, toString_string]

theorem BlockDecl.isName_identifier {b : BlockDecl} (h : IsName b.name.toList) :
    IsName b.identifier.toList := by
  rw [b.toList_identifier]
  refine ⟨List.append_ne_nil_of_left_ne_nil h.ne_nil _, fun c hc => ?_⟩
  rcases List.mem_append.mp hc with hc | hc
  · exact h.all c hc
  · have hblock : IsName "_block".toList := by decide
    exact hblock.all c hc

/-- A block is known by its identifier as well as by its name. -/
theorem BlockDecl.identifier_inj {b c : BlockDecl} :
    b.identifier = c.identifier ↔ b.name = c.name := by
  rw [← String.toList_inj, b.toList_identifier, c.toList_identifier, List.append_left_inj,
    String.toList_inj]

theorem Stage.isName_uniformBlockName (s : Stage) : IsName s.uniformBlockName.toList := by
  cases s <;> decide

/-! ## Lines -/

/-- The lines of the fields of a block. -/
def fieldLines (openEnded : Bool) : List BlockField → List Text
  | [] => []
  | [f] =>
    let brackets := if openEnded then "[]" else arrayBrackets f.count
    [fieldLine [f.ty.keyword.toList, nameWord f.name.toList brackets.toList]]
  | f :: rest =>
    fieldLine [f.ty.keyword.toList, nameWord f.name.toList (arrayBrackets f.count).toList] ::
      fieldLines openEnded rest

/-- The lines of a block. -/
def blockLines (name instanceName : String) (b : Block) (binding : Option Nat) (openEnded : Bool) :
    List Text :=
  statement (layoutQualifiers (some b.packing.qualifier.toList) [] "binding" binding)
      [b.kind.type.keyword.toList, name.toList, ['\x7b']] ::
    (fieldLines openEnded b.fields ++ [closingLine instanceName.toList])

namespace Item

/-- The lines of an item. -/
def lines : Item → List Text
  | .colorOutput location colors =>
    let brackets := if 1 < colors then arrayBrackets colors else ""
    [statement (layoutQualifiers none [] "location" location)
      ["out".toList, "vec4".toList, nameWord "ngl_out_color".toList brackets.toList]]
  | .varying qualifier location v =>
    [statement (layoutQualifiers none [] "location" location)
      [qualifier.toList, v.ty.keyword.toList, nameWord v.name.toList []]]
  | .uniform precision u =>
    [statement none
      ("uniform".toList :: (precisionWords precision ++
        [u.ty.keyword.toList, nameWord u.name.toList (arrayBrackets u.count).toList]))]
  | .opaqueUniform precision image t =>
    [statement (layoutQualifiers (image.map (·.format.toList)) [' '] "binding" t.binding)
      (directionWords image ++ "uniform".toList :: (precisionWords precision ++
        [t.ty.keyword.toList, nameWord t.name.toList []]))]
  | .block declaration binding =>
    blockLines declaration.identifier declaration.instanceIdentifier declaration.block binding
      declaration.variadic
  | .uniformBlock u binding => blockLines u.stage.uniformBlockName "" u.block binding false
  | .vertexAttribute qualifier precision location a =>
    [statement (layoutQualifiers none [] "location" location)
      (qualifier.toList :: (precisionWords precision ++
        [a.ty.keyword.toList, nameWord a.name.toList []]))]

/-- The names of an item are identifiers, and its qualifiers are among those that are written. An
instance name may be empty. -/
def IsReadable (vertex : Bool) : Item → Prop
  | .colorOutput _ _ => True
  | .varying qualifier _ v =>
    IsName v.name.toList ∧
      (qualifier = "out" ∨ qualifier = "varying" ∨ vertex = false ∧ qualifier = "in")
  | .uniform precision u => IsName u.name.toList ∧ u.ty.isBlock = false ∧ IsPrecision precision
  | .opaqueUniform precision image t =>
    IsName t.name.toList ∧ t.ty.isOpaque = true ∧ IsPrecision precision ∧
      ∀ access ∈ image, ∀ c ∈ access.format.toList, isIdentifier c = true
  | .block declaration _ =>
    IsName declaration.name.toList ∧
      (∀ c ∈ declaration.instanceIdentifier.toList, isIdentifier c = true) ∧
      ∀ f ∈ declaration.block.fields, IsName f.name.toList
  | .uniformBlock u _ => ∀ f ∈ u.block.fields, IsName f.name.toList
  | .vertexAttribute qualifier precision _ a =>
    IsName a.name.toList ∧ (qualifier = "in" ∨ qualifier = "attribute") ∧ IsPrecision precision

/-- The precision qualifier of an item. Empty where the item has none. -/
def precision : Item → String
  | .uniform precision _ | .opaqueUniform precision _ _ | .vertexAttribute _ precision _ _ =>
    precision
  | .colorOutput .. | .varying .. | .block .. | .uniformBlock .. => ""

theorem IsReadable.isPrecision (h : item.IsReadable vertex) : IsPrecision item.precision := by
  cases item with
  | uniform precision u => exact h.2.2
  | opaqueUniform precision image t => exact h.2.2.1
  | vertexAttribute qualifier precision location a => exact h.2.2
  | colorOutput | varying | block | uniformBlock => exact .inl rfl

end Item

/-! ## The text of an item -/

theorem toList_renderFields (openEnded : Bool) (fields : List BlockField) :
    (renderFields openEnded fields).toList = unlines (fieldLines openEnded fields) := by
  fun_induction renderFields openEnded fields with
  | case1 => rfl
  | case2 f brackets =>
    simp [brackets, fieldLines, fieldLine, nameWord, joinWords_cons_cons, toString_string]
  | case3 f rest hne ih =>
    rw [fieldLines, unlines_cons, String.toList_append, ih]
    · simp [fieldLine, nameWord, joinWords_cons_cons, toString_string]
    · exact hne

theorem toList_renderBlock (name instanceName : String) (b : Block) (binding : Option Nat)
    (openEnded : Bool) :
    (renderBlock name instanceName b binding openEnded).toList =
      unlines (blockLines name instanceName b binding openEnded) := by
  unfold renderBlock blockLines
  rw [unlines_cons, unlines_append]
  simp only [String.toList_append, toList_renderFields]
  cases binding with
  | none =>
    simp [layoutQualifiers, statement_some, joinWords_cons_cons, closingLine, toString_string]
  | some n =>
    simp [layoutQualifiers, statement_some, joinWords_cons_cons, closingLine, assignment,
      toString_string]

/-- **What is written for an item are its lines**, whatever the item is called. -/
theorem Item.toList_render (h : IsPrecision item.precision) :
    item.render.toList = unlines item.lines := by
  cases item with
  | colorOutput location colors =>
    rw [lines, unlines_cons, ← locationLayout_append]
    simp [render, joinWords_cons_cons, nameWord, toString_string]
  | varying qualifier location v =>
    rw [lines, unlines_cons, ← locationLayout_append]
    simp [render, joinWords_cons_cons, nameWord, toString_string]
  | uniform precision u =>
    have hprecision : IsPrecision precision := h
    rw [lines, unlines_cons, statement_none, joinWords_cons (by simp),
      ← precision_append hprecision (by simp)]
    simp [render, joinWords_cons_cons, nameWord, toString_string]
  | opaqueUniform precision image t =>
    have hprecision : IsPrecision precision := h
    rw [lines, unlines_cons, ← opaqueLayout_append _ _ (by simp), joinWords_cons (by simp),
      ← precision_append hprecision (by simp)]
    simp [render, joinWords_cons_cons, nameWord, toString_string]
  | block declaration binding => exact toList_renderBlock ..
  | uniformBlock u binding => exact toList_renderBlock ..
  | vertexAttribute qualifier precision location a =>
    have hprecision : IsPrecision precision := h
    rw [lines, unlines_cons, ← locationLayout_append, joinWords_cons (by simp),
      ← precision_append hprecision (by simp)]
    simp [render, joinWords_cons_cons, nameWord, toString_string]

end ShaderLoom
