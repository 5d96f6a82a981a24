import ShaderLoom.Proofs.Source.Head
import ShaderLoom.Proofs.Text.Occurrence

/-!
# Names that a stage mentions

The parts of a stage end with their lines, so the stage mentions a name as often as its parts do. A
name stands once in the line that declares it. So a uniform that stands in the body too counts as
used: **`isUsed_of_standsIn`**.
-/

namespace ShaderLoom

open Text Reading

variable {d : Dialect} {stage : Stage} {hasTextures : Bool} {colors : Nat} {items : List Item}
  {item : Item} {word line t : Text} {ls : List Text}

/-! ## The parts of a stage -/

/-- **A stage mentions a name** as often as its parts do. -/
theorem mentions_stageText :
    mentions word (StageSource.stageText d stage hasTextures colors items t) =
      mentions word (unlines (d.preambleLines stage hasTextures colors)) +
        (mentions word (unlines (items.flatMap Item.lines)) + mentions word t) := by
  rw [StageSource.stageText, mentions_append (apart_unlines _ _),
    mentions_append (apart_unlines _ _)]

/-! ## Declared names -/

/-- A declared name stands behind a blank and in front of brackets or a semicolon. -/
theorem standsIn_statement {qualifiers : Option Text} {ws : List Text} {brackets : Text}
    (hws : ws ≠ []) (hbrackets : IsBrackets brackets) :
    StandsIn word (statement qualifiers (ws ++ [nameWord word brackets])) := by
  obtain ⟨e, rest, he, hident⟩ : ∃ e rest, brackets ++ [';'] = e :: rest ∧
      isIdentifier e = false := by
    rcases hbrackets with rfl | ⟨count, rfl, -⟩
    · exact ⟨';', [], rfl, by decide⟩
    · exact ⟨'[', _, rfl, by decide⟩
  refine ⟨statement qualifiers ws, rest, ' ', e, ?_, by decide, hident⟩
  rw [statement_append _ hws, joinWords_singleton, nameWord, List.append_assoc, he]

/-- The uniform, sampler or image that an item declares on a line of its own. -/
def Item.uniformName? : Item → Option String
  | .uniform _ u => some u.name
  | .opaqueUniform _ _ t => some t.name
  | .vertexAttribute .. | .colorOutput .. | .varying .. | .block .. | .uniformBlock .. => none

/-- **A declared name stands in its declaration.** -/
theorem Item.standsIn_lines {name : String} (h : item.uniformName? = some name) :
    ∃ line ∈ item.lines, StandsIn name.toList line := by
  cases item with
  | uniform precision u =>
    cases h
    refine ⟨_, List.mem_singleton_self _, ?_⟩
    have hwords : "uniform".toList :: (precisionWords precision ++ [u.ty.keyword.toList]) ≠ [] :=
      List.cons_ne_nil _ _
    have hstands : StandsIn u.name.toList (statement none _) :=
      standsIn_statement hwords (isBrackets_arrayBrackets u.count)
    simpa using hstands
  | opaqueUniform precision image t =>
    cases h
    refine ⟨_, List.mem_singleton_self _, ?_⟩
    have hwords : directionWords image ++
        "uniform".toList :: (precisionWords precision ++ [t.ty.keyword.toList]) ≠ [] :=
      List.append_ne_nil_of_right_ne_nil _ (List.cons_ne_nil _ _)
    have hstands : StandsIn t.name.toList (statement (layoutQualifiers
        (image.map (·.format.toList)) [' '] "binding" t.binding) _) :=
      standsIn_statement hwords (.inl rfl)
    simpa using hstands
  | vertexAttribute | colorOutput | varying | block | uniformBlock => cases h

/-- A uniform, sampler or image declares one to a reader. -/
theorem Item.exists_declaration? {name : String} (h : item.uniformName? = some name)
    (vertex : Bool) (source : Text) :
    ∃ x, item.declaration? vertex source = some x ∧ x.name = name ∧ x.isUniform = true ∧
      x.used = isUsed source name.toList := by
  cases item with
  | uniform precision u =>
    cases h
    exact ⟨_, rfl, rfl, by cases hty : u.ty.isOpaque <;> simp [Declaration.isUniform], rfl⟩
  | opaqueUniform precision image t =>
    cases h
    exact ⟨_, rfl, rfl, rfl, rfl⟩
  | vertexAttribute | colorOutput | varying | block | uniformBlock => cases h

/-- What is read of an item as a uniform, sampler or image is the one that the item declares. -/
theorem Item.uniformName?_of_declaration? {vertex : Bool} {source : Text} {x : Declaration}
    (h : item.declaration? vertex source = some x) (hx : x.isUniform = true) :
    item.uniformName? = some x.name ∧ x.used = isUsed source x.name.toList := by
  cases item with
  | uniform | opaqueUniform =>
    cases h
    exact ⟨rfl, rfl⟩
  | vertexAttribute =>
    cases vertex with
    | false => cases h
    | true =>
      cases h
      cases hx
  | block | uniformBlock =>
    cases h
    cases hx
  | colorOutput | varying => cases h

/-- **A uniform is used** if its name stands in the body of the stage. -/
theorem isUsed_of_standsIn {name : String} (hname : IsName name.toList) (hitem : item ∈ items)
    (hvariable : item.uniformName? = some name) (hbody : StandsIn name.toList t) :
    isUsed (StageSource.stageText d stage hasTextures colors items t) name.toList = true := by
  obtain ⟨line, hline, hstands⟩ := item.standsIn_lines hvariable
  have hdeclared := (hstands.of_isInfix
    (infix_unlines (List.mem_flatMap.mpr ⟨item, hitem, hline⟩))).mentions_pos hname
  have hused := hbody.mentions_pos hname
  rw [isUsed, wholeWords_eq hname, mentions_stageText]
  exact decide_eq_true (by omega)

end ShaderLoom
