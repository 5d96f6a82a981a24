import ShaderLoom.Proofs.Intrinsic.Lowering
import ShaderLoom.Proofs.Source.Declaration
import ShaderLoom.Proofs.Source.Preamble

/-!
# The text of a stage

The finished text of a stage is its preamble, the lines of its items, and the lowered body. No call
reaches into the declarations, so lowering leaves them as they are
(**`StageSource.finish_eq_ok_iff`**). A reader finds in the text the items and then what the body
declares (**`StageSource.readStage_eq_ok_iff`**).
-/

namespace ShaderLoom

open Text Reading

variable {d : Dialect} {vertex : Bool} {line t : Text} {ls : List Text} {l : Lowered} {item : Item}

/-! ## Lines without calls -/

/-- **The lines of declarations have no calls**, if lowering succeeds. -/
theorem callFree_of_isDeclarationLine (h : IsDeclarationLine line)
    (hl : lower d (line ++ t) = .ok l) : CallFree line := by
  obtain ⟨lead, s, c, rfl, hlead, hs, hc⟩ := h
  have hparen : '(' ∉ s := by
    intro hmem
    have hplain := hs _ hmem
    revert hplain
    decide
  have hends : isIdentifier c = false ∧ isBlank c = false ∧ c ≠ '(' := by
    rcases hc with rfl | rfl <;> decide
  obtain ⟨hident, hblank, hc⟩ := hends
  have hlast : ∀ {u : Text}, CallFree u → CallFree (u ++ [c]) := by
    intro u hu
    have hapart : Apart u [c] := apart_of_begins hident
    refine (callFree_append hapart).mpr ⟨hu, ?_⟩
    exact (callFree_cons_of_not hident).mpr callFree_nil
  rcases hlead with rfl | rfl
  · rw [List.nil_append] at hl ⊢
    rw [List.append_assoc] at hl
    exact hlast (callFree_of_lower hparen hident hblank hc hl)
  · have hlayout : CallFree "layout(".toList := callFree_of_isTokenlessFrom (by decide)
    have hapart : ∀ u, Apart "layout(".toList u := fun u => .inl (by decide)
    rw [List.append_assoc, lower_append_of_callFree hlayout (hapart _)] at hl
    obtain ⟨l', hl', -⟩ := map_eq_ok.mp hl
    rw [List.append_assoc] at hl'
    exact (callFree_append (hapart _)).mpr
      ⟨hlayout, hlast (callFree_of_lower hparen hident hblank hc hl')⟩

/-! ## Lines in front of a body -/

/-- A line end keeps the line apart from what follows. -/
theorem apart_lineEnd (s t : Text) : Apart (s ++ ['\n']) t := by
  refine .inl ?_
  rw [endsIdentifier, List.getLast?_concat]
  decide

theorem CallFree.append_lineEnd (h : CallFree line) : CallFree (line ++ ['\n']) := by
  refine (callFree_append (.inr ?_)).mpr ⟨h, (callFree_cons_of_not ?_).mpr callFree_nil⟩ <;> decide

/-- Lines are apart from what follows them. -/
theorem apart_unlines (ls : List Text) (t : Text) : Apart (unlines ls) t := by
  rcases List.eq_nil_or_concat' ls with rfl | ⟨front, line, rfl⟩
  · exact apart_nil_left
  · rw [unlines_append, unlines_cons, unlines_nil, ← List.append_assoc]
    exact apart_lineEnd _ t

theorem callFree_unlines {ls : List Text} :
    CallFree (unlines ls) ↔ ∀ line ∈ ls, CallFree line := by
  induction ls with
  | nil => simp [callFree_nil]
  | cons line ls ih =>
    have hapart : Apart line ('\n' :: unlines ls) := apart_of_begins rfl
    rw [unlines_cons, callFree_append hapart, callFree_cons_of_not (by decide), ih,
      List.forall_mem_cons]

/-- **Lines without calls stay in front of a body.** -/
theorem lower_unlines (h : ∀ line ∈ ls, CallFree line) (t : Text) :
    lower d (unlines ls ++ t) = (lower d t).map (Lowered.prepend (unlines ls)) :=
  lower_append_of_callFree (callFree_unlines.mpr h) (apart_unlines ls t)

/-- Lines of declarations have no calls, if lowering succeeds behind them. -/
theorem callFree_of_lower_unlines (h : ∀ line ∈ ls, IsDeclarationLine line)
    (hl : lower d (unlines ls ++ t) = .ok l) : ∀ line ∈ ls, CallFree line := by
  induction ls generalizing l with
  | nil =>
    intro line hline
    cases hline
  | cons line ls ih =>
    rw [unlines_cons, List.append_assoc] at hl
    have hline := callFree_of_isDeclarationLine (h line (List.mem_cons_self ..)) hl
    rw [← List.singleton_append, List.append_assoc, ← List.append_assoc line,
      lower_append_of_callFree hline.append_lineEnd (apart_lineEnd _ _)] at hl
    obtain ⟨l', hl', -⟩ := map_eq_ok.mp hl
    intro k hk
    rcases List.mem_cons.mp hk with rfl | hk
    · exact hline
    · exact ih (fun m hm => h m (List.mem_cons_of_mem line hm)) hl' k hk

/-- **Lowering leaves declarations as they are**, or fails because of a call in them. -/
theorem lower_unlines_eq_ok_iff (h : ∀ line ∈ ls, IsDeclarationLine line) :
    lower d (unlines ls ++ t) = .ok l ↔
      (∀ line ∈ ls, CallFree line) ∧
        ∃ l', lower d t = .ok l' ∧ l = Lowered.prepend (unlines ls) l' := by
  constructor
  · intro hl
    have hfree := callFree_of_lower_unlines h hl
    rw [lower_unlines hfree] at hl
    obtain ⟨l', hl', he⟩ := map_eq_ok.mp hl
    exact ⟨hfree, l', hl', he.symm⟩
  · rintro ⟨hfree, l', hl', rfl⟩
    rw [lower_unlines hfree]
    exact map_eq_ok.mpr ⟨l', hl', rfl⟩

/-! ## Finished stages -/

namespace StageSource

variable {target : Target} {items : List Item} {stage : Stage} {hasTextures : Bool} {colors : Nat}
  {body text : String} {ds : List Declaration}

theorem toList_declarations (hitems : ∀ item ∈ items, IsPrecision item.precision)
    (preamble : String) :
    (StageSource.mk preamble items body).declarations.toList =
      unlines (items.flatMap Item.lines) := by
  have hrender : ∀ items : List Item, (∀ item ∈ items, IsPrecision item.precision) →
      (String.join (items.map Item.render)).toList = unlines (items.flatMap Item.lines) := by
    intro items hitems
    rw [String.toList_join, List.flatMap_map]
    induction items with
    | nil => rfl
    | cons item items ih =>
      rw [List.flatMap_cons, List.flatMap_cons, unlines_append,
        Item.toList_render (hitems item (List.mem_cons_self ..)),
        ih fun i hi => hitems i (List.mem_cons_of_mem item hi)]
  exact hrender items hitems

theorem isDeclarationLine_of_mem (hitems : ∀ item ∈ items, item.IsReadable vertex) :
    ∀ line ∈ items.flatMap Item.lines, IsDeclarationLine line := by
  intro line hline
  obtain ⟨item, hitem, hline⟩ := List.mem_flatMap.mp hline
  exact Item.isDeclarationLine (hitems item hitem) line hline

theorem isBalanced_declarations (hitems : ∀ item ∈ items, item.IsReadable vertex) :
    IsBalanced (unlines (items.flatMap Item.lines)) := by
  induction items with
  | nil => exact isBalanced_nil
  | cons item items ih =>
    rw [List.flatMap_cons, unlines_append,
      isBalanced_append (Item.isBalanced_lines (hitems item (List.mem_cons_self ..)))]
    exact ih fun i hi => hitems i (List.mem_cons_of_mem item hi)

/-- The preamble and the declarations of a stage, with a body behind them. -/
def stageText (d : Dialect) (stage : Stage) (hasTextures : Bool) (colors : Nat) (items : List Item)
    (body : Text) : Text :=
  unlines (d.preambleLines stage hasTextures colors) ++ (unlines (items.flatMap Item.lines) ++ body)

/-- Lowering a stage leaves the preamble as it is. -/
theorem lower_text (hitems : ∀ item ∈ items, IsPrecision item.precision) :
    lower target.dialect
        (StageSource.mk (target.dialect.preamble stage hasTextures colors) items body).text.toList =
      (lower target.dialect (unlines (items.flatMap Item.lines) ++ body.toList)).map
        (Lowered.prepend (unlines (target.dialect.preambleLines stage hasTextures colors))) := by
  have hpreamble := Dialect.preambleLines_spec target stage hasTextures colors
  rw [StageSource.text, String.toList_append, String.toList_append, toList_declarations hitems,
    Dialect.toList_preamble, List.append_assoc,
    lower_unlines fun line hline => (hpreamble line hline).2.2.1]

/-- **Items without calls stay** when a stage is finished: only what is behind them is lowered. -/
theorem finish_append_eq_ok_iff {rest : List Item}
    (hitems : ∀ item ∈ items ++ rest, IsPrecision item.precision)
    (hfree : ∀ line ∈ items.flatMap Item.lines, CallFree line) :
    (StageSource.mk (target.dialect.preamble stage hasTextures colors) (items ++ rest) body).finish
        target.dialect = .ok text ↔
      ∃ lowered, lower target.dialect (unlines (rest.flatMap Item.lines) ++ body.toList) =
          .ok lowered ∧
        text.toList = stageText target.dialect stage hasTextures colors items lowered.text := by
  rw [finish, lower_text hitems, List.flatMap_append, unlines_append, List.append_assoc,
    lower_unlines hfree]
  cases lower target.dialect (unlines (rest.flatMap Item.lines) ++ body.toList) with
  | error fault =>
    constructor
    · intro h
      cases h
    · rintro ⟨lowered, h, -⟩
      cases h
  | ok lowered =>
    constructor
    · intro h
      rw [← Except.ok.inj h]
      exact ⟨lowered, rfl, String.toList_ofList⟩
    · rintro ⟨lowered', h, htext⟩
      cases h
      refine congrArg Except.ok ?_
      rw [← String.toList_inj, String.toList_ofList, htext]
      rfl

/-- **A stage whose declarations have no calls** is finished by lowering its body. -/
theorem finish_eq_ok_iff_of_callFree (hitems : ∀ item ∈ items, IsPrecision item.precision)
    (hfree : ∀ line ∈ items.flatMap Item.lines, CallFree line) :
    (StageSource.mk (target.dialect.preamble stage hasTextures colors) items body).finish
        target.dialect = .ok text ↔
      ∃ lowered, lower target.dialect body.toList = .ok lowered ∧
        text.toList = stageText target.dialect stage hasTextures colors items lowered.text := by
  rw [← List.append_nil items] at hitems
  simpa using finish_append_eq_ok_iff hitems hfree

/-- **A stage is finished** exactly when its declarations have no calls and its body can be lowered,
and then only the body has changed. -/
theorem finish_eq_ok_iff (hitems : ∀ item ∈ items, item.IsReadable vertex) :
    (StageSource.mk (target.dialect.preamble stage hasTextures colors) items body).finish
        target.dialect = .ok text ↔
      (∀ line ∈ items.flatMap Item.lines, CallFree line) ∧
        ∃ lowered, lower target.dialect body.toList = .ok lowered ∧
          text.toList = stageText target.dialect stage hasTextures colors items lowered.text := by
  have hprecision := fun item hitem => (hitems item hitem).isPrecision
  constructor
  · intro h
    have hfree : ∀ line ∈ items.flatMap Item.lines, CallFree line := by
      rw [finish, lower_text hprecision] at h
      split at h
      · cases h
      · next l hl =>
        obtain ⟨l', hl', -⟩ := map_eq_ok.mp hl
        exact callFree_of_lower_unlines (isDeclarationLine_of_mem hitems) hl'
    exact ⟨hfree, (finish_eq_ok_iff_of_callFree hprecision hfree).mp h⟩
  · rintro ⟨hfree, h⟩
    exact (finish_eq_ok_iff_of_callFree hprecision hfree).mpr h

/-- **What is written is read back.** A reader accepts a stage exactly when the numbers in its
declarations are small enough, its body is balanced, and the lines of its body are read. It finds
what the items declare, in order, and then what the body declares. -/
theorem readStage_eq_ok_iff {t : Text} (hitems : ∀ item ∈ items, item.IsReadable vertex)
    (htext : text.toList = stageText target.dialect stage hasTextures colors items t) :
    readStage vertex text.toList = .ok ds ↔
      IsBalanced t ∧ (∀ item ∈ items, item.Fits) ∧
        ∃ others, readLines vertex text.toList (Text.lines t) = .ok others ∧
          ds = items.filterMap (Item.declaration? vertex text.toList) ++ others := by
  have hpreamble := Dialect.preambleLines_spec target stage hasTextures colors
  have hversion : "#version".toList.isPrefixOf text.toList = true := by
    rw [htext, stageText, Dialect.preambleLines, unlines_cons, Dialect.toList_versionLine]
    rfl
  have hbalanced : IsBalanced text.toList ↔ IsBalanced t := by
    rw [htext, stageText, isBalanced_append (isBalanced_unlines fun line hline =>
      (hpreamble line hline).2.2.2), isBalanced_append (isBalanced_declarations hitems)]
  have hlines : Text.lines text.toList = target.dialect.preambleLines stage hasTextures colors ++
      (items.flatMap Item.lines ++ Text.lines t) := by
    rw [htext, stageText, lines_unlines_append fun line hline => (hpreamble line hline).1,
      lines_unlines_append fun line hline =>
        isLine_of_isDeclarationLine (isDeclarationLine_of_mem hitems line hline)]
  rw [readStage, hversion, ← hbalanced, hlines,
    readLines_append_of_idle fun line hline => (hpreamble line hline).2.1]
  by_cases hb : IsBalanced text.toList
  · have hequal : ¬text.toList.count '\x7b' ≠ text.toList.count '\x7d' := not_not.mpr hb
    rw [if_neg (by decide), if_neg hequal, Item.readLines_eq_ok_iff hitems]
    exact (and_iff_right hb).symm
  · have hunequal : text.toList.count '\x7b' ≠ text.toList.count '\x7d' := hb
    rw [if_neg (by decide), if_pos hunequal]
    constructor
    · intro h
      cases h
    · exact fun h => absurd h.1 hb

end StageSource

end ShaderLoom
