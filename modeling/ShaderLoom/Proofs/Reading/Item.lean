import ShaderLoom.Proofs.Outcome
import ShaderLoom.Proofs.Reading.Variable

/-!
# Items are read back

Reading a stage finds again what was written for it. `Item.declaration?` is what an item declares
to a reader, and **`Item.readLines_lines`** says that the reader finds just that in the lines of
the item and goes on behind them. The numbers in the text must be read first, and a number that is
too large is refused.
-/

namespace ShaderLoom

open Text Reading

variable {vertex : Bool} {source : Text} {rest : List Text}

namespace Reading

/-! ## Blocks -/

/-- The fields and the instance name of a block are found again. -/
theorem readBlock_fieldLines (openEnded : Bool) (rest : List Text) {fields : List BlockField}
    {instanceName : Text} (hfields : ∀ f ∈ fields, IsName f.name.toList)
    (hinstance : ∀ c ∈ instanceName, isIdentifier c = true) :
    readBlock (fieldLines openEnded fields ++ closingLine instanceName :: rest) =
      some ⟨fields.map (·.name.toList), instanceName, rest⟩ := by
  fun_induction fieldLines openEnded fields with
  | case1 => exact readBlock_closingLine hinstance
  | case2 f bracketText =>
    have hf := hfields f (List.mem_singleton_self f)
    have hb : IsBrackets bracketText.toList := by
      simp only [bracketText]
      split
      · exact .inr ⟨[], rfl, fun c hc => absurd hc List.not_mem_nil⟩
      · exact isBrackets_arrayBrackets f.count
    rw [List.singleton_append, readBlock_fieldLine (isName_keyword f.ty) (isCode_nameWord hf hb),
      readBlock_closingLine hinstance, bareName_nameWord hf hb]
    rfl
  | case3 f fields _ ih =>
    have hf := hfields f (List.mem_cons_self ..)
    have hb := isBrackets_arrayBrackets f.count
    rw [List.cons_append, readBlock_fieldLine (isName_keyword f.ty) (isCode_nameWord hf hb),
      ih fun g hg => hfields g (List.mem_cons_of_mem f hg), bareName_nameWord hf hb]
    rfl

/-- What a block declares to a reader of `source`. -/
def blockDeclaration (source : Text) (name instanceName : String) (b : Block)
    (binding : Option Nat) : Declaration :=
  let body : BlockBody := ⟨b.fields.map (·.name.toList), instanceName.toList, []⟩
  ⟨name, .block b.kind, none, binding, body.isUsed source⟩

/-- **A block is read back.** -/
theorem readLines_blockLines {name instanceName : String} {b : Block} {binding : Option Nat}
    {openEnded : Bool} (hname : IsName name.toList)
    (hcounts : ignoredWords.contains (String.ofList name.toList) = false)
    (hinstance : ∀ c ∈ instanceName.toList, isIdentifier c = true)
    (hfields : ∀ f ∈ b.fields, IsName f.name.toList) :
    readLines vertex source (blockLines name instanceName b binding openEnded ++ rest) =
      (do
        let _ ← readBack "binding" binding
        (readLines vertex source rest).map
          (blockDeclaration source name instanceName b binding :: ·)) := by
  have hpacking : ∀ p ∈ some b.packing.qualifier.toList, ∀ c ∈ p, isIdentifier c = true := by
    rintro p ⟨⟩
    exact b.packing.isName_qualifier.all
  have hgap : IsGap [] := .inl rfl
  have hkey : IsName "binding".toList := by decide
  have hwords : ∀ w ∈ [b.kind.type.keyword.toList, name.toList, ['\x7b']], IsCode w := by
    intro w hw
    simp only [List.mem_cons, List.not_mem_nil, or_false] at hw
    rcases hw with rfl | rfl | rfl
    · exact (isName_keyword _).isCode
    · exact hname.isCode
    · decide
  have hparen : ∀ q ∈ layoutQualifiers (some b.packing.qualifier.toList) [] "binding" binding,
      ')' ∉ q := fun q hq => parenthesis_not_mem_layoutQualifiers hpacking hgap hkey hq
  have hcount : declarationWords (joinWords [b.kind.type.keyword.toList, name.toList, ['\x7b']]) =
      [b.kind.type.keyword.toList, name.toList, ['\x7b']] := by
    rw [declarationWords_joinWords hwords,
      List.filter_cons_of_pos (by rw [not_ignored_keyword]; rfl),
      List.filter_cons_of_pos (by rw [hcounts]; rfl), List.filter_cons_of_pos (by decide),
      List.filter_nil]
  have hbare : dropEndWhile (· == '\x7b') name.toList = name.toList := by
    change name.toList.rdropWhile (· == '\x7b') = name.toList
    rw [List.rdropWhile_eq_self_iff]
    intro hne hlast
    refine hname.not_mem (c := '\x7b') (by decide) ?_
    rw [← beq_iff_eq.mp hlast]
    exact List.getLast_mem hne
  have hbody := readBlock_fieldLines openEnded rest hfields hinstance
  rw [blockLines, List.cons_append, List.append_assoc, List.singleton_append,
    readLines_of_block (splitLayout_statement hparen (by simp) hwords) hcount
      (classify_block b.kind name.toList) hbody,
    qualifierValue_layoutQualifiers_other hpacking hgap hkey (by decide),
    qualifierValue_layoutQualifiers hpacking hgap hkey, hbare, String.ofList_toList]
  cases hread : readBack "binding" binding with
  | error e => rfl
  | ok n =>
    obtain rfl := readBack_eq_ok hread
    rfl

end Reading

/-! ## Items -/

/-- No block is called like a qualifier. -/
theorem BlockDecl.identifier_counts (b : BlockDecl) :
    ignoredWords.contains (String.ofList b.identifier.toList) = false := by
  refine not_ignored_of_getLast? (c := 'k') ?_ (by decide)
  rw [b.toList_identifier, List.getLast?_append]
  rfl

namespace Item

theorem isIdentifier_of_mem_format {image : Option ImageAccess}
    (h : ∀ access ∈ image, ∀ c ∈ access.format.toList, isIdentifier c = true) :
    ∀ p ∈ image.map (·.format.toList), ∀ c ∈ p, isIdentifier c = true := by
  intro p hp
  obtain ⟨access, haccess, rfl⟩ := Option.map_eq_some_iff.mp hp
  exact h access haccess

/-- The location that an item writes. -/
def location : Item → Option Nat
  | .colorOutput location _ => location
  | .varying _ location _ => location
  | .vertexAttribute _ _ location _ => location
  | .uniform .. | .opaqueUniform .. | .block .. | .uniformBlock .. => none

/-- The binding that an item writes. -/
def binding : Item → Option Nat
  | .opaqueUniform _ _ t => t.binding
  | .block _ binding => binding
  | .uniformBlock _ binding => binding
  | .colorOutput .. | .varying .. | .uniform .. | .vertexAttribute .. => none

/-- What an item declares to a reader of `source`. -/
def declaration? (vertex : Bool) (source : Text) : Item → Option Declaration
  | .colorOutput .. | .varying .. => none
  | .uniform _ u =>
    some ⟨u.name, if u.ty.isOpaque then .sampler else .uniform, none, none,
      isUsed source u.name.toList⟩
  | .opaqueUniform _ _ t =>
    some ⟨t.name, .sampler, none, t.binding, isUsed source t.name.toList⟩
  | .block declaration binding =>
    some (blockDeclaration source declaration.identifier declaration.instanceIdentifier
      declaration.block binding)
  | .uniformBlock u binding =>
    some (blockDeclaration source u.stage.uniformBlockName "" u.block binding)
  | .vertexAttribute _ _ location a =>
    if vertex then
      some ⟨a.name, .vertexAttribute a.ty.locations, location, none,
        isUsed source a.name.toList⟩
    else none

/-- **An item is read back**: the reader finds what the item declares, and goes on behind it. -/
theorem readLines_lines {item : Item} (h : item.IsReadable vertex) :
    readLines vertex source (item.lines ++ rest) =
      (do
        let _ ← readBack "location" item.location
        let _ ← readBack "binding" item.binding
        (readLines vertex source rest).map
          ((item.declaration? vertex source).toList ++ ·)) := by
  have hlocation : IsName "location".toList := by decide
  have hbinding : IsName "binding".toList := by decide
  have hnone : ∀ p ∈ (none : Option Text), ∀ c ∈ p, isIdentifier c = true := by
    rintro p ⟨⟩
  have hgap : IsGap [] := .inl rfl
  have hparen : ∀ {plain : Option Text} {gap : Text} {key : String} {number : Option Nat},
      (∀ p ∈ plain, ∀ c ∈ p, isIdentifier c = true) → IsGap gap → IsName key.toList →
        ∀ q ∈ layoutQualifiers plain gap key number, ')' ∉ q :=
    fun hplain hgap hkey q hq => parenthesis_not_mem_layoutQualifiers hplain hgap hkey hq
  cases item with
  | colorOutput location colors =>
    exact (isVariable_colorOutput colors).readLines_eq vertex source rest .vec4 _ location none
      (qualifierValue_layoutQualifiers hnone hgap hlocation location)
      (qualifierValue_layoutQualifiers_other hnone hgap hlocation (by decide) location)
      (hparen hnone hgap hlocation) (classify_varying .vec4 (.inl rfl)) (by simp)
  | varying qualifier location v =>
    obtain ⟨hname, hqualifier⟩ := h
    exact (isVariable_varying hname hqualifier).readLines_eq vertex source rest v.ty _ location none
      (qualifierValue_layoutQualifiers hnone hgap hlocation location)
      (qualifierValue_layoutQualifiers_other hnone hgap hlocation (by decide) location)
      (hparen hnone hgap hlocation) (classify_varying v.ty hqualifier) (by simp)
  | uniform precision u =>
    obtain ⟨hname, hty, hprecision⟩ := h
    have hvariable := isVariable_uniform none hname (isBrackets_arrayBrackets u.count) hprecision
    have hread := hvariable.readLines_eq vertex source rest u.ty none none none qualifierValue_nil
      qualifierValue_nil (by simp) (classify_uniform vertex _ _ hty)
      (by cases u.ty.isOpaque <;> simp)
    rwa [String.ofList_toList] at hread
  | opaqueUniform precision image t =>
    obtain ⟨hname, hty, hprecision, hformat⟩ := h
    have hblock : t.ty.isBlock = false := by
      revert hty
      cases t.ty <;> decide
    have hplain := isIdentifier_of_mem_format hformat
    have hclass := classify_uniform vertex t.name.toList [] hblock
    rw [hty, if_pos rfl] at hclass
    have hread := (isVariable_uniform image hname (.inl rfl) hprecision).readLines_eq
      vertex source rest t.ty _ none t.binding
      (qualifierValue_layoutQualifiers_other hplain (.inr rfl) hbinding (by decide) t.binding)
      (qualifierValue_layoutQualifiers hplain (.inr rfl) hbinding t.binding)
      (hparen hplain (.inr rfl) hbinding) hclass (by simp)
    rwa [String.ofList_toList] at hread
  | block declaration binding =>
    obtain ⟨hname, hinstance, hfields⟩ := h
    exact readLines_blockLines (BlockDecl.isName_identifier hname) declaration.identifier_counts
      hinstance hfields
  | uniformBlock u binding =>
    refine readLines_blockLines u.stage.isName_uniformBlockName ?_ (by simp) h
    cases u.stage <;> decide
  | vertexAttribute qualifier precision location a =>
    obtain ⟨hname, hqualifier, hprecision⟩ := h
    have hread := (isVariable_attribute hname hqualifier hprecision).readLines_eq vertex source rest
      a.ty _ location none (qualifierValue_layoutQualifiers hnone hgap hlocation location)
      (qualifierValue_layoutQualifiers_other hnone hgap hlocation (by decide) location)
      (hparen hnone hgap hlocation) (classify_attribute a.ty hqualifier) (by cases vertex <;> simp)
    rw [String.ofList_toList] at hread
    cases vertex
    · exact hread
    · exact hread

/-- The numbers of an item are small enough to be read. -/
def Fits (item : Item) : Prop :=
  (∀ n ∈ item.location, n < wordLimit) ∧ ∀ n ∈ item.binding, n < wordLimit

instance (item : Item) : Decidable item.Fits := inferInstanceAs (Decidable (_ ∧ _))

/-- **Items are read back** in order, if their numbers fit. -/
theorem readLines_eq_ok_iff {items : List Item} {ds : List Declaration}
    (h : ∀ item ∈ items, item.IsReadable vertex) :
    readLines vertex source (items.flatMap lines ++ rest) = .ok ds ↔
      (∀ item ∈ items, item.Fits) ∧ ∃ others, readLines vertex source rest = .ok others ∧
        ds = items.filterMap (declaration? vertex source) ++ others := by
  induction items generalizing ds with
  | nil => simp
  | cons item items ih =>
    have hitem := h item (List.mem_cons_self ..)
    have hitems : ∀ i ∈ items, i.IsReadable vertex := fun i hi => h i (List.mem_cons_of_mem item hi)
    have hcons : ∀ others : List Declaration,
        (item :: items).filterMap (declaration? vertex source) ++ others =
          (item.declaration? vertex source).toList ++
            (items.filterMap (declaration? vertex source) ++ others) := by
      intro others
      rw [List.filterMap_cons]
      cases item.declaration? vertex source <;> rfl
    rw [List.flatMap_cons, List.append_assoc, readLines_lines hitem, readBack_bind_eq_ok_iff,
      readBack_bind_eq_ok_iff, map_eq_ok, List.forall_mem_cons]
    constructor
    · rintro ⟨hlocation, hbinding, ds', hds', rfl⟩
      obtain ⟨hfits, others, hothers, rfl⟩ := (ih hitems).mp hds'
      exact ⟨⟨⟨hlocation, hbinding⟩, hfits⟩, others, hothers, (hcons others).symm⟩
    · rintro ⟨⟨⟨hlocation, hbinding⟩, hfits⟩, others, hothers, rfl⟩
      exact ⟨hlocation, hbinding, _, (ih hitems).mpr ⟨hfits, others, hothers, rfl⟩,
        (hcons others).symm⟩

end Item

end ShaderLoom
