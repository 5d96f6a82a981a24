import ShaderLoom.Proofs.Intrinsic.Kept
import ShaderLoom.Proofs.Source.BareBlock
import ShaderLoom.Proofs.Source.Readback

/-!
# How declarations begin

The declaration of a sampler, an image or a block begins with a **head**: the layout qualifier that
fixes the binding, storage qualifiers, and the type. No name stands in the head, so it is solid, and
it begins a line of the finished text whatever things are called and whatever the bodies look like
(**`exists_line_of_isSolid`**).
-/

namespace ShaderLoom

open Text Reading

variable {d : Dialect} {item : Item} {items : List Item} {head : Text} {stage : Stage}
  {a a' : Allocator} {entry : StageEntry}

/-! ## Solid statements -/

/-- The words of a head. -/
structure IsHeadWord (w : Text) : Prop where
  /-- a word is a name -/
  isName : IsName w
  /-- it is no token -/
  callFree : CallFree w

/-- The inside of the layout qualifier of a head. -/
structure IsHeadLayout (q : Text) : Prop where
  /-- there are words and the punctuation of a layout qualifier -/
  chars : ∀ c ∈ q, isIdentifier c = true ∨ c = ',' ∨ c = ' ' ∨ c = '='
  /-- there are no calls -/
  callFree : CallFree q

theorem mem_statement {qualifiers : Option Text} {ws : List Text} {c : Char}
    (hq : ∀ q ∈ qualifiers, IsHeadLayout q) (hws : ∀ w ∈ ws, IsHeadWord w)
    (hc : c ∈ statement qualifiers ws) :
    isIdentifier c = true ∨ c ∈ [',', ' ', '=', '(', ')'] := by
  have hjoin : c ∈ joinWords ws → isIdentifier c = true ∨ c ∈ [',', ' ', '=', '(', ')'] := by
    intro hc
    rcases mem_joinWords hc with rfl | ⟨w, hw, hc⟩
    · exact .inr (by decide)
    · exact .inl ((hws w hw).isName.all c hc)
  cases qualifiers with
  | none => exact hjoin hc
  | some q =>
    rw [statement_some] at hc
    rcases List.mem_append.mp hc with hc | hc
    · have hlayout : IsName "layout".toList := by decide
      have hparts : c ∈ "layout".toList ++ ['('] := hc
      rcases List.mem_append.mp hparts with hc | hc
      · exact .inl (hlayout.all c hc)
      · obtain rfl := List.mem_singleton.mp hc
        exact .inr (by decide)
    · rcases List.mem_append.mp hc with hc | hc
      · rcases (hq q rfl).chars c hc with hc | rfl | rfl | rfl
        · exact .inl hc
        all_goals exact .inr (by decide)
      · rcases List.mem_cons.mp hc with rfl | hc
        · exact .inr (by decide)
        · rcases List.mem_cons.mp hc with rfl | hc
          · exact .inr (by decide)
          · exact hjoin hc

theorem balanced_statement {qualifiers : Option Text} {ws : List Text}
    (hq : ∀ q ∈ qualifiers, IsHeadLayout q) (hws : ∀ w ∈ ws, IsHeadWord w) :
    Balanced (statement qualifiers ws) := by
  have hjoin : Balanced (joinWords ws) := by
    refine balanced_of_all fun c hc => ?_
    rcases mem_joinWords hc with rfl | ⟨w, hw, hc⟩
    · exact ⟨by decide, by decide, by decide⟩
    · exact isFlat_of_isIdentifier ((hws w hw).isName.all c hc)
  cases qualifiers with
  | none => exact hjoin
  | some q =>
    -- a comma inside the parentheses ends no argument
    have hinside : ∀ t : Text, (∀ c ∈ t, isIdentifier c = true ∨ c = ',' ∨ c = ' ' ∨ c = '=') →
        depthAfter 1 t = some 1 := by
      intro t ht
      induction t with
      | nil => rfl
      | cons c t ih =>
        have hstep : depthStep 1 c = some 1 := by
          rcases ht c (List.mem_cons_self ..) with hc | rfl | rfl | rfl
          · exact depthStep_of_isFlat (isFlat_of_isIdentifier hc)
          all_goals rfl
        rw [depthAfter_cons, hstep]
        exact ih fun e he => ht e (List.mem_cons_of_mem c he)
    have hlayout : depthAfter 0 "layout(".toList = some 1 := by decide
    rw [statement_some, Text.Balanced, depthAfter_append_of_eq hlayout,
      depthAfter_append_of_eq (hinside q (hq q rfl).chars)]
    exact hjoin

/-- **A statement of head words is solid.** -/
theorem isSolid_statement {qualifiers : Option Text} {ws : List Text}
    (hq : ∀ q ∈ qualifiers, IsHeadLayout q) (hws : ∀ w ∈ ws, IsHeadWord w) (hne : ws ≠ []) :
    IsSolid (statement qualifiers ws) := by
  have hmem := fun {c : Char} => mem_statement (c := c) hq hws
  refine ⟨callFree_statement (fun q h => (hq q h).callFree) fun w h => (hws w h).callFree,
    fun hc => ?_, fun hc => ?_, balanced_statement hq hws, fun hc => ?_, ?_⟩
  · exact absurd (hmem hc) (by decide)
  · exact absurd (hmem hc) (by decide)
  · exact absurd (hmem hc) (by decide)
  · have hwords : ∀ w ∈ ws, IsWord w := fun w hw => (hws w hw).isName.isCode.isWord
    have hnil := joinWords_ne_nil hne hwords
    have hlast := List.getLast?_eq_some_getLast hnil
    refine ⟨_, ?_, getLast?_joinWords hwords _ hlast⟩
    cases qualifiers with
    | none => exact hlast
    | some q =>
      have hsplit : statement (some q) ws =
          ("layout(".toList ++ (q ++ [')', ' '])) ++ joinWords ws := by
        simp [statement_some]
      rw [hsplit, List.getLast?_append, hlast]
      rfl

/-! ## Heads -/

theorem isHeadWord_keyword (ty : ShaderType) : IsHeadWord ty.keyword.toList :=
  ⟨isName_keyword ty, callFree_keyword ty⟩

/-- The inside of a layout qualifier with a word and a binding. -/
theorem isHeadLayout_layoutQualifiers {plain : Option Text} {gap : Text}
    (hplain : ∀ p ∈ plain, IsHeadWord p) (hgap : IsGap gap) (binding : Option Nat) :
    ∀ q ∈ layoutQualifiers plain gap "binding" binding, IsHeadLayout q := by
  intro q hq
  exact ⟨fun c hc => mem_layoutQualifiers (fun p hp => (hplain p hp).isName.all) hgap (by decide)
      hq hc,
    callFree_layoutQualifiers (fun p hp => (hplain p hp).callFree) hgap (callFree_key (.inr rfl))
      binding q hq⟩

/-- The head of a sampler or an image. -/
def opaqueHead (image : Option ImageAccess) (binding : Option Nat) (ty : ShaderType) : Text :=
  (opaqueLayout image binding ++ "uniform " ++ ty.keyword).toList

/-- The head of a block. -/
def blockHead (packing : Packing) (binding : Option Nat) (kind : BlockKind) : Text :=
  let bound := match binding with
    | none => ""
    | some binding => s!",binding={binding}"
  s!"layout({packing.qualifier}{bound}) {kind.type.keyword}".toList

theorem opaqueHead_eq (image : Option ImageAccess) (binding : Option Nat) (ty : ShaderType) :
    opaqueHead image binding ty =
      statement (layoutQualifiers (image.map (·.format.toList)) [' '] "binding" binding)
        (directionWords image ++ ["uniform".toList, ty.keyword.toList]) := by
  rw [← opaqueLayout_append _ _ (by simp), opaqueHead]
  simp [joinWords_cons_cons]

theorem blockHead_eq (packing : Packing) (binding : Option Nat) (kind : BlockKind) :
    blockHead packing binding kind =
      statement (layoutQualifiers (some packing.qualifier.toList) [] "binding" binding)
        [kind.type.keyword.toList] := by
  unfold blockHead
  cases binding with
  | none => simp [layoutQualifiers, statement_some, toString_string]
  | some n => simp [layoutQualifiers, statement_some, assignment, toString_string]

theorem isSolid_blockHead (packing : Packing) (binding : Option Nat) (kind : BlockKind) :
    IsSolid (blockHead packing binding kind) := by
  have hpacking : IsHeadWord packing.qualifier.toList := by
    refine ⟨packing.isName_qualifier, callFree_of_isTokenlessFrom ?_⟩
    cases packing <;> decide
  rw [blockHead_eq]
  refine isSolid_statement (isHeadLayout_layoutQualifiers ?_ (.inl rfl) binding) ?_ (by simp)
  · rintro p ⟨⟩
    exact hpacking
  · intro w hw
    obtain rfl := List.mem_singleton.mp hw
    exact isHeadWord_keyword _

theorem isSolid_opaqueHead {image : Option ImageAccess}
    (himage : ∀ access ∈ image, IsHeadWord access.format.toList) (binding : Option Nat)
    (ty : ShaderType) : IsSolid (opaqueHead image binding ty) := by
  have hplain : ∀ p ∈ image.map (·.format.toList), IsHeadWord p := by
    intro p hp
    obtain ⟨access, haccess, rfl⟩ := Option.map_eq_some_iff.mp hp
    exact himage access haccess
  have hword : ∀ w ∈ ["readonly".toList, "writeonly".toList, "uniform".toList], IsHeadWord w := by
    intro w hw
    refine ⟨?_, callFree_of_isTokenlessFrom ?_⟩
    · revert w
      decide
    · revert w
      decide
  rw [opaqueHead_eq]
  refine isSolid_statement (isHeadLayout_layoutQualifiers hplain (.inr rfl) binding) ?_ (by simp)
  intro w hw
  rcases List.mem_append.mp hw with hw | hw
  · cases image with
    | none => cases hw
    | some access =>
      obtain rfl := List.mem_singleton.mp hw
      split
      · exact hword _ (by simp)
      · exact hword _ (by simp)
  · rcases List.mem_cons.mp hw with rfl | hw
    · exact hword _ (by simp)
    · obtain rfl := List.mem_singleton.mp hw
      exact isHeadWord_keyword ty

/-! ## Heads of items -/

/-- The item begins with a head. -/
inductive Item.HasHead : Item → Text → Prop
  /-- a sampler or an image, in a dialect without precision qualifiers -/
  | opaqueUniform {image : Option ImageAccess} (t : BoundTexture)
    (himage : ∀ access ∈ image, IsHeadWord access.format.toList) :
    HasHead (.opaqueUniform "" image t) (opaqueHead image t.binding t.ty)
  /-- a block of the caller -/
  | block (b : BlockDecl) (binding : Option Nat) :
    HasHead (.block b binding) (blockHead b.block.packing binding b.block.kind)
  /-- the block of the plain uniforms -/
  | uniformBlock (u : UniformBlock) (binding : Option Nat) :
    HasHead (.uniformBlock u binding) (blockHead u.block.packing binding u.block.kind)

theorem Item.HasHead.isSolid (h : item.HasHead head) : IsSolid head := by
  cases h with
  | opaqueUniform t himage => exact isSolid_opaqueHead himage t.binding t.ty
  | block b binding => exact isSolid_blockHead ..
  | uniformBlock u binding => exact isSolid_blockHead ..

theorem toList_renderBlock_eq (name instanceName : String) (b : Block) (binding : Option Nat)
    (openEnded : Bool) : ∃ tail, (renderBlock name instanceName b binding openEnded).toList =
      blockHead b.packing binding b.kind ++ ' ' :: (name.toList ++ ' ' :: '\x7b' :: tail) := by
  unfold renderBlock blockHead
  simp only [String.toList_append, toString_string]
  exact ⟨_, by simp; rfl⟩

/-- Behind the head come a blank and the name. -/
theorem Item.HasHead.exists_toList_render (h : item.HasHead head) :
    ∃ tail, item.render.toList = head ++ ' ' :: tail := by
  cases h with
  | opaqueUniform t himage => exact ⟨_, by simp [render, opaqueHead, toString_string]; rfl⟩
  | block b binding =>
    obtain ⟨tail, htail⟩ := toList_renderBlock_eq b.identifier b.instanceIdentifier b.block binding
      b.variadic
    exact ⟨_, htail⟩
  | uniformBlock u binding =>
    obtain ⟨tail, htail⟩ := toList_renderBlock_eq u.stage.uniformBlockName "" u.block binding false
    exact ⟨_, htail⟩

/-- Every item ends with the end of a statement. -/
theorem Item.exists_render_eq (item : Item) : ∃ front, item.render = front ++ ";\n" := by
  have hblock : ∀ (name instanceName : String) (b : Block) (binding : Option Nat)
      (openEnded : Bool), ∃ front,
        renderBlock name instanceName b binding openEnded = front ++ ";\n" := by
    intro name instanceName b binding openEnded
    exact ⟨_ ++ s!"\x7d {instanceName}", (String.append_assoc ..).symm⟩
  cases item with
  | block declaration binding => exact hblock ..
  | uniformBlock u binding => exact hblock ..
  | colorOutput | varying | uniform | opaqueUniform | vertexAttribute => exact ⟨_, rfl⟩

/-! ## Heads in a finished text -/

/-- Behind a line feed, the head stands at the start of a line: it is the first declaration, or it
stands behind the end of another one. -/
theorem IsSolid.exists_of_lower {front : List Item} {t : Text} {l : Lowered} (h : IsSolid head)
    (hl : lower d (front.flatMap (·.render.toList) ++ (head ++ ' ' :: t)) = .ok l) :
    ∃ u v, '\n' :: l.text = u ++ '\n' :: (head ++ v) := by
  rcases List.eq_nil_or_concat' front with rfl | ⟨front, last, rfl⟩
  · obtain ⟨v, hv⟩ := h.prefix_of_lower rfl hl
    exact ⟨[], v, by rw [hv]; rfl⟩
  · obtain ⟨before, hbefore⟩ := last.exists_render_eq
    have hfront : (front ++ [last]).flatMap (·.render.toList) ++ (head ++ ' ' :: t) =
        (front.flatMap (·.render.toList) ++ before.toList) ++
          (behindStatement head ++ ' ' :: t) := by
      simp [hbefore, behindStatement]
    rw [hfront] at hl
    obtain ⟨u, v, huv⟩ := Lowers.keeps h rfl (lowers_of_lower hl)
    refine ⟨'\n' :: (u ++ [';']), v, ?_⟩
    rw [← huv, behindStatement]
    simp

/-- **A solid head begins a line of the finished text**, if lowering succeeds. Names need not be
identifiers: calls may begin in them and reach far into the text. -/
theorem exists_line_of_isSolid {target : Target} {hasTextures : Bool} {colors : Nat}
    {body text : String} (hmem : item ∈ items) (hsolid : IsSolid head)
    (hrender : ∃ tail, item.render.toList = head ++ ' ' :: tail)
    (hfinish : (StageSource.mk (target.dialect.preamble stage hasTextures colors) items body).finish
      target.dialect = .ok text) :
    ∃ line ∈ lines text.toList, head <+: line := by
  obtain ⟨front, back, rfl⟩ := List.append_of_mem hmem
  obtain ⟨tail, htail⟩ := hrender
  have hpreamble := Dialect.preambleLines_spec target stage hasTextures colors
  rw [StageSource.finish] at hfinish
  split at hfinish
  · cases hfinish
  · next l hl =>
    cases hfinish
    have hdeclarations : (StageSource.mk (target.dialect.preamble stage hasTextures colors)
        (front ++ item :: back) body).declarations.toList ++ body.toList =
          front.flatMap (·.render.toList) ++
            (head ++ ' ' :: (tail ++ (back.flatMap (·.render.toList) ++ body.toList))) := by
      rw [StageSource.declarations, String.toList_join, List.flatMap_map, List.flatMap_append,
        List.flatMap_cons, htail]
      simp
    rw [StageSource.text, String.toList_append, String.toList_append, Dialect.toList_preamble,
      List.append_assoc, lower_unlines fun line hline => (hpreamble line hline).2.2.1,
      hdeclarations] at hl
    obtain ⟨l', hl', rfl⟩ := map_eq_ok.mp hl
    obtain ⟨u, v, huv⟩ := hsolid.exists_of_lower hl'
    -- the preamble ends with a line feed
    obtain ⟨before, hbefore⟩ : ∃ before,
        unlines (target.dialect.preambleLines stage hasTextures colors) = before ++ ['\n'] := by
      rcases List.eq_nil_or_concat' (target.dialect.preambleLines stage hasTextures colors) with
        hnil | ⟨ls, line, hlines⟩
      · cases hnil
      · rw [hlines]
        exact ⟨unlines ls ++ line, by simp⟩
    have htext :
        (l'.prepend (unlines (target.dialect.preambleLines stage hasTextures colors))).text =
          (before ++ u) ++ '\n' :: (head ++ v) := by
      rw [Lowered.prepend, hbefore, List.append_assoc, List.singleton_append, huv,
        List.append_assoc]
    rw [String.toList_ofList, htext]
    exact exists_line_of_append hsolid.ne_nil hsolid.feed hsolid.getLast?_ne (before ++ u) v

/-- The head of an item begins a line of the finished text. -/
theorem exists_line_of_hasHead {target : Target} {hasTextures : Bool} {colors : Nat}
    {body text : String} (hmem : item ∈ items) (hhead : item.HasHead head)
    (hfinish : (StageSource.mk (target.dialect.preamble stage hasTextures colors) items body).finish
      target.dialect = .ok text) :
    ∃ line ∈ lines text.toList, head <+: line :=
  exists_line_of_isSolid hmem hhead.isSolid hhead.exists_toList_render hfinish

/-! ## Names behind heads -/

/-- What stands on the line of a head behind the type. -/
def Item.naming : Item → Text
  | .opaqueUniform _ _ t => t.name.toList ++ [';']
  | .block b _ => b.identifier.toList ++ [' ', '\x7b']
  | .uniformBlock u _ => u.stage.uniformBlockName.toList ++ [' ', '\x7b']
  | .colorOutput .. | .varying .. | .uniform .. | .vertexAttribute .. => []

theorem statement_append (qualifiers : Option Text) {ws : List Text} (hne : ws ≠ []) (w : Text)
    (vs : List Text) : statement qualifiers (ws ++ w :: vs) =
      statement qualifiers ws ++ ' ' :: joinWords (w :: vs) := by
  have hjoin : joinWords (ws ++ w :: vs) = joinWords ws ++ ' ' :: joinWords (w :: vs) := by
    fun_induction joinWords ws with
    | case1 => exact absurd rfl hne
    | case2 v => exact joinWords_cons_cons
    | case3 v ws hws ih =>
      rw [List.cons_append, joinWords_cons (by simp), ih hws, List.append_assoc, List.cons_append]
  cases qualifiers with
  | none => exact hjoin
  | some q => rw [statement_some, statement_some, hjoin]; simp

theorem Item.HasHead.mem_lines (h : item.HasHead head) :
    head ++ ' ' :: item.naming ∈ item.lines := by
  have hblock : ∀ (name instanceName : String) (b : Block) (binding : Option Nat)
      (openEnded : Bool), blockHead b.packing binding b.kind ++
        ' ' :: (name.toList ++ [' ', '\x7b']) ∈
          blockLines name instanceName b binding openEnded := by
    intro name instanceName b binding openEnded
    rw [blockHead_eq]
    have happend := statement_append
      (layoutQualifiers (some b.packing.qualifier.toList) [] "binding" binding)
      (List.cons_ne_nil b.kind.type.keyword.toList []) name.toList [['\x7b']]
    rw [joinWords_cons_cons, joinWords_singleton] at happend
    rw [← happend]
    exact List.mem_cons_self ..
  cases h with
  | @opaqueUniform image t himage =>
    have happend := statement_append
      (layoutQualifiers (image.map (·.format.toList)) [' '] "binding" t.binding)
      (List.append_ne_nil_of_right_ne_nil (directionWords image)
        (List.cons_ne_nil "uniform".toList [t.ty.keyword.toList])) (nameWord t.name.toList []) []
    have hword : nameWord t.name.toList [] = t.name.toList ++ [';'] := by
      rw [nameWord, List.append_nil]
    rw [joinWords_singleton, ← opaqueHead_eq, hword] at happend
    rw [naming, ← happend, lines, List.mem_singleton, ← hword]
    simp [precisionWords]
  | block b binding => exact hblock ..
  | uniformBlock u binding => exact hblock ..

/-- **The line of a head**: it begins with the head, and if everything is called by identifiers, the
name follows and ends the line. -/
theorem exists_line_of_assembleStage {target : Target} {decls : Declarations}
    {textures : List ExpandedTexture} {colors : Nat} {body : String} {finished : FinishedStage}
    (h : assembleStage target.dialect decls textures stage colors body a = .ok finished)
    (hmem : item ∈ finished.items) (hhead : item.HasHead head) :
    ∃ line ∈ lines finished.text.toList, head <+: line ∧
      (decls.IsNamed → (∀ t ∈ textures, ∀ f ∈ t.fields, IsName f.name.toList) →
        line = head ++ ' ' :: item.naming) := by
  by_cases hnamed : decls.IsNamed ∧ ∀ t ∈ textures, ∀ f ∈ t.fields, IsName f.name.toList
  · obtain ⟨draft, lowered, hdraft, -, -, htext, hitems, -⟩ :=
      (assembleStage_eq_ok_iff hnamed.1 hnamed.2).mp h
    have hreadable := (draftStage_declarations [] hdraft).1
      (isNamed_of_mem_stageEntries hnamed.1 hnamed.2)
    have hpreamble := Dialect.preambleLines_spec target stage (!decls.textures.isEmpty) colors
    refine ⟨_, ?_, List.prefix_append .., fun _ _ => rfl⟩
    rw [htext, StageSource.stageText, lines_unlines_append fun line hline =>
      (hpreamble line hline).1, lines_unlines_append fun line hline => isLine_of_isDeclarationLine
        (StageSource.isDeclarationLine_of_mem hreadable line hline)]
    refine List.mem_append_right _ (List.mem_append_left _ (List.mem_flatMap.mpr ⟨item, ?_, ?_⟩))
    · rwa [← hitems]
    · exact hhead.mem_lines
  · obtain ⟨draft, -, hfinish, -, -⟩ := assembleStage_eq_ok h
    obtain ⟨line, hline, hprefix⟩ := exists_line_of_hasHead hmem hhead hfinish
    exact ⟨line, hline, hprefix, fun hnames hfields => absurd ⟨hnames, hfields⟩ hnamed⟩

end ShaderLoom
