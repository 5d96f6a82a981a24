import ShaderLoom.Proofs.Source.Pool

/-!
# Declarations without calls

The words that a declaration puts around its names hold no calls. So if no call stands in a name,
none stands in the declarations of a stage, and finishing the stage lowers its body and nothing
else (**`assembleStage_eq_ok_iff_of_callFree`**). The names need not be identifiers.
-/

namespace ShaderLoom

open Text Reading

variable {d : Dialect} {stage : Stage} {w t : Text} {ws : List Text} {item : Item}
  {entry : StageEntry} {a a' : Allocator}

/-! ## Words without calls -/

theorem callFree_append_blank (hw : CallFree w) (ht : CallFree t) : CallFree (w ++ ' ' :: t) := by
  have hapart : Apart w (' ' :: t) := apart_of_begins rfl
  exact (callFree_append hapart).mpr ⟨hw, (callFree_cons_of_not (by decide)).mpr ht⟩

theorem callFree_joinWords (h : ∀ w ∈ ws, CallFree w) : CallFree (joinWords ws) := by
  fun_induction joinWords ws with
  | case1 => exact callFree_nil
  | case2 w => exact h w (List.mem_singleton_self w)
  | case3 w ws _ ih =>
    exact callFree_append_blank (h w (List.mem_cons_self ..))
      (ih fun v hv => h v (List.mem_cons_of_mem w hv))

theorem callFree_statement {qualifiers : Option Text} (hq : ∀ q ∈ qualifiers, CallFree q)
    (hws : ∀ w ∈ ws, CallFree w) : CallFree (statement qualifiers ws) := by
  cases qualifiers with
  | none => exact callFree_joinWords hws
  | some q =>
    have hlayout : CallFree "layout(".toList := callFree_of_isTokenlessFrom (by decide)
    rw [statement_some]
    refine (callFree_append (.inl (by decide))).mpr ⟨hlayout, ?_⟩
    refine (callFree_append (apart_of_begins rfl)).mpr ⟨hq q rfl, ?_⟩
    refine (callFree_cons_of_not (by decide)).mpr ((callFree_cons_of_not (by decide)).mpr ?_)
    exact callFree_joinWords hws

theorem callFree_keyword (ty : ShaderType) : CallFree ty.keyword.toList := by
  refine callFree_of_isName (isName_keyword ty) fun f => ?_
  cases ty <;> cases f <;> decide

theorem callFree_assignment {key : String} (hkey : CallFree key.toList) (n : Nat) :
    CallFree (assignment key n) := by
  refine (callFree_append (apart_of_begins rfl)).mpr ⟨hkey, ?_⟩
  exact (callFree_cons_of_not (by decide)).mpr (Dialect.callFree_repr n)

/-- A layout qualifier holds no calls if its word holds none. -/
theorem callFree_layoutQualifiers {plain : Option Text} {gap : Text} {key : String}
    (hplain : ∀ p ∈ plain, CallFree p) (hgap : IsGap gap) (hkey : CallFree key.toList)
    (number : Option Nat) : ∀ q ∈ layoutQualifiers plain gap key number, CallFree q := by
  intro q hq
  cases number with
  | none => exact hplain q hq
  | some n =>
    have hassignment := callFree_assignment hkey n
    cases plain with
    | none =>
      cases hq
      exact hassignment
    | some p =>
      cases hq
      refine (callFree_append (apart_of_begins rfl)).mpr ⟨hplain p rfl, ?_⟩
      refine (callFree_cons_of_not (by decide)).mpr ?_
      rcases hgap with rfl | rfl
      · exact hassignment
      · exact (callFree_cons_of_not (by decide)).mpr hassignment

theorem Packing.callFree_qualifier (p : Packing) : CallFree p.qualifier.toList := by
  apply callFree_of_isTokenlessFrom
  cases p <;> decide

/-- The keys of layout qualifiers are no tokens. -/
theorem callFree_key {key : String} (h : key = "location" ∨ key = "binding") :
    CallFree key.toList := by
  rcases h with rfl | rfl <;> exact callFree_of_isTokenlessFrom (by decide)

theorem callFree_brackets (count : Nat) : CallFree (arrayBrackets count).toList := by
  rw [arrayBrackets]
  split
  · exact callFree_nil
  · have hbrackets : (s!"[{count}]").toList = '[' :: (count.repr.toList ++ [']']) := by
      simp [toString_string]
    rw [hbrackets, callFree_cons_of_not (by decide)]
    refine (callFree_append (apart_of_begins rfl)).mpr ⟨Dialect.callFree_repr count, ?_⟩
    exact (callFree_cons_of_not (by decide)).mpr callFree_nil

theorem callFree_nameWord {brackets : Text} (hw : CallFree w) (hshape : IsBrackets brackets)
    (hbrackets : CallFree brackets) : CallFree (nameWord w brackets) := by
  have hapart : Apart w (brackets ++ [';']) := by
    refine apart_of_begins ?_
    rcases hshape with rfl | ⟨count, rfl, -⟩ <;> rfl
  rw [nameWord, List.append_assoc, callFree_append hapart]
  refine ⟨hw, (callFree_append (apart_of_begins rfl)).mpr ⟨hbrackets, ?_⟩⟩
  exact (callFree_cons_of_not (by decide)).mpr callFree_nil

/-- The word of a single name. -/
theorem callFree_nameWord_nil (hw : CallFree w) : CallFree (nameWord w []) :=
  callFree_nameWord hw (.inl rfl) callFree_nil

/-- The words of a declaration: some words, a type, and the word of a name. -/
theorem callFree_declarationWords {leading : List Text} {brackets : Text} (ty : ShaderType)
    (hleading : ∀ v ∈ leading, CallFree v) (hword : CallFree (nameWord w brackets)) :
    ∀ v ∈ leading ++ [ty.keyword.toList, nameWord w brackets], CallFree v := by
  intro v hv
  rcases List.mem_append.mp hv with hv | hv
  · exact hleading v hv
  · simp only [List.mem_cons, List.not_mem_nil, or_false] at hv
    rcases hv with rfl | rfl
    · exact callFree_keyword ty
    · exact hword

theorem Stage.callFree_uniformBlockName (s : Stage) : CallFree s.uniformBlockName.toList := by
  apply callFree_of_isTokenlessFrom
  cases s <;> decide

/-! ## Blocks -/

theorem callFree_fieldLine {brackets : Text} (ty : ShaderType) (hw : CallFree w)
    (hshape : IsBrackets brackets) (hbrackets : CallFree brackets) :
    CallFree (fieldLine [ty.keyword.toList, nameWord w brackets]) := by
  have hjoin : CallFree (joinWords [ty.keyword.toList, nameWord w brackets]) := by
    refine callFree_joinWords fun v hv => ?_
    rcases List.mem_cons.mp hv with rfl | hv
    · exact callFree_keyword ty
    · rw [List.mem_singleton.mp hv]
      exact callFree_nameWord hw hshape hbrackets
  have hblanks : CallFree "    ".toList := callFree_of_isTokenlessFrom (by decide)
  exact (callFree_append (.inl (by decide))).mpr ⟨hblanks, hjoin⟩

theorem callFree_fieldLines {fields : List BlockField} (openEnded : Bool)
    (h : ∀ f ∈ fields, CallFree f.name.toList) :
    ∀ line ∈ fieldLines openEnded fields, CallFree line := by
  fun_induction fieldLines openEnded fields with
  | case1 => simp
  | case2 f brackets =>
    intro line hline
    rw [List.mem_singleton.mp hline]
    have hf := h f (List.mem_singleton_self f)
    simp only [brackets]
    split
    · exact callFree_fieldLine f.ty hf (.inr ⟨[], rfl, fun c hc => absurd hc List.not_mem_nil⟩)
        (callFree_of_isTokenlessFrom (by decide))
    · exact callFree_fieldLine f.ty hf (isBrackets_arrayBrackets f.count) (callFree_brackets f.count)
  | case3 f fields _ ih =>
    intro line hline
    rcases List.mem_cons.mp hline with rfl | hline
    · exact callFree_fieldLine f.ty (h f (List.mem_cons_self ..)) (isBrackets_arrayBrackets f.count)
        (callFree_brackets f.count)
    · exact ih (fun g hg => h g (List.mem_cons_of_mem f hg)) line hline

theorem callFree_blockLines {name instanceName : String} {b : Block} {binding : Option Nat}
    {openEnded : Bool} (hname : CallFree name.toList) (hinstance : CallFree instanceName.toList)
    (hfields : ∀ f ∈ b.fields, CallFree f.name.toList) :
    ∀ line ∈ blockLines name instanceName b binding openEnded, CallFree line := by
  intro line hline
  rcases List.mem_cons.mp hline with rfl | hline
  · refine callFree_statement (callFree_layoutQualifiers ?_ (.inl rfl) (callFree_key (.inr rfl)) _)
      fun w hw => ?_
    · rintro p ⟨⟩
      exact b.packing.callFree_qualifier
    · simp only [List.mem_cons, List.not_mem_nil, or_false] at hw
      rcases hw with rfl | rfl | rfl
      · exact callFree_keyword _
      · exact hname
      · exact callFree_of_isTokenlessFrom (by decide)
  · rcases List.mem_append.mp hline with hline | hline
    · exact callFree_fieldLines openEnded hfields line hline
    · rw [List.mem_singleton.mp hline, closingLine, callFree_cons_of_not (by decide),
        callFree_cons_of_not (by decide)]
      refine (callFree_append (apart_of_begins rfl)).mpr ⟨hinstance, ?_⟩
      exact (callFree_cons_of_not (by decide)).mpr callFree_nil

/-! ## Items -/

namespace Item

/-- The names that an item writes. -/
def names : Item → List String
  | .colorOutput .. => []
  | .varying _ _ v => [v.name]
  | .uniform _ u => [u.name]
  | .opaqueUniform _ _ t => [t.name]
  | .block b _ => b.identifier :: b.instanceIdentifier :: b.block.fields.map (·.name)
  | .uniformBlock u _ => u.block.fields.map (·.name)
  | .vertexAttribute _ _ _ x => [x.name]

/-- The words of an item that its dialect chooses, and the format of an image. -/
def qualifiers : Item → List Text
  | .varying qualifier _ _ => [qualifier.toList]
  | .uniform precision _ => precisionWords precision
  | .opaqueUniform precision image _ =>
    (image.map (·.format.toList)).toList ++ precisionWords precision
  | .vertexAttribute qualifier precision _ _ => qualifier.toList :: precisionWords precision
  | .colorOutput .. | .block .. | .uniformBlock .. => []

/-- The words in front of a sampler or an image tell what it is for. -/
theorem callFree_directionWords (image : Option ImageAccess) :
    ∀ w ∈ directionWords image, CallFree w := by
  cases image with
  | none => exact fun w hw => absurd hw List.not_mem_nil
  | some access =>
    intro w hw
    rw [List.mem_singleton.mp hw]
    split <;> exact callFree_of_isTokenlessFrom (by decide)

/-- **An item whose names hold no calls** holds none. -/
theorem callFree_lines (hqualifiers : ∀ w ∈ item.qualifiers, CallFree w)
    (hnames : ∀ name ∈ item.names, CallFree name.toList) : ∀ line ∈ item.lines, CallFree line := by
  have hlocation : ∀ location, ∀ q ∈ layoutQualifiers none [] "location" location, CallFree q :=
    callFree_layoutQualifiers (fun p hp => by cases hp) (.inl rfl) (callFree_key (.inl rfl))
  have huniform : CallFree "uniform".toList := callFree_of_isTokenlessFrom (by decide)
  have hone : ∀ {line : Text}, CallFree line → ∀ l ∈ [line], CallFree l := by
    intro line hline l hl
    rwa [List.mem_singleton.mp hl]
  cases item with
  | colorOutput location colors =>
    have hout : ∀ w ∈ ["out".toList], CallFree w :=
      hone (callFree_of_isTokenlessFrom (by decide))
    refine hone (callFree_statement (hlocation location)
      (callFree_declarationWords .vec4 hout (callFree_nameWord ?_ ?_ ?_)))
    · exact callFree_of_isTokenlessFrom (by decide)
    · split
      · exact isBrackets_arrayBrackets colors
      · exact .inl rfl
    · split
      · exact callFree_brackets colors
      · exact callFree_nil
  | varying qualifier location v =>
    exact hone (callFree_statement (hlocation location) (callFree_declarationWords v.ty hqualifiers
      (callFree_nameWord_nil (hnames _ (List.mem_singleton_self _)))))
  | uniform precision u =>
    refine hone (callFree_statement (fun q hq => by cases hq)
      (callFree_declarationWords u.ty (List.forall_mem_cons.mpr ⟨huniform, hqualifiers⟩) ?_))
    exact callFree_nameWord (hnames _ (List.mem_singleton_self _))
      (isBrackets_arrayBrackets u.count) (callFree_brackets u.count)
  | opaqueUniform precision image t =>
    have hformat : ∀ p ∈ image.map (·.format.toList), CallFree p := fun p hp =>
      hqualifiers p (List.mem_append_left _ (Option.mem_toList.mpr hp))
    have hprecision : ∀ w ∈ precisionWords precision, CallFree w := fun w hw =>
      hqualifiers w (List.mem_append_right _ hw)
    have hwords := callFree_declarationWords t.ty
      (List.forall_mem_cons.mpr ⟨huniform, hprecision⟩)
      (callFree_nameWord_nil (hnames _ (List.mem_singleton_self _)))
    exact hone (callFree_statement (callFree_layoutQualifiers hformat (.inr rfl)
      (callFree_key (.inr rfl)) _)
      (List.forall_mem_append.mpr ⟨callFree_directionWords image, hwords⟩))
  | block b binding =>
    exact callFree_blockLines (hnames _ (List.mem_cons_self ..))
      (hnames _ (List.mem_cons_of_mem _ (List.mem_cons_self ..)))
      fun f hf => hnames _ (List.mem_cons_of_mem _ (List.mem_cons_of_mem _ (List.mem_map_of_mem hf)))
  | uniformBlock u binding =>
    exact callFree_blockLines u.stage.callFree_uniformBlockName callFree_nil
      fun f hf => hnames _ (List.mem_map_of_mem hf)
  | vertexAttribute qualifier precision location x =>
    exact hone (callFree_statement (hlocation location) (callFree_declarationWords x.ty hqualifiers
      (callFree_nameWord_nil (hnames _ (List.mem_singleton_self _)))))

end Item

/-! ## Entries -/

/-- The qualifier of a format is no token. -/
theorem Format.callFree_imageQualifier {f : Format} {qualifier : String}
    (h : f.imageQualifier? = some qualifier) : CallFree qualifier.toList := by
  have htoken : ∀ q ∈ f.imageQualifier?, isTokenlessFrom [] q.toList = true := by
    cases f <;> decide
  exact callFree_of_isTokenlessFrom (htoken qualifier h)

/-- The qualifier of a variable between the stages is no token. -/
theorem Dialect.callFree_varyingQualifier (d : Dialect) (stage : Stage) :
    CallFree (d.varyingQualifier stage).toList := by
  rcases d.varyingQualifier_cases stage with hq | hq | ⟨-, hq⟩ <;> rw [hq] <;>
    exact callFree_of_isTokenlessFrom (by decide)

namespace StageEntry

/-- The names that are written for an entry. -/
def names : StageEntry → List String
  | .colorOutput _ => []
  | .varying v => [v.name]
  | .uniform u => [u.name]
  | .textureField _ f => [f.name]
  | .block b => b.identifier :: b.instanceIdentifier :: b.block.fields.map (·.name)
  | .vertexAttribute x => [x.name]

theorem names_of_uniform? {u : UniformDecl} (h : entry.uniform? = some u) :
    entry.names = [u.name] := by
  cases entry with
  | uniform v =>
    cases h
    rfl
  | textureField t f =>
    rw [uniform?] at h
    split at h
    · cases h
    · cases h
      rfl
  | colorOutput | varying | block | vertexAttribute => cases h

/-- The item of an entry writes the names of the entry. -/
theorem Yields.names_eq (h : entry.Yields d stage a item a') : item.names = entry.names := by
  cases h with
  | uniform hu hblock hpool => exact (names_of_uniform? hu).symm
  | colorOutput | varyingOut | varyingIn | opaqueField | block | vertexAttribute => rfl

theorem Yields.isPrecision (h : entry.Yields d stage a item a') :
    IsPrecision item.precision := by
  cases h with
  | uniform | opaqueField | vertexAttribute => exact d.isPrecision_precisionQualifier _ _ _
  | colorOutput | varyingOut | varyingIn | block => exact .inl rfl

theorem callFree_of_mem_precisionWords {precision : String} (h : IsPrecision precision)
    (hw : w ∈ precisionWords precision) : CallFree w := by
  revert w
  rcases h with rfl | rfl | rfl | rfl
  all_goals
    intro w hw
    refine callFree_of_isTokenlessFrom ?_
    revert w
    decide

/-- The words that a dialect chooses are no tokens. -/
theorem Yields.callFree_qualifiers (h : entry.Yields d stage a item a') :
    ∀ w ∈ item.qualifiers, CallFree w := by
  have hvarying : ∀ w ∈ [(d.varyingQualifier stage).toList], CallFree w := by
    intro w hw
    rw [List.mem_singleton.mp hw]
    exact d.callFree_varyingQualifier stage
  intro w hw
  cases h with
  | colorOutput | block => cases hw
  | varyingOut v hstage => exact hvarying w hw
  | varyingIn v hstage => exact hvarying w hw
  | uniform => exact callFree_of_mem_precisionWords (d.isPrecision_precisionQualifier _ _ _) hw
  | opaqueField hty himage =>
    rcases List.mem_append.mp hw with hw | hw
    · obtain ⟨access, haccess, rfl⟩ := Option.map_eq_some_iff.mp (Option.mem_toList.mp hw)
      obtain ⟨format, hq⟩ := Draft.exists_format_of_imageAccess himage access haccess
      exact Format.callFree_imageQualifier hq
    · exact callFree_of_mem_precisionWords (d.isPrecision_precisionQualifier _ _ _) hw
  | vertexAttribute x =>
    rcases List.mem_cons.mp hw with rfl | hw
    · rcases d.inputQualifier_cases with hq | hq <;> rw [hq] <;>
        exact callFree_of_isTokenlessFrom (by decide)
    · exact callFree_of_mem_precisionWords (d.isPrecision_precisionQualifier _ _ _) hw

/-- No call stands in a name that is written for the entry. -/
def IsCallFree (entry : StageEntry) : Prop := ∀ name ∈ entry.names, CallFree name.toList

theorem Yields.callFree_lines (h : entry.Yields d stage a item a') (hentry : entry.IsCallFree) :
    ∀ line ∈ item.lines, CallFree line :=
  Item.callFree_lines h.callFree_qualifiers (h.names_eq ▸ hentry)

end StageEntry

/-! ## Whole stages -/

section

variable {target : Target} {decls : Declarations} {textures : List ExpandedTexture} {colors : Nat}
  {body : String} {finished : FinishedStage} {draft : Draft}

/-- No call stands in a name that is written for a declaration. -/
structure Declarations.IsCallFree (decls : Declarations) : Prop where
  /-- loose uniforms -/
  uniforms : ∀ u ∈ decls.uniforms, CallFree u.name.toList
  /-- fields of textures -/
  textures : ∀ t ∈ decls.textures, ∀ f : TextureField, CallFree (f.identifier t.name).toList
  /-- blocks -/
  blocks : ∀ b ∈ decls.blocks, CallFree b.identifier.toList
  /-- instances of blocks -/
  instances : ∀ b ∈ decls.blocks, CallFree b.instanceIdentifier.toList
  /-- fields of blocks -/
  fields : ∀ b ∈ decls.blocks, ∀ f ∈ b.block.fields, CallFree f.name.toList
  /-- vertex attributes -/
  attributes : ∀ x ∈ decls.attributes, CallFree x.name.toList
  /-- variables between the stages -/
  varyings : ∀ v ∈ decls.varyings, CallFree v.name.toList

theorem TextureDecl.callFree_of_mem_expand {t : TextureDecl} {frames : FrameShape}
    {graphics : Bool} {f : ExpandedField}
    (h : ∀ field : TextureField, CallFree (field.identifier t.name).toList)
    (hf : f ∈ (t.expand frames graphics).fields) : CallFree f.name.toList := by
  obtain ⟨field, -, hfield⟩ := List.mem_filterMap.mp hf
  obtain ⟨ty, -, rfl⟩ := Option.map_eq_some_iff.mp hfield
  exact h field

/-- No call stands in a name that is written in a stage. -/
def IsCallFreeIn (decls : Declarations) (textures : List ExpandedTexture) (stage : Stage) : Prop :=
  ∀ colors, ∀ entry ∈ stageEntries decls textures stage colors, entry.IsCallFree

/-- If no name holds a call, none that is written in a stage does. -/
theorem Declarations.IsCallFree.isCallFreeIn (hdecls : decls.IsCallFree)
    (hfields : ∀ t ∈ textures, ∀ f ∈ t.fields, CallFree f.name.toList) (stage : Stage) :
    IsCallFreeIn decls textures stage := by
  have hone : ∀ {name : String}, CallFree name.toList → ∀ n ∈ [name], CallFree n.toList := by
    intro name hname n hn
    rwa [List.mem_singleton.mp hn]
  intro colors
  refine forall_mem_stageEntries (fun n hn => absurd hn List.not_mem_nil)
    (fun v hv => hone (hdecls.varyings v hv)) (fun u hu _ => hone (hdecls.uniforms u hu))
    (fun t ht f hf _ => hone (hfields t ht f hf)) (fun b hb _ => ?_)
    fun _ x hx => hone (hdecls.attributes x hx)
  intro n hn
  rcases List.mem_cons.mp hn with rfl | hn
  · exact hdecls.blocks b hb
  · rcases List.mem_cons.mp hn with rfl | hn
    · exact hdecls.instances b hb
    · obtain ⟨f, hf, rfl⟩ := List.mem_map.mp hn
      exact hdecls.fields b hb f hf

/-- The precisions of the items of a stage are among those that are written. -/
theorem draftStage_isPrecision (h : draftStage d decls textures stage colors a = .ok draft) :
    ∀ item ∈ draft.items, IsPrecision item.precision := by
  intro item hitem
  rcases exists_entry_of_mem h hitem with ⟨entry, -, b, b', hyields⟩ | ⟨pool, buffer, b, rfl⟩
  · exact hyields.isPrecision
  · exact .inl rfl

/-- The items of a stage hold no calls if its names hold none. -/
theorem draftStage_callFree (h : draftStage d decls textures stage colors a = .ok draft)
    (hfree : IsCallFreeIn decls textures stage) :
    ∀ line ∈ draft.items.flatMap Item.lines, CallFree line := by
  obtain ⟨items, pool, hitems, hpool, hcloses⟩ := draftStage_pool h
  have hyields : ∀ line ∈ items.flatMap Item.lines, CallFree line := by
    intro line hline
    obtain ⟨item, hitem, hline⟩ := List.mem_flatMap.mp hline
    obtain ⟨entry, hentry, b, b', hyields⟩ := hitems item hitem
    exact hyields.callFree_lines (hfree colors entry hentry) line hline
  generalize draft.items = all at hcloses
  cases hcloses with
  | nothing => exact hyields
  | block hne hbuffer =>
    rw [List.flatMap_append, List.flatMap_singleton]
    refine List.forall_mem_append.mpr ⟨hyields, ?_⟩
    refine Item.callFree_lines (fun w hw => by cases hw) fun name hname => ?_
    obtain ⟨f, hf, rfl⟩ := List.mem_map.mp hname
    -- a field of the pool is called like a uniform that went there
    have hmem : (f.name, f.ty, f.count) ∈ pool.fields.map fun f => (f.name, f.ty, f.count) :=
      List.mem_map_of_mem hf
    rw [hpool.fields] at hmem
    obtain ⟨u, hu, he⟩ := List.mem_map.mp hmem
    obtain ⟨entry, hentry, hpooled⟩ := List.mem_filterMap.mp hu
    have hnames := StageEntry.names_of_uniform? (Option.eq_some_of_filter_eq_some hpooled)
    rw [← (Prod.mk.inj he).1]
    exact hfree colors entry hentry u.name (by rw [hnames]; exact List.mem_singleton_self _)

/-- **A stage without calls in its names** is assembled exactly when it is drafted and its body can
be lowered. Its text is its preamble, the lines of its items, and the lowered body. -/
theorem assembleStage_eq_ok_iff_of_callFree (hfree : IsCallFreeIn decls textures stage) :
    assembleStage target.dialect decls textures stage colors body a = .ok finished ↔
      ∃ draft lowered, draftStage target.dialect decls textures stage colors a = .ok draft ∧
        lower target.dialect body.toList = .ok lowered ∧
        finished.text.toList = StageSource.stageText target.dialect stage
          (!decls.textures.isEmpty) colors draft.items lowered.text ∧
        finished.items = draft.items ∧ finished.allocator = draft.allocator := by
  have hfinish : ∀ {draft : Draft} {text : String},
      draftStage target.dialect decls textures stage colors a = .ok draft →
        ((StageSource.mk (target.dialect.preamble stage (!decls.textures.isEmpty) colors) draft.items
          body).finish target.dialect = .ok text ↔
            ∃ lowered, lower target.dialect body.toList = .ok lowered ∧
              text.toList = StageSource.stageText target.dialect stage
                (!decls.textures.isEmpty) colors draft.items lowered.text) := fun hdraft =>
    StageSource.finish_eq_ok_iff_of_callFree (draftStage_isPrecision hdraft)
      (draftStage_callFree hdraft hfree)
  constructor
  · intro h
    obtain ⟨draft, hdraft, htext, hitems, hallocator⟩ := assembleStage_eq_ok h
    rw [hitems] at htext
    obtain ⟨lowered, hlowered, htext⟩ := (hfinish hdraft).mp htext
    exact ⟨draft, lowered, hdraft, hlowered, htext, hitems, hallocator⟩
  · rintro ⟨draft, lowered, hdraft, hlowered, htext, hitems, hallocator⟩
    obtain ⟨text, items, allocator⟩ := finished
    dsimp only at hitems hallocator
    subst hitems hallocator
    exact bind_eq_ok.mpr ⟨draft, hdraft, bind_eq_ok.mpr
      ⟨text, (hfinish hdraft).mpr ⟨lowered, hlowered, htext⟩, rfl⟩⟩

/-- A stage without calls in its names and its body can be assembled if it can be drafted. -/
theorem exists_assembleStage_of_callFree (hfree : IsCallFreeIn decls textures stage)
    (hdraft : draftStage target.dialect decls textures stage colors a = .ok draft)
    (hbody : CallFree body.toList) :
    ∃ text : String, text.toList = StageSource.stageText target.dialect stage
        (!decls.textures.isEmpty) colors draft.items body.toList ∧
      assembleStage target.dialect decls textures stage colors body a =
        .ok ⟨text, draft.items, draft.allocator⟩ :=
  ⟨String.ofList _, String.toList_ofList,
    (assembleStage_eq_ok_iff_of_callFree hfree).mpr
      ⟨draft, _, hdraft, (lowers_of_callFree hbody).lower_eq, String.toList_ofList, rfl, rfl⟩⟩

end

end ShaderLoom
