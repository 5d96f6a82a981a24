import ShaderLoom.Proofs.Source.CallFree

/-!
# Consolidated blocks

The consolidated block of a stage is declared by the lines `poolLines`, one field in a line and in
the order of the plain uniforms (**`declaresPool_of_assembleStage`**). The offsets of its fields
are those of its layout, so a field can be written without changing a byte of another one, in the
buffer behind the block and in every other buffer of its size (**`Block.IsLaidOut.exists_writes`**).
-/

namespace ShaderLoom

open Text Reading

variable {stage : Stage} {us : List UniformDecl} {b pool : Block} {f : BlockField} {position : Nat}
  {name : String} {data : List UInt8} {before : Buffer} {binding : Option Nat}

/-! ## Writing a field -/

/-- The bytes of a field in a buffer. -/
def BlockField.bytes (f : BlockField) (buffer : Buffer) : List UInt8 :=
  (buffer.contents.drop f.offset).take f.size

theorem BlockField.getElem?_bytes (f : BlockField) (buffer : Buffer) (i : Nat) :
    (f.bytes buffer)[i]? = if i < f.size then buffer.contents[f.offset + i]? else none := by
  rw [bytes, List.getElem?_take, List.getElem?_drop]

/-- Data is written to the field at a position, and no byte of another field changes. -/
structure Block.Writes (b : Block) (position : Nat) (data : List UInt8) (before after : Buffer) :
    Prop where
  /-- the buffer stays as large as it is, and what it is for -/
  spec : after.spec = before.spec
  /-- the field holds the data -/
  own : ∀ f, b.fields[position]? = some f → f.bytes after = data
  /-- all other fields are as before -/
  others : ∀ i f, i ≠ position → b.fields[i]? = some f → f.bytes after = f.bytes before

/-- **A field of a block can be written**, and it alone. -/
theorem Block.IsLaidOut.exists_writes (h : b.IsLaidOut) (hsize : before.spec.size = b.size)
    (hf : b.fields[position]? = some f) (hdata : data.length = f.size) :
    ∃ after, before.write f.offset data = .ok after ∧ b.Writes position data before after := by
  have hend : f.finish ≤ b.size := h.finish_le_size (List.mem_of_getElem? hf)
  obtain ⟨after, hwrite⟩ := Buffer.exists_write_iff.mpr
    (show f.offset + data.length ≤ before.spec.size by rw [hdata, hsize]; exact hend)
  refine ⟨after, hwrite, (Buffer.write_eq_ok hwrite).2.1, fun g hg => ?_, fun i g hne hg => ?_⟩
  · obtain rfl := Option.some.inj (hf.symm.trans hg)
    refine List.ext_getElem? fun k => ?_
    rw [f.getElem?_bytes, Buffer.getElem?_contents_of_write hwrite, Nat.add_sub_cancel_left]
    split
    · exact if_pos ⟨Nat.le_add_right _ _, by omega⟩
    · exact (List.getElem?_eq_none (by omega)).symm
  · -- the other field lies in front of the written one or behind it
    have hapart : g.finish ≤ f.offset ∨ f.finish ≤ g.offset := by
      obtain ⟨hi, rfl⟩ := List.getElem?_eq_some_iff.mp hg
      obtain ⟨hp, rfl⟩ := List.getElem?_eq_some_iff.mp hf
      have hpairwise := List.pairwise_iff_getElem.mp (LaidOut.pairwise h)
      rcases Nat.lt_or_gt_of_ne hne with hlt | hlt
      · exact .inl (hpairwise i position hi hp hlt)
      · exact .inr (hpairwise position i hp hi hlt)
    refine List.ext_getElem? fun k => ?_
    rw [g.getElem?_bytes, g.getElem?_bytes, Buffer.getElem?_contents_of_write hwrite]
    split
    · refine if_neg ?_
      simp only [BlockField.finish] at hapart
      omega
    · rfl

/-! ## Finding a field -/

/-- A field is found at its position if no other one has its name. -/
theorem Block.position?_of_nodup (h : (b.fields.map (·.name)).Nodup)
    (hf : b.fields[position]? = some f) : b.position? f.name = some position := by
  obtain ⟨hlt, rfl⟩ := List.getElem?_eq_some_iff.mp hf
  refine List.findIdx?_eq_some_iff_getElem.mpr ⟨hlt, decide_eq_true rfl, fun i hi => ?_⟩
  have hne : b.fields[i].name ≠ b.fields[position].name := by
    have hpairwise := List.pairwise_iff_getElem.mp h i position
    simp only [List.length_map, List.getElem_map] at hpairwise
    exact hpairwise (by omega) hlt hi
  simpa using hne

theorem Block.IsPoolOf.map_name (h : pool.IsPoolOf us) :
    pool.fields.map (·.name) = us.map (·.name) := by
  have hfields := congrArg (List.map Prod.fst) h.fields
  rwa [List.map_map, List.map_map] at hfields

/-! ## The lines of a block -/

/-- The lines that declare the plain uniforms of a stage as one block without an instance name. -/
def poolLines (stage : Stage) (binding : Option Nat) (us : List UniformDecl) : List String :=
  let bound := match binding with
    | none => ""
    | some n => s!",binding={n}"
  s!"layout(std140{bound}) uniform ngl_{stage.abbreviation}_block \x7b" ::
    (us.map (fun u => s!"    {u.ty.keyword} {u.name}{arrayBrackets u.count};") ++ ["\x7d ;"])

/-- A text declares plain uniforms as the block of their stage, and goes on with a body behind
it. -/
def DeclaresPool (stage : Stage) (us : List UniformDecl) (text body : Text) : Prop :=
  ∃ front binding, text = unlines front ++
    (unlines ((poolLines stage binding us).map String.toList) ++ body)

/-- The line of every uniform is a part of the text. -/
theorem DeclaresPool.infix_line {u : UniformDecl} {text body : Text}
    (h : DeclaresPool stage us text body) (hu : u ∈ us) :
    (s!"    {u.ty.keyword} {u.name}{arrayBrackets u.count};").toList <:+: text := by
  obtain ⟨front, binding, rfl⟩ := h
  have hline : (s!"    {u.ty.keyword} {u.name}{arrayBrackets u.count};").toList ∈
      (poolLines stage binding us).map String.toList :=
    List.mem_map_of_mem (List.mem_cons_of_mem _ (List.mem_append_left _
      (List.mem_map.mpr ⟨u, hu, rfl⟩)))
  refine (infix_unlines hline).trans ?_
  exact (List.prefix_append _ _).isInfix.trans (List.suffix_append _ _).isInfix

/-- A line for each field of a block. -/
theorem fieldLines_false (fields : List BlockField) :
    fieldLines false fields = fields.map fun f =>
      (s!"    {f.ty.keyword} {f.name}{arrayBrackets f.count};").toList := by
  have hline : ∀ f : BlockField,
      fieldLine [f.ty.keyword.toList, nameWord f.name.toList (arrayBrackets f.count).toList] =
        (s!"    {f.ty.keyword} {f.name}{arrayBrackets f.count};").toList := by
    intro f
    simp [fieldLine, nameWord, joinWords_cons_cons, toString_string]
  fun_induction fieldLines false fields with
  | case1 => rfl
  | case2 f brackets => exact congrArg ([·]) (hline f)
  | case3 f rest _ ih => rw [List.map_cons, ih, hline]

/-- **The lines of a pool** list its uniforms. -/
theorem Block.IsPoolOf.blockLines_eq (h : pool.IsPoolOf us) (stage : Stage)
    (binding : Option Nat) :
    blockLines stage.uniformBlockName "" pool binding false =
      (poolLines stage binding us).map String.toList := by
  have hfields : pool.fields.map (fun f =>
      (s!"    {f.ty.keyword} {f.name}{arrayBrackets f.count};").toList) =
        (us.map fun u => s!"    {u.ty.keyword} {u.name}{arrayBrackets u.count};").map
          String.toList := by
    have hmap := congrArg (List.map fun p : String × ShaderType × Nat =>
      (s!"    {p.2.1.keyword} {p.1}{arrayBrackets p.2.2};").toList) h.fields
    rw [List.map_map, List.map_map] at hmap
    rw [List.map_map]
    exact hmap
  have hclosing : closingLine "".toList = "\x7d ;".toList := rfl
  have hkeyword : BlockKind.uniform.type.keyword = "uniform" := rfl
  have hqualifier : Packing.std140.qualifier = "std140" := rfl
  rw [blockLines, fieldLines_false, hfields, h.packing, h.kind, hclosing, hkeyword, hqualifier]
  unfold poolLines
  rw [List.map_cons, List.map_append, List.map_singleton]
  refine congrArg (· :: _) ?_
  cases binding with
  | none => simp [layoutQualifiers, statement_some, joinWords_cons_cons, toString_string,
      Stage.uniformBlockName]
  | some n => simp [layoutQualifiers, statement_some, joinWords_cons_cons, toString_string,
      Stage.uniformBlockName, assignment]

/-! ## Whole stages -/

section

variable {target : Target} {decls : Declarations} {textures : List ExpandedTexture} {colors : Nat}
  {body : String} {a : Allocator} {finished : FinishedStage}

/-- What a stage makes of its plain uniforms. -/
theorem hasPool_of_assembleStage (hd : target.dialect.consolidatesUniforms = true)
    (h : assembleStage target.dialect decls textures stage colors body a = .ok finished) :
    HasPool stage (plainUniforms decls textures stage) finished.items := by
  obtain ⟨draft, hdraft, -, hitems, -⟩ := assembleStage_eq_ok h
  have hpool := draftStage_hasPool hdraft
  rwa [filterMap_pooled? hd, ← hitems] at hpool

/-- **The consolidated block stands in the text** of its stage, behind all other declarations and in
front of the lowered body. -/
theorem declaresPool_of_assembleStage (hd : target.dialect.consolidatesUniforms = true)
    (hfree : IsCallFreeIn decls textures stage)
    (h : assembleStage target.dialect decls textures stage colors body a = .ok finished)
    (hus : plainUniforms decls textures stage ≠ []) :
    ∃ lowered, lower target.dialect body.toList = .ok lowered ∧
      DeclaresPool stage (plainUniforms decls textures stage) finished.text.toList
        lowered.text := by
  obtain ⟨draft, lowered, -, hlowered, htext, hitems, -⟩ :=
    (assembleStage_eq_ok_iff_of_callFree hfree).mp h
  have hpool := hasPool_of_assembleStage hd h
  rw [hitems] at hpool
  cases hpool with
  | none hnone => exact absurd hnone hus
  | @block u front number _ hfront _ hstage hpool =>
    have hlines : (Item.uniformBlock u number).lines =
        (poolLines stage number (plainUniforms decls textures stage)).map String.toList := by
      rw [Item.lines, hpool.blockLines_eq, hstage]
    refine ⟨lowered, hlowered, target.dialect.preambleLines stage (!decls.textures.isEmpty) colors ++
      front.flatMap Item.lines, number, ?_⟩
    rw [htext, StageSource.stageText, hfront, List.flatMap_append, List.flatMap_singleton, hlines,
      unlines_append, unlines_append]
    simp only [List.append_assoc]

end

end ShaderLoom
