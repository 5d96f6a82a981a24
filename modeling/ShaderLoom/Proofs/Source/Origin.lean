import ShaderLoom.Proofs.Source.Program

/-!
# Where elements come from

What a program registers comes of the entries of its stages: a uniform of an entry that declares
one (**`exists_origin_of_mem_uniforms`**), a sampler or an image of a texture field
(**`exists_origin_of_mem_textures`**), and a field of a consolidated block of an entry that went into
the pool (**`exists_origin_of_mem_fields`**). If no two variables of a stage have the same name, the
name tells which entry it was.
-/

namespace ShaderLoom

variable {d : Dialect} {decls : Declarations} {textures : List ExpandedTexture} {stage : Stage}
  {colors : Nat} {a a' : Allocator} {draft : Draft} {bodies : ProgramBodies} {program : Assembly}
  {entry other : StageEntry} {item : Item} {name : String} {ty : ShaderType}

/-! ## Names of variables -/

/-- The name of the loose uniform or the texture field that an entry is. -/
def StageEntry.variable? : StageEntry → Option String
  | .uniform u => some u.name
  | .textureField _ f => some f.name
  | .colorOutput _ | .varying _ | .block _ | .vertexAttribute _ => none

/-- The names of the loose uniforms of a stage, and then of its texture fields. -/
def variableNames (decls : Declarations) (textures : List ExpandedTexture) (stage : Stage) :
    List String :=
  (decls.uniforms.filter (·.stage = stage)).map (·.name) ++
    ((textures.flatMap (·.fields)).filter (·.stage = stage)).map (·.name)

theorem filterMap_variable? :
    (stageEntries decls textures stage colors).filterMap StageEntry.variable? =
      variableNames decls textures stage := by
  rw [filterMap_stageEntries (fun _ => rfl) (fun _ => rfl) (fun _ => rfl) (fun _ => rfl),
    variableNames, List.filter_flatMap, List.map_flatMap]
  refine congrArg₂ _ (congrFun List.filterMap_eq_map _) (List.flatMap_congr fun t _ => ?_)
  exact congrFun List.filterMap_eq_map _

/-- **A name tells the entry**, if no two variables of the stage have the same. -/
theorem eq_of_variable? (hnames : (variableNames decls textures stage).Nodup)
    (hentry : entry ∈ stageEntries decls textures stage colors)
    (hother : other ∈ stageEntries decls textures stage colors)
    (hname : entry.variable? = some name) (hsame : other.variable? = some name) :
    other = entry := by
  have hvariables : (stageEntries decls textures stage colors).filterMap StageEntry.variable? =
      variableNames decls textures stage := filterMap_variable?
  rw [← hvariables, List.Nodup, List.pairwise_filterMap] at hnames
  by_contra hne
  have : Std.Symm fun x y : StageEntry => ∀ m, x.variable? = some m →
      ∀ n, y.variable? = some n → m ≠ n := ⟨fun x y h m hm n hn => (h n hn m hm).symm⟩
  exact hnames.forall hother hentry hne name hsame name hname rfl

theorem StageEntry.variable?_of_uniform? {u : UniformDecl} (h : entry.uniform? = some u) :
    entry.variable? = some u.name := by
  cases entry with
  | uniform v =>
    cases h
    rfl
  | textureField t f =>
    rw [uniform?] at h
    split at h
    · cases h
    · cases h
      rfl
  | colorOutput | varying | block | vertexAttribute => cases h

/-! ## Origins -/

/-- A uniform with the name and the type is declared for a stage, loose or as a field of a
texture. -/
def DeclaresUniform (decls : Declarations) (textures : List ExpandedTexture) (stage : Stage)
    (name : String) (ty : ShaderType) : Prop :=
  ∃ colors, ∃ entry ∈ stageEntries decls textures stage colors, ∃ v, entry.uniform? = some v ∧
    v.name = name ∧ v.ty = ty

/-- The entry of a uniform stands for the stage of the uniform. -/
theorem stage_of_uniform? {v : UniformDecl}
    (hentry : entry ∈ stageEntries decls textures stage colors) (hv : entry.uniform? = some v) :
    v.stage = stage := by
  have hfor := isFor_of_mem_stageEntries entry hentry
  cases entry with
  | uniform u =>
    cases hv
    exact hfor
  | textureField t f =>
    rw [StageEntry.uniform?] at hv
    split at hv
    · cases hv
    · cases hv
      exact hfor
  | colorOutput | varying | block | vertexAttribute => cases hv

/-- **A uniform of a program** comes of one that is declared for its stage. -/
theorem exists_origin_of_mem_uniforms {u : BoundUniform}
    (h : assemble d decls textures bodies = .ok program)
    (hu : u ∈ (Declared.ofItems program.items).uniforms) :
    DeclaresUniform decls textures u.stage u.name u.ty := by
  obtain ⟨item, hitem, hu⟩ := List.mem_flatMap.mp hu
  obtain ⟨stage, finished, hstage, hitem⟩ := exists_hasStage_of_mem h hitem
  obtain ⟨colors, body, x, -, hassembled⟩ := hstage.assembled
  obtain ⟨draft, hdraft, -, hitems, -⟩ := assembleStage_eq_ok hassembled
  rcases exists_entry_of_mem hdraft (hitems ▸ hitem) with
    ⟨entry, hentry, b, b', hyields⟩ | ⟨pool, buffer, b, rfl⟩
  · cases hyields with
    | uniform hv =>
      obtain rfl := List.mem_singleton.mp hu
      obtain rfl := stage_of_uniform? hentry hv
      exact ⟨colors, entry, hentry, _, hv, rfl, rfl⟩
    | colorOutput | varyingOut | varyingIn | opaqueField | block | vertexAttribute => cases hu
  · cases hu

/-- **A sampler or an image of a program** comes of a texture field of its stage. -/
theorem exists_origin_of_mem_textures {x : BoundTexture}
    (h : assemble d decls textures bodies = .ok program)
    (hx : x ∈ (Declared.ofItems program.items).textures) :
    ∃ colors t f, .textureField t f ∈ stageEntries decls textures x.stage colors ∧
      f.ty.isOpaque = true ∧ f.name = x.name ∧ f.ty = x.ty ∧ t.texture = x.texture := by
  obtain ⟨item, hitem, hx⟩ := List.mem_flatMap.mp hx
  obtain ⟨stage, finished, hstage, hitem⟩ := exists_hasStage_of_mem h hitem
  obtain ⟨colors, body, y, -, hassembled⟩ := hstage.assembled
  obtain ⟨draft, hdraft, -, hitems, -⟩ := assembleStage_eq_ok hassembled
  rcases exists_entry_of_mem hdraft (hitems ▸ hitem) with
    ⟨entry, hentry, b, b', hyields⟩ | ⟨pool, buffer, b, rfl⟩
  · cases hyields with
    | @opaqueField t f image hty =>
      obtain rfl := List.mem_singleton.mp hx
      obtain rfl : f.stage = stage := isFor_of_mem_stageEntries _ hentry
      exact ⟨colors, t, f, hentry, hty, rfl, rfl, rfl⟩
    | colorOutput | varyingOut | varyingIn | uniform | block | vertexAttribute => cases hx
  · cases hx

/-- **A field of a consolidated block** comes of a uniform that is declared for the stage. -/
theorem exists_origin_of_mem_fields {u : UniformBlock} {g : BlockField}
    (h : assemble d decls textures bodies = .ok program)
    (hu : u ∈ program.items.filterMap Item.uniformBlock?) (hg : g ∈ u.block.fields) :
    DeclaresUniform decls textures u.stage g.name g.ty := by
  obtain ⟨item, hitem, hblock⟩ := List.mem_filterMap.mp hu
  obtain ⟨stage, finished, hstage, hitem⟩ := exists_hasStage_of_mem h hitem
  obtain ⟨colors, body, x, -, hassembled⟩ := hstage.assembled
  obtain ⟨draft, hdraft, -, hitems, -⟩ := assembleStage_eq_ok hassembled
  have hmem : u ∈ draft.items.filterMap Item.uniformBlock? :=
    List.mem_filterMap.mpr ⟨item, hitems ▸ hitem, hblock⟩
  cases draftStage_hasPool hdraft with
  | none _ hnone =>
    rw [hnone] at hmem
    cases hmem
  | block _ _ hone hustage hpool =>
    rw [hone] at hmem
    obtain rfl := List.mem_singleton.mp hmem
    have hfield : (g.name, g.ty, g.count) ∈ u.block.fields.map fun f => (f.name, f.ty, f.count) :=
      List.mem_map_of_mem hg
    rw [hpool.fields] at hfield
    obtain ⟨v, hv, he⟩ := List.mem_map.mp hfield
    obtain ⟨entry, hentry, hpooled⟩ := List.mem_filterMap.mp hv
    obtain ⟨hname, hrest⟩ := Prod.mk.inj he
    subst hustage
    exact ⟨colors, entry, hentry, v, Option.eq_some_of_filter_eq_some hpooled, hname,
      (Prod.mk.inj hrest).1⟩

/-- Where uniforms are not consolidated, there is no consolidated block. -/
theorem uniformBlocks_eq_nil (hd : d.consolidatesUniforms = false)
    (h : assemble d decls textures bodies = .ok program) :
    program.items.filterMap Item.uniformBlock? = [] := by
  rw [List.filterMap_eq_nil_iff]
  intro item hitem
  obtain ⟨stage, finished, hstage, hitem⟩ := exists_hasStage_of_mem h hitem
  obtain ⟨colors, body, x, -, hassembled⟩ := hstage.assembled
  obtain ⟨draft, hdraft, -, hitems, -⟩ := assembleStage_eq_ok hassembled
  have hpooled : (stageEntries decls textures stage colors).filterMap (StageEntry.pooled? d) =
      [] := by
    rw [List.filterMap_eq_nil_iff]
    intro entry _
    rw [StageEntry.pooled?, Option.filter_eq_none_iff]
    intro u _
    rw [Dialect.pools, hd]
    exact Bool.false_ne_true
  cases draftStage_hasPool hdraft with
  | none _ hnone => exact List.filterMap_eq_nil_iff.mp hnone item (hitems ▸ hitem)
  | block hus => exact absurd hpooled hus

/-! ## Fields of textures -/

section

variable {t : ExpandedTexture} {f : ExpandedField}

/-- A uniform that is declared under the name of a texture field is that field, and the field is
plain. -/
theorem DeclaresUniform.of_field (h : DeclaresUniform decls textures f.stage f.name ty)
    (hnames : (variableNames decls textures f.stage).Nodup) (ht : t ∈ textures)
    (hf : f ∈ t.fields) : f.ty.isOpaque = false ∧ ty = f.ty := by
  obtain ⟨colors, entry, hentry, v, hv, hname, rfl⟩ := h
  have hvariable := StageEntry.variable?_of_uniform? hv
  rw [hname] at hvariable
  obtain rfl := eq_of_variable? hnames (mem_stageEntries_of_mem_fields ht hf colors) hentry rfl
    hvariable
  rw [StageEntry.uniform?] at hv
  split at hv
  · cases hv
  · next hty =>
    cases hv
    exact ⟨Bool.eq_false_iff.mpr hty, rfl⟩

end

/-! ## Uniforms that are declared once -/

/-- A loose uniform is the only one of its name, and no texture field is called like it. -/
structure DeclaresOnce (decls : Declarations) (textures : List ExpandedTexture) (u : UniformDecl) :
    Prop where
  /-- there is one loose uniform of the name -/
  once : decls.uniforms.filter (·.name = u.name) = [u]
  /-- and no texture field -/
  fields : ∀ t ∈ textures, ∀ f ∈ t.fields, f.name ≠ u.name

namespace DeclaresOnce

variable {u : UniformDecl}

theorem mem (h : DeclaresOnce decls textures u) : u ∈ decls.uniforms := by
  have hu : u ∈ decls.uniforms.filter (·.name = u.name) := by
    rw [h.once]
    exact List.mem_singleton_self u
  exact (List.mem_filter.mp hu).1

/-- **Its name tells the entry**: only the stage of the uniform has an entry for it. -/
theorem stage_eq (h : DeclaresOnce decls textures u)
    (hentry : entry ∈ stageEntries decls textures stage colors)
    (hname : entry.variable? = some u.name) : stage = u.stage := by
  revert hname
  refine forall_mem_stageEntries (P := fun entry => entry.variable? = some u.name → stage = u.stage)
    (fun hname => ?_) (fun v _ hname => ?_) (fun v hv hstage hname => ?_)
    (fun t ht f hf _ hname => ?_) (fun b _ _ hname => ?_) (fun _ x _ hname => ?_) entry hentry
  · cases hname
  · cases hname
  · -- the uniform is the one that is declared
    have hsame : v ∈ decls.uniforms.filter (·.name = u.name) :=
      List.mem_filter.mpr ⟨hv, decide_eq_true (Option.some.inj hname)⟩
    rw [h.once] at hsame
    rw [← hstage, List.mem_singleton.mp hsame]
  · exact absurd (Option.some.inj hname) (h.fields t ht f hf)
  · cases hname
  · cases hname

end DeclaresOnce

end ShaderLoom
