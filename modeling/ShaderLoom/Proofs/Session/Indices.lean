import ShaderLoom.Proofs.Resolution
import ShaderLoom.Proofs.Session.PlainUniforms
import ShaderLoom.Proofs.Source.Origin

/-!
# Indices of texture fields

Once a session is resolved, every field of a texture has the index of an element that is called like
the field, in the stage of the field. If no two variables of a stage have the same name, this element
is the one that the field has become: it has the type of the field, and a sampler or an image has the
texture behind the declaration. A field without an index has become nothing at all
(**`Workspace.isIndexed_of_build`**). So it is whatever the compiler tells.
-/

namespace ShaderLoom

variable {d : Dialect} {target : Target} {decls : Declarations} {textures : List ExpandedTexture}
  {bodies : ProgramBodies} {s after : Session} {a : Assembly} {r : Resources}
  {reflection : Reflection} {t : ExpandedTexture} {f : ExpandedField} {index : ResourceIndex}

/-! ## Fields and elements -/

/-- The index of a field of a resolved texture points to the element that the field has become. -/
structure ExpandedField.IsIndexed (r : Resources) (after : Session) (t : ExpandedTexture)
    (f : ExpandedField) : Prop where
  /-- a texture is the sampler or the image itself, with the texture behind it -/
  texture : ∀ i, f.index = some (.texture i) → f.ty.isOpaque = true ∧
    ∃ x, r.elements.textures[i]? = some x ∧ x.name = f.name ∧ x.ty = f.ty ∧ x.stage = f.stage ∧
      x.texture = t.texture
  /-- a uniform is a plain field -/
  uniform : ∀ i, f.index = some (.uniform i) → f.ty.isOpaque = false ∧
    ∃ u, r.elements.uniforms[i]? = some u ∧ u.name = f.name ∧ u.ty = f.ty ∧ u.stage = f.stage
  /-- so is a field of a consolidated block, which is the one of the stage -/
  blockField : ∀ stage i, f.index = some (.blockField stage i) → f.ty.isOpaque = false ∧
    stage = f.stage ∧ ∃ u g, r.uniformBlock? stage = some u ∧ u.block.fields[i]? = some g ∧
      g.name = f.name ∧ g.ty = f.ty
  /-- there is no index exactly if there is nothing of the name in the stage -/
  nowhere : f.index = none ↔
    (∀ x ∈ r.elements.textures, x.stage = f.stage → x.name ≠ f.name) ∧
      (∀ u ∈ r.elements.uniforms, u.stage = f.stage → u.name ≠ f.name) ∧
      ∀ u ∈ r.uniformBlocks, u.stage = f.stage → ∀ g ∈ u.block.fields, g.name ≠ f.name
  /-- the session locates a plain field where its index is -/
  located : f.ty.isOpaque = false → after.locateUniform? f.name f.stage = f.index

/-- What a field has become, by its index: a texture, a field of a block, or a loose uniform. -/
theorem ExpandedField.index_resolve_eq_some {p : Resolved} {blocks : List UniformBlock}
    (h : (f.resolve p blocks).index = some index) :
    (f.ty.isOpaque = true ∧ ∃ i x, index = .texture i ∧ p.textures[i]? = some x ∧
        x.name = f.name ∧ x.stage = f.stage) ∨
      f.ty.isOpaque = false ∧
        ((∃ u i g, index = .blockField f.stage i ∧ uniformBlock? blocks f.stage = some u ∧
            u.block.fields[i]? = some g ∧ g.name = f.name) ∨
          ∃ i u, index = .uniform i ∧ p.uniforms[i]? = some u ∧ u.name = f.name ∧
            u.stage = f.stage) := by
  simp only [resolve] at h
  split at h
  · next hty => exact .inl ⟨hty, locateTexture?_eq_some h⟩
  · next hty => exact .inr ⟨Bool.eq_false_iff.mpr hty, locateUniform?_eq_some h⟩

/-! ## Elements under the name of a field -/

/-- Whatever has the name of a field in its stage is what the field has become. -/
structure Resources.Matches (r : Resources) (t : ExpandedTexture) (f : ExpandedField) : Prop where
  /-- samplers and images -/
  texture : ∀ x ∈ r.elements.textures, x.stage = f.stage → x.name = f.name →
    f.ty.isOpaque = true ∧ x.ty = f.ty ∧ x.texture = t.texture
  /-- loose uniforms -/
  uniform : ∀ u ∈ r.elements.uniforms, u.stage = f.stage → u.name = f.name →
    f.ty.isOpaque = false ∧ u.ty = f.ty
  /-- fields of consolidated blocks -/
  blockField : ∀ u ∈ r.uniformBlocks, u.stage = f.stage → ∀ g ∈ u.block.fields, g.name = f.name →
    f.ty.isOpaque = false ∧ g.ty = f.ty
  /-- a consolidated block is found by its stage -/
  found : ∀ u ∈ r.uniformBlocks, r.uniformBlock? u.stage = some u

/-- **What a program registers matches** the fields of its textures, if the names of a stage are
distinct. -/
theorem matches_of_assemble (ha : assemble d decls textures bodies = .ok a)
    (hresolve : reflection.resolve (Declared.ofItems a.items) = .ok r.elements)
    (hblocks : r.uniformBlocks = a.items.filterMap Item.uniformBlock?)
    (hnames : (variableNames decls textures f.stage).Nodup) (ht : t ∈ textures)
    (hf : f ∈ t.fields) : r.Matches t f := by
  refine ⟨fun x hx hstage hname => ?_, fun u hu hstage hname => ?_,
    fun u hu hstage g hg hname => ?_, fun u hu => ?_⟩
  · obtain ⟨y, hy, hxname, hxty, hxstage, hxtexture⟩ := Reflection.of_mem_textures hresolve hx
    obtain ⟨colors, t', f', hentry, hty, hyname, hyty, hytexture⟩ :=
      exists_origin_of_mem_textures ha hy
    rw [← hxstage, hstage] at hentry
    have hsame : StageEntry.variable? (.textureField t' f') = some f.name := by
      rw [← hname, hxname, ← hyname]
      rfl
    cases eq_of_variable? hnames (mem_stageEntries_of_mem_fields ht hf colors) hentry rfl hsame
    exact ⟨hty, hxty.trans hyty.symm, hxtexture.trans hytexture.symm⟩
  · obtain ⟨v, hv, hvname, hvty, hvstage⟩ := Reflection.of_mem_uniforms hresolve hu
    have horigin := exists_origin_of_mem_uniforms ha hv
    rw [← hvstage, ← hvname, ← hvty, hstage, hname] at horigin
    exact horigin.of_field hnames ht hf
  · have horigin := exists_origin_of_mem_fields ha (hblocks ▸ hu) hg
    rw [hstage, hname] at horigin
    exact horigin.of_field hnames ht hf
  · rw [Resources.uniformBlock?, hblocks]
    exact uniformBlock?_of_mem ha (hblocks ▸ hu)

namespace Resources.Matches

/-- A field without an index has become nothing: there is no element under its name. -/
theorem nothing (h : r.Matches t f)
    (hnone : (f.resolve r.elements r.uniformBlocks).index = none) :
    (∀ x ∈ r.elements.textures, x.stage = f.stage → x.name ≠ f.name) ∧
      (∀ u ∈ r.elements.uniforms, u.stage = f.stage → u.name ≠ f.name) ∧
      ∀ u ∈ r.uniformBlocks, u.stage = f.stage → ∀ g ∈ u.block.fields, g.name ≠ f.name := by
  simp only [ExpandedField.resolve] at hnone
  split at hnone
  · next hty =>
    -- whatever else has the name would be plain
    refine ⟨locateTexture?_eq_none_iff.mp hnone, fun u hu hstage hname => ?_,
      fun u hu hstage g hg hname => ?_⟩
    · exact absurd hty (Bool.eq_false_iff.mp (h.uniform u hu hstage hname).1)
    · exact absurd hty (Bool.eq_false_iff.mp (h.blockField u hu hstage g hg hname).1)
  · next hty =>
    refine ⟨fun x hx hstage hname => hty (h.texture x hx hstage hname).1,
      fun u hu hstage hname => ?_, fun u hu hstage g hg hname => ?_⟩
    · have hsome : (locateUniform? r.elements.uniforms r.uniformBlocks u.name u.stage).isSome =
          true := isSome_locateUniform? hu
      rw [hname, hstage, hnone] at hsome
      cases hsome
    · have hsome : (locateUniform? r.elements.uniforms r.uniformBlocks g.name u.stage).isSome =
          true := isSome_locateUniform?_of_field (h.found u hu) hg
      rw [hname, hstage, hnone] at hsome
      cases hsome

/-- **The index of a field** points to what the field has become. -/
theorem isIndexed (h : r.Matches t f) (hstate : after.state = .resolved)
    (huniforms : after.uniforms = r.elements.uniforms)
    (hblocks : after.uniformBlocks = r.uniformBlocks) :
    (f.resolve r.elements r.uniformBlocks).IsIndexed r after
      (t.resolve r.elements r.uniformBlocks) := by
  refine ⟨fun i hi => ?_, fun i hi => ?_, fun stage i hi => ?_, ⟨h.nothing, fun hnothing => ?_⟩,
    fun hplain => ?_⟩
  · rcases ExpandedField.index_resolve_eq_some hi with ⟨-, j, x, ⟨⟩, hx, hname, hstage⟩ |
      ⟨-, ⟨u, j, g, ⟨⟩, -⟩ | ⟨j, u, ⟨⟩, -⟩⟩
    obtain ⟨hty, hxty, htexture⟩ := h.texture x (List.mem_of_getElem? hx) hstage hname
    exact ⟨hty, x, hx, hname, hxty, hstage, htexture⟩
  · rcases ExpandedField.index_resolve_eq_some hi with ⟨-, j, x, ⟨⟩, -⟩ |
      ⟨hty, ⟨u, j, g, ⟨⟩, -⟩ | ⟨j, u, ⟨⟩, hu, hname, hstage⟩⟩
    exact ⟨hty, u, hu, hname, (h.uniform u (List.mem_of_getElem? hu) hstage hname).2, hstage⟩
  · rcases ExpandedField.index_resolve_eq_some hi with ⟨-, j, x, ⟨⟩, -⟩ |
      ⟨hty, ⟨u, j, g, ⟨⟩, hu, hg, hname⟩ | ⟨j, u, ⟨⟩, -⟩⟩
    obtain ⟨hfound, hstage⟩ := uniformBlock?_eq_some hu
    exact ⟨hty, rfl, u, g, hu, hg, hname,
      (h.blockField u hfound hstage g (List.mem_of_getElem? hg) hname).2⟩
  · -- an index would point to something with the name
    by_contra hsome
    obtain ⟨index, hindex⟩ := Option.ne_none_iff_exists'.mp hsome
    obtain ⟨htextures, huniforms, hfields⟩ := hnothing
    rcases ExpandedField.index_resolve_eq_some hindex with ⟨-, j, x, -, hx, hname, hstage⟩ |
      ⟨-, ⟨u, j, g, -, hu, hg, hname⟩ | ⟨j, u, -, hu, hname, hstage⟩⟩
    · exact htextures x (List.mem_of_getElem? hx) hstage hname
    · obtain ⟨hfound, hstage⟩ := uniformBlock?_eq_some hu
      exact hfields u hfound hstage g (List.mem_of_getElem? hg) hname
    · exact huniforms u (List.mem_of_getElem? hu) hstage hname
  · have hplain : f.ty.isOpaque = false := hplain
    rw [Session.locateUniform?, if_pos hstate, huniforms, hblocks]
    simp only [ExpandedField.resolve, hplain, if_neg Bool.false_ne_true]

end Resources.Matches

/-! ## Runs -/

/-- **The fields of textures know where they ended up**: in every workspace that a run reaches,
whatever the compiler tells, every field of a session that is built has the index of what it has
become, if no two variables of its stage have the same name. -/
theorem Workspace.isIndexed_of_build {compiler : Compiler} {steps : List Step} {slot : Nat}
    (hs : ((start target compiler).run steps).session? slot = some s)
    (hbuild : (((start target compiler).run steps).build slot bodies).1 = some (.ok r))
    (hnames : ∀ stage, (variableNames s.declarations
      (s.declarations.textures.map (·.expand target.dialect.frames bodies.isGraphics))
        stage).Nodup) :
    ∃ after, (((start target compiler).run steps).build slot bodies).2.session? slot =
        some after ∧
      after.textures.map (fun t => (t.name, t.fields.map (·.name))) =
        (s.declarations.textures.map (·.expand target.dialect.frames bodies.isGraphics)).map
          (fun t => (t.name, t.fields.map (·.name))) ∧
      ∀ t ∈ after.textures, ∀ f ∈ t.fields, f.IsIndexed r after t := by
  obtain ⟨a, ha, hbuilt, hafter⟩ := exists_isBuilt hs hbuild
  have htextures := Session.textures_expand hbuilt.textures target.dialect bodies.isGraphics
  have hblocks := hbuilt.uniformBlocks
  refine ⟨_, hafter, ?_, ?_⟩
  · change (((s.expand target.dialect bodies.isGraphics).textures).map _).map _ = _
    rw [htextures, List.map_map]
    refine List.map_congr_left fun t _ => congrArg (Prod.mk t.name) ?_
    change (t.fields.map _).map _ = _
    rw [List.map_map]
    rfl
  · intro t' ht' f' hf'
    obtain ⟨t, ht, rfl⟩ := List.mem_map.mp ht'
    obtain ⟨f, hf, rfl⟩ := List.mem_map.mp hf'
    have hmatches : r.Matches t f :=
      matches_of_assemble ha hbuilt.resolve hblocks (by rw [htextures]; exact hnames _) ht hf
    change ExpandedField.IsIndexed r _ (t.resolve r.elements (a.items.filterMap
      Item.uniformBlock?)) (f.resolve r.elements (a.items.filterMap Item.uniformBlock?))
    rw [← hblocks]
    exact hmatches.isIndexed rfl rfl hblocks.symm

/-! ## A texture with two used fields -/

/-- A compiler that finds the sampler and the coordinate matrix of a texture used. -/
def matrixCompiler : Compiler where
  name := "matrix"
  compile := fun _ => .ok
    { uniforms := some [("t_sampler", ⟨some 4, none⟩), ("t_coord_matrix", ⟨some 7, none⟩)]
      blocks := some []
      attributes := some [] }

/-- A texture of the fragment stage and a uniform of the vertex stage, which is dropped: the
coordinate matrix is the first uniform that is left, in the vertex stage. -/
theorem Workspace.isIndexed_of_build_matrix :
    let decls : Declarations :=
      { uniforms := [{ name := "u", ty := .float, stage := .vertex }]
        textures := [{ name := "t", kind := .plane, stage := .fragment }] }
    let bodies : ProgramBodies := .graphics "" "" 1
    let w := (start desktopTarget matrixCompiler).run (declaringRun 0 decls)
    (∀ stage, (variableNames decls
      (decls.textures.map (·.expand desktopTarget.dialect.frames bodies.isGraphics)) stage).Nodup) ∧
      ∃ r after, (w.build 0 bodies).1 = some (.ok r) ∧
        (w.build 0 bodies).2.session? 0 = some after ∧
        r.elements.uniforms.map (fun u => (u.name, u.stage)) = [("t_coord_matrix", .vertex)] ∧
        after.textures.map (fun t => (t.fields.filterMap fun f => f.index.map (f.name, ·))) =
          [[("t_sampler", .texture 0), ("t_coord_matrix", .uniform 0)]] ∧
        ∀ t ∈ after.textures, ∀ f ∈ t.fields, f.IsIndexed r after t := by
  intro decls bodies w
  have hnames : ∀ stage, (variableNames decls
      (decls.textures.map (·.expand desktopTarget.dialect.frames bodies.isGraphics))
        stage).Nodup := by
    intro stage
    cases stage <;> decide
  have hdecls : decls.IsCallFree := by
    refine ⟨by decide +kernel, fun t ht f => ?_, by decide, by decide, by decide, by decide,
      by decide⟩
    obtain rfl := List.mem_singleton.mp ht
    cases f <;> decide +kernel
  obtain ⟨vertex, hvertex⟩ : ∃ draft, draftStage desktopTarget.dialect decls
    ((Session.declaring decls).expand desktopTarget.dialect true).textures .vertex 1 .start =
      .ok draft := ⟨_, rfl⟩
  obtain ⟨fragment, hfragment⟩ : ∃ draft, draftStage desktopTarget.dialect decls
      ((Session.declaring decls).expand desktopTarget.dialect true).textures .fragment 1
        vertex.allocator = .ok draft := by
    cases hvertex
    exact ⟨_, rfl⟩
  obtain ⟨a, ha, hitems⟩ := Session.exists_assembly_of_callFree hdecls hvertex hfragment
  obtain ⟨reflection, hcompile⟩ : ∃ reflection, matrixCompiler.compile a.texts = .ok reflection :=
    ⟨_, rfl⟩
  obtain ⟨elements, hresolve, huniforms, hindices⟩ : ∃ elements,
      reflection.resolve (Declared.ofItems a.items) = .ok elements ∧
        elements.uniforms.map (fun u => (u.name, u.stage)) = [("t_coord_matrix", .vertex)] ∧
        (((Session.declaring decls).expand desktopTarget.dialect true).textures.map
          (·.resolve elements (a.items.filterMap Item.uniformBlock?))).map
            (fun t => (t.fields.filterMap fun f => f.index.map (f.name, ·))) =
          [[("t_sampler", .texture 0), ("t_coord_matrix", .uniform 0)]] := by
    rw [hitems]
    cases hvertex
    cases hfragment
    cases hcompile
    exact ⟨_, rfl, rfl, by decide⟩
  obtain ⟨built, hbuild, -⟩ := build_declaringRun rfl ha hcompile hresolve
  have hbuild := congrArg Prod.fst hbuild
  obtain ⟨after, hafter, -, hindexed⟩ := isIndexed_of_build (s := Session.declaring decls) rfl
    hbuild hnames
  obtain ⟨a', ha', -, hafter'⟩ := exists_isBuilt (s := Session.declaring decls) rfl hbuild
  cases ha.symm.trans ha'
  cases hafter.symm.trans hafter'
  exact ⟨hnames, _, _, hbuild, hafter, huniforms, hindices, hindexed⟩

end ShaderLoom
