import ShaderLoom.Proofs.Reading.Uniform
import ShaderLoom.Proofs.Resolution.Selection

/-!
# Resolving what is used

A program that was reflected by reading its texts knows every uniform that is used, so a sampler, an
image or a uniform that is used is kept when it is resolved
(**`Reflection.exists_resolveTexture?`**, **`Reflection.exists_resolveUniform?`**). What is kept is
found again by name and stage, and the field of a texture then knows where it ended up.
-/

namespace ShaderLoom

open Reading

variable {ds : List Declaration} {x : Declaration} {stage : Stage} {p : Resolved}
  {blocks : List UniformBlock}

/-! ## Fields of a texture -/

/-- What is found is the only one there is. -/
theorem find?_eq_some_of_unique {α : Type} {xs : List α} {q : α → Bool} {x : α} (hx : x ∈ xs)
    (hq : q x = true) (hunique : ∀ y ∈ xs, q y = true → y = x) : xs.find? q = some x := by
  obtain ⟨y, hy⟩ := Option.isSome_iff_exists.mp (List.find?_isSome.mpr ⟨x, hx, hq⟩)
  rw [hy, hunique y (List.mem_of_find?_eq_some hy) (List.find?_some hy)]

/-- **The fields of an expanded texture** are those of its kind. -/
theorem TextureDecl.field?_expand {t : TextureDecl} {frames : FrameShape} {field : TextureField}
    {ty : ShaderType} (h : (t.kind.fieldTypes frames).find? field = some ty) (graphics : Bool) :
    (t.expand frames graphics).field? field =
      some { kind := field, name := field.identifier t.name, ty,
             stage := t.fieldStage graphics field } := by
  refine find?_eq_some_of_unique (List.mem_filterMap.mpr ⟨field, field.mem_all, ?_⟩)
    (decide_eq_true rfl) fun y hy hkind => ?_
  · rw [h]
    rfl
  · obtain ⟨other, -, hother⟩ := List.mem_filterMap.mp hy
    obtain ⟨ty', hty', rfl⟩ := Option.map_eq_some_iff.mp hother
    obtain rfl : other = field := of_decide_eq_true hkind
    rw [h] at hty'
    cases hty'
    rfl

/-- Where a field ended up is found by its kind. -/
theorem ExpandedTexture.index?_resolve {t : ExpandedTexture} {field : TextureField}
    {f : ExpandedField} (h : t.field? field = some f) :
    (t.resolve p blocks).index? field = (f.resolve p blocks).index := by
  have hfield : (t.resolve p blocks).field? field =
      (t.field? field).map (ExpandedField.resolve p blocks) := List.find?_map ..
  rw [index?, hfield, h]
  rfl

/-! ## Locating -/

theorem uniformBlock?_eq_some {u : UniformBlock} (h : uniformBlock? blocks stage = some u) :
    u ∈ blocks ∧ u.stage = stage := by
  have hstage := List.find?_some h
  exact ⟨List.mem_of_find?_eq_some h, of_decide_eq_true hstage⟩

/-- A loose uniform is found by its name and its stage. -/
theorem isSome_locateUniform? {uniforms : List BoundUniform} {u : BoundUniform}
    (h : u ∈ uniforms) : (locateUniform? uniforms blocks u.name u.stage).isSome = true := by
  rw [locateUniform?]
  split
  · rfl
  · rw [Option.isSome_map, List.findIdx?_isSome, List.any_eq_true]
    exact ⟨u, h, by simp⟩

/-- A field of a consolidated block is found by its name and the stage of the block. -/
theorem isSome_locateUniform?_of_field {uniforms : List BoundUniform} {u : UniformBlock}
    {f : BlockField} (h : uniformBlock? blocks u.stage = some u) (hf : f ∈ u.block.fields) :
    (locateUniform? uniforms blocks f.name u.stage).isSome = true := by
  have hposition : (u.block.position? f.name).isSome = true := by
    rw [Block.position?, List.findIdx?_isSome, List.any_eq_true]
    exact ⟨f, hf, by simp⟩
  obtain ⟨i, hi⟩ := Option.isSome_iff_exists.mp hposition
  rw [locateUniform?, h, Option.bind_some, hi]
  rfl

/-- What is located is an element with the name and the stage. -/
theorem locateTexture?_eq_some {textures : List BoundTexture} {name : String}
    {index : ResourceIndex} (h : locateTexture? textures name stage = some index) :
    ∃ i t, index = .texture i ∧ textures[i]? = some t ∧ t.name = name ∧ t.stage = stage := by
  obtain ⟨i, hi, rfl⟩ := Option.map_eq_some_iff.mp h
  obtain ⟨hlt, hfound, -⟩ := List.findIdx?_eq_some_iff_getElem.mp hi
  obtain ⟨hname, hstage⟩ := of_decide_eq_true hfound
  exact ⟨i, _, rfl, List.getElem?_eq_getElem hlt, hname, hstage⟩

theorem locateTexture?_eq_none_iff {textures : List BoundTexture} {name : String} :
    locateTexture? textures name stage = none ↔
      ∀ t ∈ textures, t.stage = stage → t.name ≠ name := by
  rw [locateTexture?, Option.map_eq_none_iff, List.findIdx?_eq_none_iff]
  simp only [decide_eq_false_iff_not, not_and]
  exact forall₂_congr fun t _ => ⟨fun h hstage hname => h hname hstage,
    fun h hname hstage => h hstage hname⟩

/-- A texture is found by its name and its stage. -/
theorem exists_locateTexture? {textures : List BoundTexture} {t : BoundTexture}
    (h : t ∈ textures) :
    ∃ i found, locateTexture? textures t.name t.stage = some (.texture i) ∧
      textures[i]? = some found ∧ found.name = t.name ∧ found.stage = t.stage := by
  obtain ⟨index, hindex⟩ : ∃ index, locateTexture? textures t.name t.stage = some index :=
    Option.ne_none_iff_exists'.mp fun hnone => locateTexture?_eq_none_iff.mp hnone t h rfl rfl
  obtain ⟨i, found, rfl, hfound⟩ := locateTexture?_eq_some hindex
  exact ⟨i, found, hindex, hfound⟩

/-- A plain uniform is located at a field of the block of its stage, or else at a loose uniform. -/
theorem locateUniform?_eq_some {uniforms : List BoundUniform} {name : String}
    {index : ResourceIndex} (h : locateUniform? uniforms blocks name stage = some index) :
    (∃ u i f, index = .blockField stage i ∧ uniformBlock? blocks stage = some u ∧
        u.block.fields[i]? = some f ∧ f.name = name) ∨
      ∃ i u, index = .uniform i ∧ uniforms[i]? = some u ∧ u.name = name ∧ u.stage = stage := by
  rw [locateUniform?] at h
  split at h
  · next i hi =>
    cases h
    obtain ⟨u, hu, hposition⟩ := Option.bind_eq_some_iff.mp hi
    obtain ⟨hlt, hfound, -⟩ := List.findIdx?_eq_some_iff_getElem.mp hposition
    exact .inl ⟨u, i, _, rfl, hu, List.getElem?_eq_getElem hlt, of_decide_eq_true hfound⟩
  · obtain ⟨i, hi, rfl⟩ := Option.map_eq_some_iff.mp h
    obtain ⟨hlt, hfound, -⟩ := List.findIdx?_eq_some_iff_getElem.mp hi
    obtain ⟨hname, hstage⟩ := of_decide_eq_true hfound
    exact .inr ⟨i, _, rfl, List.getElem?_eq_getElem hlt, hname, hstage⟩

/-! ## Resolving -/

/-- **A uniform that is resolved** was declared, with the same name, type and stage. -/
theorem Reflection.of_mem_uniforms {r : Reflection} {declared : Declared} {u : BoundUniform}
    (h : r.resolve declared = .ok p) (hu : u ∈ p.uniforms) :
    ∃ v ∈ declared.uniforms, u.name = v.name ∧ u.ty = v.ty ∧ u.stage = v.stage := by
  obtain ⟨attributes, -, rfl⟩ := map_eq_ok.mp h
  obtain ⟨v, hv, hresolve⟩ := List.mem_filterMap.mp hu
  refine ⟨v, hv, ?_⟩
  rw [resolveUniform?] at hresolve
  split at hresolve
  · cases hresolve
    exact ⟨rfl, rfl, rfl⟩
  · obtain ⟨info, -, rfl⟩ := Option.map_eq_some_iff.mp hresolve
    exact ⟨rfl, rfl, rfl⟩

/-- **A sampler or an image that is resolved** was declared, with the same name, type and stage and
for the same texture. -/
theorem Reflection.of_mem_textures {r : Reflection} {declared : Declared} {t : BoundTexture}
    (h : r.resolve declared = .ok p) (ht : t ∈ p.textures) :
    ∃ x ∈ declared.textures, t.name = x.name ∧ t.ty = x.ty ∧ t.stage = x.stage ∧
      t.texture = x.texture := by
  obtain ⟨attributes, -, rfl⟩ := map_eq_ok.mp h
  obtain ⟨x, hx, hresolve⟩ := List.mem_filterMap.mp ht
  rw [((r.isSelected_resolveTexture? x).becomes_of_eq_some hresolve).rest]
  exact ⟨x, hx, rfl, rfl, rfl, rfl⟩

/-- The compiler knows the uniforms that are used, with their locations. -/
theorem exists_find?_reflect (hx : x ∈ ds) (hused : x.used = true) (huniform : x.isUniform = true) :
    ∃ known info, (reflect ds).uniforms = some known ∧ known.find? x.name = some info ∧
      info.location.isSome = true := by
  have hmem : x ∈ (ds.filter (·.used)).filter Declaration.isUniform :=
    List.mem_filter.mpr ⟨List.mem_filter.mpr ⟨hx, hused⟩, huniform⟩
  obtain ⟨info, hfind, hlocation⟩ := exists_find?_assignUniforms hmem
  exact ⟨_, info, rfl, hfind, hlocation⟩

/-- **A sampler or an image that is used** is kept. -/
theorem Reflection.exists_resolveTexture? {t : BoundTexture} (hx : x ∈ ds) (hused : x.used = true)
    (huniform : x.isUniform = true) (hname : x.name = t.name) :
    ∃ t', (reflect ds).resolveTexture? t = some t' ∧ t'.name = t.name ∧ t'.stage = t.stage := by
  obtain ⟨known, info, hknown, hfind, hlocation⟩ := exists_find?_reflect hx hused huniform
  have hkeeps : (reflect ds).keepsTexture t = true := by
    rw [keepsTexture, hknown, Option.all_some, ← hname, hfind, Option.any_some, hlocation,
      Bool.true_or, Bool.or_true]
  obtain ⟨t', ht', hbecomes⟩ := ((reflect ds).isSelected_resolveTexture? t).exists_of_keeps hkeeps
  rw [hbecomes.rest] at ht'
  exact ⟨_, ht', rfl, rfl⟩

/-- A sampler or an image of a name that is never used is dropped, unless it has a location. -/
theorem Reflection.resolveTexture?_eq_none {t : BoundTexture} (hlocation : t.location = none)
    (h : ∀ x ∈ ds, x.used = true → x.name ≠ t.name) : (reflect ds).resolveTexture? t = none := by
  have hfind : (assignUniforms ((ds.filter (·.used)).filter Declaration.isUniform)).find? t.name =
      none := by
    rw [Option.eq_none_iff_forall_ne_some]
    intro p hp
    obtain ⟨x, hx, hname, -⟩ := exists_of_find?_assignUniforms hp
    obtain ⟨hx, hused⟩ := List.mem_filter.mp (List.mem_filter.mp hx).1
    exact h x hx hused hname
  refine ((reflect ds).isSelected_resolveTexture? t).eq_none_of_not_keeps ?_
  rw [keepsTexture, hlocation]
  dsimp only [reflect]
  rw [Option.all_some, hfind]
  rfl

/-- **A loose uniform that is used** is kept. -/
theorem Reflection.exists_resolveUniform? {u : BoundUniform} (hx : x ∈ ds) (hused : x.used = true)
    (huniform : x.isUniform = true) (hname : x.name = u.name) :
    ∃ u', (reflect ds).resolveUniform? u = some u' ∧ u'.name = u.name ∧ u'.stage = u.stage := by
  obtain ⟨known, info, hknown, hfind, -⟩ := exists_find?_reflect hx hused huniform
  rw [resolveUniform?, hknown]
  dsimp only
  rw [← hname, hfind]
  exact ⟨_, rfl, rfl, rfl⟩

/-- **A loose uniform that is kept** is used, and has a location. -/
theorem Reflection.of_resolveUniform?_reflect {u u' : BoundUniform}
    (h : (reflect ds).resolveUniform? u = some u') :
    u'.name = u.name ∧ u'.stage = u.stage ∧ u'.location.isSome = true ∧
      ∃ x ∈ ds, x.used = true ∧ x.isUniform = true ∧ x.name = u.name := by
  rw [resolveUniform?] at h
  split at h
  · next hnone => cases hnone
  · next known hknown =>
    obtain rfl := Option.some.inj hknown
    obtain ⟨info, hinfo, rfl⟩ := Option.map_eq_some_iff.mp h
    obtain ⟨x, hx, hname, -⟩ := exists_of_find?_assignUniforms hinfo
    -- the location that the name has is the one that was found
    obtain ⟨info', hinfo', hlocation⟩ := exists_find?_assignUniforms hx
    rw [hname, hinfo] at hinfo'
    cases hinfo'
    obtain ⟨hx, huniform⟩ := List.mem_filter.mp hx
    obtain ⟨hx, hused⟩ := List.mem_filter.mp hx
    exact ⟨rfl, rfl, hlocation, x, hx, hused, huniform, hname⟩

/-- Where nothing is used, no loose uniform is kept. -/
theorem Reflection.uniforms_eq_nil {declared : Declared} (hunused : ∀ x ∈ ds, x.used = false)
    (h : (reflect ds).resolve declared = .ok p) : p.uniforms = [] := by
  obtain ⟨attributes, -, rfl⟩ := map_eq_ok.mp h
  refine List.filterMap_eq_nil_iff.mpr fun u _ => Option.eq_none_iff_forall_ne_some.mpr ?_
  intro u' hkept
  obtain ⟨-, -, -, x, hx, hused, -⟩ := of_resolveUniform?_reflect hkept
  cases hused.symm.trans (hunused x hx)

/-- **A program that was read resolves everything**: no attribute is without a location. -/
theorem exists_resolve_reflect (ds : List Declaration) (declared : Declared) :
    ∃ p, (reflect ds).resolve declared = .ok p := by
  have hattribute : ∀ a : BoundAttribute AttributeLocation,
      ∃ found, (reflect ds).resolveAttribute? a = .ok found := by
    intro a
    rw [Reflection.resolveAttribute?]
    split
    · exact ⟨_, rfl⟩
    · split
      · next hnone => cases hnone
      · next known hknown =>
        split
        · exact ⟨_, rfl⟩
        · next info hfind =>
          obtain ⟨base, hbase⟩ := exists_location_of_find?_attributes hknown hfind
          rw [hbase]
          exact ⟨_, rfl⟩
  have hattributes : ∀ as : List (BoundAttribute AttributeLocation),
      ∃ found, (reflect ds).resolveAttributes as = .ok found := by
    intro as
    induction as with
    | nil => exact ⟨[], rfl⟩
    | cons a as ih =>
      obtain ⟨found, hfound⟩ := hattribute a
      obtain ⟨others, hothers⟩ := ih
      exact ⟨_, bind_eq_ok.mpr ⟨found, hfound, bind_eq_ok.mpr ⟨others, hothers, rfl⟩⟩⟩
  obtain ⟨attributes, h⟩ := hattributes declared.attributes
  exact ⟨_, map_eq_ok.mpr ⟨attributes, h, rfl⟩⟩

end ShaderLoom
