import ShaderLoom.Proofs.Intrinsic.Fields
import ShaderLoom.Proofs.Session.SplitProgram
import ShaderLoom.Proofs.Source.Usage

/-!
# Textures that are sampled

A call of an intrinsic becomes an expression that reads fields of a texture, and a field that stands
in the body of the stage that declares it is used there. So a program that was made of the texts of
its session keeps everything that the calls in its bodies read, and the session knows where it ended
up (**`Workspace.exists_keepsSampled`**).
-/

namespace ShaderLoom

open Text Reading

/-! ## Fields that are read -/

/-- A call of the intrinsic stands in the text. -/
def HasCall (t : Text) (f : Intrinsic) (call : Call) : Prop :=
  ∃ site ∈ callSites t, site.intrinsic = f ∧ f.readCall (site.behind t) = .ok call

/-- Text in front of a call leaves the call as it is. -/
theorem HasCall.append_left {s t : Text} {f : Intrinsic} {call : Call} (h : HasCall t f call)
    (hapart : Apart s t) : HasCall (s ++ t) f call := by
  obtain ⟨site, hsite, hf, hread⟩ := h
  refine ⟨site.shift (byteSize s), ?_, hf, by rwa [CallSite.behind_shift]⟩
  rw [callSites_eq, callSitesFrom_append hapart, Nat.zero_add]
  exact List.mem_append_right _ (mem_callSitesFrom.mpr ⟨site, hsite, rfl⟩)

/-- A call that names a texture makes the fields that its expression reads stand in the lowered
text. -/
theorem HasCall.standsIn {target : Target} {t : Text} {l : Lowered} {f : Intrinsic} {call : Call}
    {name : String} {field : TextureField} (h : HasCall t f call)
    (hl : Lowers target.dialect t l) (hname : IsName name.toList)
    (hcall : call.texture = name.toList)
    (hfield : field ∈ Piece.fields (f.pieces target.dialect.frames target.dialect.rg)) :
    StandsIn (field.identifier name).toList l.text := by
  obtain ⟨site, hsite, rfl, hread⟩ := h
  obtain ⟨call', hread', hstands⟩ := hl.standsIn target.rg_dialect site hsite
  obtain rfl := Except.ok.inj (hread.symm.trans hread')
  rw [field.toList_identifier, ← hcall]
  exact hstands (hcall ▸ hname) field hfield

/-- Every kind of texture has a default sampler. -/
theorem TextureKind.exists_defaultSampler (kind : TextureKind) (frames : FrameShape) :
    ∃ ty, (kind.fieldTypes frames).find? .defaultSampler = some ty ∧ ty.isOpaque = true := by
  cases kind <;> exact ⟨_, rfl, rfl⟩

/-- A simple call reads the default sampler. -/
theorem Intrinsic.defaultSampler_mem_fields {f : Intrinsic} (h : f.isVideo = false)
    (frames : FrameShape) (rg : String) :
    TextureField.defaultSampler ∈ Piece.fields (f.pieces frames rg) := by
  cases f with
  | sampleVideo | sampleVideoFast => cases h
  | _ => exact List.mem_singleton_self _

/-- **A plane has every field that a video call reads**, whatever the shape of video frames, and the
stage of the texture declares it. -/
theorem Intrinsic.exists_fieldType {f : Intrinsic} {field : TextureField} {rg : String}
    (h : f.isVideo = true) (hrg : rg = "rg" ∨ rg = "ra") (frames : FrameShape)
    (hfield : field ∈ Piece.fields (f.pieces frames rg)) :
    (∃ ty, (TextureKind.plane.fieldTypes frames).find? field = some ty) ∧
      field ≠ .coordinateMatrix := by
  have hall : ∀ field ∈ Piece.fields (f.pieces frames rg),
      ((TextureKind.plane.fieldTypes frames).find? field).isSome = true ∧
        field ≠ .coordinateMatrix := by
    rcases hrg with rfl | rfl
    all_goals
      cases f with
      | sampleVideo | sampleVideoFast => cases frames <;> decide
      | _ => cases h
  obtain ⟨hsome, hne⟩ := hall field hfield
  exact ⟨Option.isSome_iff_exists.mp hsome, hne⟩

namespace Session

variable {target : Target} {s : Session} {bodies : ProgramBodies} {r : Resources} {a : Assembly}
  {ds : List Declaration} {body : String} {lowered : Lowered} {e : ExpandedTexture}
  {x : ExpandedField}

/-- A body of a session that was built can be lowered. -/
theorem IsRead.exists_lower {stage : Stage} (h : s.IsRead target.dialect bodies a ds r)
    (hnames : s.declarations.IsNamed) (hbody : bodies.body? stage = some body) :
    ∃ lowered, lower target.dialect body.toList = .ok lowered := by
  have hfields := isName_of_mem_expand (d := target.dialect) hnames h.textures bodies.isGraphics
  obtain ⟨finished, hstage⟩ := exists_hasStage_of_body? h.assembly hbody
  obtain ⟨colors, body', b, hbody', hassembled⟩ := hstage.assembled
  obtain rfl := Option.some.inj (hbody.symm.trans hbody')
  obtain ⟨draft, lowered, -, -, hlower, -⟩ := (assembleStage_eq_ok_iff hnames hfields).mp hassembled
  exact ⟨lowered, hlower⟩

/-- The stage of a body is drafted, and a uniform that stands in the body is read and used. -/
theorem IsRead.exists_draft {stage : Stage} (h : s.IsRead target.dialect bodies a ds r)
    (hnames : s.declarations.IsNamed) (hbody : bodies.body? stage = some body)
    (hlower : lower target.dialect body.toList = .ok lowered) :
    ∃ colors b draft, draftStage target.dialect s.declarations
        (s.expand target.dialect bodies.isGraphics).textures stage colors b = .ok draft ∧
      ∀ item ∈ draft.items, item ∈ a.items ∧ ∀ name, item.uniformName? = some name →
        IsName name.toList → StandsIn name.toList lowered.text →
          ∃ y ∈ ds, y.used = true ∧ y.isUniform = true ∧ y.name = name := by
  have hfields := isName_of_mem_expand (d := target.dialect) hnames h.textures bodies.isGraphics
  obtain ⟨finished, hstage⟩ := exists_hasStage_of_body? h.assembly hbody
  obtain ⟨colors, body', b, hbody', hassembled⟩ := hstage.assembled
  obtain rfl := Option.some.inj (hbody.symm.trans hbody')
  obtain ⟨draft, lowered', hdraft, -, hlower', htext, hitems, -⟩ :=
    (assembleStage_eq_ok_iff hnames hfields).mp hassembled
  obtain rfl := Except.ok.inj (hlower.symm.trans hlower')
  refine ⟨colors, b, draft, hdraft, fun item hitem => ?_⟩
  have hfinished : item ∈ finished.items := hitems ▸ hitem
  refine ⟨hstage.items.subset hfinished, fun name huniform hname hstands => ?_⟩
  obtain ⟨y, hy, hyname, hyuniform, hused⟩ :=
    item.exists_declaration? huniform (decide (stage = .vertex)) finished.text.toList
  refine ⟨y, hstage.mem_of_declaration? hnames hfields h.read hfinished hy, ?_, hyuniform, hyname⟩
  rw [hused, htext]
  exact isUsed_of_standsIn hname hitem huniform hstands

section

variable (h : s.IsRead target.dialect bodies a ds r) (hnames : s.declarations.IsNamed)
  (he : e ∈ (s.expand target.dialect bodies.isGraphics).textures) (hx : x ∈ e.fields)
  (hbody : bodies.body? x.stage = some body)
  (hlower : lower target.dialect body.toList = .ok lowered)
  (hstands : StandsIn x.name.toList lowered.text)

include h hnames he hx hbody hlower hstands

/-- A sampler or an image that stands in the body of its stage is a texture of the program. -/
theorem IsRead.exists_texture (hsampled : x.ty.isOpaque = true) :
    ∃ i found, locateTexture? r.elements.textures x.name x.stage = some (.texture i) ∧
      r.elements.textures[i]? = some found ∧ found.name = x.name ∧ found.stage = x.stage := by
  have hname := isName_of_mem_expand hnames h.textures _ e he x hx
  obtain ⟨colors, b, draft, hdraft, hitems⟩ := h.exists_draft hnames hbody hlower
  obtain ⟨attributes, -, helements⟩ := map_eq_ok.mp h.resolve
  have huniform : StageEntry.uniform? (.textureField e x) = none := if_pos hsampled
  rcases exists_item_of_mem_stageEntries hdraft (mem_stageEntries_of_mem_fields he hx colors) with
    ⟨item, hitem, _, _, hyields⟩ | ⟨_, _, _, _, u, hu, -⟩ | ⟨_, hcolors⟩
  · cases hyields with
    | uniform hu => cases huniform.symm.trans hu
    | opaqueField hty himage =>
      obtain ⟨hmem, hread⟩ := hitems _ hitem
      obtain ⟨y, hy, hused, hyuniform, hyname⟩ := hread _ rfl hname hstands
      obtain ⟨t, ht, htname, htstage⟩ :=
        Reflection.exists_resolveTexture? hy hused hyuniform hyname
      have hresolved : t ∈ r.elements.textures := by
        rw [← helements]
        exact List.mem_filterMap.mpr
          ⟨_, List.mem_flatMap.mpr ⟨_, hmem, List.mem_singleton_self _⟩, ht⟩
      simpa only [htname, htstage] using exists_locateTexture? hresolved
  · cases huniform.symm.trans hu
  · cases hcolors

/-- Any other field is a uniform of the program, or stands in a consolidated block. -/
theorem IsRead.isSome_locateUniform? (hsampled : ¬x.ty.isOpaque = true) :
    (ShaderLoom.locateUniform? r.elements.uniforms r.uniformBlocks x.name x.stage).isSome =
      true := by
  have hname := isName_of_mem_expand hnames h.textures _ e he x hx
  obtain ⟨colors, b, draft, hdraft, hitems⟩ := h.exists_draft hnames hbody hlower
  obtain ⟨attributes, -, helements⟩ := map_eq_ok.mp h.resolve
  have huniform : StageEntry.uniform? (.textureField e x) =
      some { name := x.name, ty := x.ty, stage := x.stage } := if_neg hsampled
  rcases exists_item_of_mem_stageEntries hdraft (mem_stageEntries_of_mem_fields he hx colors) with
    ⟨item, hitem, _, _, hyields⟩ | ⟨pool, buffer, number, hitem, u, hu, -, f, hf, hfname⟩ |
      ⟨_, hcolors⟩
  · cases hyields with
    | uniform hu =>
      cases huniform.symm.trans hu
      obtain ⟨hmem, hread⟩ := hitems _ hitem
      obtain ⟨y, hy, hused, hyuniform, hyname⟩ := hread _ rfl hname hstands
      obtain ⟨v, hv, hvname, hvstage⟩ := Reflection.exists_resolveUniform?
        (u := ⟨x.name, x.ty, x.stage, 1, none⟩) hy hused hyuniform hyname
      have hresolved : v ∈ r.elements.uniforms := by
        rw [← helements]
        exact List.mem_filterMap.mpr
          ⟨_, List.mem_flatMap.mpr ⟨_, hmem, List.mem_singleton_self _⟩, hv⟩
      simpa only [hvname, hvstage] using ShaderLoom.isSome_locateUniform? hresolved
    | opaqueField hty => exact absurd hty hsampled
  · cases huniform.symm.trans hu
    have hblock := uniformBlock?_of_mem h.assembly
      (List.mem_filterMap.mpr ⟨_, (hitems _ hitem).1, rfl⟩)
    rw [← h.uniformBlocks] at hblock
    simpa only [hfname] using isSome_locateUniform?_of_field hblock hf
  · cases hcolors

/-- **A field that stands in the body of its stage** ends up somewhere. -/
theorem IsRead.isSome_index : (x.resolve r.elements r.uniformBlocks).index.isSome = true := by
  rw [ExpandedField.resolve]
  dsimp only
  split
  · next hsampled =>
    obtain ⟨i, -, hi, -⟩ := h.exists_texture hnames he hx hbody hlower hstands hsampled
    rw [hi]
    rfl
  · next hsampled => exact h.isSome_locateUniform? hnames he hx hbody hlower hstands hsampled

end

/-! ## What is kept -/

/-- **What the bodies sample is kept** in a session that was built: of a texture that a call in the
body of its stage names,
* the default sampler is a texture of the program, if the call is simple;
* every field that the expression of the call reads is declared in this stage and ended up
  somewhere, if it is a video call and the texture is a plane.
So does any other field that stands in the lowered body of the stage that declares it. -/
structure KeepsSampled (s : Session) (d : Dialect) (bodies : ProgramBodies) (r : Resources) :
    Prop where
  /-- the default sampler -/
  sampler : ∀ (j : Nat) (t : TextureDecl) (body : String) (f : Intrinsic) (call : Call),
    s.declarations.textures[j]? = some t → bodies.body? t.stage = some body →
    HasCall body.toList f call → call.texture = t.name.toList → f.isVideo = false →
      ∃ e i found, s.textures[j]? = some e ∧ e.index? .defaultSampler = some (.texture i) ∧
        r.elements.textures[i]? = some found ∧
        found.name = TextureField.defaultSampler.identifier t.name ∧ found.stage = t.stage
  /-- the fields in the expression of a video call -/
  video : ∀ (j : Nat) (t : TextureDecl) (body : String) (f : Intrinsic) (call : Call),
    s.declarations.textures[j]? = some t → bodies.body? t.stage = some body →
    HasCall body.toList f call → call.texture = t.name.toList → f.isVideo = true →
    t.kind = .plane →
      ∃ e, s.textures[j]? = some e ∧ ∀ field ∈ Piece.fields (f.pieces d.frames d.rg),
        (∃ x, (t.expand d.frames bodies.isGraphics).field? field = some x ∧
          x.name = field.identifier t.name ∧ x.stage = t.stage) ∧ (e.index? field).isSome = true
  /-- any other field -/
  field : ∀ (j : Nat) (t : TextureDecl) (body : String) (lowered : Lowered) (field : TextureField)
      (x : ExpandedField),
    s.declarations.textures[j]? = some t →
    (t.expand d.frames bodies.isGraphics).field? field = some x →
    bodies.body? x.stage = some body → lower d body.toList = .ok lowered →
    StandsIn x.name.toList lowered.text →
      ∃ e, s.textures[j]? = some e ∧ (e.index? field).isSome = true

/-- The stage of a texture declares every field but one. -/
theorem field?_expand_of_ne {t : TextureDecl} {frames : FrameShape} {field : TextureField}
    {ty : ShaderType} (h : (t.kind.fieldTypes frames).find? field = some ty)
    (hne : field ≠ .coordinateMatrix) (graphics : Bool) :
    (t.expand frames graphics).field? field =
      some { kind := field, name := field.identifier t.name, ty, stage := t.stage } := by
  have hstage : t.fieldStage graphics field = t.stage := by simp [TextureDecl.fieldStage, hne]
  rw [← hstage]
  exact TextureDecl.field?_expand h graphics

/-- The textures of a session are those that were declared, expanded and then resolved. -/
theorem IsRead.getElem?_textures {d : Dialect} {j : Nat} {t : TextureDecl}
    (h : s.IsRead d bodies a ds r) (ht : s.declarations.textures[j]? = some t) :
    (((s.expand d bodies.isGraphics).adopt r.program a.items).settle r.elements).textures[j]? =
        some ((t.expand d.frames bodies.isGraphics).resolve r.elements r.uniformBlocks) ∧
      t.expand d.frames bodies.isGraphics ∈ (s.expand d bodies.isGraphics).textures := by
  have htextures : (s.expand d bodies.isGraphics).textures =
      s.declarations.textures.map (·.expand d.frames bodies.isGraphics) := by
    rw [expand, h.textures, List.nil_append]
  refine ⟨?_, htextures ▸ List.mem_map_of_mem (List.mem_of_getElem? ht)⟩
  change ((s.expand d bodies.isGraphics).textures.map _)[j]? = _
  rw [htextures, List.map_map, List.getElem?_map, ht, h.uniformBlocks]
  rfl

/-- **What the bodies sample is kept** by a session whose program was made of its own texts. -/
theorem IsRead.keepsSampled (h : s.IsRead target.dialect bodies a ds r)
    (hnames : s.declarations.IsNamed) :
    (((s.expand target.dialect bodies.isGraphics).adopt r.program a.items).settle
      r.elements).KeepsSampled target.dialect bodies r := by
  refine ⟨fun j t body f call ht hbody hcall hname hf => ?_,
    fun j t body f call ht hbody hcall hname hf hplane => ?_,
    fun j t body lowered field x ht hx hbody hlower hstands => ?_⟩
  · obtain ⟨hresolved, hmem⟩ := h.getElem?_textures ht
    obtain ⟨lowered, hlower⟩ := h.exists_lower hnames hbody
    have hstands := hcall.standsIn (lowers_of_lower hlower)
      (hnames.textures t (List.mem_of_getElem? ht)) hname (f.defaultSampler_mem_fields hf _ _)
    obtain ⟨ty, hty, hsampled⟩ := t.kind.exists_defaultSampler target.dialect.frames
    have hx := field?_expand_of_ne hty (by decide) bodies.isGraphics
    obtain ⟨i, found, hi, hfound⟩ := h.exists_texture hnames hmem (List.mem_of_find?_eq_some hx)
      hbody hlower hstands hsampled
    refine ⟨_, i, found, hresolved, ?_, hfound⟩
    rw [ExpandedTexture.index?_resolve hx, ExpandedField.resolve]
    exact (if_pos hsampled).trans hi
  · obtain ⟨hresolved, hmem⟩ := h.getElem?_textures ht
    obtain ⟨lowered, hlower⟩ := h.exists_lower hnames hbody
    refine ⟨_, hresolved, fun field hfield => ?_⟩
    have hstands := hcall.standsIn (lowers_of_lower hlower)
      (hnames.textures t (List.mem_of_getElem? ht)) hname hfield
    obtain ⟨⟨ty, hty⟩, hne⟩ :=
      f.exists_fieldType hf target.rg_dialect target.dialect.frames hfield
    rw [← hplane] at hty
    have hx := field?_expand_of_ne hty hne bodies.isGraphics
    refine ⟨⟨_, hx, rfl, rfl⟩, ?_⟩
    rw [ExpandedTexture.index?_resolve hx]
    exact h.isSome_index hnames hmem (List.mem_of_find?_eq_some hx) hbody hlower hstands
  · obtain ⟨hresolved, hmem⟩ := h.getElem?_textures ht
    refine ⟨_, hresolved, ?_⟩
    rw [ExpandedTexture.index?_resolve hx]
    exact h.isSome_index hnames hmem (List.mem_of_find?_eq_some hx) hbody hlower hstands

end Session

/-! ## Runs -/

/-- **What the bodies sample is kept**: in every workspace that a run reaches, by a session that is
built, if everything is called by identifiers and the cache hands out a program that was made of the
texts of the session. -/
theorem Workspace.exists_keepsSampled {target : Target} {compilerName : String} {steps : List Step}
    {slot : Nat} {s : Session} {bodies : ProgramBodies} {a : Assembly} {r : Resources}
    (hs : ((start target (readingCompiler compilerName)).run steps).session? slot = some s)
    (hnames : s.declarations.IsNamed)
    (hbuild : (((start target (readingCompiler compilerName)).run steps).build slot bodies).1 =
      some (.ok r))
    (ha : s.assembly target.dialect bodies = .ok a) (htexts : r.program.texts = a.texts) :
    ∃ after, (((start target (readingCompiler compilerName)).run steps).build slot
        bodies).2.session? slot = some after ∧ after.declarations = s.declarations ∧
      after.KeepsSampled target.dialect bodies r := by
  obtain ⟨ds, hread, hafter⟩ := exists_isRead hs hbuild ha htexts
  exact ⟨_, hafter, rfl, hread.keepsSampled hnames⟩

/-! ## A cube texture in the vertex stage -/

/-- A cube texture that the vertex stage reads. -/
def cubeDeclarations : Declarations where
  textures := [{ name := "t", kind := .cube, stage := .vertex }]

/-- The only thing that is declared is the sampler, and the color output. -/
theorem exists_drafts_cubeDeclarations :
    ∃ vertex fragment,
      (Session.declaring cubeDeclarations).Drafts desktopTarget.dialect 1 vertex fragment ∧
      vertex.items =
        [.opaqueUniform "" none ⟨"t_sampler", .samplerCube, .vertex, none, none, none⟩] ∧
      fragment.items = [.colorOutput none 1] := by
  refine ⟨_, _, ⟨⟨by decide, by decide, by decide, by decide, by decide, by decide, by decide⟩, rfl,
    rfl, rfl, ?_, ?_⟩, rfl, rfl⟩
  · decide +kernel
  · decide +kernel

theorem lower_cubeCall :
    lower desktopTarget.dialect "ngl_texcube(t, p);\n".toList =
      .ok ⟨unlines ["ngli_texcube(t_sampler, p);".toList], 1⟩ := by
  decide +kernel

theorem hasCall_cubeCall :
    HasCall "ngl_texcube(t, p);\n".toList .sampleCube ⟨"t".toList, [], ", p);\n".toList⟩ :=
  ⟨⟨.sampleCube, 0⟩, by decide +kernel, rfl, by decide +kernel⟩

theorem areInert_cubeCall : AreInert ["ngli_texcube(t_sampler, p);".toList] := by
  have hsplit : splitLayout "ngli_texcube(t_sampler, p);".toList =
      .ok ([], "ngli_texcube(t_sampler, p);".toList) := by
    decide +kernel
  exact areInert_singleton ⟨by decide, by decide⟩ (by decide +kernel) (by decide) hsplit
    (by decide +kernel)

/-- The sampler of a texture that the vertex body samples. -/
theorem Workspace.exists_keepsSampled_cube :
    let w := (start desktopTarget (readingCompiler "reader")).run (declaringRun 0 cubeDeclarations)
    let bodies : ProgramBodies := .graphics "ngl_texcube(t, p);\n" ""
    ∃ r after e i found, (w.build 0 bodies).1 = some (.ok r) ∧
      (w.build 0 bodies).2.session? 0 = some after ∧ after.textures[0]? = some e ∧
      e.index? .defaultSampler = some (.texture i) ∧ r.elements.textures[i]? = some found ∧
      found.name = "t_sampler" ∧ found.stage = .vertex := by
  intro w bodies
  obtain ⟨vertex, fragment, h, -, -⟩ := exists_drafts_cubeDeclarations
  have hempty : lower desktopTarget.dialect "".toList = .ok ⟨unlines [], 0⟩ := lower_nil
  obtain ⟨vertexText, fragmentText, r, hs, -, ha, hbuild, htexts⟩ :=
    exists_build_declaringRun "reader" h lower_cubeCall hempty areInert_cubeCall areInert_nil
  obtain ⟨after, hafter, hdeclarations, hkeeps⟩ :=
    exists_keepsSampled hs h.names hbuild ha htexts
  obtain ⟨e, i, found, he, hi, hfound, hname, hstage⟩ := hkeeps.sampler 0 _ _ _ _
    (by rw [hdeclarations]; rfl) rfl hasCall_cubeCall rfl rfl
  exact ⟨r, after, e, i, found, hbuild, hafter, he, hi, hfound, hname, hstage⟩

/-- The lines in front of every fragment body. -/
def cubeHeadLines : List String :=
  ["#version 330", "#define ngli_tex2d   texture", "#define ngli_tex3d   texture",
    "#define ngli_texcube texture", "#define ngli_img2d  imageLoad",
    "#define ngli_imgsz  imageSize", "#define ngli_texlod textureLod", "",
    "out vec4 ngl_out_color;"]

/-- What stands in front of every fragment body. -/
def cubeHead : String := String.ofList (unlines (cubeHeadLines.map String.toList))

theorem toList_cubeHead :
    cubeHead.toList =
      unlines (headLines desktopTarget.dialect .fragment true 1 [.colorOutput none 1]) := by
  have hlines : cubeHeadLines.map String.toList =
      headLines desktopTarget.dialect .fragment true 1 [.colorOutput none 1] := by
    decide +kernel
  rw [cubeHead, String.toList_ofList, hlines]

/-- **A texture that is sampled is dropped**: the second session gets the program of the first,
whose vertex stage does not sample the texture. -/
theorem Workspace.not_keepsSampled_splitRun :
    let w := (start desktopTarget (readingCompiler "reader")).run (splitRun cubeDeclarations
      (.graphics "" ("ngli_texcube(t_sampler, p);\n" ++ cubeHead)))
    let bodies : ProgramBodies := .graphics (cubeHead ++ "ngl_texcube(t, p);\n") ""
    ∃ r after, (w.build 1 bodies).1 = some (.ok r) ∧
      (w.build 1 bodies).2.session? 1 = some after ∧ r.elements.textures = [] ∧
      ¬after.KeepsSampled desktopTarget.dialect bodies r := by
  intro w bodies
  obtain ⟨vertex, fragment, h, hvertex, hfragment⟩ := exists_drafts_cubeDeclarations
  have hmiddle : "ngli_texcube(t_sampler, p);\n".toList =
      unlines ["ngli_texcube(t_sampler, p);".toList] := by
    decide
  have hlower : lower desktopTarget.dialect "ngl_texcube(t, p);\n".toList =
      .ok ⟨"ngli_texcube(t_sampler, p);\n".toList, 1⟩ := by
    rw [hmiddle]
    exact lower_cubeCall
  obtain ⟨-, -, vertexText, fragmentText, r, -, -, hvertexText, hs, hbuild, -, helements⟩ :=
    exists_build_splitRun h (toList_cubeHead.trans (by rw [hfragment]; rfl)) areInert_cubeCall
      hmiddle "reader" hlower
  -- the vertex text of the first program mentions the sampler only where it is declared
  have hunused : isUsed vertexText.toList "t_sampler".toList = false := by
    rw [hvertexText, hvertex]
    decide +kernel
  have hnone : r.elements.textures = [] := by
    rw [(Reflection.elements_of_resolve helements).2, hvertex, hfragment]
    refine List.filterMap_eq_nil_iff.mpr fun t ht => ?_
    obtain rfl := List.mem_singleton.mp ht
    refine Reflection.resolveTexture?_eq_none rfl fun x hx hused => ?_
    obtain rfl := List.mem_singleton.mp hx
    cases hused.symm.trans hunused
  have hcall := hasCall_cubeCall.append_left (s := cubeHead.toList)
    (by rw [toList_cubeHead]; exact apart_unlines _ _)
  rw [← String.toList_append] at hcall
  refine ⟨r, _, hbuild, session?_build hs, hnone, fun hkeeps => ?_⟩
  obtain ⟨e, i, found, -, -, hfound, -⟩ := hkeeps.sampler 0 _ _ _ _
    (by rw [Session.declarations_build]; rfl) rfl hcall rfl rfl
  rw [hnone] at hfound
  cases hfound

end ShaderLoom
