import ShaderLoom.Proofs.Session.Sampled
import ShaderLoom.Proofs.Source.Origin

/-!
# Uniforms that are dropped

Outside of Vulkan a loose uniform has a line of its own. A compiler that reads this line keeps the
uniform exactly if its name stands in the text once more. So a uniform that is declared once is kept,
with a location, if the text of its stage mentions it at least twice, and is dropped otherwise
(**`Workspace.exists_keepsLive`**).

The program must be made of the texts of the session, or the uniform is dropped for what stands in
other texts (**`Workspace.not_keepsLive_handover`**).
-/

namespace ShaderLoom

open Text Reading

variable {target : Target} {s : Session} {bodies : ProgramBodies} {stage : Stage} {a : Assembly}
  {r : Resources} {u : UniformDecl} {decls : Declarations} {textures : List ExpandedTexture}
  {program : Assembly} {ds : List Declaration} {finished : FinishedStage} {item : Item}

/-! ## Uniforms that are declared once -/

/-- A body declares no uniform, sampler or image of a name. -/
def Dialect.ReadsNoUniform (d : Dialect) (vertex : Bool) (name body : String) : Prop :=
  ∀ lowered source ds, lower d body.toList = .ok lowered →
    readLines vertex source (lines lowered.text) = .ok ds →
      ∀ x ∈ ds, x.isUniform = true → x.name ≠ name

/-- A session declares a loose uniform once: it is the only one of its name, no texture field is
called like it, and no body declares another one. -/
structure Session.DeclaresOnce (s : Session) (d : Dialect) (bodies : ProgramBodies)
    (u : UniformDecl) : Prop where
  /-- the declarations -/
  declarations : ShaderLoom.DeclaresOnce s.declarations
    (s.declarations.textures.map (·.expand d.frames bodies.isGraphics)) u
  /-- the bodies -/
  bodies : ∀ stage body, bodies.body? stage = some body →
    d.ReadsNoUniform (decide (stage = .vertex)) u.name body

namespace DeclaresOnce

/-- A uniform that is declared once has an item in its stage only. -/
theorem stage_of_uniformName? (h : DeclaresOnce decls textures u)
    (hstage : program.HasStage target.dialect decls textures bodies stage finished)
    (hitem : item ∈ finished.items) (hname : item.uniformName? = some u.name) :
    stage = u.stage := by
  obtain ⟨colors, body, x, -, hassembled⟩ := hstage.assembled
  obtain ⟨draft, hdraft, -, hitems, -⟩ := assembleStage_eq_ok hassembled
  rcases exists_entry_of_mem hdraft (hitems ▸ hitem) with
    ⟨entry, hentry, b, b', hyields⟩ | ⟨pool, buffer, b, rfl⟩
  · refine h.stage_eq hentry ?_
    cases hyields with
    | uniform hv => exact (StageEntry.variable?_of_uniform? hv).trans hname
    | opaqueField => exact hname
    | colorOutput | varyingOut | varyingIn | block | vertexAttribute => cases hname
  · cases hname

/-- **It has an item in its stage**, where uniforms are not consolidated. -/
theorem exists_item (h : DeclaresOnce decls textures u)
    (hd : target.dialect.consolidatesUniforms = false)
    (hstage : program.HasStage target.dialect decls textures bodies u.stage finished) :
    ∃ precision, .uniform precision u ∈ finished.items := by
  obtain ⟨colors, body, x, -, hassembled⟩ := hstage.assembled
  obtain ⟨draft, hdraft, -, hitems, -⟩ := assembleStage_eq_ok hassembled
  have hentry : StageEntry.uniform u ∈ stageEntries decls textures u.stage colors := by
    simp only [stageEntries, List.mem_append, List.mem_map, List.mem_filter]
    exact .inl (.inl (.inl (.inr ⟨u, ⟨h.mem, by simp⟩, rfl⟩)))
  rcases exists_item_of_mem_stageEntries hdraft hentry with
    ⟨item, hitem, b, b', hyields⟩ | ⟨pool, buffer, number, -, v, -, hpools, -⟩ | ⟨colors, hcolors⟩
  · rw [← hitems] at hitem
    cases hyields with
    | uniform hv =>
      cases hv
      exact ⟨_, hitem⟩
  · rw [Dialect.pools, hd] at hpools
    cases hpools
  · cases hcolors

end DeclaresOnce

/-! ## Uniforms that are kept -/

section

variable {p : Resolved} (h : DeclaresOnce decls textures u)
  (hbodies : ∀ stage body, bodies.body? stage = some body →
    target.dialect.ReadsNoUniform (decide (stage = .vertex)) u.name body)
  (hd : target.dialect.consolidatesUniforms = false)
  (ha : assemble target.dialect decls textures bodies = .ok a) (hnames : decls.IsNamed)
  (hfields : ∀ t ∈ textures, ∀ f ∈ t.fields, IsName f.name.toList)
  (hread : readProgram a.texts = .ok ds)
  (hresolve : (reflect ds).resolve (Declared.ofItems a.items) = .ok p)
  (hstage : a.HasStage target.dialect decls textures bodies u.stage finished)

include h ha hnames hfields hread hstage

include hbodies in
/-- What is read under the name of the uniform is the item of the uniform. -/
theorem DeclaresOnce.used_eq {x : Declaration} (hx : x ∈ ds) (huniform : x.isUniform = true)
    (hname : x.name = u.name) : x.used = isUsed finished.text.toList u.name.toList := by
  obtain ⟨stage, other, body, lowered, others, hother, hbody, hlower, hothers, hx⟩ :=
    exists_stage_of_mem_readProgram ha hnames hfields hread hx
  rcases hx with hx | hx
  · obtain ⟨item, hitem, hdeclares⟩ := List.mem_filterMap.mp hx
    obtain ⟨hitemName, hused⟩ := Item.uniformName?_of_declaration? hdeclares huniform
    rw [hname] at hitemName hused
    obtain rfl := h.stage_of_uniformName? hother hitem hitemName
    rw [hused, Option.some.inj (hother.text.symm.trans hstage.text)]
  · exact absurd hname (hbodies stage body hbody lowered _ others hlower hothers x hx huniform)

include hresolve

include hbodies in
/-- A uniform that is kept under the name has the stage, a location, and is used. -/
theorem DeclaresOnce.of_mem_uniforms {x : BoundUniform} (hx : x ∈ p.uniforms)
    (hname : x.name = u.name) :
    x.stage = u.stage ∧ x.location.isSome = true ∧
      isUsed finished.text.toList u.name.toList = true := by
  obtain ⟨attributes, -, rfl⟩ := map_eq_ok.mp hresolve
  obtain ⟨y, hy, hkept⟩ := List.mem_filterMap.mp hx
  obtain ⟨hyname, hystage, hlocation, z, hz, hused, huniform, hzname⟩ :=
    Reflection.of_resolveUniform?_reflect hkept
  rw [← hyname, hname] at hzname
  obtain ⟨colors, entry, hentry, v, hv, hvname, -⟩ := exists_origin_of_mem_uniforms ha hy
  have hvariable := StageEntry.variable?_of_uniform? hv
  rw [hvname, ← hyname, hname] at hvariable
  rw [h.used_eq hbodies ha hnames hfields hread hstage hz huniform hzname] at hused
  exact ⟨hystage.trans (h.stage_eq hentry hvariable), hlocation, hused⟩

omit ha in
include hd in
/-- The uniform is declared, and it is kept if it is used. -/
theorem DeclaresOnce.exists_mem_uniforms :
    ∃ x ∈ (Declared.ofItems a.items).uniforms, x.name = u.name ∧ x.ty = u.ty ∧
      x.stage = u.stage ∧ (isUsed finished.text.toList u.name.toList = true →
        ∃ y ∈ p.uniforms, y.name = u.name) := by
  obtain ⟨precision, hitem⟩ := h.exists_item hd hstage
  refine ⟨⟨u.name, u.ty, u.stage, max u.count 1, none⟩, List.mem_flatMap.mpr
    ⟨_, hstage.items.subset hitem, List.mem_singleton_self _⟩, rfl, rfl, rfl, fun hmentioned => ?_⟩
  have hitemName : (Item.uniform precision u).uniformName? = some u.name := rfl
  obtain ⟨x, hx, hxname, huniform, hused⟩ :=
    Item.exists_declaration? hitemName (decide (u.stage = .vertex)) finished.text.toList
  have hmem := hstage.mem_of_declaration? hnames hfields hread hitem hx
  obtain ⟨y, hy, hyname, -⟩ := Reflection.exists_resolveUniform? hmem (hused.trans hmentioned)
    huniform (u := ⟨u.name, u.ty, u.stage, max u.count 1, none⟩) hxname
  obtain ⟨attributes, -, rfl⟩ := map_eq_ok.mp hresolve
  exact ⟨y, List.mem_filterMap.mpr ⟨_, List.mem_flatMap.mpr
    ⟨_, hstage.items.subset hitem, List.mem_singleton_self _⟩, hy⟩, hyname⟩

end

/-! ## Sessions -/

/-- A uniform is declared, and it is kept exactly if the text mentions it besides its declaration. -/
structure KeepsLive (r : Resources) (after : Session) (u : UniformDecl) (text : Text) : Prop where
  /-- the uniform is declared -/
  declared : ∃ x ∈ after.declared.uniforms, x.name = u.name ∧ x.ty = u.ty ∧ x.stage = u.stage
  /-- it is kept exactly if the text mentions it twice -/
  live : (∃ x ∈ r.elements.uniforms, x.name = u.name) ↔ 2 ≤ mentions u.name.toList text
  /-- what is kept is in the stage of the uniform, and has a location -/
  placed : ∀ x ∈ r.elements.uniforms, x.name = u.name →
    x.stage = u.stage ∧ x.location.isSome = true
  /-- and the session can locate it then, and only then -/
  located : (after.locateUniform? u.name u.stage).isSome = true ↔ 2 ≤ mentions u.name.toList text

/-- **A uniform that is declared once is kept** exactly if its stage mentions it twice. -/
theorem Session.DeclaresOnce.keepsLive {after : Session} {text : String}
    (h : s.DeclaresOnce target.dialect bodies u) (hapi : target.api ≠ .vulkan)
    (hnames : s.declarations.IsNamed) (hread : s.IsRead target.dialect bodies a ds r)
    (htext : a.texts.text? u.stage = some text) (hstate : after.state = .resolved)
    (hdeclared : after.declared = Declared.ofItems a.items)
    (huniforms : after.uniforms = r.elements.uniforms)
    (hblocks : after.uniformBlocks = r.uniformBlocks) :
    KeepsLive r after u text.toList := by
  have ha := hread.assembly
  have hfields := isName_of_mem_expand (d := target.dialect) hnames hread.textures
    bodies.isGraphics
  rw [textures_expand hread.textures] at hfields
  rw [assembly, textures_expand hread.textures] at ha
  have hd := (Target.isLoose_dialect hapi).consolidatesUniforms
  obtain ⟨finished, hstage, rfl⟩ := exists_hasStage_of_text? ha htext
  have hmentions : isUsed finished.text.toList u.name.toList = true ↔
      2 ≤ mentions u.name.toList finished.text.toList := by
    rw [isUsed, wholeWords_eq (hnames.uniforms u h.declarations.mem), decide_eq_true_iff,
      Nat.succ_le_iff]
  have hplaced := fun x : BoundUniform => h.declarations.of_mem_uniforms (x := x) h.bodies ha hnames
    hfields hread.read hread.resolve hstage
  obtain ⟨x, hx, hname, hty, hxstage, hkept⟩ := h.declarations.exists_mem_uniforms hd hnames
    hfields hread.read hread.resolve hstage
  have hlive : (∃ x ∈ r.elements.uniforms, x.name = u.name) ↔
      2 ≤ mentions u.name.toList finished.text.toList := by
    rw [← hmentions]
    constructor
    · rintro ⟨y, hy, hyname⟩
      exact (hplaced y hy hyname).2.2
    · exact hkept
  refine ⟨⟨x, hdeclared ▸ hx, hname, hty, hxstage⟩, hlive, fun y hy hyname => ?_, ?_⟩
  · obtain ⟨hystage, hlocation, -⟩ := hplaced y hy hyname
    exact ⟨hystage, hlocation⟩
  · rw [← hlive, locateUniform?, if_pos hstate, huniforms, hblocks, hread.uniformBlocks,
      uniformBlocks_eq_nil hd ha]
    constructor
    · intro hsome
      obtain ⟨index, hindex⟩ := Option.isSome_iff_exists.mp hsome
      rcases locateUniform?_eq_some hindex with ⟨b, i, f, -, hb, -⟩ | ⟨i, y, -, hy, hyname, -⟩
      · cases hb
      · exact ⟨y, List.mem_of_getElem? hy, hyname⟩
    · rintro ⟨y, hy, hyname⟩
      have hsome : (ShaderLoom.locateUniform? r.elements.uniforms [] y.name y.stage).isSome = true :=
        ShaderLoom.isSome_locateUniform? hy
      rwa [hyname, (hplaced y hy hyname).1] at hsome

/-! ## Runs -/

/-- **Dead uniforms are dropped, and no others**: in every workspace that a run reaches, outside of
Vulkan, a session whose texts compile is built, and a uniform that it declares once is kept exactly
if the text of its stage mentions it besides its declaration, if everything is called by identifiers
and the program was made of the texts of the session. -/
theorem Workspace.exists_keepsLive {compilerName : String} {steps : List Step} {slot : Nat}
    {p : Program} {text : String} (hapi : target.api ≠ .vulkan)
    (hs : ((start target (readingCompiler compilerName)).run steps).session? slot = some s)
    (hopen : s.isOpen = true) (hsuits : s.Suits bodies)
    (ha : s.assembly target.dialect bodies = .ok a)
    (hget : (((start target (readingCompiler compilerName)).run steps).context.cache.get
      a.texts).1 = .ok p)
    (htexts : p.texts = a.texts) (hnames : s.declarations.IsNamed)
    (hu : s.DeclaresOnce target.dialect bodies u) (htext : a.texts.text? u.stage = some text) :
    ∃ r after,
      (((start target (readingCompiler compilerName)).run steps).build slot bodies).1 =
        some (.ok r) ∧
      (((start target (readingCompiler compilerName)).run steps).build slot bodies).2.session?
        slot = some after ∧
      KeepsLive r after u text.toList := by
  obtain ⟨ds, -, hreflect⟩ := map_eq_ok.mp (isCompiled_of_get hget)
  obtain ⟨elements, hresolve⟩ := exists_resolve_reflect ds (Declared.ofItems a.items)
  rw [hreflect] at hresolve
  have hdialect : Context.dialect ((start target (readingCompiler compilerName)).run
      steps).context = target.dialect := by
    rw [Context.dialect, (isSound_run target _ steps).target_eq]
  have hbuild : (((start target (readingCompiler compilerName)).run steps).build slot bodies).1 =
      some (.ok ⟨p, elements, a.items.filterMap Item.uniformBlock?⟩) :=
    build_eq_ok_iff.mpr ⟨s, hs, Session.build_eq_ok_iff.mpr
      ⟨hopen, hsuits, a, hdialect ▸ ha, hget, hresolve, rfl⟩⟩
  obtain ⟨ds', hread, hafter⟩ := exists_isRead hs hbuild ha htexts
  exact ⟨_, _, hbuild, hafter, hu.keepsLive hapi hnames hread htext rfl rfl rfl rfl⟩

/-! ## A uniform in the body -/

theorem ReadsNothing.readsNoUniform {d : Dialect} {body : String} (h : ReadsNothing d body)
    (vertex : Bool) (name : String) : d.ReadsNoUniform vertex name body := by
  intro lowered source ds hl hds
  rw [h lowered vertex source ds hl hds]
  exact fun x hx => absurd hx List.not_mem_nil

/-- A uniform of the vertex stage. -/
def timeUniform : UniformDecl := { name := "u", ty := .float, stage := .vertex }

def timeDeclarations : Declarations where
  uniforms := [timeUniform]

theorem exists_drafts_timeDeclarations :
    ∃ vertex fragment,
      (Session.declaring timeDeclarations).Drafts desktopTarget.dialect 1 vertex fragment ∧
      vertex.items = [.uniform "" timeUniform] := by
  refine ⟨_, _, ⟨⟨by decide, by decide, by decide, by decide, by decide, by decide, by decide⟩, rfl,
    rfl, rfl, ?_, ?_⟩, rfl⟩
  · decide +kernel
  · decide +kernel

theorem areInert_square : AreInert ["u*u;".toList] := by
  have hsplit : splitLayout "u*u;".toList = .ok ([], "u*u;".toList) := by
    decide +kernel
  exact areInert_singleton ⟨by decide, by decide⟩ (by decide +kernel) (by decide) hsplit
    (by decide +kernel)

theorem lower_square : lower desktopTarget.dialect "u*u;\n".toList =
    .ok ⟨unlines ["u*u;".toList], 0⟩ := by
  decide +kernel

/-- A single uniform is declared once if the bodies declare nothing. -/
theorem declaresOnce_singleton (u : UniformDecl) {vertexBody fragmentBody : String}
    (hvertex : ReadsNothing desktopTarget.dialect vertexBody)
    (hfragment : ReadsNothing desktopTarget.dialect fragmentBody) :
    (Session.declaring { uniforms := [u] }).DeclaresOnce desktopTarget.dialect
      (.graphics vertexBody fragmentBody 1) u := by
  have honce : [u].filter (·.name = u.name) = [u] :=
    List.filter_cons_of_pos (decide_eq_true rfl)
  refine ⟨⟨honce, fun t ht => absurd ht List.not_mem_nil⟩, fun stage body hbody => ?_⟩
  cases stage with
  | vertex =>
    cases hbody
    exact hvertex.readsNoUniform _ _
  | fragment =>
    cases hbody
    exact hfragment.readsNoUniform _ _
  | compute => cases hbody

/-- The uniform is kept if the vertex body mentions it, and dropped if the body is empty. -/
theorem Workspace.exists_keepsLive_time :
    let w := (start desktopTarget (readingCompiler "reader")).run (declaringRun 0 timeDeclarations)
    (∃ r after, (w.build 0 (.graphics "u*u;\n" "")).1 = some (.ok r) ∧
      (w.build 0 (.graphics "u*u;\n" "")).2.session? 0 = some after ∧
      (∃ x ∈ r.elements.uniforms, x.name = "u" ∧ x.stage = .vertex ∧ x.location.isSome = true) ∧
      (after.locateUniform? "u" .vertex).isSome = true) ∧
    ∃ r after, (w.build 0 (.graphics "" "")).1 = some (.ok r) ∧
      (w.build 0 (.graphics "" "")).2.session? 0 = some after ∧
      (∃ x ∈ after.declared.uniforms, x.name = "u") ∧
      (∀ x ∈ r.elements.uniforms, x.name ≠ "u") ∧ after.locateUniform? "u" .vertex = none := by
  intro w
  obtain ⟨vertex, fragment, h, hvertex⟩ := exists_drafts_timeDeclarations
  have hempty : lower desktopTarget.dialect "".toList = .ok ⟨unlines [], 0⟩ := lower_nil
  have hnothing := areInert_nil.readsNothing hempty
  constructor
  · obtain ⟨vertexText, fragmentText, r, hs, hvertexText, ha, hbuild, htexts⟩ :=
      exists_build_declaringRun "reader" h lower_square hempty areInert_square areInert_nil
    obtain ⟨r, after, hbuild, hafter, hkeeps⟩ := exists_keepsLive (by decide) hs rfl (.inl rfl) ha
      (get_of_build hs hbuild ha) htexts h.names
      (declaresOnce_singleton _ (areInert_square.readsNothing lower_square) hnothing) rfl
    have hmentions : 2 ≤ mentions "u".toList vertexText.toList := by
      rw [hvertexText, hvertex]
      decide +kernel
    obtain ⟨x, hx, hname⟩ := hkeeps.live.mpr hmentions
    obtain ⟨hstage, hlocation⟩ := hkeeps.placed x hx hname
    exact ⟨r, after, hbuild, hafter, ⟨x, hx, hname, hstage, hlocation⟩,
      hkeeps.located.mpr hmentions⟩
  · obtain ⟨vertexText, fragmentText, r, hs, hvertexText, ha, hbuild, htexts⟩ :=
      exists_build_declaringRun "reader" h hempty hempty areInert_nil areInert_nil
    obtain ⟨r, after, hbuild, hafter, hkeeps⟩ := exists_keepsLive (by decide) hs rfl (.inl rfl) ha
      (get_of_build hs hbuild ha) htexts h.names
      (declaresOnce_singleton _ hnothing hnothing) rfl
    have hmentions : ¬2 ≤ mentions "u".toList vertexText.toList := by
      rw [hvertexText, hvertex]
      decide +kernel
    obtain ⟨x, hx, hname, -⟩ := hkeeps.declared
    refine ⟨r, after, hbuild, hafter, ⟨x, hx, hname⟩, fun y hy hyname => ?_, ?_⟩
    · exact hmentions (hkeeps.live.mp ⟨y, hy, hyname⟩)
    · exact Option.not_isSome_iff_eq_none.mp fun hsome => hmentions (hkeeps.located.mp hsome)

/-! ## A uniform that is dropped -/

/-- A uniform of the fragment stage. -/
def fadeUniform : UniformDecl := { name := "u", ty := .float, stage := .fragment }

def fadeDeclarations : Declarations where
  uniforms := [fadeUniform]

theorem exists_drafts_fadeDeclarations :
    ∃ vertex fragment,
      (Session.declaring fadeDeclarations).Drafts desktopTarget.dialect 1 vertex fragment ∧
      vertex.items = [] ∧ fragment.items = [.colorOutput none 1, .uniform "" fadeUniform] := by
  refine ⟨_, _, ⟨⟨by decide, by decide, by decide, by decide, by decide, by decide, by decide⟩, rfl,
    rfl, rfl, ?_, ?_⟩, rfl, rfl⟩
  · decide +kernel
  · decide +kernel

theorem exists_drafts_empty :
    ∃ vertex fragment, (Session.declaring {}).Drafts desktopTarget.dialect 1 vertex fragment ∧
      vertex.items = [] ∧ fragment.items = [.colorOutput none 1] := by
  refine ⟨_, _, ⟨⟨by decide, by decide, by decide, by decide, by decide, by decide, by decide⟩, rfl,
    rfl, rfl, ?_, ?_⟩, rfl, rfl⟩
  · decide +kernel
  · decide +kernel

/-- The head of the fragment stage that declares the uniform stands in a vertex body: the program that
is made of it does not use the uniform, though its fragment stage mentions it. -/
theorem exists_handoverProgram :
    ∃ (vertexText fragmentText : String) (items : List Item) (ds : List Declaration),
      (Session.declaring {}).assembly desktopTarget.dialect
        (.graphics (colorHead ++ "uniform float u;\n") "u*u;\n" 1) =
          .ok ⟨.graphics vertexText fragmentText, items⟩ ∧
      vertexText.toList = "#version 330\n\n#define ngl_out_pos gl_Position\n".toList ++
        (colorHead ++ "uniform float u;\n").toList ∧
      fragmentText.toList = (colorHead ++ "u*u;\n").toList ∧
      readProgram (.graphics vertexText fragmentText) = .ok ds ∧ ∀ x ∈ ds, x.used = false := by
  obtain ⟨vertex, fragment, h, hvertex, hfragment⟩ := exists_drafts_empty
  obtain ⟨_, other, hother, -, hitems⟩ := exists_drafts_fadeDeclarations
  have hhead : (colorHead ++ "uniform float u;\n").toList =
      unlines ([] ++ headLines desktopTarget.dialect .fragment false 1 other.items) := by
    rw [hitems]
    decide +kernel
  have hreadable : ∀ item ∈ other.items, item.IsReadable true := by
    rw [hitems]
    exact List.forall_mem_cons.mpr ⟨trivial, List.forall_mem_singleton.mpr
      ⟨hother.names.uniforms _ (List.mem_singleton_self _), rfl, .inl rfl⟩⟩
  have hfits : ∀ item ∈ other.items, item.Fits := fun item hitem =>
    hother.fits item (List.mem_append_right _ hitem)
  have hlower : lower desktopTarget.dialect (colorHead ++ "uniform float u;\n").toList =
      .ok ⟨(colorHead ++ "uniform float u;\n").toList, 0⟩ := by
    rw [hhead]
    exact lower_inert_headLines areInert_nil hother.callFree_fragment
  have hbalanced : IsBalanced (colorHead ++ "uniform float u;\n").toList := by
    rw [hhead]
    exact isBalanced_inert_headLines areInert_nil hreadable
  obtain ⟨vertexText, fragmentText, hvertexText, hfragmentText, ha⟩ :=
    h.exists_assembly hlower lower_square
  have hothers : readLines true vertexText.toList
      (lines (colorHead ++ "uniform float u;\n").toList) =
        .ok (other.items.filterMap (Item.declaration? true vertexText.toList)) := by
    rw [hhead]
    exact readLines_inert_headLines areInert_nil hreadable hfits
  have hread := h.readProgram_eq hvertexText hfragmentText hbalanced areInert_square.isBalanced
    hothers (areInert_square.readLines_lines _ _)
  rw [hvertex] at hvertexText
  rw [hfragment] at hfragmentText
  have htext : vertexText.toList = "#version 330\n\n#define ngl_out_pos gl_Position\n".toList ++
      (colorHead ++ "uniform float u;\n").toList := by
    rw [hvertexText]
    decide +kernel
  -- the vertex text mentions the uniform only where it declares it
  have hunused : isUsed vertexText.toList "u".toList = false := by
    rw [htext]
    decide +kernel
  refine ⟨vertexText, fragmentText, _, _, ha, htext, ?_, hread, fun x hx => ?_⟩
  · rw [hfragmentText]
    decide +kernel
  · rw [hvertex, hfragment, hitems] at hx
    obtain rfl := List.mem_singleton.mp hx
    exact hunused

/-- **A uniform that is used is dropped**: the session gets the program of another one, whose text
goes on where that of the session begins. The uniform stands in the texts of both. -/
theorem Workspace.not_keepsLive_handover :
    let w := (start desktopTarget (readingCompiler "reader")).run (declaringRun 0 {} ++
      .build 0 (.graphics (colorHead ++ "uniform float u;\n") "u*u;\n" 1) ::
        declaringRun 1 fadeDeclarations)
    let bodies : ProgramBodies := .graphics "" (colorHead ++ "u*u;\n") 1
    let s := Session.declaring fadeDeclarations
    ∃ (a : Assembly) (r : Resources) (own other : String), w.session? 1 = some s ∧
      s.assembly desktopTarget.dialect bodies = .ok a ∧ (w.build 1 bodies).1 = some (.ok r) ∧
      s.DeclaresOnce desktopTarget.dialect bodies fadeUniform ∧
      a.texts.text? .fragment = some own ∧ r.program.texts.text? .fragment = some other ∧
      r.elements.uniforms = [] ∧ ∀ text ∈ [own, other], 2 ≤ mentions "u".toList text.toList ∧
        ∀ after, ¬KeepsLive r after fadeUniform text.toList := by
  intro w bodies s
  obtain ⟨vertexText, fragmentText, items, ds, ha, hvertexText, hfragmentText, hread, hunused⟩ :=
    exists_handoverProgram
  obtain ⟨vertex, fragment, h, hvertex, hfragment⟩ := exists_drafts_fadeDeclarations
  have hbody : lower desktopTarget.dialect (colorHead ++ "u*u;\n").toList =
      .ok ⟨(colorHead ++ "u*u;\n").toList, 0⟩ := by
    decide +kernel
  have hempty : lower desktopTarget.dialect "".toList = .ok ⟨[], 0⟩ := lower_nil
  obtain ⟨ownVertex, ownFragment, hownVertex, hownFragment, hown⟩ := h.exists_assembly hempty hbody
  rw [hvertex] at hownVertex
  rw [hfragment] at hownFragment
  have hkey : (StageTexts.graphics vertexText fragmentText).key =
      (StageTexts.graphics ownVertex ownFragment).key := by
    rw [StageTexts.key, StageTexts.key, ← String.toList_inj, String.toList_append,
      String.toList_append, hvertexText, hfragmentText, hownVertex, hownFragment]
    decide +kernel
  obtain ⟨r, hsession, hbuild, htexts, helements⟩ :=
    exists_build_second rfl rfl ha hread hown hkey "reader"
  have hnone : r.elements.uniforms = [] := Reflection.uniforms_eq_nil hunused helements
  have honce : s.DeclaresOnce desktopTarget.dialect bodies fadeUniform :=
    declaresOnce_singleton _ (areInert_nil.readsNothing lower_nil)
      (areInert_square.readsNothing_colorHead lower_square)
  have hother : r.program.texts.text? .fragment = some fragmentText := by
    rw [htexts]
    rfl
  refine ⟨_, r, ownFragment, fragmentText, hsession, hown, hbuild, honce, rfl, hother, hnone,
    fun text htext => ?_⟩
  have hmentions : 2 ≤ mentions "u".toList text.toList := by
    simp only [List.mem_cons, List.not_mem_nil, or_false] at htext
    rcases htext with rfl | rfl
    · rw [hownFragment]
      decide +kernel
    · rw [hfragmentText]
      decide +kernel
  refine ⟨hmentions, fun after hkeeps => ?_⟩
  obtain ⟨x, hx, -⟩ := hkeeps.live.mpr hmentions
  rw [hnone] at hx
  cases hx

end ShaderLoom
