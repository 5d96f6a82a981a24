import ShaderLoom.Proofs.Session.SplitProgram
import ShaderLoom.Proofs.Source.UniformBlock

/-!
# Plain uniforms on Vulkan

A session for Vulkan puts the plain uniforms of a stage into one block. Whatever the compiler tells,
the block holds just these uniforms, in order, and its buffer has the size of the block; a uniform is
located at its field, and a field can be written without changing another one
(**`Workspace.consolidates_of_build`**). The text of the stage lists the same uniforms, if their
names hold no calls.
-/

namespace ShaderLoom

open Text Reading

variable {s : Session} {target : Target} {bodies : ProgramBodies} {stage : Stage} {a : Assembly}
  {r : Resources} {us : List UniformDecl}

/-! ## Consolidated uniforms -/

/-- The plain uniforms of a stage of a session. -/
def Session.plainUniforms (s : Session) (d : Dialect) (bodies : ProgramBodies) (stage : Stage) :
    List UniformDecl :=
  ShaderLoom.plainUniforms s.declarations
    (s.declarations.textures.map (·.expand d.frames bodies.isGraphics)) stage

/-- The consolidated block of a stage, in the resources and in the session that made them, is made
of plain uniforms. -/
structure Consolidates (us : List UniformDecl) (stage : Stage) (r : Resources) (after : Session) :
    Prop where
  /-- there is a block exactly if there are plain uniforms -/
  isSome_iff : (r.uniformBlock? stage).isSome = true ↔ us ≠ []
  /-- and there is no second one -/
  unique : r.uniformBlocks.filter (·.stage = stage) = (r.uniformBlock? stage).toList
  /-- it holds the uniforms -/
  pool : ∀ u, r.uniformBlock? stage = some u → u.block.IsPoolOf us
  /-- the buffer has the size of the block -/
  size : ∀ u, r.uniformBlock? stage = some u → u.buffer.spec.size = u.block.size
  /-- uniforms with different names are located at their fields -/
  located : ∀ u, r.uniformBlock? stage = some u → (us.map (·.name)).Nodup → ∀ i f,
    u.block.fields[i]? = some f → after.locateUniform? f.name stage = some (.blockField stage i)
  /-- a field is written, and it alone, into the buffer as it is and as it is later -/
  writes : ∀ u, r.uniformBlock? stage = some u → ∀ before : Buffer, before.spec = u.buffer.spec →
    ∀ i f data, u.block.fields[i]? = some f → data.length = f.size →
      ∃ after, before.write f.offset data = .ok after ∧ u.block.Writes i data before after

/-- No call stands in a name that a session writes in a stage. -/
def Session.IsCallFreeIn (s : Session) (d : Dialect) (bodies : ProgramBodies) (stage : Stage) :
    Prop :=
  ShaderLoom.IsCallFreeIn s.declarations
    (s.declarations.textures.map (·.expand d.frames bodies.isGraphics)) stage

/-- Only Vulkan consolidates uniforms. -/
theorem Target.consolidatesUniforms_dialect :
    target.dialect.consolidatesUniforms = decide (target.api = .vulkan) := by
  obtain ⟨api, version, platform, frames⟩ := target
  cases api <;> rfl

/-- If no declared name holds a call, none that is written in a stage does. -/
theorem Declarations.IsCallFree.session (h : s.declarations.IsCallFree) (d : Dialect)
    (bodies : ProgramBodies) (stage : Stage) : s.IsCallFreeIn d bodies stage := by
  refine h.isCallFreeIn (fun t ht f hf => ?_) stage
  obtain ⟨declaration, hdeclaration, rfl⟩ := List.mem_map.mp ht
  exact TextureDecl.callFree_of_mem_expand (h.textures _ hdeclaration) hf

/-- **Stages consolidate** what they make of their plain uniforms. -/
theorem HasPool.consolidates {items : List Item} {after : Session} (h : HasPool stage us items)
    (hr : r.uniformBlocks.filter (·.stage = stage) = uniformBlocksOf items stage)
    (hafter : after.state = .resolved) (hblocks : after.uniformBlocks = r.uniformBlocks) :
    Consolidates us stage r after := by
  have hfind : r.uniformBlock? stage = (uniformBlocksOf items stage).head? := by
    rw [← hr]
    exact List.head?_filter.symm
  cases h with
  | none hus hnone =>
    have hown : uniformBlocksOf items stage = [] := by
      rw [uniformBlocksOf, hnone, List.filter_nil]
    rw [hown] at hfind hr
    have hany : ∀ {P : UniformBlock → Prop} (u : UniformBlock), r.uniformBlock? stage = some u →
        P u := fun u hu => by
      rw [hfind] at hu
      cases hu
    refine ⟨?_, ?_, hany, hany, hany, hany⟩
    · rw [hfind]
      exact iff_of_false Bool.false_ne_true (not_not_intro hus)
    · rw [hr, hfind]
      rfl
  | @block u front number hus hitems hone hstage hpool hsize =>
    have hown : uniformBlocksOf items stage = [u] := by
      rw [uniformBlocksOf, hone, List.filter_singleton, decide_eq_true hstage]
      rfl
    rw [hown] at hfind hr
    have hthe : ∀ {P : UniformBlock → Prop}, P u → ∀ v, r.uniformBlock? stage = some v → P v :=
      fun hu v hv => by
        rw [hfind] at hv
        cases hv
        exact hu
    refine ⟨?_, ?_, hthe hpool, hthe hsize, hthe fun hnames i f hf => ?_,
      hthe fun before hbefore i f data hf hdata => ?_⟩
    · rw [hfind]
      exact iff_of_true rfl hus
    · rw [hr, hfind]
      rfl
    · rw [← hpool.map_name] at hnames
      have hblock : uniformBlock? after.uniformBlocks stage = some u := by
        rw [hblocks]
        exact hfind
      rw [Session.locateUniform?, if_pos hafter, locateUniform?, hblock, Option.bind_some,
        Block.position?_of_nodup hnames hf]
    · exact hpool.isLaidOut.exists_writes (hbefore ▸ hsize) hf hdata

/-! ## Runs -/

/-- **Plain uniforms on Vulkan**: in every workspace that a run reaches, every stage of a session
that is built consolidates its plain uniforms, and lists them in its text if no call stands in a name
that is written there. -/
theorem Workspace.consolidates_of_build {compiler : Compiler} {steps : List Step} {slot : Nat}
    {body : String} (hapi : target.api = .vulkan)
    (hs : ((start target compiler).run steps).session? slot = some s)
    (hbuild : (((start target compiler).run steps).build slot bodies).1 = some (.ok r))
    (hbody : bodies.body? stage = some body) :
    ∃ a after text, s.assembly target.dialect bodies = .ok a ∧
      (((start target compiler).run steps).build slot bodies).2.session? slot = some after ∧
      a.texts.text? stage = some text ∧
      Consolidates (s.plainUniforms target.dialect bodies stage) stage r after ∧
      (s.plainUniforms target.dialect bodies stage ≠ [] →
        s.IsCallFreeIn target.dialect bodies stage →
        ∃ lowered, lower target.dialect body.toList = .ok lowered ∧
          DeclaresPool stage (s.plainUniforms target.dialect bodies stage) text.toList
            lowered.text) := by
  obtain ⟨a, ha, hbuilt, hafter⟩ := exists_isBuilt hs hbuild
  have hd : target.dialect.consolidatesUniforms = true := by
    rw [Target.consolidatesUniforms_dialect]
    exact decide_eq_true hapi
  obtain ⟨finished, hstage, hblocks⟩ := exists_hasStage_uniformBlocksOf ha hbody
  obtain ⟨colors, body', x, hbody', hassembled⟩ := hstage.assembled
  obtain rfl := Option.some.inj (hbody.symm.trans hbody')
  have htextures := Session.textures_expand hbuilt.textures target.dialect bodies.isGraphics
  have hpool := hasPool_of_assembleStage hd hassembled
  rw [htextures] at hpool
  refine ⟨a, _, finished.text, ha, hafter, hstage.text, hpool.consolidates ?_ rfl ?_,
    fun hus hfree => ?_⟩
  · rw [hbuilt.uniformBlocks]
    exact hblocks
  · exact hbuilt.uniformBlocks.symm
  · rw [htextures] at hassembled
    exact declaresPool_of_assembleStage hd hfree hassembled hus

/-! ## A block beside a texture -/

/-- A target that consolidates uniforms. -/
def vulkanTarget : Target where
  api := .vulkan
  version := 0

/-- A compiler that finds nothing used. -/
def idleCompiler : Compiler where
  name := "idle"
  compile := fun _ => .ok (reflect [])

/-- With the idle compiler, a session is built if it is assembled. -/
theorem Workspace.exists_build_idle {decls : Declarations} (hgraphics : bodies.isGraphics = true)
    (ha : (Session.declaring decls).assembly target.dialect bodies = .ok a) :
    ∃ r, (((start target idleCompiler).run (declaringRun 0 decls)).build 0 bodies).1 =
      some (.ok r) := by
  have hcompile : idleCompiler.compile a.texts = .ok (reflect []) := rfl
  obtain ⟨elements, helements⟩ := exists_resolve_reflect [] (Declared.ofItems a.items)
  obtain ⟨w, hbuild, -⟩ := build_declaringRun hgraphics ha hcompile helements
  exact ⟨_, congrArg Prod.fst hbuild⟩

/-- Declarations without calls are assembled with empty bodies if they can be drafted. -/
theorem Session.exists_assembly_of_callFree {decls : Declarations} {vertex fragment : Draft}
    {colors : Nat} (hdecls : decls.IsCallFree)
    (hvertex : draftStage target.dialect decls
      ((Session.declaring decls).expand target.dialect true).textures .vertex colors .start =
        .ok vertex)
    (hfragment : draftStage target.dialect decls
      ((Session.declaring decls).expand target.dialect true).textures .fragment colors
        vertex.allocator = .ok fragment) :
    ∃ a, (Session.declaring decls).assembly target.dialect (.graphics "" "" colors) = .ok a ∧
      a.items = vertex.items ++ fragment.items := by
  have hfree : ∀ stage, (Session.declaring decls).IsCallFreeIn target.dialect (.graphics "" "" colors)
      stage := hdecls.session _ _
  have hbody : CallFree "".toList := callFree_nil
  obtain ⟨_, -, hv⟩ := exists_assembleStage_of_callFree (hfree _) hvertex hbody
  obtain ⟨_, -, hf⟩ := exists_assembleStage_of_callFree (hfree _) hfragment hbody
  exact ⟨_, assemble_graphics_eq_ok_iff.mpr ⟨_, _, hv, hf, rfl⟩, rfl⟩

/-- A color and three weights of the vertex stage, and a texture of the fragment stage. -/
def weightedDeclarations : Declarations where
  uniforms :=
    [{ name := "color", ty := .vec3, stage := .vertex },
      { name := "weights", ty := .float, stage := .vertex, count := 3 }]
  textures := [{ name := "t", kind := .plane, stage := .fragment }]

theorem isCallFree_weightedDeclarations : weightedDeclarations.IsCallFree := by
  refine ⟨by decide +kernel, fun t ht f => ?_, by decide, by decide, by decide, by decide,
    by decide⟩
  obtain rfl := List.mem_singleton.mp ht
  cases f <;> decide +kernel

/-- The coordinate matrix of the texture stands behind the uniforms in the block of the vertex
stage. -/
theorem Workspace.consolidates_of_build_weights :
    let bodies : ProgramBodies := .graphics "" "" 1
    let s := Session.declaring weightedDeclarations
    let us := s.plainUniforms vulkanTarget.dialect bodies .vertex
    let w := (start vulkanTarget idleCompiler).run (declaringRun 0 weightedDeclarations)
    us.map (fun u => (u.name, u.count)) = [("color", 0), ("weights", 3), ("t_coord_matrix", 0)] ∧
      ∃ (r : Resources) (after : Session) (text : String) (body : Text),
        (w.build 0 bodies).1 = some (.ok r) ∧ (w.build 0 bodies).2.session? 0 = some after ∧
        Consolidates us .vertex r after ∧ DeclaresPool .vertex us text.toList body := by
  intro bodies s us w
  have hus : us.map (fun u => (u.name, u.count)) =
      [("color", 0), ("weights", 3), ("t_coord_matrix", 0)] := by
    decide +kernel
  have hne : us ≠ [] := by
    intro hnil
    rw [hnil] at hus
    cases hus
  obtain ⟨vertex, hvertex⟩ : ∃ draft, draftStage vulkanTarget.dialect weightedDeclarations
    (s.expand vulkanTarget.dialect true).textures .vertex 1 .start = .ok draft := ⟨_, rfl⟩
  obtain ⟨fragment, hfragment⟩ : ∃ draft, draftStage vulkanTarget.dialect weightedDeclarations
      (s.expand vulkanTarget.dialect true).textures .fragment 1 vertex.allocator = .ok draft := by
    cases hvertex
    exact ⟨_, rfl⟩
  obtain ⟨a, ha, -⟩ := Session.exists_assembly_of_callFree isCallFree_weightedDeclarations hvertex
    hfragment
  obtain ⟨r, hbuild⟩ := exists_build_idle rfl ha
  have hbody : bodies.body? .vertex = some "" := rfl
  obtain ⟨-, after, text, -, hafter, -, hconsolidates, hdeclares⟩ :=
    consolidates_of_build rfl rfl hbuild hbody
  obtain ⟨lowered, -, hdeclares⟩ := hdeclares hne (isCallFree_weightedDeclarations.session _ _ _)
  exact ⟨hus, r, after, text, _, hbuild, hafter, hconsolidates, hdeclares⟩

/-- A call in the name of a uniform is lowered with the text, so the block in the text does not list
the uniform that the block in the resources holds. -/
theorem Workspace.not_declaresPool_call :
    let decls : Declarations :=
      { uniforms := [{ name := "ngl_tex2d(a)", ty := .float, stage := .vertex }] }
    let bodies : ProgramBodies := .graphics "" "" 1
    let s := Session.declaring decls
    let w := (start vulkanTarget idleCompiler).run (declaringRun 0 decls)
    ∃ (a : Assembly) (r : Resources) (text : String), w.session? 0 = some s ∧
      s.assembly vulkanTarget.dialect bodies = .ok a ∧ (w.build 0 bodies).1 = some (.ok r) ∧
      a.texts.text? .vertex = some text ∧
      s.plainUniforms vulkanTarget.dialect bodies .vertex = decls.uniforms ∧
      ∀ body, ¬DeclaresPool .vertex decls.uniforms text.toList body := by
  intro decls bodies s w
  have htexts : (s.assembly vulkanTarget.dialect bodies).map (·.texts.text? .vertex) =
      .ok (some ("#version 450\n\n#define ngl_out_pos gl_Position\n" ++
        "layout(std140,binding=0) uniform ngl_vert_block \x7b\n" ++
        "    float ngli_tex2d(a_sampler);\n\x7d ;\n")) := by
    decide +kernel
  obtain ⟨a, ha, htext⟩ := map_eq_ok.mp htexts
  obtain ⟨r, hbuild⟩ := exists_build_idle rfl ha
  refine ⟨a, r, _, rfl, ha, hbuild, htext, by decide +kernel, fun body h => ?_⟩
  exact absurd (h.infix_line (List.mem_singleton_self _)) (by decide +kernel)

end ShaderLoom
