import Mathlib.Data.Set.Basic
import ShaderLoom.Proofs.Reading.Uniform
import ShaderLoom.Proofs.Resolution.Selection
import ShaderLoom.Proofs.Session.Collision

/-!
# Bindings without collisions

When do no two blocks of one stage and kind end up with the same binding? Names must **separate**:
where a block may have the name of a block of another kind, the text must fix the bindings of all
other blocks of its own kind. Then every number that is looked up is one of the right kind, and no
two blocks get the same (`Session.hasDistinctBindings_of_separates`); otherwise there is a run in
which two blocks collide. Both directions together are **`Target.hasDistinctBindings_iff`**.
-/

namespace ShaderLoom

open Text Reading

variable {d : Dialect} {decls : Declarations} {items : List Item} {ds : List Declaration}
  {names : Set (String × BlockKind)}

/-! ## Distinct bindings -/

/-- No two blocks of one stage and kind have the same binding, and no two textures of one stage are
known to have the same. -/
structure Resources.HasDistinctBindings (r : Resources) : Prop where
  /-- blocks -/
  buffers : r.elements.buffers.Pairwise fun x y =>
    x.stage = y.stage → x.kind = y.kind → x.binding ≠ y.binding
  /-- textures -/
  textures : r.elements.textures.Pairwise fun x y =>
    x.stage = y.stage → ∀ n, x.binding = some n → y.binding ≠ some n

/-- Where a block may have the name of a block of another kind, the text fixes the bindings of all
other blocks of its own kind. -/
def Dialect.Separates (d : Dialect) (names : Set (String × BlockKind)) : Prop :=
  ∀ a b kind other, IsName a.toList → IsName b.toList → other ≠ kind → b ≠ a →
    (a, kind) ∈ names → (a, other) ∈ names → (b, kind) ∈ names →
    d.fixesBindings (.ofBlock kind) = true

/-- Everything is called by identifiers, blocks of one stage and kind have different names, and all
blocks are called as `names` allows. -/
structure Declarations.AreNamedIn (names : Set (String × BlockKind)) (decls : Declarations) :
    Prop where
  /-- names are identifiers -/
  isNamed : decls.IsNamed
  /-- names are different in each stage and kind -/
  distinct : decls.blocks.Pairwise fun b c =>
    b.stage = c.stage → b.block.kind = c.block.kind → b.name ≠ c.name
  /-- names are allowed -/
  allowed : ∀ b ∈ decls.blocks, (b.name, b.block.kind) ∈ names

/-! ## Resolved elements -/

/-- **A block that is resolved** has the binding that the text fixes, or a number that was assigned
under its name. -/
theorem Reflection.resolveBuffer?_reflect {x x' : BoundBuffer}
    (h : (reflect ds).resolveBuffer? x = some x') :
    x'.stage = x.stage ∧ x'.kind = x.kind ∧ ∃ n, x'.binding = some n ∧
      (x.binding = some n ∨ x.binding = none ∧ ∃ kind, (x.name, n) ∈ blockRows kind ds) := by
  rw [resolveBuffer?] at h
  split at h
  · next n hn =>
    cases h
    exact ⟨rfl, rfl, n, hn, .inl hn⟩
  · next hblocks => cases hblocks
  · next table hn hblocks =>
    obtain ⟨n, hfind, rfl⟩ := Option.map_eq_some_iff.mp h
    exact ⟨rfl, rfl, n, rfl, .inr ⟨hn, exists_of_find?_blocks hblocks hfind⟩⟩

/-- A texture whose binding is open everywhere has none when it is resolved. -/
theorem Reflection.resolveTexture?_reflect {t t' : BoundTexture} (ht : t.binding = none)
    (hds : ∀ x ∈ ds, x.isUniform = true → x.binding = none)
    (h : (reflect ds).resolveTexture? t = some t') : t'.binding = none := by
  have hbecomes := ((reflect ds).isSelected_resolveTexture? t).becomes_of_eq_some h
  rw [hbecomes.binding ht]
  split
  · rfl
  · refine Option.bind_eq_none_iff.mpr fun info hinfo => ?_
    obtain ⟨x, hx, -, hbinding⟩ := exists_of_find?_assignUniforms hinfo
    obtain ⟨hx, huniform⟩ := List.mem_filter.mp hx
    rw [hbinding]
    exact hds x (List.mem_filter.mp hx).1 huniform

/-- **The number of a block is one of its own kind**, if names separate and another block of the
kind is declared. -/
theorem kind_eq_of_mem_blockRows {b c : BlockDecl} {kind : BlockKind} {n : Nat}
    (hseparates : d.Separates names) (hdecls : decls.AreNamedIn names)
    (hds : ∀ x ∈ ds, x.IsFrom d decls) (hb : b ∈ decls.blocks) (hc : c ∈ decls.blocks)
    (hkind : c.block.kind = b.block.kind) (hname : c.name ≠ b.name)
    (hopen : d.fixesBindings (.ofBlock b.block.kind) = false)
    (h : (b.identifier, n) ∈ blockRows kind ds) : kind = b.block.kind := by
  obtain ⟨x, hx, hxname, hxkind⟩ := exists_of_mem_blockRows h
  have hfrom := hds x hx
  rw [Declaration.IsFrom, hxkind] at hfrom
  obtain ⟨⟨e, he, hename, hekind⟩, -⟩ := hfrom
  by_contra hne
  -- the declared block behind the number has the name of `b`, but not its kind
  have hsame : e.name = b.name := BlockDecl.identifier_inj.mp (hename.trans hxname)
  have hallowed := hdecls.allowed e he
  rw [hsame, hekind] at hallowed
  have hcallowed := hdecls.allowed c hc
  rw [hkind] at hcallowed
  have hfixed := hseparates b.name c.name b.block.kind kind (hdecls.isNamed.blocks b hb)
    (hdecls.isNamed.blocks c hc) hne hname (hdecls.allowed b hb) hallowed hcallowed
  rw [hopen] at hfixed
  cases hfixed

/-- **No two blocks collide** if names separate: where the text fixes their bindings, they come from
the allocator, and elsewhere both come from the numbers of their own kind. -/
theorem binding_ne_of_differs {x y x' y' : BoundBuffer} (hseparates : d.Separates names)
    (hdecls : decls.AreNamedIn names) (hds : ∀ e ∈ ds, e.IsFrom d decls)
    (hx : x.IsFrom d decls) (hy : y.IsFrom d decls) (hdiffers : x.Differs y)
    (hx' : (reflect ds).resolveBuffer? x = some x') (hy' : (reflect ds).resolveBuffer? y = some y')
    (hstage : x'.stage = y'.stage) (hkind : x'.kind = y'.kind) : x'.binding ≠ y'.binding := by
  obtain ⟨hxstage, hxkind, n, hn, hxn⟩ := Reflection.resolveBuffer?_reflect hx'
  obtain ⟨hystage, hykind, m, hm, hym⟩ := Reflection.resolveBuffer?_reflect hy'
  rw [hxstage, hystage] at hstage
  rw [hxkind, hykind] at hkind
  obtain ⟨hname, hbinding⟩ := hdiffers hstage hkind
  obtain ⟨⟨b, hb, hbname, hbkind⟩, hxfixed⟩ := hx
  obtain ⟨⟨c, hc, hcname, hckind⟩, hyfixed⟩ := hy
  rw [hn, hm]
  intro he
  obtain rfl := Option.some.inj he
  rcases hxn with hxn | ⟨hxn, kind, hxrow⟩
  · -- the binding of `x` is in the text, and so is the one of `y`
    rw [hxn, hkind, ← hyfixed] at hxfixed
    rcases hym with hym | ⟨hym, -⟩
    · exact hbinding n hxn hym
    · rw [hym] at hxfixed
      cases hxfixed
  · -- both bindings are assigned
    rw [hxn] at hxfixed
    have hopen : d.fixesBindings (.ofBlock b.block.kind) = false := by
      rw [hbkind]
      exact hxfixed.symm
    have hbc : c.block.kind = b.block.kind := by rw [hbkind, hckind, hkind]
    have hne : b.name ≠ c.name := by
      intro he
      apply hname
      rw [← hbname, ← hcname]
      exact BlockDecl.identifier_inj.mpr he
    rcases hym with hym | ⟨-, kind', hyrow⟩
    · rw [hym, ← hkind, ← hxfixed] at hyfixed
      cases hyfixed
    · rw [← hbname] at hxrow
      rw [← hcname] at hyrow
      obtain rfl := kind_eq_of_mem_blockRows hseparates hdecls hds hb hc hbc hne.symm hopen hxrow
      have hkind' := kind_eq_of_mem_blockRows hseparates hdecls hds hc hb hbc.symm hne
        (hbc ▸ hopen) hyrow
      rw [hkind', hbc] at hyrow
      refine blockRows_injective (fun e he hekind => ?_) hxrow hyrow ?_ rfl
      · have hfrom := hds e he
        rw [Declaration.IsFrom, hekind] at hfrom
        exact hfrom.2 hopen
      · rw [hbname, hcname]
        exact hname

/-! ## Sessions -/

/-- Elements are resolved kind by kind. -/
theorem Reflection.elements_of_resolve {reflection : Reflection} {declared : Declared}
    {p : Resolved} (h : reflection.resolve declared = .ok p) :
    p.buffers = declared.buffers.filterMap reflection.resolveBuffer? ∧
      p.textures = declared.textures.filterMap reflection.resolveTexture? := by
  obtain ⟨attributes, -, rfl⟩ := map_eq_ok.mp h
  exact ⟨rfl, rfl⟩

namespace Session

variable {target : Target} {s : Session} {bodies : ProgramBodies} {r : Resources} {a : Assembly}

theorem isName_of_mem_expand (hnames : s.declarations.IsNamed) (htextures : s.textures = [])
    (graphics : Bool) :
    ∀ t ∈ (s.expand d graphics).textures, ∀ f ∈ t.fields, IsName f.name.toList := by
  intro t ht f hf
  rw [expand, htextures, List.nil_append] at ht
  obtain ⟨declaration, hdeclaration, rfl⟩ := List.mem_map.mp ht
  exact TextureDecl.isName_of_mem_expand (hnames.textures _ hdeclaration) hf

/-- **The bindings of a session are distinct** if names separate, and its program is reflected by
reading its own texts. -/
theorem hasDistinctBindings_of_separates (hd : target.dialect.IsLoose)
    (hseparates : target.dialect.Separates names) (hdecls : s.declarations.AreNamedIn names)
    (htextures : s.textures = []) (hplain : bodies.ArePlain target.dialect)
    (ha : s.assembly target.dialect bodies = .ok a) (hread : readProgram a.texts = .ok ds)
    (hresolve : (reflect ds).resolve (Declared.ofItems a.items) = .ok r.elements) :
    r.HasDistinctBindings := by
  have hfields := isName_of_mem_expand (d := target.dialect) hdecls.isNamed htextures
    bodies.isGraphics
  have hdrafted := areDrafted_assemble hd hdecls.isNamed hfields ha
  have hds := mem_readProgram hd hdecls.isNamed hfields ha hplain hread
  obtain ⟨hbuffers, htextures'⟩ := Reflection.elements_of_resolve hresolve
  refine ⟨?_, ?_⟩
  · rw [hbuffers, List.pairwise_filterMap]
    refine List.Pairwise.imp_of_mem (fun {x y} hx hy hdiffers x' hx' y' hy' => ?_)
      (hdrafted.pairwise_buffers hdecls.distinct)
    exact binding_ne_of_differs hseparates hdecls hds (hdrafted.isFrom_buffers x hx)
      (hdrafted.isFrom_buffers y hy) hdiffers hx' hy'
  · -- no texture has a binding at all
    have hnone : ∀ t ∈ r.elements.textures, t.binding = none := by
      intro t' ht'
      rw [htextures'] at ht'
      obtain ⟨t, ht, ht'⟩ := List.mem_filterMap.mp ht'
      refine Reflection.resolveTexture?_reflect (hdrafted.textures_open t ht) ?_ ht'
      intro x hx huniform
      have hfrom := hds x hx
      rw [Declaration.IsFrom] at hfrom
      rw [Declaration.isUniform] at huniform
      cases hkind : x.kind with
      | uniform =>
        rw [hkind] at hfrom
        exact hfrom
      | sampler =>
        rw [hkind] at hfrom
        exact hfrom
      | block kind =>
        rw [hkind] at huniform
        cases huniform
      | vertexAttribute locations =>
        rw [hkind] at huniform
        cases huniform
    refine List.pairwise_of_forall_mem_list fun x hx y _ _ n hn => ?_
    rw [hnone x hx] at hn
    cases hn

end Session

/-! ## Runs -/

/-- In every workspace that a run reaches, the bindings that a session ends up with are distinct, if
its blocks are called as `names` allows, its bodies are plain, and the cache hands out a program
that was made from its own texts. -/
def Target.HasDistinctBindings (target : Target) (compiler : Compiler)
    (names : Set (String × BlockKind)) : Prop :=
  ∀ (steps : List Workspace.Step) (slot : Nat) (s : Session) (bodies : ProgramBodies)
      (a : Assembly) (r : Resources),
    ((Workspace.start target compiler).run steps).session? slot = some s →
    s.declarations.AreNamedIn names → bodies.ArePlain target.dialect →
    (((Workspace.start target compiler).run steps).build slot bodies).1 = some (.ok r) →
    s.assembly target.dialect bodies = .ok a → r.program.texts = a.texts → r.HasDistinctBindings

/-- The blocks of the colliding run are called as the names allow that they are made of. -/
theorem areNamedIn_collidingBlocks {a b : String} {kind other : BlockKind} (ha : IsName a.toList)
    (hb : IsName b.toList) (hne : other ≠ kind) (hba : b ≠ a) (hakind : (a, kind) ∈ names)
    (haother : (a, other) ∈ names) (hbkind : (b, kind) ∈ names) :
    (collidingSession a b kind other).declarations.AreNamedIn names := by
  have hbare := isBare_collidingBlocks ha hb kind other
  refine ⟨⟨?_, ?_, fun x hx => (hbare x hx).name, fun x hx => (hbare x hx).instanceName,
    fun x hx f hf => ?_, ?_, ?_⟩, ?_, ?_⟩
  · intro u hu
    cases hu
  · intro t ht
    cases ht
  · rw [(hbare x hx).fields] at hf
    cases hf
  · intro x hx
    cases hx
  · intro v hv
    cases hv
  · refine List.pairwise_cons.mpr ⟨fun x hx _ hkind => ?_, List.pairwise_cons.mpr
      ⟨fun x hx _ hkind => ?_, List.pairwise_singleton _ _⟩⟩
    · rcases List.mem_cons.mp hx with rfl | hx
      · exact hba
      · obtain rfl := List.mem_singleton.mp hx
        exact absurd hkind.symm hne
    · obtain rfl := List.mem_singleton.mp hx
      exact absurd hkind.symm hne
  · intro x hx
    rcases List.mem_cons.mp hx with rfl | hx
    · exact hbkind
    · rcases List.mem_cons.mp hx with rfl | hx
      · exact hakind
      · obtain rfl := List.mem_singleton.mp hx
        exact haother

theorem not_hasDistinctBindings_of_collidingBuffers {r : Resources} {a b : String}
    {kind other : BlockKind} (h : r.elements.buffers = collidingBuffers a b kind other) :
    ¬r.HasDistinctBindings := by
  intro hdistinct
  have hbuffers := hdistinct.buffers
  rw [h, collidingBuffers] at hbuffers
  exact List.rel_of_pairwise_cons hbuffers (List.mem_cons_self ..) rfl rfl rfl

/-- **Bindings are distinct exactly if names separate.** -/
theorem Target.hasDistinctBindings_iff {target : Target} (h : target.api ≠ .vulkan)
    (compilerName : String) (names : Set (String × BlockKind)) :
    target.HasDistinctBindings (readingCompiler compilerName) names ↔
      target.dialect.Separates names := by
  constructor
  · intro hdistinct a b kind other ha hb hne hba hakind haother hbkind
    by_contra hopen
    rw [Bool.not_eq_true] at hopen
    obtain ⟨assembly, r, hassembly, hbuild, htexts, hbuffers⟩ :=
      Workspace.exists_build_collidingRun target compilerName ha hb hne hba hopen
    refine not_hasDistinctBindings_of_collidingBuffers hbuffers ?_
    exact hdistinct _ 0 _ (.compute collidingBody) assembly r (Workspace.session?_collidingRun _)
      (areNamedIn_collidingBlocks ha hb hne hba hakind haother hbkind)
      (isPlainBody_collidingBody _ _) hbuild hassembly htexts
  · intro hseparates steps slot s bodies a r hs hdecls hplain hbuild ha htexts
    obtain ⟨ds, hisRead, -⟩ := Workspace.exists_isRead hs hbuild ha htexts
    exact Session.hasDistinctBindings_of_separates (Target.isLoose_dialect h) hseparates hdecls
      hisRead.textures hplain ha hisRead.read hisRead.resolve

/-- Uniform blocks alone never collide. -/
theorem Target.hasDistinctBindings_uniform :
    ({ api := .openGl, version := 330 } : Target).api ≠ .vulkan ∧
      ({ api := .openGl, version := 330 } : Target).HasDistinctBindings (readingCompiler "reader")
        {name | name.2 = .uniform} := by
  refine ⟨by decide, (Target.hasDistinctBindings_iff (by decide) "reader" _).mpr ?_⟩
  -- no block is of another kind
  intro a b kind other ha hb hne hba hakind haother hbkind
  rw [Set.mem_ofPred_eq] at hakind haother
  exact absurd (haother.trans hakind.symm) hne

/-- **A collision**: two uniform blocks of one stage with binding 0. One of them is not used, and
has the name of a storage block. -/
theorem Target.not_hasDistinctBindings_shared_name :
    ∃ r, (((Workspace.start { api := .openGl, version := 430 } (readingCompiler "reader")).run
          [.create 0, .declare 0 { blocks :=
            [{ name := "b", stage := .compute, block := .empty .std140 .uniform,
               instanceName := some "i" },
             { name := "a", stage := .compute, block := .empty .std140 .uniform,
               instanceName := some "" },
             { name := "a", stage := .compute, block := .empty .std140 .storage,
               instanceName := some "j" }] }]).build 0 (.compute "i i\nj j\n")).1 = some (.ok r) ∧
      r.elements.buffers = [⟨"b_block", .uniform, .compute, some 0, none⟩,
        ⟨"a_block", .uniform, .compute, some 0, none⟩,
        ⟨"a_block", .storage, .compute, some 0, none⟩] ∧ ¬r.HasDistinctBindings := by
  have ha : IsName "a".toList := by decide
  have hb : IsName "b".toList := by decide
  have hne : BlockKind.storage ≠ .uniform := by decide
  obtain ⟨-, r, -, hbuild, -, hbuffers⟩ := Workspace.exists_build_collidingRun
    { api := .openGl, version := 430 } "reader" ha hb hne (by decide) (by decide)
  exact ⟨r, hbuild, hbuffers, not_hasDistinctBindings_of_collidingBuffers hbuffers⟩

end ShaderLoom
