import ShaderLoom.Proofs.Session.Bindings
import ShaderLoom.Proofs.Source.Numbering

/-!
# Bindings that no compiler can change

Where the text fixes all bindings and numbers them from one space, resolving keeps them: a compiler
can only drop a sampler or an image, and tell its location. So whatever a compiler tells about a
program, the resources of a session carry the bindings that are written in its texts, and no two of
them the same one (**`Session.bindings_of_build`**).
-/

namespace ShaderLoom

open Text Reading

/-! ## Resolving fixed bindings -/

/-- An element without the location that a compiler told. -/
def BoundTexture.unplaced (t : BoundTexture) : BoundTexture := { t with location := none }

section

variable {reflection : Reflection}

theorem Reflection.resolveBuffer?_of_isSome {b : BoundBuffer} (h : b.binding.isSome = true) :
    reflection.resolveBuffer? b = some b := by
  obtain ⟨n, hn⟩ := Option.isSome_iff_exists.mp h
  rw [resolveBuffer?, hn]

theorem Reflection.unplaced_of_resolveTexture? {t t' : BoundTexture} (h : t.binding.isSome = true)
    (ht : reflection.resolveTexture? t = some t') : t'.unplaced = t.unplaced := by
  obtain ⟨n, hn⟩ := Option.isSome_iff_exists.mp h
  have hbecomes := (reflection.isSelected_resolveTexture? t).becomes_of_eq_some ht
  rw [hbecomes.rest, hbecomes.fixed n hn, ← hn]
  rfl

theorem Reflection.sublist_unplaced {ts : List BoundTexture}
    (h : ∀ t ∈ ts, t.binding.isSome = true) :
    ((ts.filterMap reflection.resolveTexture?).map BoundTexture.unplaced).Sublist
      (ts.map BoundTexture.unplaced) := by
  induction ts with
  | nil => exact List.Sublist.refl _
  | cons t ts ih =>
    have ih := ih fun t ht => h t (List.mem_cons_of_mem _ ht)
    rw [List.filterMap_cons]
    cases ht : reflection.resolveTexture? t with
    | none => exact ih.cons _
    | some t' =>
      have hsame := unplaced_of_resolveTexture? (h t (List.mem_cons_self ..)) ht
      rw [List.map_cons, List.map_cons, hsame]
      exact ih.cons_cons _

/-- **Resolving keeps fixed bindings**: every block stays as it is, and so does every texture that
is kept, but for its location. -/
theorem Reflection.resolve_of_isSome {declared : Declared} {elements : Resolved}
    (hbindings : ∀ binding ∈ declared.bindings, binding.isSome = true)
    (h : reflection.resolve declared = .ok elements) :
    elements.buffers = declared.buffers ∧
      (elements.textures.map BoundTexture.unplaced).Sublist
        (declared.textures.map BoundTexture.unplaced) := by
  obtain ⟨hbuffers, htextures⟩ := elements_of_resolve h
  constructor
  · have hsame : ∀ b ∈ declared.buffers, reflection.resolveBuffer? b = some b := fun b hb =>
      resolveBuffer?_of_isSome (hbindings _ (List.mem_append_right _ (List.mem_map_of_mem hb)))
    rw [hbuffers, List.filterMap_congr hsame, List.filterMap_some]
  · rw [htextures]
    exact sublist_unplaced fun t ht =>
      hbindings _ (List.mem_append_left _ (List.mem_map_of_mem ht))

end

/-! ## Sessions -/

/-- A declaration begins a line of the text with its head, and if everything is called by
identifiers, its name ends the line. -/
def IsWritten (text : String) (head naming : Text) (isNamed : Prop) : Prop :=
  ∃ line ∈ lines text.toList, head <+: line ∧ (isNamed → line = head ++ ' ' :: naming)

namespace Session

variable {s : Session} {c : Context} {bodies : ProgramBodies} {r : Resources} {a : Assembly}

/-- Everything that comes into the texts of a program is called by identifiers. -/
def IsNamed (s : Session) : Prop := s.declarations.IsNamed ∧ s.textures = []

/-- **The bindings of a session**, where they come from one space. Whatever the compiler tells,
* the declared bindings are the numbers from zero on, each of them once;
* what is handed out has the bindings it was declared with, and no binding twice;
* the bindings stand in the lines in which the text of a stage declares its samplers, images and
  blocks. -/
theorem bindings_of_build (hapi : c.target.api = .vulkan) (h : (s.build c bodies).1 = .ok r) :
    let declared := (s.build c bodies).2.1.declared
    (∃ n, declared.bindings.Perm ((List.range n).map some)) ∧
      r.elements.buffers = declared.buffers ∧
      (r.elements.textures.map BoundTexture.unplaced).Sublist
        (declared.textures.map BoundTexture.unplaced) ∧
      r.elements.bindings.Nodup ∧
      ∃ a, s.assembly c.dialect bodies = .ok a ∧
        (∀ t ∈ declared.textures, ∃ text, a.texts.text? t.stage = some text ∧ ∃ image,
          IsWritten text (opaqueHead image t.binding t.ty) (t.name.toList ++ [';']) s.IsNamed) ∧
        ∀ b ∈ declared.buffers, ∃ text, a.texts.text? b.stage = some text ∧ ∃ packing,
          IsWritten text (blockHead packing b.binding b.kind) (b.name.toList ++ [' ', '\x7b'])
            s.IsNamed := by
  obtain ⟨-, -, a, ha, -, hresolve, -⟩ := build_eq_ok_iff.mp h
  have hd := Target.isShared_dialect hapi
  obtain ⟨n, hn⟩ := bindings_ofItems_perm hd ha
  have hdeclared : (s.build c bodies).2.1.declared = Declared.ofItems a.items := by
    rw [settled_of_build h ha]
    rfl
  rw [hdeclared]
  have hsome : ∀ binding ∈ (Declared.ofItems a.items).bindings, binding.isSome = true := by
    intro binding hbinding
    obtain ⟨number, -, rfl⟩ := List.mem_map.mp (hn.mem_iff.mp hbinding)
    rfl
  obtain ⟨hbuffers, htextures⟩ := Reflection.resolve_of_isSome hsome hresolve
  refine ⟨⟨n, hn⟩, hbuffers, htextures, ?_, a, ha, fun t ht => ?_, fun b hb => ?_⟩
  · have hnodup : (Declared.ofItems a.items).bindings.Nodup :=
      hn.nodup_iff.mpr (List.nodup_range.map fun _ _ => Option.some.inj)
    refine hnodup.sublist ?_
    have hsublist := htextures.map BoundTexture.binding
    rw [List.map_map, List.map_map] at hsublist
    rw [Elements.bindings, hbuffers]
    exact hsublist.append_right _
  · obtain ⟨item, hitem, ht⟩ := List.mem_flatMap.mp ht
    obtain ⟨stage, finished, hstage, hitem⟩ := exists_hasStage_of_mem ha hitem
    obtain ⟨colors, body, x, hbody, hassembled⟩ := hstage.assembled
    obtain ⟨draft, hdraft, -, hitems, -⟩ := assembleStage_eq_ok hassembled
    obtain ⟨rfl, image, rfl, hhead⟩ := exists_head_of_mem_textures hd hdraft (hitems ▸ hitem) ht
    obtain ⟨line, hline, hprefix, hnamed⟩ := exists_line_of_assembleStage hassembled hitem hhead
    exact ⟨_, hstage.text, image, line, hline, hprefix, fun h =>
      hnamed h.1 (isName_of_mem_expand h.1 h.2 _)⟩
  · obtain ⟨item, hitem, hb⟩ := List.mem_flatMap.mp hb
    obtain ⟨stage, finished, hstage, hitem⟩ := exists_hasStage_of_mem ha hitem
    obtain ⟨colors, body, x, hbody, hassembled⟩ := hstage.assembled
    obtain ⟨draft, hdraft, -, hitems, -⟩ := assembleStage_eq_ok hassembled
    obtain ⟨rfl, hnaming, packing, hhead⟩ := exists_head_of_mem_buffers hdraft (hitems ▸ hitem) hb
    obtain ⟨line, hline, hprefix, hnamed⟩ := exists_line_of_assembleStage hassembled hitem hhead
    refine ⟨_, hstage.text, packing, line, hline, hprefix, fun h => ?_⟩
    rw [hnamed h.1 (isName_of_mem_expand h.1 h.2 _), hnaming]

end Session

/-! ## A compiler that contradicts the text -/

/-- A plain uniform, a cube texture and a block of a compute program. -/
def cubeSession : Session where
  declarations :=
    { uniforms := [{ name := "u", ty := .float, stage := .compute }]
      textures := [{ name := "t", kind := .cube, stage := .compute }]
      blocks := [{ name := "b", stage := .compute, block := .empty .std430 .storage,
                   instanceName := some "" }] }

/-- A compiler that tells the same number for everything. -/
def contraryContext : Context where
  target := { api := .vulkan, version := 0 }
  cache :=
    { compiler :=
        { name := "contrary"
          compile := fun _ => .ok
            { uniforms := some [("t_sampler", ⟨none, some 7⟩)]
              blocks := some [("b_block", ⟨none, some 7⟩)]
              attributes := none } } }

/-- The texture, the block and the block of the plain uniform keep the bindings of the text. -/
theorem Session.bindings_of_build_contrary :
    ∃ r, (cubeSession.build contraryContext (.compute "")).1 = .ok r ∧
      r.elements.bindings = [some 0, some 1, some 2] ∧ r.elements.bindings.Nodup := by
  have hnamed : cubeSession.declarations.IsNamed := by
    refine ⟨by decide, by decide, by decide, fun b hb c hc => ?_, by decide, by decide, by decide⟩
    obtain rfl := List.mem_singleton.mp hb
    cases hc
  obtain ⟨draft, hdraft⟩ : ∃ draft, draftStage contraryContext.dialect cubeSession.declarations
    (cubeSession.expand contraryContext.dialect false).textures .compute 0 .start = .ok draft :=
    ⟨_, rfl⟩
  have hfree : ∀ line ∈ draft.items.flatMap Item.lines, CallFree line := by
    cases hdraft
    decide +kernel
  have hempty : lower contraryContext.target.dialect "".toList = .ok ⟨[], 0⟩ := lower_nil
  obtain ⟨text, -, hstage⟩ :=
    exists_assembleStage hnamed (isName_of_mem_expand hnamed rfl false) hdraft hfree hempty
  have hassembly : cubeSession.assembly contraryContext.dialect (.compute "") =
      .ok ⟨.compute text, draft.items⟩ := assemble_compute_eq_ok_iff.mpr ⟨_, hstage, rfl⟩
  obtain ⟨reflection, hget⟩ : ∃ reflection,
      (contraryContext.cache.get (.compute text)).1 = .ok ⟨0, .compute text, reflection⟩ :=
    ⟨_, rfl⟩
  obtain ⟨elements, hresolve, hbindings⟩ : ∃ elements,
      reflection.resolve (Declared.ofItems draft.items) = .ok elements ∧
        elements.bindings = [some 0, some 1, some 2] := by
    cases hdraft
    cases hget
    exact ⟨_, rfl, by decide⟩
  have hbuild : (cubeSession.build contraryContext (.compute "")).1 = .ok
      ⟨⟨0, .compute text, reflection⟩, elements, draft.items.filterMap Item.uniformBlock?⟩ :=
    build_eq_ok_iff.mpr ⟨rfl, .inr rfl, _, hassembly, hget, hresolve, rfl⟩
  exact ⟨_, hbuild, hbindings, (bindings_of_build rfl hbuild).2.2.2.1⟩

end ShaderLoom
