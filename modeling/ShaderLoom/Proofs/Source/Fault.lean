import ShaderLoom.Proofs.Outcome
import ShaderLoom.Resolution
import ShaderLoom.Source.Assembly

/-!
# What can go wrong on the way to a program

The kind of an error tells how far a session has come. What goes wrong before the compiler is asked
is an `Error.IsEarly` one: a declaration or a call is malformed, the dialect cannot express it, or
there is no room. What goes wrong afterwards is that a resource has no place in the program. The two
have no kind in common, and neither is the kind of a compiler that fails to compile.
-/

namespace ShaderLoom

variable {d : Dialect} {stage : Stage} {draft : Draft} {e : Error}

/-- An error of a kind that comes up before the compiler is asked. -/
def Error.IsEarly (e : Error) : Prop :=
  e.kind = .invalidArgument ∨ e.kind = .unsupported ∨ e.kind = .memory

/-! ## Drafting -/

namespace Draft

theorem isEarly_of_addUniform {u : UniformDecl} (h : draft.addUniform d u = .error e) :
    e.IsEarly := by
  rw [addUniform] at h
  split at h
  · cases h
    exact .inl rfl
  · split at h
    · split at h
      · cases h
        exact .inl rfl
      · cases h
    · cases h

theorem isEarly_of_imageAccess {t : ExpandedTexture} (h : imageAccess t = .error e) :
    e.IsEarly := by
  rw [imageAccess] at h
  split at h
  · split at h
    · cases h
      exact .inl rfl
    · split at h
      · cases h
        exact .inr (.inl rfl)
      · cases h
  · cases h

theorem isEarly_of_addOpaque {t : ExpandedTexture} {f : ExpandedField}
    (h : draft.addOpaque d t f = .error e) : e.IsEarly := by
  rw [addOpaque] at h
  split at h
  · next himage =>
    cases h
    exact isEarly_of_imageAccess himage
  · cases h

theorem isEarly_of_addTexture {t : ExpandedTexture} (h : draft.addTexture d stage t = .error e) :
    e.IsEarly := by
  obtain ⟨f, -, draft', hf⟩ := exists_of_foldlM_eq_error h
  rw [addTextureField] at hf
  split at hf
  · exact isEarly_of_addOpaque hf
  · exact isEarly_of_addUniform hf

theorem isEarly_of_closePool (h : draft.closePool d stage = .error e) : e.IsEarly := by
  rw [closePool] at h
  split at h
  · cases h
  · split at h
    · next fault hcreate =>
      rw [Buffer.create] at hcreate
      split at hcreate
      · cases hcreate
      · cases hcreate
        cases h
        exact .inr (.inr rfl)
    · cases h

end Draft

theorem isEarly_of_draftStage {decls : Declarations} {textures : List ExpandedTexture}
    {colors : Nat} {a : Allocator} (h : draftStage d decls textures stage colors a = .error e) :
    e.IsEarly := by
  rw [draftStage] at h
  dsimp only at h
  rw [bind_eq_error] at h
  rcases h with h | ⟨_, -, h⟩
  · obtain ⟨u, -, draft, hu⟩ := exists_of_foldlM_eq_error h
    exact Draft.isEarly_of_addUniform hu
  · rw [bind_eq_error] at h
    rcases h with h | ⟨_, -, h⟩
    · obtain ⟨t, -, draft, ht⟩ := exists_of_foldlM_eq_error h
      exact Draft.isEarly_of_addTexture ht
    · exact Draft.isEarly_of_closePool h

/-! ## Assembling -/

theorem isEarly_of_finish {s : StageSource} (h : s.finish d = .error e) : e.IsEarly := by
  rw [StageSource.finish] at h
  split at h
  · cases h
    exact .inl rfl
  · cases h

theorem isEarly_of_assembleStage {decls : Declarations} {textures : List ExpandedTexture}
    {colors : Nat} {body : String} {a : Allocator}
    (h : assembleStage d decls textures stage colors body a = .error e) : e.IsEarly := by
  rw [assembleStage, bind_eq_error] at h
  rcases h with h | ⟨draft, -, h⟩
  · exact isEarly_of_draftStage h
  · dsimp only at h
    rw [bind_eq_error] at h
    rcases h with h | ⟨text, -, h⟩
    · exact isEarly_of_finish h
    · cases h

/-- **What goes wrong in assembling** goes wrong before the compiler is asked. -/
theorem isEarly_of_assemble {decls : Declarations} {textures : List ExpandedTexture}
    {bodies : ProgramBodies} (h : assemble d decls textures bodies = .error e) : e.IsEarly := by
  cases bodies with
  | graphics vertexBody fragmentBody colors =>
    rw [assemble, bind_eq_error] at h
    rcases h with h | ⟨vertex, -, h⟩
    · exact isEarly_of_assembleStage h
    · rw [bind_eq_error] at h
      rcases h with h | ⟨fragment, -, h⟩
      · exact isEarly_of_assembleStage h
      · cases h
  | compute body =>
    rw [assemble, bind_eq_error] at h
    rcases h with h | ⟨finished, -, h⟩
    · exact isEarly_of_assembleStage h
    · cases h

/-! ## Resolving -/

theorem kind_of_resolveAttribute? {r : Reflection} {a : BoundAttribute AttributeLocation}
    (h : r.resolveAttribute? a = .error e) : e.kind = .notFound := by
  rw [Reflection.resolveAttribute?] at h
  split at h
  · cases h
  · split at h
    · cases h
      rfl
    · split at h
      · cases h
      · split at h
        · cases h
          rfl
        · cases h

/-- **What goes wrong in resolving**: a resource has no place. -/
theorem kind_of_resolve {r : Reflection} {declared : Declared}
    (h : r.resolve declared = .error e) : e.kind = .notFound := by
  rw [Reflection.resolve, map_eq_error] at h
  generalize declared.attributes = attributes at h
  induction attributes with
  | nil => cases h
  | cons a rest ih =>
    rw [Reflection.resolveAttributes, bind_eq_error] at h
    rcases h with h | ⟨found, -, h⟩
    · exact kind_of_resolveAttribute? h
    · rw [bind_eq_error] at h
      rcases h with h | ⟨others, -, h⟩
      · exact ih h
      · cases h

end ShaderLoom
