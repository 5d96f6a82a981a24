import ShaderLoom.Dialect

/-!
# Features along the versions of an interface

A **feature** is something that the text of a stage may use in one dialect and not in another. Most
features come with a version of their interface and stay: `Feature.since?` is the table of these
versions. One feature does not stay. Desktop OpenGL and its shading language were numbered apart up
to version 3.2, and where no language version is listed for a version, the number of the version
itself is taken. So `in` and `out`, which come with language version 1.5, are there from version 1.5
on, and gone again in versions 2.0, 2.1, 3.0 and 3.1, whose language versions are listed.

`Dialect.has_ofApi_iff` says which dialects have a feature. **`Dialect.has_ofApi_mono_iff`**: this
is all that a later version can lose.
-/

namespace ShaderLoom

/-- What a dialect may have. -/
inductive Feature where
  /-- `in` and `out` -/
  | inOut
  /-- precision qualifiers -/
  | precision
  /-- one overloaded `texture` function -/
  | overloadedTexture
  /-- bindings of storage blocks -/
  | bufferBindings
  /-- bindings of uniform blocks -/
  | uniformBlockBindings
  /-- bindings of samplers and images -/
  | textureBindings
  /-- locations of attributes, variables between stages, and outputs -/
  | explicitLocations
  /-- one block for the plain uniforms of a stage -/
  | consolidatedUniforms
  deriving DecidableEq

namespace Feature

/-- The version with which a feature comes to an interface. -/
def since? : Api → Feature → Option Nat
  | .openGl, .inOut => some 150
  | .openGl, .overloadedTexture => some 330
  | .openGl, .bufferBindings => some 420
  | .openGl, _ => none
  | .openGlEs, .precision => some 0
  | .openGlEs, .inOut | .openGlEs, .overloadedTexture => some 300
  | .openGlEs, .bufferBindings => some 310
  | .openGlEs, _ => none
  | .vulkan, .precision => none
  | .vulkan, _ => some 0

/-- The later versions of an interface that do not have a feature. -/
def gaps : Api → Feature → List Nat
  | .openGl, .inOut => [200, 210, 300, 310]
  | _, _ => []

end Feature

namespace Dialect

variable {api : Api} {feature : Feature} {v w : Nat}

/-- Does the dialect have the feature? -/
def has (d : Dialect) : Feature → Bool
  | .inOut => d.hasInOut
  | .precision => d.hasPrecision
  | .overloadedTexture => d.hasOverloadedTexture
  | .bufferBindings => d.hasBufferBindings
  | .uniformBlockBindings => d.hasUniformBlockBindings
  | .textureBindings => d.hasTextureBindings
  | .explicitLocations => d.hasExplicitLocations
  | .consolidatedUniforms => d.consolidatesUniforms

/-! ## Language versions -/

/-- The language versions that are listed are older than 1.5, but for one that is 1.5. -/
theorem desktopLanguageVersion_eq (v : Nat) :
    desktopLanguageVersion v = v ∧ v ∉ Feature.gaps .openGl .inOut ∨
      desktopLanguageVersion v < 150 ∧ v ∈ Feature.gaps .openGl .inOut ∨
        desktopLanguageVersion v = 150 ∧ v = 320 := by
  unfold desktopLanguageVersion
  split
  case h_5 => exact .inr (.inr ⟨rfl, rfl⟩)
  case h_6 h₁ h₂ h₃ h₄ _ =>
    refine .inl ⟨rfl, fun hgap => ?_⟩
    simp only [Feature.gaps, List.mem_cons, List.not_mem_nil, or_false] at hgap
    rcases hgap with h | h | h | h
    · exact h₁ h
    · exact h₂ h
    · exact h₃ h
    · exact h₄ h
  all_goals exact .inr (.inl ⟨by decide, by decide⟩)

theorem le_of_mem_gaps (h : v ∈ Feature.gaps .openGl .inOut) : v ≤ 310 := by
  simp only [Feature.gaps, List.mem_cons, List.not_mem_nil, or_false] at h
  omega

theorem inOut_desktop_iff :
    150 ≤ desktopLanguageVersion v ↔ 150 ≤ v ∧ v ∉ Feature.gaps .openGl .inOut := by
  rcases desktopLanguageVersion_eq v with ⟨hv, hgap⟩ | ⟨hv, hgap⟩ | ⟨hv, rfl⟩
  · rw [hv, and_iff_left hgap]
  · exact iff_of_false (by omega) fun h => h.2 hgap
  · exact iff_of_true (by omega) (by decide)

theorem overloadedTexture_desktop_iff : 330 ≤ desktopLanguageVersion v ↔ 330 ≤ v := by
  rcases desktopLanguageVersion_eq v with ⟨hv, -⟩ | ⟨hv, hgap⟩ | ⟨hv, rfl⟩
  · rw [hv]
  · have hle := le_of_mem_gaps hgap
    omega
  · omega

theorem le_embeddedLanguageVersion_iff : 300 ≤ embeddedLanguageVersion v ↔ 300 ≤ v := by
  unfold embeddedLanguageVersion
  split <;> omega

/-! ## Features -/

/-- **A dialect has a feature** from the version on with which the feature comes to its interface,
but for the gaps. -/
theorem has_ofApi_iff :
    (ofApi api v).has feature = true ↔
      (∃ n, feature.since? api = some n ∧ n ≤ v) ∧ v ∉ feature.gaps api := by
  cases api with
  | openGl =>
    cases feature with
    | inOut =>
      have hhas : (ofApi .openGl v).has .inOut = decide (150 ≤ desktopLanguageVersion v) := rfl
      rw [hhas, decide_eq_true_iff, inOut_desktop_iff]
      simp [Feature.since?]
    | overloadedTexture =>
      have hhas : (ofApi .openGl v).has .overloadedTexture =
          decide (330 ≤ desktopLanguageVersion v) := rfl
      rw [hhas, decide_eq_true_iff, overloadedTexture_desktop_iff]
      simp [Feature.since?, Feature.gaps]
    | _ => simp [ofApi, desktop, has, Feature.since?, Feature.gaps]
  | openGlEs =>
    cases feature with
    | bufferBindings => simp [ofApi, embedded, has, Feature.since?, Feature.gaps]
    | _ =>
      simp [ofApi, embedded, has, Feature.since?, Feature.gaps, le_embeddedLanguageVersion_iff]
  | vulkan => cases feature <;> simp [ofApi, vulkan, has, Feature.since?, Feature.gaps]

/-- **What a later version loses** of the features of an earlier one: nothing but `in` and `out`, in
the four desktop versions that have an older language than their number says, where the earlier
version is 1.5 or later and none of the four. -/
theorem has_ofApi_mono_iff (api : Api) (feature : Feature) {v w : Nat} (h : v ≤ w) :
    ((ofApi api v).has feature = true → (ofApi api w).has feature = true) ↔
      ¬(api = .openGl ∧ feature = .inOut ∧ 150 ≤ v ∧ v ∉ [200, 210, 300, 310] ∧
        w ∈ [200, 210, 300, 310]) := by
  constructor
  · rintro hkeeps ⟨rfl, rfl, hv, hgap, hgap'⟩
    have hhas := has_ofApi_iff.mp (hkeeps (has_ofApi_iff.mpr ⟨⟨150, rfl, hv⟩, hgap⟩))
    exact hhas.2 hgap'
  · intro hloses hhas
    obtain ⟨⟨n, hn, hle⟩, hgap⟩ := has_ofApi_iff.mp hhas
    refine has_ofApi_iff.mpr ⟨⟨n, hn, Nat.le_trans hle h⟩, fun hgap' => hloses ?_⟩
    have hplace : api = .openGl ∧ feature = .inOut := by
      revert hgap'
      cases api <;> cases feature <;> simp [Feature.gaps]
    obtain ⟨rfl, rfl⟩ := hplace
    cases hn
    exact ⟨rfl, rfl, hle, hgap, hgap'⟩

/-- Version 4.6 of desktop OpenGL has what version 2.5 would have. -/
theorem has_ofApi_mono_desktop :
    250 ≤ 460 ∧ (((ofApi .openGl 250).has .inOut = true → (ofApi .openGl 460).has .inOut = true) ↔
      ¬(Api.openGl = .openGl ∧ Feature.inOut = .inOut ∧ 150 ≤ 250 ∧ 250 ∉ [200, 210, 300, 310] ∧
        460 ∈ [200, 210, 300, 310])) :=
  ⟨by decide, has_ofApi_mono_iff .openGl .inOut (by decide)⟩

/-- Version 1.5 of desktop OpenGL has `in` and `out`, and version 2.0 has not. -/
theorem not_has_ofApi_mono :
    150 ≤ 200 ∧ (ofApi .openGl 150).has .inOut = true ∧
      ¬(ofApi .openGl 200).has .inOut = true := by
  decide

end Dialect

end ShaderLoom
