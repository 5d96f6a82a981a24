import ShaderLoom.Proofs.Intrinsic.Expression
import ShaderLoom.Proofs.Reading.Line
import ShaderLoom.Proofs.Text.Braces
import ShaderLoom.Source.Assembly

/-!
# The preamble of a stage

A stage begins with a version line, the definitions of the internal functions if there are textures,
and what its kind needs. **`Dialect.preambleLines_spec`**: a reader passes over these lines, they
have no calls, and no braces are left open.
-/

namespace ShaderLoom

open Text Reading

/-- A name that is no token has no calls. -/
theorem callFree_of_isName {w : Text} (hw : IsName w) (h : ∀ f : Intrinsic, f.token.toList ≠ w) :
    CallFree w := by
  have hword : FirstWord w [] := ⟨hw.ne_nil, hw.all, rfl⟩
  have hnone : Intrinsic.ofToken? w = none := by
    cases ho : Intrinsic.ofToken? w with
    | none => rfl
    | some f => exact absurd (by simpa using List.find?_some ho) (h f)
  have hfree := (callFree_word hword).mpr ⟨hnone, callFree_nil⟩
  rwa [List.append_nil] at hfree

namespace Dialect

/-! ## Lines -/

/-- The lines that define the internal functions. -/
def definitionLines (d : Dialect) : List String :=
  ["#define ngli_tex2d   " ++ d.samplingFunction "texture2D",
    "#define ngli_tex3d   " ++ d.samplingFunction "texture3D",
    "#define ngli_texcube " ++ d.samplingFunction "textureCube",
    "#define ngli_img2d  imageLoad", "#define ngli_imgsz  imageSize",
    "#define ngli_texlod textureLod"]

/-- The lines between the version and the lines of a stage. -/
def headerLines (d : Dialect) (hasTextures : Bool) : List String :=
  if hasTextures then
    (if d.frames.needsExternalExtension then
      ["#extension GL_OES_EGL_image_external : require"] else []) ++ d.definitionLines ++ [""]
  else [""]

/-- The lines of a stage in front of its declarations. -/
def stageLines (d : Dialect) (stage : Stage) (colors : Nat) : List String :=
  match stage with
  | .vertex => ["#define ngl_out_pos gl_Position"]
  | .fragment =>
    (if d.hasPrecision then
      ["#if GL_FRAGMENT_PRECISION_HIGH", "precision highp float;", "#else",
        "precision mediump float;", "#endif"] else []) ++
      (if d.hasInOut then []
        else if 1 < colors then ["#define ngl_out_color gl_FragData"]
        else ["#define ngl_out_color gl_FragColor"])
  | .compute => []

/-- The lines of a preamble. -/
def preambleLines (d : Dialect) (stage : Stage) (hasTextures : Bool) (colors : Nat) : List Text :=
  d.versionLine.toList :: (d.headerLines hasTextures ++ d.stageLines stage colors).map String.toList

theorem toList_intrinsicDefinitions (d : Dialect) :
    d.intrinsicDefinitions.toList = unlines (d.definitionLines.map String.toList) := by
  unfold intrinsicDefinitions definitionLines
  simp [toString_string]

theorem toList_header (d : Dialect) (hasTextures : Bool) :
    (d.header hasTextures).toList =
      unlines (d.versionLine.toList :: (d.headerLines hasTextures).map String.toList) := by
  rw [header, headerLines]
  cases hasTextures with
  | false => simp
  | true =>
    simp only [if_true, String.toList_append, toList_intrinsicDefinitions, List.map_append,
      unlines_cons, unlines_append]
    cases d.frames.needsExternalExtension <;> simp

theorem toList_fragmentPrecision (d : Dialect) :
    d.fragmentPrecision.toList =
      unlines ((if d.hasPrecision then
        ["#if GL_FRAGMENT_PRECISION_HIGH", "precision highp float;", "#else",
          "precision mediump float;", "#endif"] else []).map String.toList) := by
  rw [fragmentPrecision]
  cases d.hasPrecision <;> simp

theorem toList_colorAlias (d : Dialect) (colors : Nat) :
    (d.colorAlias colors).toList =
      unlines ((if d.hasInOut then []
        else if 1 < colors then ["#define ngl_out_color gl_FragData"]
        else ["#define ngl_out_color gl_FragColor"]).map String.toList) := by
  rw [colorAlias]
  cases d.hasInOut with
  | false => by_cases hc : 1 < colors <;> simp [hc]
  | true => simp

/-- **What is written in front of the declarations are the lines of the preamble.** -/
theorem toList_preamble (d : Dialect) (stage : Stage) (hasTextures : Bool) (colors : Nat) :
    (d.preamble stage hasTextures colors).toList =
      unlines (d.preambleLines stage hasTextures colors) := by
  unfold preamble
  rw [String.toList_append, toList_header, preambleLines, List.map_append, unlines_cons,
    unlines_cons, unlines_append, List.append_assoc, List.cons_append]
  cases stage with
  | vertex => simp [stageLines]
  | fragment =>
    rw [stageLines, String.toList_append, toList_fragmentPrecision, toList_colorAlias,
      List.map_append, unlines_append]
  | compute => simp [stageLines]

/-- A line of a preamble, as far as it is fixed. -/
def IsPreambleLine (line : Text) : Prop :=
  IsIdle line ∧ '\n' ∉ line ∧ line.getLast? ≠ some '\r' ∧ isTokenlessFrom [] line = true ∧
    IsBalanced line

instance (line : Text) : Decidable (IsPreambleLine line) :=
  inferInstanceAs (Decidable (_ ∧ _ ∧ _ ∧ _ ∧ _))

theorem isPreambleLine_definitionLines (d : Dialect) :
    ∀ line ∈ d.definitionLines, IsPreambleLine line.toList := by
  unfold definitionLines samplingFunction
  cases d.hasOverloadedTexture <;> decide

theorem isPreambleLine_headerLines (d : Dialect) (hasTextures : Bool) :
    ∀ line ∈ d.headerLines hasTextures, IsPreambleLine line.toList := by
  have hempty : ∀ line ∈ [""], IsPreambleLine line.toList := by decide
  have henable : ∀ line ∈ ["#extension GL_OES_EGL_image_external : require"],
      IsPreambleLine line.toList := by decide
  intro line hline
  cases hasTextures with
  | false => exact hempty line hline
  | true =>
    rcases List.mem_append.mp hline with hline | hline
    · rcases List.mem_append.mp hline with hline | hline
      · split at hline
        · exact henable line hline
        · cases hline
      · exact isPreambleLine_definitionLines d line hline
    · exact hempty line hline

theorem isPreambleLine_stageLines (d : Dialect) (stage : Stage) (colors : Nat) :
    ∀ line ∈ d.stageLines stage colors, IsPreambleLine line.toList := by
  have hvertex : ∀ line ∈ ["#define ngl_out_pos gl_Position"], IsPreambleLine line.toList := by
    decide
  have hprecision : ∀ line ∈ ["#if GL_FRAGMENT_PRECISION_HIGH", "precision highp float;", "#else",
      "precision mediump float;", "#endif"], IsPreambleLine line.toList := by decide
  have halias : ∀ line ∈
      ["#define ngl_out_color gl_FragData", "#define ngl_out_color gl_FragColor"],
      IsPreambleLine line.toList := by decide
  intro line hline
  cases stage with
  | vertex => exact hvertex line hline
  | fragment =>
    rcases List.mem_append.mp hline with hline | hline
    · split at hline
      · exact hprecision line hline
      · cases hline
    · refine halias line ?_
      split at hline
      · cases hline
      · split at hline
        · exact List.mem_cons.mpr (.inl (List.mem_singleton.mp hline))
        · exact List.mem_cons_of_mem _ hline
  | compute => cases hline

/-- The version line of a target ends with the number or with one suffix. -/
theorem versionSuffix_dialect (target : Target) :
    target.dialect.versionSuffix = "" ∨ target.dialect.versionSuffix = " es" := by
  obtain ⟨api, version, platform, frames⟩ := target
  cases api with
  | openGl => exact .inl rfl
  | openGlEs =>
    by_cases h : 300 ≤ embeddedLanguageVersion version
    · exact .inr (if_pos h)
    · exact .inl (if_neg h)
  | vulkan => exact .inl rfl

theorem toList_versionLine (d : Dialect) :
    d.versionLine.toList =
      "#version ".toList ++ (d.languageVersion.repr.toList ++ d.versionSuffix.toList) := by
  simp [versionLine, toString_string]

/-- A number is no token. -/
theorem callFree_repr (n : Nat) : CallFree n.repr.toList := by
  refine callFree_of_isName (isName_repr n) fun f hf => ?_
  have hhead : 'n' ∈ f.token.toList := by cases f <;> decide
  rw [hf] at hhead
  exact absurd (isDigit_of_mem_repr hhead) (by decide)

theorem isIdle_versionLine (d : Dialect) : IsIdle d.versionLine.toList := by
  refine .inr (.inl ?_)
  rw [toList_versionLine]
  rfl

/-- The characters of a version line. -/
theorem mem_versionLine {target : Target} {c : Char} (h : c ∈ target.dialect.versionLine.toList) :
    c ∈ "#version ".toList ∨ c.isDigit = true ∨ c ∈ " es".toList := by
  rw [toList_versionLine] at h
  rcases List.mem_append.mp h with h | h
  · exact .inl h
  · rcases List.mem_append.mp h with h | h
    · exact .inr (.inl (isDigit_of_mem_repr h))
    · rcases versionSuffix_dialect target with he | he
      · rw [he] at h
        cases h
      · rw [he] at h
        exact .inr (.inr h)

theorem isLine_versionLine (target : Target) : IsLine target.dialect.versionLine.toList := by
  refine ⟨fun hmem => ?_, fun hlast => ?_⟩
  · rcases mem_versionLine hmem with hc | hc | hc
    all_goals
      revert hc
      decide
  · rcases mem_versionLine (List.mem_of_getLast? hlast) with hc | hc | hc
    all_goals
      revert hc
      decide

theorem isBalanced_versionLine (target : Target) :
    IsBalanced target.dialect.versionLine.toList := by
  have hversion : ∀ c ∈ "#version ".toList, isBraceless c = true := List.all_eq_true.mp (by decide)
  have hsuffix : ∀ c ∈ " es".toList, isBraceless c = true := List.all_eq_true.mp (by decide)
  refine isBalanced_of_isBraceless fun c hc => ?_
  rcases mem_versionLine hc with hc | hc | hc
  · exact hversion c hc
  · exact isBraceless_of_isIdentifier (isIdentifier_of_isDigit hc)
  · exact hsuffix c hc

theorem callFree_versionLine (target : Target) : CallFree target.dialect.versionLine.toList := by
  rw [toList_versionLine]
  refine (callFree_append (.inl (by decide))).mpr ⟨callFree_of_isTokenlessFrom (by decide), ?_⟩
  rcases versionSuffix_dialect target with he | he
  · rw [he]
    exact (callFree_append apart_nil_right).mpr ⟨callFree_repr _, callFree_nil⟩
  · rw [he]
    exact (callFree_append (.inr (by decide))).mpr
      ⟨callFree_repr _, callFree_of_isTokenlessFrom (by decide)⟩

section

variable (target : Target) (stage : Stage) (hasTextures : Bool) (colors : Nat)

theorem isPreambleLine_of_mem {line : String}
    (h : line ∈ target.dialect.headerLines hasTextures ++ target.dialect.stageLines stage colors) :
    IsPreambleLine line.toList := by
  rcases List.mem_append.mp h with h | h
  · exact isPreambleLine_headerLines _ _ line h
  · exact isPreambleLine_stageLines _ _ _ line h

/-- **The lines of a preamble** are lines, a reader passes over them, they have no calls, and they
are balanced. -/
theorem preambleLines_spec :
    ∀ line ∈ target.dialect.preambleLines stage hasTextures colors,
      IsLine line ∧ IsIdle line ∧ CallFree line ∧ IsBalanced line := by
  intro line hline
  rcases List.mem_cons.mp hline with rfl | hline
  · exact ⟨isLine_versionLine target, isIdle_versionLine _, callFree_versionLine target,
      isBalanced_versionLine target⟩
  · obtain ⟨s, hs, rfl⟩ := List.mem_map.mp hline
    obtain ⟨hidle, hfeed, hreturn, htoken, hbalanced⟩ :=
      isPreambleLine_of_mem target stage hasTextures colors hs
    exact ⟨⟨hfeed, hreturn⟩, hidle, callFree_of_isTokenlessFrom htoken, hbalanced⟩

end

end Dialect

end ShaderLoom
