import ShaderLoom.Intrinsic.Lowering
import ShaderLoom.Program.Basic
import ShaderLoom.Source.Draft

/-!
# Assembling the texts of a program

The text of a stage is a preamble that depends on the dialect, the declarations, and the body
the caller wrote. It is finished by lowering the calls of texture intrinsics in it. The stages
of a program are assembled one after the other, and share one allocator.
-/

namespace ShaderLoom

/-- The bodies of a program, as the caller wrote them. -/
inductive ProgramBodies where
  /-- a graphics program, with the number of its color outputs -/
  | graphics (vertex fragment : String) (colors : Nat := 1)
  /-- a compute program -/
  | compute (body : String)
  deriving DecidableEq

/-- Are these the bodies of a graphics program? -/
def ProgramBodies.isGraphics : ProgramBodies → Bool
  | .graphics .. => true
  | .compute _ => false

/-! ## Preambles -/

namespace Dialect

/-- The function that samples a texture, where an older dialect calls it `legacy`. -/
def samplingFunction (d : Dialect) (legacy : String) : String :=
  if d.hasOverloadedTexture then "texture" else legacy

/-- The definitions of the internal functions that lowered calls use. -/
def intrinsicDefinitions (d : Dialect) : String :=
  let plane := d.samplingFunction "texture2D"
  let volume := d.samplingFunction "texture3D"
  let cube := d.samplingFunction "textureCube"
  s!"#define ngli_tex2d   {plane}\n#define ngli_tex3d   {volume}\n" ++
    s!"#define ngli_texcube {cube}\n#define ngli_img2d  imageLoad\n" ++
    "#define ngli_imgsz  imageSize\n#define ngli_texlod textureLod\n"

/-- The lines at the top of every stage. A program without textures needs no definitions. -/
def header (d : Dialect) (hasTextures : Bool) : String :=
  let enable :=
    if d.frames.needsExternalExtension then
      "#extension GL_OES_EGL_image_external : require\n"
    else ""
  let definitions := if hasTextures then enable ++ d.intrinsicDefinitions else ""
  d.versionLine ++ "\n" ++ definitions ++ "\n"

/-- The default precision of a fragment stage. -/
def fragmentPrecision (d : Dialect) : String :=
  if d.hasPrecision then
    "#if GL_FRAGMENT_PRECISION_HIGH\nprecision highp float;\n#else\n" ++
      "precision mediump float;\n#endif\n"
  else ""

/-- The name of the color output where it is no variable that a stage declares. -/
def colorAlias (d : Dialect) (colors : Nat) : String :=
  if d.hasInOut then ""
  else if 1 < colors then "#define ngl_out_color gl_FragData\n"
  else "#define ngl_out_color gl_FragColor\n"

/-- The lines before the declarations of a stage. -/
def preamble (d : Dialect) (stage : Stage) (hasTextures : Bool) (colors : Nat) : String :=
  d.header hasTextures ++
    match stage with
    | .vertex => "#define ngl_out_pos gl_Position\n"
    | .fragment => d.fragmentPrecision ++ d.colorAlias colors
    | .compute => ""

end Dialect

/-! ## Stages -/

/-- A stage, before its calls are lowered. -/
structure StageSource where
  /-- the lines before the declarations -/
  preamble : String
  /-- the declarations -/
  items : List Item
  /-- the body -/
  body : String

namespace StageSource

/-- The declarations as text. -/
def declarations (s : StageSource) : String := String.join (s.items.map Item.render)

/-- The whole text. -/
def text (s : StageSource) : String := s.preamble ++ s.declarations ++ s.body

/-- The text with every call lowered. -/
def finish (s : StageSource) (d : Dialect) : Except Error String :=
  match lower d s.text.toList with
  | .error fault => .error (.call fault)
  | .ok lowered => .ok (String.ofList lowered.text)

end StageSource

/-- A finished stage. -/
structure FinishedStage where
  /-- its text -/
  text : String
  /-- its declarations -/
  items : List Item
  /-- the numbers that are still free behind it -/
  allocator : Allocator

/-- Assemble one stage. -/
def assembleStage (d : Dialect) (decls : Declarations) (textures : List ExpandedTexture)
    (stage : Stage) (colors : Nat) (body : String) (a : Allocator) : Except Error FinishedStage := do
  let draft ← draftStage d decls textures stage colors a
  let source : StageSource :=
    ⟨d.preamble stage (!decls.textures.isEmpty) colors, draft.items, body⟩
  let text ← source.finish d
  pure ⟨text, draft.items, draft.allocator⟩

/-! ## Programs -/

/-- The texts of a program together with what they declare. -/
structure Assembly where
  /-- the finished texts -/
  texts : StageTexts
  /-- the declarations of all stages, in order -/
  items : List Item

/-- Assemble the stages of a program. -/
def assemble (d : Dialect) (decls : Declarations) (textures : List ExpandedTexture) :
    ProgramBodies → Except Error Assembly
  | .graphics vertexBody fragmentBody colors => do
    let vertex ← assembleStage d decls textures .vertex colors vertexBody Allocator.start
    let fragment ← assembleStage d decls textures .fragment colors fragmentBody vertex.allocator
    pure ⟨.graphics vertex.text fragment.text, vertex.items ++ fragment.items⟩
  | .compute body => do
    let stage ← assembleStage d decls textures .compute 0 body Allocator.start
    pure ⟨.compute stage.text, stage.items⟩

end ShaderLoom
