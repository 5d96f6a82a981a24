import ShaderLoom.VideoFrame
import ShaderLoom.Text.Identifier

/-!
# Texture intrinsics

Shader bodies read textures through portable **intrinsics** such as `ngl_tex2d(tex, uv)`. They
look like function calls, but their first argument is the name of a declared texture, which no
shading language could pass on, so the calls are lowered at the level of text.

An intrinsic is either **simple**, and its call becomes a call of an internal function on the
default sampler of the texture, or a **video** intrinsic, and its call becomes an expression
that depends on the shape of video frames.
-/

namespace ShaderLoom

/-- The intrinsics. -/
inductive Intrinsic where
  /-- load from a storage image -/
  | loadImage
  /-- size of a storage image -/
  | imageSize
  /-- sample at an explicit level of detail -/
  | sampleLevel
  /-- sample a two-dimensional texture -/
  | sample2D
  /-- sample a three-dimensional texture -/
  | sample3D
  /-- sample a cube map -/
  | sampleCube
  /-- sample a video frame, whatever its shape at run time -/
  | sampleVideo
  /-- sample a video frame that has the shape of the target for certain -/
  | sampleVideoFast
  deriving DecidableEq

namespace Intrinsic

/-- The identifier that calls an intrinsic. -/
def token : Intrinsic → String
  | .loadImage => "ngl_img2d"
  | .imageSize => "ngl_imgsz"
  | .sampleLevel => "ngl_texlod"
  | .sample2D => "ngl_tex2d"
  | .sample3D => "ngl_tex3d"
  | .sampleCube => "ngl_texcube"
  | .sampleVideo => "ngl_texvideo"
  | .sampleVideoFast => "ngli_texvideo"

/-- The internal function behind a simple intrinsic. The header of a stage defines it. -/
def internalName? : Intrinsic → Option String
  | .loadImage => some "ngli_img2d"
  | .imageSize => some "ngli_imgsz"
  | .sampleLevel => some "ngli_texlod"
  | .sample2D => some "ngli_tex2d"
  | .sample3D => some "ngli_tex3d"
  | .sampleCube => some "ngli_texcube"
  | .sampleVideo | .sampleVideoFast => none

/-- The name of an intrinsic, as reports spell it. -/
def name : Intrinsic → String
  | .loadImage => "Img2d"
  | .imageSize => "ImgSize"
  | .sampleLevel => "TexLod"
  | .sample2D => "Tex2d"
  | .sample3D => "Tex3d"
  | .sampleCube => "TexCube"
  | .sampleVideo => "TexVideo"
  | .sampleVideoFast => "FastTexVideo"

/-- Every intrinsic. -/
def all : List Intrinsic :=
  [.loadImage, .imageSize, .sampleLevel, .sample2D, .sample3D, .sampleCube, .sampleVideo,
    .sampleVideoFast]

/-- Is a call of the intrinsic replaced by a video expression? -/
def isVideo (f : Intrinsic) : Bool := f.internalName?.isNone

/-- The intrinsic that an identifier calls. -/
def ofToken? (word : Text) : Option Intrinsic := all.find? (·.token.toList = word)

/-- **Tokens name their intrinsic**: no two intrinsics share one. -/
theorem ofToken?_token (f : Intrinsic) : ofToken? f.token.toList = some f := by
  cases f <;> decide

/-- What replaces a call: for a simple intrinsic the start of the internal call, up to the first
argument, and for a video intrinsic the whole expression. -/
def pieces (s : FrameShape) (rg : String) (f : Intrinsic) : List Piece :=
  match f.internalName? with
  | some internal => [.fixed s!"{internal}(", .field .defaultSampler]
  | none => s.samplePieces (f = .sampleVideoFast) rg

end Intrinsic

/-! ## Call sites -/

/-- A place where a text calls an intrinsic. -/
structure CallSite where
  /-- the intrinsic -/
  intrinsic : Intrinsic
  /-- bytes before its token -/
  offset : Nat
  deriving DecidableEq

/-- The call sites of a text, from left to right: the identifiers that are tokens. Comments are
searched too. -/
def callSites (t : Text) : List CallSite :=
  (Text.identifiers t).filterMap fun i =>
    (Intrinsic.ofToken? i.word).map fun f => ⟨f, i.offset⟩

/-! ## Faults -/

/-- What can be wrong with a call. -/
inductive CallFault where
  /-- the token is not followed by an opening parenthesis -/
  | missingParenthesis (f : Intrinsic)
  /-- the first argument is empty -/
  | missingTexture (f : Intrinsic)
  /-- a video call ends after its first argument -/
  | missingCoordinates (f : Intrinsic)
  /-- a video call has more than two arguments -/
  | extraArguments (f : Intrinsic)
  /-- a block comment inside an argument does not end -/
  | openComment
  /-- an argument does not end -/
  | openArgument
  deriving DecidableEq

/-- The wording of a fault. -/
def CallFault.message : CallFault → String
  | .missingParenthesis f => s!"missing '(' after {f.token}"
  | .missingTexture f => s!"{f.token}() is missing its texture argument"
  | .missingCoordinates f => s!"{f.token}() expects a coordinate argument"
  | .extraArguments f => s!"{f.token}() takes exactly two arguments"
  | .openComment => "unterminated block comment in argument"
  | .openArgument => "unterminated pseudo-function argument"

end ShaderLoom
