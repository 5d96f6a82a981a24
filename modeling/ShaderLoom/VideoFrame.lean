import ShaderLoom.ShaderType

/-!
# How video frames are sampled

A video frame reaches a shader in the shape the media system of the platform delivers: an
ordinary texture, an external image, or two planes (luma and chroma) in ordinary or in
rectangle textures. A `FrameShape` names the shape a target may deliver. It decides which
**fields** a texture declares, and which expression a video call becomes.

The expression is kept as a list of `Piece`s, so that the fields it reads and the places where
the coordinates go can be seen without taking text apart. `renderPieces` writes it out for a
texture and its coordinates.
-/

namespace ShaderLoom

/-! ## Texture fields -/

/-- The uniforms one declared texture may stand for. -/
inductive TextureField where
  | samplingMode | defaultSampler | coordinateMatrix | colorMatrix | dimensions | timestamp
  | externalSampler | lumaSampler | chromaSampler | lumaRectSampler | chromaRectSampler
  deriving DecidableEq

namespace TextureField

/-- What follows the name of the texture and an underscore. -/
def suffix : TextureField → String
  | .samplingMode => "sampling_mode"
  | .defaultSampler => "sampler"
  | .coordinateMatrix => "coord_matrix"
  | .colorMatrix => "color_matrix"
  | .dimensions => "dimensions"
  | .timestamp => "ts"
  | .externalSampler => "external_sampler"
  | .lumaSampler => "y_sampler"
  | .chromaSampler => "uv_sampler"
  | .lumaRectSampler => "y_rect_sampler"
  | .chromaRectSampler => "uv_rect_sampler"

/-- The name of a field, as descriptions of a texture spell it. -/
def name : TextureField → String
  | .samplingMode => "SamplingMode"
  | .defaultSampler => "DefaultSampler"
  | .coordinateMatrix => "CoordinateMatrix"
  | .colorMatrix => "ColorMatrix"
  | .dimensions => "Dimensions"
  | .timestamp => "Timestamp"
  | .externalSampler => "ExternalSampler"
  | .lumaSampler => "YSampler"
  | .chromaSampler => "UvSampler"
  | .lumaRectSampler => "YRectSampler"
  | .chromaRectSampler => "UvRectSampler"

/-- Every field, in the order in which a texture declares its fields. -/
def all : List TextureField :=
  [.samplingMode, .defaultSampler, .coordinateMatrix, .colorMatrix, .dimensions, .timestamp,
    .externalSampler, .lumaSampler, .chromaSampler, .lumaRectSampler, .chromaRectSampler]

/-- **No field is missing from the table.** -/
theorem mem_all (f : TextureField) : f ∈ all := by cases f <;> decide

/-- The identifier that a texture called `texture` declares for the field. -/
def identifier (f : TextureField) (texture : String) : String := s!"{texture}_{f.suffix}"

end TextureField

/-! ## Frame shapes -/

/-- The shape in which frames may arrive, besides an ordinary texture. -/
inductive FrameShape where
  /-- always an ordinary texture -/
  | direct
  /-- an external image -/
  | external
  /-- two planes in ordinary textures -/
  | biplanar
  /-- two planes in rectangle textures -/
  | rectangle
  deriving DecidableEq

namespace FrameShape

/-- The name of a shape, as descriptions of a target spell it. -/
def name : FrameShape → String
  | .direct => "Direct"
  | .external => "ExternalOes"
  | .biplanar => "Biplanar"
  | .rectangle => "Rectangle"

/-- Every shape. -/
def all : List FrameShape := [.direct, .external, .biplanar, .rectangle]

/-- The shape called `s`. -/
def ofName? (s : String) : Option FrameShape := all.find? (·.name = s)

/-- The number that the sampling mode uniform holds while an ordinary texture is bound. -/
def ordinaryMode : Nat := 1

/-- The number that the sampling mode uniform holds while a frame of this shape is bound, for the
shapes that need one. -/
def mode? : FrameShape → Option Nat
  | .direct => none
  | .external => some 2
  | .biplanar => some 3
  | .rectangle => some 4

/-- Fields that a two-dimensional texture declares besides the common ones. -/
def fields : FrameShape → List (TextureField × ShaderType)
  | .direct => []
  | .external => [(.samplingMode, .int), (.externalSampler, .samplerExternal)]
  | .biplanar =>
    [(.samplingMode, .int), (.lumaSampler, .sampler2D), (.chromaSampler, .sampler2D),
      (.colorMatrix, .mat4)]
  | .rectangle =>
    [(.samplingMode, .int), (.lumaRectSampler, .sampler2DRect),
      (.chromaRectSampler, .sampler2DRect), (.colorMatrix, .mat4)]

/-- External images must be enabled by an extension. -/
def needsExternalExtension (s : FrameShape) : Bool := s = .external

end FrameShape

/-! ## Expressions over the fields of a texture -/

/-- One piece of the expression a call is replaced by. -/
inductive Piece where
  /-- text that is the same for every texture -/
  | fixed (text : String)
  /-- the identifier of a field of the texture -/
  | field (f : TextureField)
  /-- the coordinates of the call -/
  | coordinates
  deriving DecidableEq

/-- Write out one piece for the texture `texture`, sampled at `coordinates`. -/
def Piece.render (texture coordinates : List Char) : Piece → List Char
  | .fixed text => text.toList
  | .field f => texture ++ '_' :: f.suffix.toList
  | .coordinates => coordinates

/-- Write out an expression. -/
def renderPieces (pieces : List Piece) (texture coordinates : List Char) : List Char :=
  pieces.flatMap (Piece.render texture coordinates)

/-- The fields an expression reads. -/
def Piece.fields (pieces : List Piece) : List TextureField :=
  pieces.filterMap fun
    | .field f => some f
    | _ => none

namespace FrameShape

open Piece

/-- Reading the default sampler, as for an ordinary texture. -/
def ordinaryPieces : List Piece :=
  [fixed "ngli_tex2d(", field .defaultSampler, fixed ", ", coordinates, fixed ")"]

/-- Reading a frame of this shape. `rg` selects the two chroma components where planes lie in
ordinary textures; rectangle textures always have a red and a green component, and are addressed
in texels of the half-sized planes. -/
def framePieces (rg : String) : FrameShape → List Piece
  | .direct => ordinaryPieces
  | .external => [fixed "ngli_tex2d(", field .externalSampler, fixed ", ", coordinates, fixed ")"]
  | .biplanar =>
    [field .colorMatrix, fixed " * vec4(ngli_tex2d(", field .lumaSampler, fixed ", ", coordinates,
      fixed ").r, ngli_tex2d(", field .chromaSampler, fixed ", ", coordinates,
      fixed s!").{rg}, 1.0)"]
  | .rectangle =>
    [field .colorMatrix, fixed " * vec4(ngli_tex2d(", field .lumaRectSampler, fixed ", (",
      coordinates, fixed ") * ", field .dimensions, fixed " / 2.0).r, ngli_tex2d(",
      field .chromaRectSampler, fixed ", (", coordinates, fixed ") * ", field .dimensions,
      fixed " / 2.0).rg, 1.0)"]

/-- The expression that samples a video frame. Unless `fast` is set, it tests the sampling mode
and falls back to the default sampler when an ordinary texture is bound. -/
def samplePieces (s : FrameShape) (fast : Bool) (rg : String) : List Piece :=
  match s.mode? with
  | some mode =>
    if fast then fixed "(" :: s.framePieces rg ++ [fixed ")"]
    else
      fixed "(" :: field .samplingMode :: fixed s!" == {mode} ? " :: s.framePieces rg ++
        fixed " : " :: ordinaryPieces ++ [fixed ")"]
  | none => fixed "(" :: s.framePieces rg ++ [fixed ")"]

/-- The text of the expression that samples `texture` at `coordinates`. -/
def expression (s : FrameShape) (texture coordinates : String) (fast : Bool) (rg : String) :
    String :=
  String.ofList (renderPieces (s.samplePieces fast rg) texture.toList coordinates.toList)

end FrameShape

end ShaderLoom
