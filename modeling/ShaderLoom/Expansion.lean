import ShaderLoom.Declaration
import ShaderLoom.VideoFrame
import ShaderLoom.Table

/-!
# Expanding textures

A declared texture stands for several uniforms: the sampler or image itself, matrices, the
dimensions, a time stamp, and what the shape of video frames adds. `ExpandedTexture` lists them,
each with the type and the stage in which it is declared. Once a program has been resolved,
a field also knows where among the resources of the program it ended up.
-/

namespace ShaderLoom

/-- A place among the resources of a program. -/
inductive ResourceIndex where
  /-- a position among the textures -/
  | texture (position : Nat)
  /-- a position among the uniforms -/
  | uniform (position : Nat)
  /-- a field of the block into which a stage packs its plain uniforms -/
  | blockField (stage : Stage) (field : Nat)
  deriving DecidableEq

/-- One of the uniforms that a texture stands for. -/
structure ExpandedField where
  /-- which one -/
  kind : TextureField
  /-- the identifier -/
  name : String
  /-- the type -/
  ty : ShaderType
  /-- the stage that reads it -/
  stage : Stage
  /-- where it ended up; nowhere if the program does not use it -/
  index : Option ResourceIndex := none
  deriving DecidableEq

/-- A texture with all of its fields. -/
structure ExpandedTexture where
  /-- the identifier of the texture -/
  name : String
  /-- how it is accessed -/
  kind : TextureKind
  /-- the stage that reads it -/
  stage : Stage
  /-- the wish for precision -/
  precision : Precision
  /-- is a storage image written instead of read? -/
  writable : Bool
  /-- the format of a storage image -/
  format : Option Format
  /-- the texture behind the declaration -/
  texture : Option Texture
  /-- the fields, in the order of `TextureField.all` -/
  fields : List ExpandedField
  deriving DecidableEq

/-- The fields of a kind of texture, with their types. Only a sampled plane can be fed with video
frames. -/
def TextureKind.fieldTypes (frames : FrameShape) : TextureKind → Table TextureField ShaderType
  | .plane =>
    [(.defaultSampler, .sampler2D), (.coordinateMatrix, .mat4), (.dimensions, .vec2),
      (.timestamp, .float)] ++ frames.fields
  | .image =>
    [(.defaultSampler, .image2D), (.coordinateMatrix, .mat4), (.dimensions, .vec2),
      (.timestamp, .float)]
  | .volume => [(.defaultSampler, .sampler3D), (.dimensions, .vec3)]
  | .cube => [(.defaultSampler, .samplerCube)]

/-- The stage that declares a field. In a graphics program the vertex stage transforms the
coordinates, whatever stage reads the texture. -/
def TextureDecl.fieldStage (t : TextureDecl) (graphics : Bool) (f : TextureField) : Stage :=
  if graphics && f = .coordinateMatrix then .vertex else t.stage

/-- The uniforms that a texture stands for in a graphics or a compute program. -/
def TextureDecl.expand (t : TextureDecl) (frames : FrameShape) (graphics : Bool) :
    ExpandedTexture where
  name := t.name
  kind := t.kind
  stage := t.stage
  precision := t.precision
  writable := t.writable
  format := t.format?
  texture := t.texture
  fields := TextureField.all.filterMap fun f =>
    ((t.kind.fieldTypes frames).find? f).map fun ty =>
      { kind := f, name := f.identifier t.name, ty, stage := t.fieldStage graphics f }

namespace ExpandedTexture

/-- The field of a kind, if the texture has it. -/
def field? (t : ExpandedTexture) (f : TextureField) : Option ExpandedField :=
  t.fields.find? (·.kind = f)

/-- Where the field of a kind ended up. -/
def index? (t : ExpandedTexture) (f : TextureField) : Option ResourceIndex :=
  (t.field? f).bind ExpandedField.index

end ExpandedTexture

end ShaderLoom
