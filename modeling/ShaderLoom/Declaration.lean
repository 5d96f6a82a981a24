import ShaderLoom.Block
import ShaderLoom.Buffer
import ShaderLoom.Stage
import ShaderLoom.Texture

/-!
# Declarations

What a caller says about the resources a program may use, before any text is written: loose
uniforms, textures, blocks with their buffers, vertex attributes, and the variables that the
vertex stage hands to the fragment stage. Declarations come in batches, and batches add up.
-/

namespace ShaderLoom

/-- A wish for precision. -/
inductive Precision where
  /-- whatever suits the kind of declaration -/
  | auto
  | high
  | medium
  | low
  deriving DecidableEq

namespace Precision

/-- The qualifier that asks for a precision. -/
def qualifier? : Precision → Option String
  | .auto => none
  | .high => some "highp"
  | .medium => some "mediump"
  | .low => some "lowp"

/-- The name of a precision, as descriptions of a declaration spell it. -/
def name : Precision → String
  | .auto => "Auto"
  | .high => "High"
  | .medium => "Medium"
  | .low => "Low"

/-- Every precision. -/
def all : List Precision := [.auto, .high, .medium, .low]

/-- The precision called `s`. -/
def ofName? (s : String) : Option Precision := all.find? (·.name = s)

/-- The precision itself, or `fallback` where the choice was left open. -/
def resolve (p fallback : Precision) : Precision := if p = .auto then fallback else p

end Precision

/-- How a texture is accessed. -/
inductive TextureKind where
  /-- sampled in two dimensions, and possibly fed with video frames -/
  | plane
  /-- a storage image of two dimensions -/
  | image
  /-- sampled in three dimensions -/
  | volume
  /-- sampled by direction -/
  | cube
  deriving DecidableEq

namespace TextureKind

/-- The name of a kind, as descriptions of a texture spell it. -/
def name : TextureKind → String
  | .plane => "Texture2D"
  | .image => "Image2D"
  | .volume => "Texture3D"
  | .cube => "Cube"

/-- Every kind. -/
def all : List TextureKind := [.plane, .image, .volume, .cube]

/-- The kind called `s`. -/
def ofName? (s : String) : Option TextureKind := all.find? (·.name = s)

end TextureKind

/-- A loose uniform. -/
structure UniformDecl where
  /-- the identifier -/
  name : String
  /-- the type of one element -/
  ty : ShaderType
  /-- the stage that reads it -/
  stage : Stage
  /-- the number of array elements; zero for a single value -/
  count : Nat := 0
  /-- the wish for precision -/
  precision : Precision := .auto
  deriving DecidableEq

/-- A texture. -/
structure TextureDecl where
  /-- the identifier that calls of intrinsics use -/
  name : String
  /-- how it is accessed -/
  kind : TextureKind
  /-- the stage that reads it -/
  stage : Stage
  /-- the wish for precision -/
  precision : Precision := .auto
  /-- is a storage image written instead of read? -/
  writable : Bool := false
  /-- the format of a storage image, where it is not the one of `texture` -/
  format : Option Format := none
  /-- the texture behind the declaration -/
  texture : Option Texture := none
  deriving DecidableEq

/-- The format of a storage image: the declared one, or else the one of the texture. -/
def TextureDecl.format? (t : TextureDecl) : Option Format :=
  match t.format with
  | some format => some format
  | none => t.texture.map Texture.format

/-- A block and the buffer behind it. -/
structure BlockDecl where
  /-- the name from which the identifier of the block is made -/
  name : String
  /-- the stage that reads it -/
  stage : Stage
  /-- the fields -/
  block : Block
  /-- the buffer behind the block -/
  buffer : Option BufferSpec := none
  /-- is the last field an array of open length? -/
  variadic : Bool := false
  /-- the instance name, where it is not the name of the declaration; when it is empty, the fields
  are read like loose uniforms -/
  instanceName : Option String := none

/-- A vertex attribute. -/
structure AttributeDecl where
  /-- the identifier -/
  name : String
  /-- the type -/
  ty : ShaderType
  /-- the format of one element, which is one column of a matrix -/
  format : Format
  /-- the wish for precision -/
  precision : Precision := .auto
  /-- bytes from one vertex to the next; elements lie close together unless said otherwise -/
  stride : Nat := format.bytes * ty.locations
  /-- bytes before the first element -/
  offset : Nat := 0
  /-- instances per element; zero for one element per vertex -/
  rate : Nat := 0
  /-- the buffer that is read; without one the attribute is declared but never bound -/
  buffer : Option BufferSpec := none
  deriving DecidableEq

/-- A variable that the vertex stage writes and the fragment stage reads. -/
structure VaryingDecl where
  /-- the identifier -/
  name : String
  /-- the type -/
  ty : ShaderType
  deriving DecidableEq

/-- A batch of declarations. -/
structure Declarations where
  /-- loose uniforms -/
  uniforms : List UniformDecl := []
  /-- textures -/
  textures : List TextureDecl := []
  /-- blocks -/
  blocks : List BlockDecl := []
  /-- vertex attributes -/
  attributes : List AttributeDecl := []
  /-- variables between the stages -/
  varyings : List VaryingDecl := []

namespace Declarations

/-- Both batches, the first one first. -/
def append (a b : Declarations) : Declarations where
  uniforms := a.uniforms ++ b.uniforms
  textures := a.textures ++ b.textures
  blocks := a.blocks ++ b.blocks
  attributes := a.attributes ++ b.attributes
  varyings := a.varyings ++ b.varyings

/-- Is nothing declared? -/
def isEmpty (d : Declarations) : Bool :=
  d.uniforms.isEmpty && d.textures.isEmpty && d.blocks.isEmpty && d.attributes.isEmpty &&
    d.varyings.isEmpty

end Declarations

end ShaderLoom
