import ShaderLoom.Declaration

/-!
# Resources of a program

The elements that a renderer binds before it draws. Writing the text of a program registers
them as *declared*, when locations and bindings may still be open; resolving them against the
compiled program keeps the ones that it really uses and fills in what was open.
-/

namespace ShaderLoom

/-- A loose uniform of a program. -/
structure BoundUniform where
  /-- the identifier -/
  name : String
  /-- the type of one element -/
  ty : ShaderType
  /-- the stage that reads it -/
  stage : Stage
  /-- the number of elements, at least one -/
  count : Nat
  /-- the location, once the program has told it -/
  location : Option Nat := none
  deriving DecidableEq

/-- A sampler or image of a program. -/
structure BoundTexture where
  /-- the identifier -/
  name : String
  /-- the type -/
  ty : ShaderType
  /-- the stage that reads it -/
  stage : Stage
  /-- the location, once the program has told it -/
  location : Option Nat := none
  /-- the binding -/
  binding : Option Nat
  /-- the texture to bind -/
  texture : Option Texture
  deriving DecidableEq

/-- A block of a program. -/
structure BoundBuffer where
  /-- the identifier of the block -/
  name : String
  /-- what backs the block -/
  kind : BlockKind
  /-- the stage that reads it -/
  stage : Stage
  /-- the binding -/
  binding : Option Nat
  /-- the buffer to bind -/
  buffer : Option BufferSpec
  deriving DecidableEq

/-- The location of a declared attribute. -/
inductive AttributeLocation where
  /-- the text of the stage fixes it -/
  | explicit (location : Nat)
  /-- the compiler chooses where the attribute begins; this is a later column of it -/
  | pending (column : Nat)
  deriving DecidableEq

/-- One location of an attribute: a whole attribute, or one column of a matrix. The location is
an `AttributeLocation` before the program is resolved, and a number afterwards. -/
structure BoundAttribute (Location : Type) where
  /-- the identifier of the attribute -/
  name : String
  /-- where it is -/
  location : Location
  /-- the format of one element -/
  format : Format
  /-- bytes from one element to the next -/
  stride : Nat
  /-- bytes before the first element -/
  offset : Nat
  /-- instances per element; zero for one element per vertex -/
  rate : Nat
  /-- the buffer that is read -/
  buffer : BufferSpec
  deriving DecidableEq

/-- Move an attribute to a location of its own. -/
def BoundAttribute.place {L L' : Type} (a : BoundAttribute L) (location : L') :
    BoundAttribute L' :=
  { a with location }

/-- The block into which a stage packs its plain uniforms. The caller writes their values at the
offsets of its fields. -/
structure UniformBlock where
  /-- the stage -/
  stage : Stage
  /-- the fields -/
  block : Block
  /-- their values -/
  buffer : Buffer

/-- Elements of a program by kind. -/
structure Elements (Location : Type) where
  /-- loose uniforms -/
  uniforms : List BoundUniform := []
  /-- samplers and images -/
  textures : List BoundTexture := []
  /-- blocks -/
  buffers : List BoundBuffer := []
  /-- attributes, by location -/
  attributes : List (BoundAttribute Location) := []

/-- Everything the text of a program declares. -/
abbrev Declared := Elements AttributeLocation

/-- Everything a compiled program uses. -/
abbrev Resolved := Elements Nat

end ShaderLoom
