/-!
# Types of the shading language

The types a uniform, a block field, an attribute or a texture field can have. They fall into
three classes:

* **plain** types have values that lie in memory; inside an interface block each has a
  footprint, its size and alignment in bytes;
* **opaque** types (samplers and images) name a binding point and have no footprint;
* **block** types stand for a whole interface block, and their keyword is the storage
  qualifier that introduces the block.
-/

namespace ShaderLoom

/-- The types that declarations can name. -/
inductive ShaderType where
  | int | ivec2 | ivec3 | ivec4
  | uint | uvec2 | uvec3 | uvec4
  | float | vec2 | vec3 | vec4
  | mat3 | mat4 | bool
  | sampler2D | sampler2DRect | sampler3D | samplerCube
  | samplerExternal | samplerExternalYuv | image2D
  | uniformBlock | storageBlock
  deriving DecidableEq

/-- Room a value takes inside an interface block, in bytes. -/
structure Footprint where
  /-- bytes of one value -/
  size : Nat
  /-- the offset of a value is a multiple of this -/
  align : Nat
  deriving DecidableEq

namespace ShaderType

/-- The keyword of a type. -/
def keyword : ShaderType → String
  | .int => "int"
  | .ivec2 => "ivec2"
  | .ivec3 => "ivec3"
  | .ivec4 => "ivec4"
  | .uint => "uint"
  | .uvec2 => "uvec2"
  | .uvec3 => "uvec3"
  | .uvec4 => "uvec4"
  | .float => "float"
  | .vec2 => "vec2"
  | .vec3 => "vec3"
  | .vec4 => "vec4"
  | .mat3 => "mat3"
  | .mat4 => "mat4"
  | .bool => "bool"
  | .sampler2D => "sampler2D"
  | .sampler2DRect => "sampler2DRect"
  | .sampler3D => "sampler3D"
  | .samplerCube => "samplerCube"
  | .samplerExternal => "samplerExternalOES"
  | .samplerExternalYuv => "__samplerExternal2DY2YEXT"
  | .image2D => "image2D"
  | .uniformBlock => "uniform"
  | .storageBlock => "buffer"

/-- The name of a type, as descriptions of a program spell it. -/
def name : ShaderType → String
  | .int => "Int"
  | .ivec2 => "IVec2"
  | .ivec3 => "IVec3"
  | .ivec4 => "IVec4"
  | .uint => "UInt"
  | .uvec2 => "UVec2"
  | .uvec3 => "UVec3"
  | .uvec4 => "UVec4"
  | .float => "Float"
  | .vec2 => "Vec2"
  | .vec3 => "Vec3"
  | .vec4 => "Vec4"
  | .mat3 => "Mat3"
  | .mat4 => "Mat4"
  | .bool => "Bool"
  | .sampler2D => "Sampler2D"
  | .sampler2DRect => "Sampler2DRect"
  | .sampler3D => "Sampler3D"
  | .samplerCube => "SamplerCube"
  | .samplerExternal => "SamplerExternalOes"
  | .samplerExternalYuv => "SamplerExternal2DY2YExt"
  | .image2D => "Image2D"
  | .uniformBlock => "UniformBuffer"
  | .storageBlock => "StorageBuffer"

/-- Samplers and images. -/
def isOpaque : ShaderType → Bool
  | .sampler2D | .sampler2DRect | .sampler3D | .samplerCube
  | .samplerExternal | .samplerExternalYuv | .image2D => true
  | _ => false

/-- Interface blocks. -/
def isBlock : ShaderType → Bool
  | .uniformBlock | .storageBlock => true
  | _ => false

/-- The room one value takes inside a block. A three-component vector is aligned like one of
four, and each column of a matrix is padded to four components. -/
def footprint? : ShaderType → Option Footprint
  | .int | .uint | .float | .bool => some ⟨4, 4⟩
  | .ivec2 | .uvec2 | .vec2 => some ⟨8, 8⟩
  | .ivec3 | .uvec3 | .vec3 => some ⟨12, 16⟩
  | .ivec4 | .uvec4 | .vec4 => some ⟨16, 16⟩
  | .mat3 => some ⟨48, 16⟩
  | .mat4 => some ⟨64, 16⟩
  | _ => none

/-- **Plain types are the ones with a footprint.** -/
theorem isSome_footprint? (ty : ShaderType) :
    ty.footprint?.isSome = (!ty.isOpaque && !ty.isBlock) := by
  cases ty <;> rfl

/-- Consecutive locations that a variable of the type occupies between stages. -/
def locations : ShaderType → Nat
  | .mat4 => 4
  | _ => 1

/-- Every type, in table order. -/
def all : List ShaderType :=
  [.int, .ivec2, .ivec3, .ivec4, .uint, .uvec2, .uvec3, .uvec4, .float, .vec2, .vec3, .vec4,
    .mat3, .mat4, .bool, .sampler2D, .sampler2DRect, .sampler3D, .samplerCube, .samplerExternal,
    .samplerExternalYuv, .image2D, .uniformBlock, .storageBlock]

/-- The type called `s`. -/
def ofName? (s : String) : Option ShaderType := all.find? (·.name = s)

end ShaderType

end ShaderLoom
