/-!
# Pixel formats

A format describes how one texel, or one element of a vertex attribute, lies in memory. Three
facts about it matter when a stage is written: the number of components, the bytes of one
element (the columns of a matrix attribute lie that far apart), and the qualifier that declares
a storage image of the format, for the formats that can back one.
-/

namespace ShaderLoom

/-- The formats, grouped by the bits of one component; depth and stencil come last. -/
inductive Format where
  | r8Unorm | r8Snorm | r8Uint | r8Sint | rg8Unorm | rg8Snorm | rg8Uint | rg8Sint | rgb8Unorm
  | rgb8Snorm | rgb8Uint | rgb8Sint | rgb8UnormSrgb | rgba8Unorm | rgba8Snorm | rgba8Uint
  | rgba8Sint | rgba8UnormSrgb | bgra8Unorm | bgra8Snorm | bgra8Uint | bgra8Sint | r16Unorm
  | r16Snorm | r16Uint | r16Sint | r16Float | rg16Unorm | rg16Snorm | rg16Uint | rg16Sint
  | rg16Float | rgb16Unorm | rgb16Snorm | rgb16Uint | rgb16Sint | rgb16Float | rgba16Unorm
  | rgba16Snorm | rgba16Uint | rgba16Sint | rgba16Float | r32Uint | r32Sint | r64Sint | r32Float
  | rg32Uint | rg32Sint | rg32Float | rgb32Uint | rgb32Sint | rgb32Float | rgba32Uint
  | rgba32Sint | rgba32Float | depth16Unorm | depth24Unorm | depth32Float | depth24UnormStencil8
  | depth32FloatStencil8 | stencil8
  deriving DecidableEq

namespace Format

/-- What a format says about one element. -/
structure Traits where
  /-- the name of the format -/
  name : String
  /-- components of one element -/
  components : Nat
  /-- bytes of one element -/
  bytes : Nat
  /-- the qualifier of a storage image, for formats that can back one -/
  image : Option String

/-- The table of formats. Three-component, sRGB, 64-bit, depth and stencil formats cannot back a
storage image, and a BGRA format shares the qualifier of its RGBA counterpart. -/
def traits : Format → Traits
  | .r8Unorm => ⟨"R8Unorm", 1, 1, some "r8"⟩
  | .r8Snorm => ⟨"R8Snorm", 1, 1, some "r8_snorm"⟩
  | .r8Uint => ⟨"R8Uint", 1, 1, some "r8ui"⟩
  | .r8Sint => ⟨"R8Sint", 1, 1, some "r8i"⟩
  | .rg8Unorm => ⟨"Rg8Unorm", 2, 2, some "rg8"⟩
  | .rg8Snorm => ⟨"Rg8Snorm", 2, 2, some "rg8_snorm"⟩
  | .rg8Uint => ⟨"Rg8Uint", 2, 2, some "rg8ui"⟩
  | .rg8Sint => ⟨"Rg8Sint", 2, 2, some "rg8i"⟩
  | .rgb8Unorm => ⟨"Rgb8Unorm", 3, 3, none⟩
  | .rgb8Snorm => ⟨"Rgb8Snorm", 3, 3, none⟩
  | .rgb8Uint => ⟨"Rgb8Uint", 3, 3, none⟩
  | .rgb8Sint => ⟨"Rgb8Sint", 3, 3, none⟩
  | .rgb8UnormSrgb => ⟨"Rgb8UnormSrgb", 3, 3, none⟩
  | .rgba8Unorm => ⟨"Rgba8Unorm", 4, 4, some "rgba8"⟩
  | .rgba8Snorm => ⟨"Rgba8Snorm", 4, 4, some "rgba8_snorm"⟩
  | .rgba8Uint => ⟨"Rgba8Uint", 4, 4, some "rgba8ui"⟩
  | .rgba8Sint => ⟨"Rgba8Sint", 4, 4, some "rgba8i"⟩
  | .rgba8UnormSrgb => ⟨"Rgba8UnormSrgb", 4, 4, none⟩
  | .bgra8Unorm => ⟨"Bgra8Unorm", 4, 4, some "rgba8"⟩
  | .bgra8Snorm => ⟨"Bgra8Snorm", 4, 4, some "rgba8_snorm"⟩
  | .bgra8Uint => ⟨"Bgra8Uint", 4, 4, some "rgba8ui"⟩
  | .bgra8Sint => ⟨"Bgra8Sint", 4, 4, some "rgba8i"⟩
  | .r16Unorm => ⟨"R16Unorm", 1, 2, some "r16"⟩
  | .r16Snorm => ⟨"R16Snorm", 1, 2, some "r16_snorm"⟩
  | .r16Uint => ⟨"R16Uint", 1, 2, some "r16ui"⟩
  | .r16Sint => ⟨"R16Sint", 1, 2, some "r16i"⟩
  | .r16Float => ⟨"R16Float", 1, 2, some "r16f"⟩
  | .rg16Unorm => ⟨"Rg16Unorm", 2, 4, some "rg16"⟩
  | .rg16Snorm => ⟨"Rg16Snorm", 2, 4, some "rg16_snorm"⟩
  | .rg16Uint => ⟨"Rg16Uint", 2, 4, some "rg16ui"⟩
  | .rg16Sint => ⟨"Rg16Sint", 2, 4, some "rg16i"⟩
  | .rg16Float => ⟨"Rg16Float", 2, 4, some "rg16f"⟩
  | .rgb16Unorm => ⟨"Rgb16Unorm", 3, 6, none⟩
  | .rgb16Snorm => ⟨"Rgb16Snorm", 3, 6, none⟩
  | .rgb16Uint => ⟨"Rgb16Uint", 3, 6, none⟩
  | .rgb16Sint => ⟨"Rgb16Sint", 3, 6, none⟩
  | .rgb16Float => ⟨"Rgb16Float", 3, 6, none⟩
  | .rgba16Unorm => ⟨"Rgba16Unorm", 4, 8, some "rgba16"⟩
  | .rgba16Snorm => ⟨"Rgba16Snorm", 4, 8, some "rgba16_snorm"⟩
  | .rgba16Uint => ⟨"Rgba16Uint", 4, 8, some "rgba16ui"⟩
  | .rgba16Sint => ⟨"Rgba16Sint", 4, 8, some "rgba16i"⟩
  | .rgba16Float => ⟨"Rgba16Float", 4, 8, some "rgba16f"⟩
  | .r32Uint => ⟨"R32Uint", 1, 4, some "r32ui"⟩
  | .r32Sint => ⟨"R32Sint", 1, 4, some "r32i"⟩
  | .r64Sint => ⟨"R64Sint", 1, 8, none⟩
  | .r32Float => ⟨"R32Float", 1, 4, some "r32f"⟩
  | .rg32Uint => ⟨"Rg32Uint", 2, 8, some "rg32ui"⟩
  | .rg32Sint => ⟨"Rg32Sint", 2, 8, some "rg32i"⟩
  | .rg32Float => ⟨"Rg32Float", 2, 8, some "rg32f"⟩
  | .rgb32Uint => ⟨"Rgb32Uint", 3, 12, none⟩
  | .rgb32Sint => ⟨"Rgb32Sint", 3, 12, none⟩
  | .rgb32Float => ⟨"Rgb32Float", 3, 12, none⟩
  | .rgba32Uint => ⟨"Rgba32Uint", 4, 16, some "rgba32ui"⟩
  | .rgba32Sint => ⟨"Rgba32Sint", 4, 16, some "rgba32i"⟩
  | .rgba32Float => ⟨"Rgba32Float", 4, 16, some "rgba32f"⟩
  | .depth16Unorm => ⟨"Depth16Unorm", 1, 2, none⟩
  | .depth24Unorm => ⟨"Depth24Unorm", 2, 4, none⟩
  | .depth32Float => ⟨"Depth32Float", 1, 4, none⟩
  | .depth24UnormStencil8 => ⟨"Depth24UnormStencil8", 2, 4, none⟩
  | .depth32FloatStencil8 => ⟨"Depth32FloatStencil8", 3, 8, none⟩
  | .stencil8 => ⟨"Stencil8", 1, 1, none⟩

/-- The name of a format. -/
def name (f : Format) : String := f.traits.name

/-- The number of components. -/
def components (f : Format) : Nat := f.traits.components

/-- The bytes of one element. -/
def bytes (f : Format) : Nat := f.traits.bytes

/-- The layout qualifier that declares a storage image of the format. -/
def imageQualifier? (f : Format) : Option String := f.traits.image

/-- Does the format hold depth or stencil values? -/
def isDepthStencil : Format → Bool
  | .depth16Unorm | .depth24Unorm | .depth32Float | .depth24UnormStencil8
  | .depth32FloatStencil8 | .stencil8 => true
  | _ => false

/-- The format of a texture that asks for no other. -/
def standard : Format := .rgba8Unorm

/-- Every format, in table order. -/
def all : List Format :=
  [.r8Unorm, .r8Snorm, .r8Uint, .r8Sint, .rg8Unorm, .rg8Snorm, .rg8Uint, .rg8Sint, .rgb8Unorm,
    .rgb8Snorm, .rgb8Uint, .rgb8Sint, .rgb8UnormSrgb, .rgba8Unorm, .rgba8Snorm, .rgba8Uint,
    .rgba8Sint, .rgba8UnormSrgb, .bgra8Unorm, .bgra8Snorm, .bgra8Uint, .bgra8Sint, .r16Unorm,
    .r16Snorm, .r16Uint, .r16Sint, .r16Float, .rg16Unorm, .rg16Snorm, .rg16Uint, .rg16Sint,
    .rg16Float, .rgb16Unorm, .rgb16Snorm, .rgb16Uint, .rgb16Sint, .rgb16Float, .rgba16Unorm,
    .rgba16Snorm, .rgba16Uint, .rgba16Sint, .rgba16Float, .r32Uint, .r32Sint, .r64Sint,
    .r32Float, .rg32Uint, .rg32Sint, .rg32Float, .rgb32Uint, .rgb32Sint, .rgb32Float,
    .rgba32Uint, .rgba32Sint, .rgba32Float, .depth16Unorm, .depth24Unorm, .depth32Float,
    .depth24UnormStencil8, .depth32FloatStencil8, .stencil8]

/-- The format called `s`. -/
def ofName? (s : String) : Option Format := all.find? (·.name = s)

end Format

end ShaderLoom
