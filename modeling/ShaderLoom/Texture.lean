import ShaderLoom.Format
import ShaderLoom.Text.Quoted

/-!
# Textures

A texture is known by its extent in texels, its format and its uses. Texels themselves play no
part in writing a program.
-/

namespace ShaderLoom

/-- What a texture may be used for. -/
structure TextureUsage where
  /-- it is sampled in shaders -/
  sampled : Bool := false
  /-- it is a storage image -/
  storage : Bool := false
  /-- it is rendered to -/
  attachment : Bool := false
  /-- it can be copied to -/
  copyTarget : Bool := false
  deriving DecidableEq

namespace TextureUsage

/-- The uses that are set in a bit pattern. -/
def ofBits (bits : Nat) : TextureUsage where
  sampled := bits.testBit 0
  storage := bits.testBit 1
  attachment := bits.testBit 2
  copyTarget := bits.testBit 3

/-- The bit pattern of a use, the first use in the lowest bit. -/
def bits (u : TextureUsage) : Nat :=
  u.sampled.toNat + 2 * u.storage.toNat + 4 * u.attachment.toNat + 8 * u.copyTarget.toNat

end TextureUsage

/-- A texture. -/
structure Texture where
  /-- texels in a row -/
  width : Nat
  /-- rows -/
  height : Nat
  /-- layers of rows; one unless the texture is three-dimensional -/
  depth : Nat := 1
  /-- the format of a texel -/
  format : Format
  /-- what the texture may be used for -/
  usage : TextureUsage := {}
  /-- a name for people -/
  label : Option String := none
  deriving DecidableEq

namespace Texture

/-- A single texel that can be sampled. -/
def standard : Texture where
  width := 1
  height := 1
  format := Format.standard
  usage := { sampled := true }

/-- Bytes of all texels. -/
def byteSize (t : Texture) : Nat := t.width * t.height * t.depth * t.format.bytes

/-- A one-line description of a texture. -/
def describe (t : Texture) : String :=
  let label := Text.quoted? t.label
  s!"Texture \x7b width: {t.width}, height: {t.height}, format: {t.format.name}, label: {label} \x7d"

end Texture

end ShaderLoom
