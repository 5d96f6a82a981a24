import ShaderLoom.VideoFrame

/-!
# Targets and dialects

A `Target` is what a program is made for: a graphics interface, its version, and the platform
that delivers video frames. Its `Dialect` is what follows for the text of a stage: the version
line, and which qualifiers and functions the shading language of the target knows.
-/

namespace ShaderLoom

/-- A graphics interface. -/
inductive Api where
  /-- desktop OpenGL, with versions such as 330 -/
  | openGl
  /-- OpenGL ES, with versions such as 300 -/
  | openGlEs
  /-- Vulkan, whatever its version -/
  | vulkan
  deriving DecidableEq

namespace Api

/-- The name of an interface, as descriptions of a target spell it. -/
def name : Api → String
  | .openGl => "OpenGl"
  | .openGlEs => "OpenGlEs"
  | .vulkan => "Vulkan"

/-- Every interface. -/
def all : List Api := [.openGl, .openGlEs, .vulkan]

/-- The interface called `s`. -/
def ofName? (s : String) : Option Api := all.find? (·.name = s)

end Api

/-- A platform, by the media system that delivers video frames. -/
inductive Platform where
  | generic
  | android
  | ios
  | linux
  | macOs
  deriving DecidableEq

namespace Platform

/-- The name of a platform, as descriptions of a target spell it. -/
def name : Platform → String
  | .generic => "Generic"
  | .android => "Android"
  | .ios => "Ios"
  | .linux => "Linux"
  | .macOs => "MacOs"

/-- Every platform. -/
def all : List Platform := [.generic, .android, .ios, .linux, .macOs]

/-- The platform called `s`. -/
def ofName? (s : String) : Option Platform := all.find? (·.name = s)

end Platform

/-- The shape in which a platform delivers frames to an interface. Vulkan gets every frame as an
ordinary texture. -/
def FrameShape.preferred : Api → Platform → FrameShape
  | .vulkan, _ => .direct
  | _, .android => .external
  | _, .ios | _, .linux => .biplanar
  | _, .macOs => .rectangle
  | _, .generic => .direct

/-! ## Dialects -/

/-- The features of a shading language that the text of a stage depends on. -/
structure Dialect where
  /-- the interface the dialect belongs to -/
  api : Api
  /-- the version of the interface -/
  apiVersion : Nat
  /-- the number in the version line -/
  languageVersion : Nat
  /-- what follows the number in the version line -/
  versionSuffix : String
  /-- selects the two components of a two-component texture -/
  rg : String
  /-- `in` and `out` instead of `attribute` and `varying` -/
  hasInOut : Bool
  /-- `highp`, `mediump` and `lowp` -/
  hasPrecision : Bool
  /-- one overloaded `texture` function instead of one function per kind of texture -/
  hasOverloadedTexture : Bool
  /-- `layout(binding=N)` on storage blocks -/
  hasBufferBindings : Bool
  /-- `layout(binding=N)` on uniform blocks too -/
  hasUniformBlockBindings : Bool
  /-- `layout(binding=N)` on samplers and images too -/
  hasTextureBindings : Bool
  /-- all stages and kinds of resource draw their bindings from one namespace -/
  sharesBindings : Bool
  /-- `layout(location=N)` on attributes, variables between stages, and outputs -/
  hasExplicitLocations : Bool
  /-- plain uniforms must live in a block, one per stage -/
  consolidatesUniforms : Bool
  /-- the shape of video frames -/
  frames : FrameShape

namespace Dialect

/-- Language versions of desktop OpenGL. The two numberings agree from version 3.3 on. -/
def desktopLanguageVersion : Nat → Nat
  | 200 => 110
  | 210 => 120
  | 300 => 130
  | 310 => 140
  | 320 => 150
  | version => version

/-- Language versions of OpenGL ES. The two numberings agree from version 3.0 on. -/
def embeddedLanguageVersion (version : Nat) : Nat := if 300 ≤ version then version else 100

/-- The dialect of Vulkan has every feature but precision qualifiers. -/
def vulkan (version : Nat) : Dialect where
  api := .vulkan
  apiVersion := version
  languageVersion := 450
  versionSuffix := ""
  rg := "rg"
  hasInOut := true
  hasPrecision := false
  hasOverloadedTexture := true
  hasBufferBindings := true
  hasUniformBlockBindings := true
  hasTextureBindings := true
  sharesBindings := true
  hasExplicitLocations := true
  consolidatesUniforms := true
  frames := .direct

/-- The dialect of a desktop OpenGL version. -/
def desktop (version : Nat) : Dialect :=
  let language := desktopLanguageVersion version
  { api := .openGl
    apiVersion := version
    languageVersion := language
    versionSuffix := ""
    rg := "rg"
    hasInOut := 150 ≤ language
    hasPrecision := false
    hasOverloadedTexture := 330 ≤ language
    hasBufferBindings := 420 ≤ version
    hasUniformBlockBindings := false
    hasTextureBindings := false
    sharesBindings := false
    hasExplicitLocations := false
    consolidatesUniforms := false
    frames := .direct }

/-- The dialect of an OpenGL ES version. Before version 3.0 a two-component texture is stored as
luminance and alpha. -/
def embedded (version : Nat) : Dialect :=
  let language := embeddedLanguageVersion version
  { api := .openGlEs
    apiVersion := version
    languageVersion := language
    versionSuffix := if 300 ≤ language then " es" else ""
    rg := if version < 300 then "ra" else "rg"
    hasInOut := 300 ≤ language
    hasPrecision := true
    hasOverloadedTexture := 300 ≤ language
    hasBufferBindings := 310 ≤ version
    hasUniformBlockBindings := false
    hasTextureBindings := false
    sharesBindings := false
    hasExplicitLocations := false
    consolidatesUniforms := false
    frames := .direct }

/-- The dialect of an interface at a version. -/
def ofApi : Api → Nat → Dialect
  | .openGl => desktop
  | .openGlEs => embedded
  | .vulkan => vulkan

/-- The version line, without its end. -/
def versionLine (d : Dialect) : String := s!"#version {d.languageVersion}{d.versionSuffix}"

/-- The qualifier of a vertex attribute. -/
def inputQualifier (d : Dialect) : String := if d.hasInOut then "in" else "attribute"

end Dialect

/-! ## Targets -/

/-- What a program is made for. -/
structure Target where
  /-- the graphics interface -/
  api : Api
  /-- the version of the interface -/
  version : Nat
  /-- the platform that delivers video frames -/
  platform : Platform := .generic
  /-- the shape of video frames, where it is not the one the platform prefers -/
  frames : Option FrameShape := none

/-- The dialect of a target. -/
def Target.dialect (t : Target) : Dialect :=
  { Dialect.ofApi t.api t.version with
    frames := t.frames.getD (FrameShape.preferred t.api t.platform) }

end ShaderLoom
