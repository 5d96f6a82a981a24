import ShaderLoom.Program.Basic
import ShaderLoom.Resolution

/-!
# Resources

What a session hands out: the program, the elements that it uses, and the consolidated blocks
with the buffers behind them. Elements are found by name; where a name occurs more than once,
the first one counts.
-/

namespace ShaderLoom

/-- Everything that is bound before a program draws or computes. -/
structure Resources where
  /-- the program -/
  program : Program
  /-- what the program uses -/
  elements : Resolved
  /-- the consolidated blocks, one for each stage that has plain uniforms in one -/
  uniformBlocks : List UniformBlock

namespace Resources

/-- The consolidated block of a stage. -/
def uniformBlock? (r : Resources) (stage : Stage) : Option UniformBlock :=
  ShaderLoom.uniformBlock? r.uniformBlocks stage

/-- The first uniform called `name`. -/
def uniform? (r : Resources) (name : String) : Option BoundUniform :=
  r.elements.uniforms.find? (·.name = name)

/-- The first sampler or image called `name`. -/
def texture? (r : Resources) (name : String) : Option BoundTexture :=
  r.elements.textures.find? (·.name = name)

/-- The first block called `name`. -/
def buffer? (r : Resources) (name : String) : Option BoundBuffer :=
  r.elements.buffers.find? (·.name = name)

/-- The locations of the attribute called `name`. -/
def attributes (r : Resources) (name : String) : List (BoundAttribute Nat) :=
  r.elements.attributes.filter (·.name = name)

/-- Put the contents of a buffer behind the consolidated block of a stage. -/
def setUniforms (r : Resources) (stage : Stage) (buffer : Buffer) : Resources :=
  { r with
    uniformBlocks := r.uniformBlocks.map fun u =>
      if u.stage = stage then { u with buffer } else u }

end Resources

end ShaderLoom
