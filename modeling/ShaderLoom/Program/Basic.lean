import ShaderLoom.Reading.Assignment
import ShaderLoom.Reflection
import ShaderLoom.Stage

/-!
# Compiled programs

A program is made of the finished texts of its stages. A `Compiler` turns them into a
reflection, or refuses them. Programs are compared by identity: two programs made by two calls
of a compiler are two programs, even when their texts are equal.

The `readingCompiler` needs no graphics processor. It reflects a program by reading the
declarations in its texts.
-/

namespace ShaderLoom

/-- The finished texts of the stages of a program. -/
inductive StageTexts where
  /-- a graphics program -/
  | graphics (vertex fragment : String)
  /-- a compute program -/
  | compute (text : String)
  deriving DecidableEq

namespace StageTexts

/-- The texts one behind the other. Programs are cached under this key. -/
def key : StageTexts → String
  | .graphics vertex fragment => vertex ++ fragment
  | .compute text => text

/-- The text of a stage, if the program has that stage. -/
def text? : StageTexts → Stage → Option String
  | .graphics vertex _, .vertex => some vertex
  | .graphics _ fragment, .fragment => some fragment
  | .compute text, .compute => some text
  | _, _ => none

/-- Are these the texts of a compute program? -/
def isCompute : StageTexts → Bool
  | .graphics .. => false
  | .compute _ => true

end StageTexts

/-- A compiler of programs. -/
structure Compiler where
  /-- its name -/
  name : String
  /-- what it makes of the texts of a program -/
  compile : StageTexts → Except CompileFault Reflection

/-- A compiled program. -/
structure Program where
  /-- the identity of the program -/
  id : Nat
  /-- the texts it was made from -/
  texts : StageTexts
  /-- what its compiler told about it -/
  reflection : Reflection

/-- The key under which a program is cached. -/
def Program.key (p : Program) : String := p.texts.key

/-! ## Compiling by reading -/

namespace Reading

/-- Read the stages of a program one after the other. -/
def readProgram : StageTexts → Except CompileFault (List Declaration)
  | .graphics vertex fragment => do
    let vertexDeclarations ← readStage true vertex.toList
    let fragmentDeclarations ← readStage false fragment.toList
    pure (vertexDeclarations ++ fragmentDeclarations)
  | .compute text => readStage false text.toList

end Reading

/-- The compiler that reflects a program by reading its texts. -/
def readingCompiler (name : String) : Compiler where
  name := name
  compile texts := (Reading.readProgram texts).map Reading.reflect

end ShaderLoom
