/-!
# Stages of a program

A graphics program has a vertex and a fragment stage, a compute program has a single stage.
-/

namespace ShaderLoom

/-- A programmable stage. -/
inductive Stage where
  | vertex
  | fragment
  | compute
  deriving DecidableEq

namespace Stage

/-- The word for a stage in running text. -/
def word : Stage → String
  | .vertex => "vertex"
  | .fragment => "fragment"
  | .compute => "compute"

/-- The abbreviation inside identifiers that are made up per stage. -/
def abbreviation : Stage → String
  | .vertex => "vert"
  | .fragment => "frag"
  | .compute => "comp"

/-- The name of a stage, as descriptions of a program spell it. -/
def name : Stage → String
  | .vertex => "Vertex"
  | .fragment => "Fragment"
  | .compute => "Compute"

/-- Every stage, in pipeline order. -/
def all : List Stage := [.vertex, .fragment, .compute]

/-- The stage called `s`. -/
def ofName? (s : String) : Option Stage := all.find? (·.name = s)

end Stage

end ShaderLoom
