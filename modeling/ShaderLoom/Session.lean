import ShaderLoom.Program.Cache
import ShaderLoom.Session.Resources
import ShaderLoom.Source.Assembly

/-!
# Sessions

A session makes one program: declarations come in, then the bodies, and out come the resources
that a renderer binds. On the way the session assembles the texts, gets the program from the
cache, and resolves the declarations against it. An error on this way ends the session, and
nothing is left to do but to release it. `Session.build` therefore succeeds at most once.

A session that has got its program holds a handle on it until it is released. The resources
hold a handle of their own.
-/

namespace ShaderLoom

/-- What all sessions for one target share. -/
structure Context where
  /-- the target -/
  target : Target
  /-- the programs made so far -/
  cache : Cache

/-- The dialect of a context. -/
def Context.dialect (c : Context) : Dialect := c.target.dialect

/-! ## Sessions -/

/-- A session. -/
structure Session where
  /-- how far it has come -/
  state : SessionState := .empty
  /-- everything declared so far -/
  declarations : Declarations := {}
  /-- the textures with their fields -/
  textures : List ExpandedTexture := []
  /-- what the texts of the program declare -/
  declared : Declared := {}
  /-- the program, while the session holds a handle on it -/
  program : Option Program := none
  /-- the uniforms that the program uses -/
  uniforms : List BoundUniform := []
  /-- the consolidated blocks -/
  uniformBlocks : List UniformBlock := []

namespace Session

/-- May declarations and bodies still come in? -/
def isOpen (s : Session) : Bool := s.state.isOpen

/-- Add a batch of declarations. -/
def declare (s : Session) (batch : Declarations) : Except Error Session :=
  if s.isOpen then
    .ok { s with declarations := s.declarations.append batch, state := .declaring }
  else .error (.wrongState .declare s.state)

/-- Expand the declared textures. -/
def expand (s : Session) (d : Dialect) (graphics : Bool) : Session :=
  { s with
    textures := s.textures ++ s.declarations.textures.map (·.expand d.frames graphics) }

/-- Take over a program and what its texts declare. -/
def adopt (s : Session) (p : Program) (items : List Item) : Session :=
  { s with
    declared := .ofItems items
    uniformBlocks := items.filterMap Item.uniformBlock?
    program := some p
    state := .assembled }

/-- Take over what a program uses. -/
def settle (s : Session) (p : Resolved) : Session :=
  { s with
    textures := s.textures.map (·.resolve p s.uniformBlocks)
    uniforms := p.uniforms
    state := .resolved }

/-- End the session after an error. -/
def fail (s : Session) : Session := { s with state := .failed }

/-! ## Building -/

/-- The outcome of a step that may fail, with the session and the context behind it. -/
abbrev Outcome (α : Type) := Except Error α × Session × Context

/-- Resolve the declarations against the program that the session has adopted. The resources get a
handle of their own. -/
def resolve (s : Session) (c : Context) (p : Program) : Outcome Resources :=
  match p.reflection.resolve s.declared with
  | .error e => (.error e, s.fail, c)
  | .ok elements =>
    (.ok ⟨p, elements, s.uniformBlocks⟩, s.settle elements, { c with cache := c.cache.hold p })

/-- Get the program of an assembly from the cache, and resolve the declarations
against it. -/
def compile (s : Session) (c : Context) (a : Assembly) : Outcome Resources :=
  match c.cache.get a.texts with
  | (.error fault, cache) => (.error (.compile fault), s.fail, { c with cache })
  | (.ok p, cache) => (s.adopt p a.items).resolve { c with cache } p

/-- Make the program: assemble its texts, compile them, and resolve the declarations against
what comes out. -/
def build (s : Session) (c : Context) (bodies : ProgramBodies) : Outcome Resources :=
  if !s.isOpen then (.error (.wrongState .build s.state), s, c)
  else if !bodies.isGraphics && !s.declarations.attributes.isEmpty then
    (.error .computeAttributes, s.fail, c)
  else
    let s := s.expand c.dialect bodies.isGraphics
    match assemble c.dialect s.declarations s.textures bodies with
    | .error e => (.error e, s.fail, c)
    | .ok a => s.compile c a

/-- Give back the handle on the program and forget everything. -/
def release (s : Session) (c : Context) : Session × Context :=
  if s.state = .released then (s, c)
  else
    let cache :=
      match s.program with
      | some p => c.cache.release p
      | none => c.cache
    ({ state := .released }, { c with cache })

/-- Where a plain uniform ended up, once the session is resolved. -/
def locateUniform? (s : Session) (name : String) (stage : Stage) : Option ResourceIndex :=
  if s.state = .resolved then ShaderLoom.locateUniform? s.uniforms s.uniformBlocks name stage
  else none

/-- A one-line description of a session. -/
def describe (s : Session) : String :=
  let program :=
    match s.program with
    | some p => s!"Some({p.key.utf8ByteSize})"
    | none => "None"
  s!"ProgramCraft \x7b state: {s.state.name}, textures: {s.textures.length}, " ++
    s!"program: {program} \x7d"

end Session

end ShaderLoom
