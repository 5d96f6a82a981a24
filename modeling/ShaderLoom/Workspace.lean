import ShaderLoom.Session
import ShaderLoom.Table

/-!
# Workspaces

A workspace is a context with numbered slots. A slot has room for a session and, apart from it,
for the resources of the latest program that a session in the slot has made. Every owner of a
handle is thus in view, and `Workspace.run` carries out any sequence of steps.
-/

namespace ShaderLoom

/-- A context with its sessions and the resources they made. -/
structure Workspace where
  /-- what the sessions share -/
  context : Context
  /-- the sessions by slot -/
  sessions : Table Nat Session := []
  /-- the resources by slot -/
  resources : Table Nat Resources := []

namespace Workspace

/-- A workspace in which nothing has happened. -/
def start (target : Target) (compiler : Compiler) : Workspace where
  context := { target, cache := { compiler } }

/-- The session in a slot. -/
def session? (w : Workspace) (slot : Nat) : Option Session := w.sessions.find? slot

/-- The resources in a slot. -/
def resources? (w : Workspace) (slot : Nat) : Option Resources := w.resources.find? slot

/-- Put a session into a slot. -/
def setSession (w : Workspace) (slot : Nat) (s : Session) : Workspace :=
  { w with sessions := w.sessions.insert slot s }

/-- The slots whose sessions hold a program, in order. -/
def sharers (w : Workspace) (p : Program) : List Nat :=
  ((w.sessions.filter fun entry => entry.2.program.any (·.id = p.id)).map Prod.fst).mergeSort

/-! ## Steps -/

/-- Release the session in a slot, if there is one. -/
def release (w : Workspace) (slot : Nat) : Workspace :=
  match w.session? slot with
  | none => w
  | some s =>
    let (s, context) := s.release w.context
    { w with context }.setSession slot s

/-- Remove the session from a slot. Its last act is to release what it holds. -/
def close (w : Workspace) (slot : Nat) : Workspace :=
  let released := w.release slot
  { released with sessions := released.sessions.erase slot }

/-- Begin a new session in a slot. -/
def create (w : Workspace) (slot : Nat) : Workspace := (w.close slot).setSession slot {}

/-- Drop the resources in a slot, and with them their handle on the program. -/
def dropResources (w : Workspace) (slot : Nat) : Workspace :=
  match w.resources? slot with
  | none => w
  | some r =>
    { w with
      context := { w.context with cache := w.context.cache.drop r.program }
      resources := w.resources.erase slot }

/-- Put resources into a slot, in place of those that are there. -/
def setResources (w : Workspace) (slot : Nat) (r : Resources) : Workspace :=
  let dropped := w.dropResources slot
  { dropped with resources := dropped.resources.insert slot r }

/-- Declare a batch in the session of a slot, if there is one. -/
def declare (w : Workspace) (slot : Nat) (batch : Declarations) :
    Option (Except Error Unit) × Workspace :=
  match w.session? slot with
  | none => (none, w)
  | some s =>
    match s.declare batch with
    | .error e => (some (.error e), w)
    | .ok s => (some (.ok ()), w.setSession slot s)

/-- Make the program of the session in a slot, if there is one. -/
def build (w : Workspace) (slot : Nat) (bodies : ProgramBodies) :
    Option (Except Error Resources) × Workspace :=
  match w.session? slot with
  | none => (none, w)
  | some s =>
    let (result, s, context) := s.build w.context bodies
    let built := { w with context }.setSession slot s
    match result with
    | .error e => (some (.error e), built)
    | .ok r => (some (.ok r), built.setResources slot r)

/-! ## Writing uniforms -/

/-- What comes of writing a uniform. -/
inductive WriteOutcome where
  /-- the slot has no consolidated block of the stage -/
  | noBlock
  /-- the block has no such field -/
  | noField
  /-- the bytes do not fit -/
  | fault (fault : BufferFault)
  /-- the buffer after the write -/
  | done (buffer : Buffer)

/-- Write bytes from the start of a field of the consolidated block of a stage. -/
def writeUniform (w : Workspace) (slot : Nat) (stage : Stage) (name : String)
    (bytes : List UInt8) : WriteOutcome × Workspace :=
  match w.resources? slot with
  | none => (.noBlock, w)
  | some r =>
    match r.uniformBlock? stage with
    | none => (.noBlock, w)
    | some u =>
      match u.block.field? name with
      | none => (.noField, w)
      | some field =>
        match u.buffer.write field.offset bytes with
        | .error fault => (.fault fault, w)
        | .ok buffer =>
          (.done buffer,
            { w with resources := w.resources.insert slot (r.setUniforms stage buffer) })

/-! ## Runs -/

/-- One step in a workspace. -/
inductive Step where
  /-- begin a session -/
  | create (slot : Nat)
  /-- declare a batch -/
  | declare (slot : Nat) (batch : Declarations)
  /-- make a program -/
  | build (slot : Nat) (bodies : ProgramBodies)
  /-- release a session -/
  | release (slot : Nat)
  /-- remove a session -/
  | close (slot : Nat)
  /-- drop resources -/
  | dropResources (slot : Nat)

/-- The workspace after one step. -/
def act (w : Workspace) : Step → Workspace
  | .create slot => w.create slot
  | .declare slot batch => (w.declare slot batch).2
  | .build slot bodies => (w.build slot bodies).2
  | .release slot => w.release slot
  | .close slot => w.close slot
  | .dropResources slot => w.dropResources slot

/-- The workspace after a sequence of steps. -/
def run (w : Workspace) (steps : List Step) : Workspace := steps.foldl act w

end Workspace

end ShaderLoom
