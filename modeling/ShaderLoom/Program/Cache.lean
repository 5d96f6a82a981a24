import ShaderLoom.Program.Basic
import ShaderLoom.Text.Quoted

/-!
# The program cache

Sessions that assemble the same texts share one program. The cache hands out **handles** on
programs, and compiles a program only when its key is not cached.

A handle is held outside the cache until it is released or dropped. Handles are counted by the
identities of their programs. Releasing a handle removes its program from the cache when no
other handle is left; dropping a handle tells the cache nothing, and leaves its program there.
-/

namespace ShaderLoom

/-- Cached programs and the handles on programs that are held outside the cache. -/
structure Cache where
  /-- makes the programs -/
  compiler : Compiler
  /-- the cached programs -/
  programs : List Program := []
  /-- the identity of the program behind each handle -/
  handles : List Nat := []
  /-- calls of the compiler so far; the next program is identified by this number -/
  compiles : Nat := 0

namespace Cache

/-- The cached program of a key. -/
def find? (c : Cache) (key : String) : Option Program := c.programs.find? (·.key = key)

/-- The number of cached programs. -/
def size (c : Cache) : Nat := c.programs.length

/-- Hand out a handle. -/
def hold (c : Cache) (p : Program) : Cache :=
  { c with handles := p.id :: c.handles }

/-- Forget a handle. -/
def drop (c : Cache) (p : Program) : Cache :=
  { c with handles := c.handles.erase p.id }

/-- Remove the program of a key. -/
def evict (c : Cache) (key : String) : Cache :=
  { c with programs := c.programs.filter (·.key ≠ key) }

/-- Hand out a handle on the program made of `texts`, compiling it if it is not cached. -/
def get (c : Cache) (texts : StageTexts) : Except CompileFault Program × Cache :=
  match c.find? texts.key with
  | some p => (.ok p, c.hold p)
  | none =>
    let called := { c with compiles := c.compiles + 1 }
    match c.compiler.compile texts with
    | .error fault => (.error fault, called)
    | .ok reflection =>
      let p : Program := ⟨c.compiles, texts, reflection⟩
      (.ok p, { called with programs := c.programs ++ [p] }.hold p)

/-- Give a handle back. The program cached under its key is removed unless a handle on that
program is left. -/
def release (c : Cache) (p : Program) : Cache :=
  let dropped := c.drop p
  match dropped.find? p.key with
  | some cached => if cached.id ∈ dropped.handles then dropped else dropped.evict p.key
  | none => dropped

/-- A one-line description of a cache. -/
def describe (c : Cache) : String :=
  let name := Text.quoted c.compiler.name
  s!"ProgramCache \x7b compiler: {name}, programs: {c.size} \x7d"

end Cache

end ShaderLoom
