import ShaderLoom.Program.Cache
import ShaderLoom.Table

/-!
# Holders of programs

Named holders that share a cache, each with at most one handle. `Holders.run` carries out any
sequence of requests, clones, releases and drops.
-/

namespace ShaderLoom

/-- A cache and the handles that named holders have. -/
structure Holders where
  /-- the cache -/
  cache : Cache
  /-- what each holder holds -/
  held : Table String Program := []

namespace Holders

/-- Let `holder` hold `p`, of which a handle has already been handed out. What it held before is
dropped. -/
def store (h : Holders) (holder : String) (p : Program) : Holders where
  cache :=
    match h.held.find? holder with
    | some old => h.cache.drop old
    | none => h.cache
  held := h.held.insert holder p

/-- The names of the holders of a program, in order. -/
def holdersOf (h : Holders) (p : Program) : List String :=
  ((h.held.filter (·.2.id = p.id)).map Prod.fst).mergeSort fun a b => !(b < a)

/-- Request a program for `holder`. -/
def get (h : Holders) (holder : String) (texts : StageTexts) :
    Except CompileFault Program × Holders :=
  match h.cache.get texts with
  | (.error fault, cache) => (.error fault, { h with cache })
  | (.ok p, cache) => (.ok p, { h with cache }.store holder p)

/-- Let `target` hold what `holder` holds. Says whether `holder` holds anything. -/
def clone (h : Holders) (holder target : String) : Bool × Holders :=
  match h.held.find? holder with
  | none => (false, h)
  | some p => (true, { h with cache := h.cache.hold p }.store target p)

/-- Give back what `holder` holds. Says whether it holds anything. -/
def release (h : Holders) (holder : String) : Bool × Holders :=
  match h.held.find? holder with
  | none => (false, h)
  | some p => (true, ⟨h.cache.release p, h.held.erase holder⟩)

/-- Drop what `holder` holds. Says whether it holds anything. -/
def drop (h : Holders) (holder : String) : Bool × Holders :=
  match h.held.find? holder with
  | none => (false, h)
  | some p => (true, ⟨h.cache.drop p, h.held.erase holder⟩)

/-! ## Runs -/

/-- One thing that a holder does. -/
inductive Action where
  /-- request a program -/
  | get (holder : String) (texts : StageTexts)
  /-- pass a handle on -/
  | clone (holder target : String)
  /-- give a handle back -/
  | release (holder : String)
  /-- drop a handle -/
  | drop (holder : String)

/-- The holders after one action. -/
def act (h : Holders) : Action → Holders
  | .get holder texts => (h.get holder texts).2
  | .clone holder target => (h.clone holder target).2
  | .release holder => (h.release holder).2
  | .drop holder => (h.drop holder).2

/-- The holders after a sequence of actions. -/
def run (h : Holders) (actions : List Action) : Holders := actions.foldl act h

end Holders

end ShaderLoom
