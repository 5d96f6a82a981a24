import ShaderLoom.Cursor.Call
import ShaderLoom.Cursor.Search
import ShaderLoom.Intrinsic.Lowering

/-!
# Lowering in place

The call sites are searched for once, in the whole text. `rewriteSites` goes through them from left
to right. A cursor tells how far the text has been dealt with; call sites in front of it were lowered
as parts of another call. The parts of a call are slices, which are lowered in the same way with the
call sites that lie in them, whose offsets still count from the start of the whole text.
-/

namespace ShaderLoom.Cursor

open Text

/-- The number of call sites up to the first one that does not satisfy `p`. -/
def partitionPoint (p : CallSite → Bool) (sites : List CallSite) : Nat :=
  (sites.takeWhile p).length

/-- The call sites, in ascending order, that lie in a part of the text. -/
def within (sites : List CallSite) (span : Span) : Checked (List CallSite) :=
  let first := partitionPoint (fun site => site.offset < span.start) sites
  let last := partitionPoint (fun site => site.offset < span.stop) sites
  if first ≤ last then .ok ((sites.take last).drop first)
  else .error (.misstep (.slice first last))

/-- What replaces the part of the text that a call takes up. -/
def replacement (d : Dialect) (f : Intrinsic) (texture : Text) (coordinates? : Option Text) :
    Checked Text :=
  match coordinates?, f.internalName? with
  | some coordinates, _ =>
    .ok (renderPieces (d.frames.samplePieces (f = .sampleVideoFast) d.rg) texture coordinates)
  | none, some internal => .ok (internal.toList ++ '(' :: (texture ++ "_sampler".toList))
  | none, none => .error (.misstep (.unreplaced f))

/-- Replace one call, after its parts have been lowered by `part`. -/
def replaceCall (d : Dialect) (part : Span → Checked Lowered) (f : Intrinsic) (call : CallSpans) :
    Checked Lowered := do
  let texture ← part call.texture
  let coordinates? ← call.coordinates?.mapM part
  let replaced ← replacement d f texture.text (coordinates?.map Lowered.text)
  pure ⟨replaced, texture.calls + coordinates?.elim 0 Lowered.calls + 1⟩

/-- Replace the calls at the given sites in the text from the cursor on. The offsets of the sites
count from `base` bytes in front of the text, and `part` lowers the parts of a call. -/
def rewriteSites (d : Dialect) (part : Span → Checked Lowered) (t : Text) (base cursor : Nat) :
    List CallSite → Checked Lowered
  | [] => (behind t cursor).map fun tail => ⟨tail, 0⟩
  | site :: sites => do
    let offset ← difference site.offset base
    if offset < cursor then rewriteSites d part t base cursor sites
    else do
      let untouched ← slice t cursor offset
      let call ← callSpans t offset site.intrinsic
      let replaced ← replaceCall d part site.intrinsic call
      let rest ← rewriteSites d part t base call.stop sites
      pure ⟨untouched ++ (replaced.text ++ rest.text), replaced.calls + rest.calls⟩

/-- Replace the calls at the given sites in a text that begins `base` bytes into the whole. -/
def rewrite (d : Dialect) (t : Text) (base : Nat) (sites : List CallSite) : Checked Lowered :=
  rewriteSites d (fun span => do
    let part ← slice t span.start span.stop
    let inner ← within sites ⟨base + span.start, base + span.stop⟩
    if _h : part.length < t.length then rewrite d part (base + span.start) inner
    else .error (.misstep .standstill)) t base 0 sites
termination_by t.length

/-- What becomes of a text. -/
structure Rewritten where
  /-- the lowered text, with the number of calls replaced -/
  lowered : Lowered
  /-- the number of call sites that were found -/
  scanned : Nat
  deriving DecidableEq

/-- Replace every call of an intrinsic, in place. -/
def preprocess (d : Dialect) (t : Text) : Checked Rewritten := do
  let sites ← search t
  let lowered ← rewrite d t 0 sites
  pure ⟨lowered, sites.length⟩

end ShaderLoom.Cursor
