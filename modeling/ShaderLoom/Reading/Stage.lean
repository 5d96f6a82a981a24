import ShaderLoom.Block
import ShaderLoom.Reflection
import ShaderLoom.Text.Lines
import ShaderLoom.Text.Numeral
import ShaderLoom.Text.Occurrence
import ShaderLoom.Text.WhiteSpace

/-!
# Reading the declarations of a stage

A program can be reflected without a graphics processor by reading the declarations in the text
of its stages. Declarations are found line by line: a line declares something when it consists
of at least a storage qualifier, a type and a name, after a layout qualifier at its start has
been taken off and qualifiers without effect have been left out. A block goes on to the line
that begins with its closing brace.

A declared variable counts as **used** when its name stands in the stage at least twice as a
whole word: once in the declaration and once elsewhere. A block is used when its instance name
is, or one of its fields if it has no instance name.
-/

namespace ShaderLoom.Reading

open Text

/-- What a line declares. -/
inductive DeclarationKind where
  /-- a plain uniform -/
  | uniform
  /-- a sampler or an image -/
  | sampler
  /-- a block -/
  | block (kind : BlockKind)
  /-- a vertex attribute that occupies so many locations -/
  | vertexAttribute (locations : Nat)
  deriving DecidableEq

/-- A declaration that was read. -/
structure Declaration where
  /-- the declared identifier -/
  name : String
  /-- what is declared -/
  kind : DeclarationKind
  /-- the location in the layout qualifier -/
  location : Option Nat
  /-- the binding in the layout qualifier -/
  binding : Option Nat
  /-- does the stage refer to it? -/
  used : Bool
  deriving DecidableEq

/-! ## Parts of a line -/

/-- The inside of the layout qualifier that the line starts with, and the rest of the line. -/
def splitLayout (line : Text) : Except CompileFault (Text × Text) :=
  match strip? "layout(".toList (trim line) with
  | none => .ok ([], trim line)
  | some after =>
    match cut? ')' after with
    | none => .error (.openLayout (String.ofList line))
    | some (qualifiers, rest) => .ok (qualifiers, trim rest)

/-- The text that a layout qualifier assigns to `key`: the first assignment counts. -/
def assigned? (key : String) (qualifiers : Text) : Option Text :=
  (separate ',' qualifiers).findSome? fun part =>
    match cut? '=' part with
    | some (left, right) => if trim left = key.toList then some (trim right) else none
    | none => none

/-- The number that a layout qualifier assigns to `key`, if it assigns any. -/
def qualifierValue (key : String) (qualifiers : Text) : Except CompileFault (Option Nat) :=
  match assigned? key qualifiers with
  | none => .ok none
  | some value =>
    match numeral? value with
    | some n => .ok (some n)
    | none => .error (.badQualifier key (String.ofList value))

/-- Qualifiers that do not change what is declared. -/
def ignoredWords : List String :=
  ["readonly", "writeonly", "highp", "mediump", "lowp", "flat", "smooth"]

/-- The words of a line that say what is declared. -/
def declarationWords (t : Text) : List Text :=
  (words t).filter fun word => !ignoredWords.contains (String.ofList word)

/-- A declared name without the semicolon and the array brackets behind it. -/
def bareName (word : Text) : Text := (dropEndWhile (· == ';') word).takeWhile (· != '[')

/-- What the first three words of a line declare, if anything. Only the vertex stage has
attributes. -/
def classify (vertex : Bool) (storage ty name : Text) : Option DeclarationKind :=
  let opensBlock := name = ['\x7b'] || ty.getLast? = some '\x7b'
  if opensBlock && (storage = "uniform".toList || storage = "buffer".toList) then
    some (.block (if storage = "buffer".toList then .storage else .uniform))
  else if storage = "uniform".toList then
    if ["sampler", "image", "__sampler"].any (·.toList.isPrefixOf ty) then some .sampler
    else some .uniform
  else if vertex && (storage = "in".toList || storage = "attribute".toList) then
    some (.vertexAttribute (if ty = "mat4".toList then 4 else 1))
  else none

/-! ## Blocks -/

/-- The lines of a block behind the one that opens it. -/
structure BlockBody where
  /-- the names of the fields -/
  fields : List Text
  /-- the instance name, empty if there is none -/
  instanceName : Text
  /-- the lines behind the block -/
  rest : List Text

/-- Add the field that a line of the block declares in its second word. -/
def BlockBody.addLine (line : Text) (body : BlockBody) : BlockBody :=
  match words line with
  | _ :: name :: _ => { body with fields := bareName name :: body.fields }
  | _ => body

/-- Read a block up to its closing brace. -/
def readBlock : List Text → Option BlockBody
  | [] => none
  | line :: rest =>
    match strip? ['\x7d'] (trim line) with
    | some after => some ⟨[], trim (dropEndWhile (· == ';') (trim after)), rest⟩
    | none => (readBlock rest).map (BlockBody.addLine (trim line))

/-- A block takes up lines. -/
theorem length_rest_of_readBlock {lines : List Text} {body : BlockBody}
    (h : readBlock lines = some body) : body.rest.length < lines.length := by
  induction lines generalizing body with
  | nil => simp [readBlock] at h
  | cons line rest ih =>
    unfold readBlock at h
    split at h
    · cases h
      simp
    · obtain ⟨inner, hi, rfl⟩ := Option.map_eq_some_iff.mp h
      have hr : (inner.addLine (trim line)).rest = inner.rest := by
        unfold BlockBody.addLine
        split <;> rfl
      have := ih hi
      rw [hr, List.length_cons]
      omega

/-! ## Stages -/

/-- Does a stage refer to what it declares under `name`? -/
def isUsed (source name : Text) : Bool := 1 < wholeWords name source

/-- Does a stage refer to a block? -/
def BlockBody.isUsed (source : Text) (body : BlockBody) : Bool :=
  if body.instanceName = [] then body.fields.any (Reading.isUsed source)
  else Reading.isUsed source body.instanceName

/-- Read the declarations in some lines of `source`. -/
def readLines (vertex : Bool) (source : Text) : List Text → Except CompileFault (List Declaration)
  | [] => .ok []
  | line :: rest => do
    let (qualifiers, text) ← splitLayout line
    match declarationWords text with
    | storage :: ty :: name :: _ =>
      let location ← qualifierValue "location" qualifiers
      let binding ← qualifierValue "binding" qualifiers
      match classify vertex storage ty name with
      | none => readLines vertex source rest
      | some (.block kind) =>
        match _h : readBlock rest with
        | none => .error (.openBlock (String.ofList ty))
        | some body =>
          let declaration :=
            { name := String.ofList (dropEndWhile (· == '\x7b') ty), kind := .block kind,
              location := none, binding, used := body.isUsed source }
          (readLines vertex source body.rest).map (declaration :: ·)
      | some kind =>
        let bare := bareName name
        let declaration :=
          { name := String.ofList bare, kind, location, binding, used := isUsed source bare }
        (readLines vertex source rest).map (declaration :: ·)
    | _ => readLines vertex source rest
termination_by lines => lines.length
decreasing_by
  all_goals
    first
    | have := length_rest_of_readBlock _h
      simp only [List.length_cons]
      omega
    | simp

/-- Read the declarations of a stage. -/
def readStage (vertex : Bool) (source : Text) : Except CompileFault (List Declaration) :=
  if !"#version".toList.isPrefixOf source then .error .missingVersion
  else if source.count '\x7b' ≠ source.count '\x7d' then .error .unbalancedBraces
  else readLines vertex source (lines source)

end ShaderLoom.Reading
