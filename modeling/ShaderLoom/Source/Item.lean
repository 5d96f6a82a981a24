import ShaderLoom.Binding
import ShaderLoom.Declaration
import ShaderLoom.Resource

/-!
# Items of a stage

An item is one declaration in the text of a stage, kept as data. The same item says two things:

* `Item.render` is the text of the declaration;
* `Item.elements` and `Item.uniformBlock?` are what the declaration registers with the program.

So the numbers in the text and the numbers that are registered are the same by construction.
-/

namespace ShaderLoom

/-! ## Parts of declarations -/

/-- The layout qualifier that fixes a location, if there is one to fix. -/
def locationLayout : Option Nat → String
  | none => ""
  | some location => s!"layout(location={location}) "

/-- The brackets behind the name of an array; none for a single value. -/
def arrayBrackets (count : Nat) : String := if count = 0 then "" else s!"[{count}]"

/-- How a storage image is declared. -/
structure ImageAccess where
  /-- the qualifier of the format -/
  format : String
  /-- is the image written instead of read? -/
  writable : Bool
  deriving DecidableEq

/-- The qualifiers of a sampler (`image = none`) or of a storage image. -/
def opaqueLayout (image : Option ImageAccess) (binding : Option Nat) : String :=
  match image, binding with
  | none, none => ""
  | none, some binding => s!"layout(binding={binding}) "
  | some access, binding =>
    let bound := match binding with
      | none => ""
      | some binding => s!", binding={binding}"
    let direction := if access.writable then "writeonly" else "readonly"
    s!"layout({access.format}{bound}) {direction} "

/-- The fields of a block. With `openEnded`, the last one is an array of open length. -/
def renderFields (openEnded : Bool) : List BlockField → String
  | [] => ""
  | [f] =>
    let brackets := if openEnded then "[]" else arrayBrackets f.count
    s!"    {f.ty.keyword} {f.name}{brackets};\n"
  | f :: rest => s!"    {f.ty.keyword} {f.name}{arrayBrackets f.count};\n" ++ renderFields openEnded rest

/-! ## Items -/

/-- A declaration in the text of a stage. -/
inductive Item where
  /-- the color output of a fragment stage, an array when there are several colors -/
  | colorOutput (location : Option Nat) (colors : Nat)
  /-- a variable between the stages -/
  | varying (qualifier : String) (location : Option Nat) (v : VaryingDecl)
  /-- a loose uniform -/
  | uniform (precision : String) (u : UniformDecl)
  /-- a sampler or image -/
  | opaqueUniform (precision : String) (image : Option ImageAccess) (t : BoundTexture)
  /-- a block declared by the caller -/
  | block (declaration : BlockDecl) (binding : Option Nat)
  /-- the block of the plain uniforms of a stage -/
  | uniformBlock (u : UniformBlock) (binding : Option Nat)
  /-- a vertex attribute -/
  | vertexAttribute (qualifier precision : String) (location : Option Nat) (a : AttributeDecl)

/-- The identifier of a block declared by the caller. -/
def BlockDecl.identifier (b : BlockDecl) : String := s!"{b.name}_block"

/-- The instance name of a block declared by the caller. -/
def BlockDecl.instanceIdentifier (b : BlockDecl) : String := b.instanceName.getD b.name

/-- The identifier of the block of the plain uniforms of a stage. -/
def Stage.uniformBlockName (s : Stage) : String := s!"ngl_{s.abbreviation}_block"

/-- The text of a block. -/
def renderBlock (name instanceName : String) (b : Block) (binding : Option Nat) (openEnded : Bool) :
    String :=
  let bound := match binding with
    | none => ""
    | some binding => s!",binding={binding}"
  s!"layout({b.packing.qualifier}{bound}) {b.kind.type.keyword} {name} \x7b\n" ++
    renderFields openEnded b.fields ++ s!"\x7d {instanceName};\n"

namespace Item

/-- The text of a declaration, up to and including the end of its last line. -/
def render : Item → String
  | .colorOutput location colors =>
    let brackets := if 1 < colors then arrayBrackets colors else ""
    s!"{locationLayout location}out vec4 ngl_out_color{brackets};\n"
  | .varying qualifier location v =>
    s!"{locationLayout location}{qualifier} {v.ty.keyword} {v.name};\n"
  | .uniform precision u =>
    s!"uniform {precision}{u.ty.keyword} {u.name}{arrayBrackets u.count};\n"
  | .opaqueUniform precision image t =>
    s!"{opaqueLayout image t.binding}uniform {precision}{t.ty.keyword} {t.name};\n"
  | .block declaration binding =>
    renderBlock declaration.identifier declaration.instanceIdentifier declaration.block binding
      declaration.variadic
  | .uniformBlock u binding => renderBlock u.stage.uniformBlockName "" u.block binding false
  | .vertexAttribute qualifier precision location a =>
    s!"{locationLayout location}{qualifier} {precision}{a.ty.keyword} {a.name};\n"

/-! ## Registered elements -/

/-- One entry for each location of an attribute that reads a buffer. -/
def attributeElements (location : Option Nat) (a : AttributeDecl) :
    List (BoundAttribute AttributeLocation) :=
  match a.buffer with
  | none => []
  | some buffer =>
    (List.range a.ty.locations).map fun column =>
      { name := a.name
        location := match location with
          | some base => .explicit (base + column)
          | none => .pending column
        format := a.format
        stride := a.stride
        offset := a.offset + column * a.format.bytes
        rate := a.rate
        buffer }

/-- What a declaration registers. -/
def elements : Item → Declared
  | .colorOutput .. | .varying .. => {}
  | .uniform _ u =>
    { uniforms := [{ name := u.name, ty := u.ty, stage := u.stage, count := max u.count 1 }] }
  | .opaqueUniform _ _ t => { textures := [t] }
  | .block declaration binding =>
    { buffers :=
      [{ name := declaration.identifier, kind := declaration.block.kind,
         stage := declaration.stage, binding, buffer := declaration.buffer }] }
  | .uniformBlock u binding =>
    { buffers :=
      [{ name := u.stage.uniformBlockName, kind := u.block.kind, stage := u.stage, binding,
         buffer := some u.buffer.spec }] }
  | .vertexAttribute _ _ location a => { attributes := attributeElements location a }

/-- The block of plain uniforms that the declaration is, if it is one. -/
def uniformBlock? : Item → Option UniformBlock
  | .uniformBlock u _ => some u
  | _ => none

end Item

/-- What the declarations of a program register, kind by kind. -/
def Declared.ofItems (items : List Item) : Declared where
  uniforms := items.flatMap (·.elements.uniforms)
  textures := items.flatMap (·.elements.textures)
  buffers := items.flatMap (·.elements.buffers)
  attributes := items.flatMap (·.elements.attributes)

end ShaderLoom
