import ShaderLoom.Error
import ShaderLoom.Expansion
import ShaderLoom.Source.Item

/-!
# Drafting the declarations of a stage

The items of a stage are drafted in a fixed order: the color output, the variables between the
stages, loose uniforms, the fields of textures, blocks, attributes, and last the block of plain
uniforms. Bindings and locations are handed out in that order.

Where a dialect consolidates plain uniforms, they are not declared one by one. They gather in
the **pool** of the draft, and `Draft.closePool` declares the pool as one block.
-/

namespace ShaderLoom

/-- The precision qualifier of a declaration, with the blank behind it. Booleans have none. -/
def Dialect.precisionQualifier (d : Dialect) (ty : ShaderType) (wish fallback : Precision) :
    String :=
  if d.hasPrecision && ty ≠ .bool then
    match (wish.resolve fallback).qualifier? with
    | some qualifier => s!"{qualifier} "
    | none => ""
  else ""

/-- The qualifier of a variable between the stages. -/
def Dialect.varyingQualifier (d : Dialect) (stage : Stage) : String :=
  if d.hasInOut then (if stage = .vertex then "out" else "in") else "varying"

/-- A stage in the making. -/
structure Draft where
  /-- the numbers that are still free -/
  allocator : Allocator
  /-- the plain uniforms gathered so far -/
  pool : Block
  /-- the items declared so far -/
  items : List Item

namespace Draft

/-- Nothing has been declared. -/
def start (a : Allocator) : Draft := ⟨a, Block.empty .std140 .uniform, []⟩

/-- Declare one more item. -/
def push (draft : Draft) (item : Item) : Draft := { draft with items := draft.items ++ [item] }

/-- Take over the allocator after a request. -/
def advanced (draft : Draft) (a : Allocator) : Draft := { draft with allocator := a }

/-! ## Items that always succeed -/

/-- Declare the color output, if it is a variable in the dialect. -/
def addColorOutput (d : Dialect) (colors : Nat) (draft : Draft) : Draft :=
  if d.hasInOut then
    let (location, a) := draft.allocator.output d .fragment (max colors 1)
    (draft.advanced a).push (.colorOutput location colors)
  else draft

/-- Declare a variable between the stages: the vertex stage puts it out, the other stage takes it
in. -/
def addVarying (d : Dialect) (stage : Stage) (draft : Draft) (v : VaryingDecl) : Draft :=
  let (location, a) :=
    if stage = .vertex then draft.allocator.output d stage v.ty.locations
    else draft.allocator.input d stage v.ty.locations
  (draft.advanced a).push (.varying (d.varyingQualifier stage) location v)

/-- Declare a block. -/
def addBlock (d : Dialect) (draft : Draft) (b : BlockDecl) : Draft :=
  let (binding, a) := draft.allocator.binding d b.stage (.ofBlock b.block.kind)
  (draft.advanced a).push (.block b binding)

/-- Declare a vertex attribute. -/
def addAttribute (d : Dialect) (draft : Draft) (attr : AttributeDecl) : Draft :=
  let (location, a) := draft.allocator.input d .vertex attr.ty.locations
  let precision := d.precisionQualifier attr.ty attr.precision .high
  (draft.advanced a).push (.vertexAttribute d.inputQualifier precision location attr)

/-! ## Items that may fail -/

/-- Declare a loose uniform, or put it into the pool. -/
def addUniform (d : Dialect) (draft : Draft) (u : UniformDecl) : Except Error Draft :=
  if u.ty.isBlock then .error (.uniformOfBlockType u.name u.ty)
  else if d.consolidatesUniforms && !u.ty.isOpaque then
    match draft.pool.extend u.name u.ty u.count with
    | .error fault => .error (.block fault)
    | .ok pool => .ok { draft with pool }
  else .ok (draft.push (.uniform (d.precisionQualifier u.ty u.precision .high) u))

/-- How the image of a texture is declared; nothing for textures that are sampled. -/
def imageAccess (t : ExpandedTexture) : Except Error (Option ImageAccess) :=
  if t.kind = .image then
    match t.format with
    | none => .error (.imageWithoutFormat t.name)
    | some format =>
      match format.imageQualifier? with
      | none => .error (.imageFormat t.name format)
      | some qualifier => .ok (some ⟨qualifier, t.writable⟩)
  else .ok none

/-- Declare a sampler or an image. -/
def addOpaque (d : Dialect) (t : ExpandedTexture) (draft : Draft) (f : ExpandedField) :
    Except Error Draft :=
  match imageAccess t with
  | .error e => .error e
  | .ok image =>
    let (binding, a) := draft.allocator.binding d f.stage .texture
    let precision := d.precisionQualifier f.ty t.precision .low
    let element : BoundTexture :=
      { name := f.name, ty := f.ty, stage := f.stage, binding, texture := t.texture }
    .ok ((draft.advanced a).push (.opaqueUniform precision image element))

/-- Declare a field of a texture. -/
def addTextureField (d : Dialect) (t : ExpandedTexture) (draft : Draft) (f : ExpandedField) :
    Except Error Draft :=
  if f.ty.isOpaque then draft.addOpaque d t f
  else draft.addUniform d { name := f.name, ty := f.ty, stage := f.stage }

/-- Declare the fields of a texture that belong to a stage. -/
def addTexture (d : Dialect) (stage : Stage) (draft : Draft) (t : ExpandedTexture) :
    Except Error Draft :=
  (t.fields.filter (·.stage = stage)).foldlM (addTextureField d t) draft

/-- The buffer behind the pool of a stage. -/
def poolBuffer (stage : Stage) (pool : Block) : BufferSpec where
  size := pool.size
  usage := { uniform := true, dynamic := true }
  label := some stage.uniformBlockName

/-- Declare the pool, unless it is empty. -/
def closePool (d : Dialect) (stage : Stage) (draft : Draft) : Except Error Draft :=
  if draft.pool.isEmpty then .ok draft
  else
    match Buffer.create (poolBuffer stage draft.pool) with
    | .error fault => .error (.buffer fault)
    | .ok buffer =>
      let (binding, a) := draft.allocator.binding d stage .uniformBlock
      .ok ((draft.advanced a).push (.uniformBlock ⟨stage, draft.pool, buffer⟩ binding))

end Draft

/-! ## Whole stages -/

/-- Draft the declarations of a stage. `colors` counts the color outputs of a fragment stage. -/
def draftStage (d : Dialect) (decls : Declarations) (textures : List ExpandedTexture)
    (stage : Stage) (colors : Nat) (a : Allocator) : Except Error Draft := do
  let draft := Draft.start a
  let draft := if stage = .fragment then draft.addColorOutput d colors else draft
  let draft :=
    if stage = .compute then draft else decls.varyings.foldl (Draft.addVarying d stage) draft
  let draft ← (decls.uniforms.filter (·.stage = stage)).foldlM (Draft.addUniform d) draft
  let draft ← textures.foldlM (Draft.addTexture d stage) draft
  let draft := (decls.blocks.filter (·.stage = stage)).foldl (Draft.addBlock d) draft
  let draft :=
    if stage = .vertex then decls.attributes.foldl (Draft.addAttribute d) draft else draft
  draft.closePool d stage

end ShaderLoom
