import ShaderLoom.Error
import ShaderLoom.Expansion
import ShaderLoom.Reflection
import ShaderLoom.Resource

/-!
# Resolving declarations

Resolving matches what the text of a program declares with what its compiler tells. An element
that the program does not use is left out; the others learn the location or binding they ended
up with.

* A uniform is kept when the compiler knows it.
* A block is kept when its binding is fixed by the text, or known to the compiler.
* A texture is looked up unless it has a location already, since a fixed binding does not show that
  the program uses it. The compiler fills in a binding only where the text fixes none.
* An attribute is kept when its location is fixed by the text, or when the compiler knows it.

Where the compiler tells nothing about a kind of variable, every element of the kind is kept;
only attributes cannot do without a location.
-/

namespace ShaderLoom

namespace Reflection

/-- The uniform in a program. -/
def resolveUniform? (r : Reflection) (u : BoundUniform) : Option BoundUniform :=
  match r.uniforms with
  | none => some { u with location := none }
  | some known => (known.find? u.name).map fun info => { u with location := info.location }

/-- The block in a program. -/
def resolveBuffer? (r : Reflection) (b : BoundBuffer) : Option BoundBuffer :=
  match b.binding, r.blocks with
  | some _, _ => some b
  | none, none => some b
  | none, some known =>
    ((known.find? b.name).bind Placement.binding).map fun binding =>
      { b with binding := some binding }

/-- The sampler or image in a program. It must end up with a location or a binding; one that has a
location is left as it is. -/
def resolveTexture? (r : Reflection) (t : BoundTexture) : Option BoundTexture :=
  match t.location, r.uniforms with
  | some _, _ => some t
  | none, none => some t
  | none, some known =>
    match known.find? t.name with
    | none => none
    | some info =>
      let binding := t.binding <|> info.binding
      if info.location.isNone && binding.isNone then none
      else some { t with location := info.location, binding }

/-- The attribute in a program. -/
def resolveAttribute? (r : Reflection) (a : BoundAttribute AttributeLocation) :
    Except Error (Option (BoundAttribute Nat)) :=
  match a.location with
  | .explicit location => .ok (some (a.place location))
  | .pending column =>
    match r.attributes with
    | none => .error (.unreflectedAttribute a.name)
    | some known =>
      match known.find? a.name with
      | none => .ok none
      | some info =>
        match info.location with
        | none => .error (.unplacedAttribute a.name)
        | some base => .ok (some (a.place (base + column)))

/-- The attributes in a program. The first one without a location is an error. -/
def resolveAttributes (r : Reflection) :
    List (BoundAttribute AttributeLocation) → Except Error (List (BoundAttribute Nat))
  | [] => .ok []
  | a :: rest => do
    let found ← r.resolveAttribute? a
    let others ← r.resolveAttributes rest
    pure (found.toList ++ others)

/-- The elements in a program. -/
def resolve (r : Reflection) (declared : Declared) : Except Error Resolved :=
  (r.resolveAttributes declared.attributes).map fun attributes =>
    { uniforms := declared.uniforms.filterMap r.resolveUniform?
      textures := declared.textures.filterMap r.resolveTexture?
      buffers := declared.buffers.filterMap r.resolveBuffer?
      attributes }

end Reflection

/-! ## Finding uniforms and texture fields again -/

/-- The consolidated block of a stage. -/
def uniformBlock? (blocks : List UniformBlock) (stage : Stage) : Option UniformBlock :=
  blocks.find? (·.stage = stage)

/-- Where a plain uniform ended up: in the consolidated block of its stage, or among the loose
uniforms. -/
def locateUniform? (uniforms : List BoundUniform) (blocks : List UniformBlock) (name : String)
    (stage : Stage) : Option ResourceIndex :=
  match (uniformBlock? blocks stage).bind (·.block.position? name) with
  | some field => some (.blockField stage field)
  | none => (uniforms.findIdx? fun u => u.name = name ∧ u.stage = stage).map .uniform

/-- Where a sampler or image ended up. -/
def locateTexture? (textures : List BoundTexture) (name : String) (stage : Stage) :
    Option ResourceIndex :=
  (textures.findIdx? fun t => t.name = name ∧ t.stage = stage).map .texture

/-- Tell a field of a texture where it ended up. -/
def ExpandedField.resolve (p : Resolved) (blocks : List UniformBlock) (f : ExpandedField) :
    ExpandedField :=
  { f with
    index :=
      if f.ty.isOpaque then locateTexture? p.textures f.name f.stage
      else locateUniform? p.uniforms blocks f.name f.stage }

/-- Tell all fields of a texture where they ended up. -/
def ExpandedTexture.resolve (p : Resolved) (blocks : List UniformBlock) (t : ExpandedTexture) :
    ExpandedTexture :=
  { t with fields := t.fields.map (ExpandedField.resolve p blocks) }

end ShaderLoom
