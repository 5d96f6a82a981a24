import ShaderLoom.Proofs.Source.Lane

/-!
# Room for the columns of a matrix

A variable at the border of a stage takes one location for each of its columns, but a matrix of
three columns is said to span one location only. So the columns of a lane are apart exactly when
nothing comes behind such a matrix (**`columnsApart_placeFrom_iff`**), and an attribute with a
buffer registers an entry for each of its columns exactly when it is none
(**`registersColumns_iff`**).
-/

namespace ShaderLoom

open Text Reading

variable {α : Type} {decls : Declarations} {textures : List ExpandedTexture} {colors : Nat}

/-! ## Columns -/

namespace ShaderType

/-- The columns of a type: a variable at the border of a stage takes one location for each. -/
def columns : ShaderType → Nat
  | .mat3 => 3
  | .mat4 => 4
  | _ => 1

theorem columns_pos (ty : ShaderType) : 0 < ty.columns := by
  cases ty <;> decide

/-- A matrix of three columns is the only type that is said to span too few locations. -/
theorem locations_eq_columns_iff {ty : ShaderType} : ty.locations = ty.columns ↔ ty ≠ .mat3 := by
  cases ty <;> decide

end ShaderType

/-- The locations of the columns of a variable: side by side, from where it begins. -/
def columnLocations (ty : ShaderType) (first : Option Nat) : List Nat :=
  first.elim [] fun first => List.range' first ty.columns

theorem mem_columnLocations {ty : ShaderType} {first n : Nat} :
    n ∈ columnLocations ty (some first) ↔ first ≤ n ∧ n < first + ty.columns :=
  List.mem_range'_1

section

variable {ty : α → ShaderType} {next : Nat} {x : α} {xs : List α}

/-- No location belongs to two variables. -/
def ColumnsApart (ty : α → ShaderType) (ps : List (α × Option Nat)) : Prop :=
  ps.Pairwise fun p q => (columnLocations (ty p.1) p.2).Disjoint (columnLocations (ty q.1) q.2)

/-- A variable is apart from what follows it if its columns are what it is said to span: if there
are more, the next variable begins in the second one. -/
theorem forall_disjoint_placeFrom_iff {y : α} :
    (∀ q ∈ placeFrom ty (next + (ty x).locations) (y :: xs),
      (columnLocations (ty x) (some next)).Disjoint (columnLocations (ty q.1) q.2)) ↔
        ty x ≠ .mat3 := by
  constructor
  · intro h hmatrix
    have hy := h _ (List.mem_cons_self ..)
    rw [hmatrix] at hy
    refine hy (mem_columnLocations.mpr ⟨Nat.le_add_right next 1, ?_⟩)
      (mem_columnLocations.mpr ⟨Nat.le_refl _, Nat.lt_add_of_pos_right (ty y).columns_pos⟩)
    exact Nat.add_lt_add_left (by decide) next
  · intro hne q hq n hn hn'
    obtain ⟨first, hfirst, hle⟩ := exists_of_mem_placeFrom hq
    rw [ShaderType.locations_eq_columns_iff.mpr hne] at hle
    rw [hfirst, mem_columnLocations] at hn'
    have hbelow := (mem_columnLocations.mp hn).2
    omega

/-- **Variables behind one another have their columns apart** exactly when nothing comes behind a
matrix of three columns. -/
theorem columnsApart_placeFrom_iff :
    ColumnsApart ty (placeFrom ty next xs) ↔ ∀ x ∈ xs.dropLast, ty x ≠ .mat3 := by
  induction xs generalizing next with
  | nil => exact iff_of_true .nil fun x hx => absurd hx List.not_mem_nil
  | cons x xs ih =>
    rw [ColumnsApart, placeFrom, List.pairwise_cons]
    cases xs with
    | nil =>
      exact iff_of_true ⟨fun q hq => absurd hq List.not_mem_nil, .nil⟩
        fun x hx => absurd hx List.not_mem_nil
    | cons y ys =>
      have hrest : List.Pairwise _ (placeFrom ty (next + (ty x).locations) (y :: ys)) ↔ _ := ih
      rw [forall_disjoint_placeFrom_iff, hrest, List.dropLast_cons_cons, List.forall_mem_cons]

end

/-! ## Programs -/

section

variable {target : Target} {vertexBody fragmentBody : String} {program : Assembly}

/-- What an attribute with a fixed location registers is one entry for each column, unless it is a
matrix of three columns. -/
theorem attributeElements_eq_iff {x : AttributeDecl} {first : Nat}
    (hbuffer : x.buffer.isSome = true) :
    (Item.attributeElements (some first) x).map (fun e => (e.name, e.location)) =
        (columnLocations x.ty (some first)).map (fun n => (x.name, .explicit n)) ↔
      x.ty ≠ .mat3 := by
  obtain ⟨buffer, hbuffer⟩ := Option.isSome_iff_exists.mp hbuffer
  have helements : (Item.attributeElements (some first) x).map (fun e => (e.name, e.location)) =
      (List.range' first x.ty.locations).map fun n => (x.name, .explicit n) := by
    rw [Item.attributeElements, hbuffer, List.range'_eq_map_range, List.map_map, List.map_map]
    rfl
  rw [helements, ← ShaderType.locations_eq_columns_iff]
  constructor
  · intro h
    simpa [columnLocations] using congrArg List.length h
  · intro h
    rw [h]
    rfl

/-- Every attribute with a buffer registers one entry for each of its columns. -/
def Assembly.RegistersColumns (program : Assembly) : Prop :=
  ∀ item ∈ program.items, ∀ p ∈ Lane.attributes.item? item, p.1.buffer.isSome = true →
    item.elements.attributes.map (fun e => (e.name, e.location)) =
      (columnLocations p.1.ty p.2).map fun n => (p.1.name, .explicit n)

/-- **All columns are registered** exactly when no matrix of three columns reads a buffer. -/
theorem registersColumns_iff (h : Lane.attributes.IsPlaced decls.attributes program) :
    program.RegistersColumns ↔
      ∀ x ∈ decls.attributes, x.buffer.isSome = true → x.ty ≠ .mat3 := by
  have hregisters : ∀ {item p}, item ∈ program.items → Lane.attributes.item? item = some p →
      p.1.buffer.isSome = true →
      (item.elements.attributes.map (fun e => (e.name, e.location)) =
        (columnLocations p.1.ty p.2).map (fun n => (p.1.name, .explicit n)) ↔ p.1.ty ≠ .mat3) := by
    intro item p hitem hp hbuffer
    obtain ⟨first, -, hfirst, -⟩ := h.written p (List.mem_filterMap.mpr ⟨item, hitem, hp⟩)
    cases item with
    | vertexAttribute qualifier precision location x =>
      cases hp
      obtain rfl : location = some first := hfirst
      exact attributeElements_eq_iff hbuffer
    | colorOutput | varying | uniform | opaqueUniform | block | uniformBlock => cases hp
  have hdeclared : (Lane.attributes.among program.items).map Prod.fst = decls.attributes := by
    rw [h.among, map_fst_placeFrom]
  rw [← hdeclared]
  constructor
  · intro hcolumns x hx hbuffer
    obtain ⟨p, hp, rfl⟩ := List.mem_map.mp hx
    obtain ⟨item, hitem, hp⟩ := List.mem_filterMap.mp hp
    exact (hregisters hitem hp hbuffer).mp (hcolumns item hitem p hp hbuffer)
  · intro hne item hitem p hp hbuffer
    exact (hregisters hitem hp hbuffer).mpr
      (hne p.1 (List.mem_map_of_mem (List.mem_filterMap.mpr ⟨item, hitem, hp⟩)) hbuffer)

/-- **Every column has room**: no two variables of a lane have a location in common, and every
attribute with a buffer registers one entry for each of its columns. -/
structure Assembly.HasRoom (program : Assembly) : Prop where
  /-- what the vertex stage takes in -/
  attributes : ColumnsApart (·.ty) (Lane.attributes.among program.items)
  /-- what the vertex stage puts out -/
  outputs : ColumnsApart (·.ty) (Lane.outputs.among program.items)
  /-- what the fragment stage takes in -/
  inputs : ColumnsApart (·.ty) (Lane.inputs.among program.items)
  /-- what is registered -/
  entries : program.RegistersColumns

/-- Nothing comes behind a matrix of three columns, and none of them reads a buffer. -/
structure Declarations.LeavesRoom (decls : Declarations) : Prop where
  /-- attributes that others follow -/
  attributes : ∀ x ∈ decls.attributes.dropLast, x.ty ≠ .mat3
  /-- variables between the stages that others follow -/
  varyings : ∀ v ∈ decls.varyings.dropLast, v.ty ≠ .mat3
  /-- attributes with a buffer -/
  buffers : ∀ x ∈ decls.attributes, x.buffer.isSome = true → x.ty ≠ .mat3

/-- **Room for columns**: on Vulkan, a graphics program declares its attributes and the variables
between its stages at locations behind one another, and every column has room exactly when nothing
comes behind a matrix of three columns and none of them reads a buffer. -/
theorem assemble_hasRoom_iff (hapi : target.api = .vulkan)
    (h : assemble target.dialect decls textures (.graphics vertexBody fragmentBody colors) =
      .ok program) :
    (Lane.attributes.IsPlaced decls.attributes program ∧
      Lane.outputs.IsPlaced decls.varyings program ∧
      Lane.inputs.IsPlaced decls.varyings program) ∧
    (program.HasRoom ↔ decls.LeavesRoom) := by
  obtain ⟨hattributes, houtputs, hinputs⟩ :=
    isPlaced_of_assemble (Target.fixesLocations_dialect hapi) h
  have hentries := registersColumns_iff hattributes
  have hattributesApart := @columnsApart_placeFrom_iff _ (AttributeDecl.ty) 0 decls.attributes
  have hvaryingsApart := @columnsApart_placeFrom_iff _ (VaryingDecl.ty) 0 decls.varyings
  refine ⟨⟨hattributes, houtputs, hinputs⟩, fun hroom => ⟨?_, ?_, hentries.mp hroom.entries⟩,
    fun hroom => ⟨?_, ?_, ?_, hentries.mpr hroom.buffers⟩⟩
  · exact hattributesApart.mp (hattributes.among ▸ hroom.attributes)
  · exact hvaryingsApart.mp (houtputs.among ▸ hroom.outputs)
  · rw [hattributes.among]
    exact hattributesApart.mpr hroom.attributes
  · rw [houtputs.among]
    exact hvaryingsApart.mpr hroom.varyings
  · rw [hinputs.among]
    exact hvaryingsApart.mpr hroom.varyings

end

/-! ## Matrices of three columns -/

/-- Matrices of three columns that nothing follows. -/
def roomyDeclarations : Declarations where
  attributes :=
    [{ name := "model", ty := .mat4, format := .rgba32Float, buffer := some { size := 256 } },
      { name := "uv", ty := .vec2, format := .rg32Float, buffer := some { size := 256 } },
      { name := "normal", ty := .mat3, format := .rgb32Float }]
  varyings := [{ name := "frame", ty := .mat4 }, { name := "basis", ty := .mat3 }]

/-- The last matrices have room for three columns. -/
theorem assemble_hasRoom_iff_last :
    let target : Target := { api := .vulkan, version := 0 }
    target.api = .vulkan ∧
      ∃ program, assemble target.dialect roomyDeclarations [] (.graphics "" "" 1) = .ok program ∧
        program.HasRoom ∧
        (Lane.attributes.among program.items).map (fun p => (p.1.name, p.2)) =
          [("model", some 0), ("uv", some 4), ("normal", some 5)] ∧
        (Lane.inputs.among program.items).map (fun p => (p.1.name, p.2)) =
          [("frame", some 0), ("basis", some 4)] := by
  intro target
  obtain ⟨program, hprogram⟩ : ∃ program, assemble target.dialect roomyDeclarations []
      (.graphics "" "" 1) = .ok program := exists_eq_ok_of_isOk (by decide +kernel)
  have hapi : target.api = .vulkan := rfl
  obtain ⟨⟨hattributes, -, hinputs⟩, hroom⟩ := assemble_hasRoom_iff hapi hprogram
  refine ⟨hapi, program, hprogram, hroom.mpr ⟨by decide, by decide, by decide⟩, ?_, ?_⟩
  · rw [hattributes.among]
    rfl
  · rw [hinputs.among]
    rfl

/-- Matrices of three columns that something follows. -/
def crowdedDeclarations : Declarations where
  attributes :=
    [{ name := "m", ty := .mat3, format := .rgb32Float, stride := 36,
       buffer := some { size := 256 } },
      { name := "uv", ty := .vec2, format := .rg32Float, buffer := some { size := 256 } }]
  varyings := [{ name := "t", ty := .mat3 }, { name := "w", ty := .float }]

/-- **A matrix of three columns has no room** if something follows it: what follows begins in its
second column, in all lanes, and the attribute has one entry. -/
theorem not_hasRoom_crowded :
    let target : Target := { api := .vulkan, version := 0 }
    ∃ program, assemble target.dialect crowdedDeclarations [] (.graphics "" "" 1) = .ok program ∧
      ¬ColumnsApart (·.ty) (Lane.attributes.among program.items) ∧
      ¬ColumnsApart (·.ty) (Lane.outputs.among program.items) ∧
      ¬ColumnsApart (·.ty) (Lane.inputs.among program.items) ∧
      (Declared.ofItems program.items).attributes.map (fun e => (e.name, e.location)) =
        [("m", .explicit 0), ("uv", .explicit 1)] ∧
      ¬program.HasRoom := by
  intro target
  obtain ⟨program, hprogram⟩ : ∃ program, assemble target.dialect crowdedDeclarations []
      (.graphics "" "" 1) = .ok program := exists_eq_ok_of_isOk (by decide +kernel)
  have hapi : target.api = .vulkan := rfl
  obtain ⟨hattributes, houtputs, hinputs⟩ :=
    isPlaced_of_assemble (Target.fixesLocations_dialect hapi) hprogram
  have hcrowded : ¬ColumnsApart (·.ty) (Lane.attributes.among program.items) := by
    rw [hattributes.among]
    exact fun h => absurd (columnsApart_placeFrom_iff.mp h) (by decide)
  have hvaryings : ¬ColumnsApart VaryingDecl.ty
      (placeFrom VaryingDecl.ty 0 crowdedDeclarations.varyings) :=
    fun h => absurd (columnsApart_placeFrom_iff.mp h) (by decide)
  refine ⟨program, hprogram, hcrowded, ?_, ?_, ?_, fun hroom => hcrowded hroom.attributes⟩
  · rw [houtputs.among]
    exact hvaryings
  · rw [hinputs.among]
    exact hvaryings
  · have hamong : program.items.filterMap Item.attribute? =
        placeFrom AttributeDecl.ty 0 crowdedDeclarations.attributes := hattributes.among
    rw [attributes_ofItems, hamong]
    rfl

end ShaderLoom
