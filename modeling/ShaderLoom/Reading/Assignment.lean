import ShaderLoom.Reading.Stage

/-!
# Assigning locations and bindings

Locations and bindings that the text of a program leaves open are chosen the way a driver
would choose them. Blocks and attributes get the least number that no explicit choice and no
earlier assignment has taken, an attribute of several locations the least row of them.
Uniforms are numbered one after the other, and of several declarations of one uniform the
first counts.
-/

namespace ShaderLoom.Reading

/-! ## The least free number -/

/-- The largest number taken. -/
def ceiling (taken : List Nat) : Nat := taken.foldr max 0

theorem le_ceiling {taken : List Nat} {n : Nat} (h : n ∈ taken) : n ≤ ceiling taken := by
  induction taken with
  | nil => simp at h
  | cons m taken ih =>
    rcases List.mem_cons.mp h with rfl | h
    · exact Nat.le_max_left _ _
    · exact Nat.le_trans (ih h) (Nat.le_max_right _ _)

/-- Are `base` and the numbers behind it, `span` in all, free? -/
def IsFree (taken : List Nat) (span base : Nat) : Prop :=
  ∀ n ∈ taken, n < base ∨ base + span ≤ n

instance (taken : List Nat) (span base : Nat) : Decidable (IsFree taken span base) :=
  inferInstanceAs (Decidable (∀ n ∈ taken, n < base ∨ base + span ≤ n))

/-- The least free row of `span` numbers from `base` on. The search ends, since everything above
the ceiling is free. -/
def leastRowFrom (taken : List Nat) (span base : Nat) : Nat :=
  if IsFree taken span base then base else leastRowFrom taken span (base + 1)
termination_by ceiling taken + 1 - base
decreasing_by
  rename_i h
  simp only [IsFree, Classical.not_forall] at h
  obtain ⟨n, hn, h⟩ := h
  have := le_ceiling hn
  omega

/-- The least free row of `span` numbers. -/
def leastRow (taken : List Nat) (span : Nat) : Nat := leastRowFrom taken span 0

/-- **The search finds a free row.** -/
theorem isFree_leastRowFrom (taken : List Nat) (span base : Nat) :
    IsFree taken span (leastRowFrom taken span base) := by
  fun_induction leastRowFrom taken span base with
  | case1 base h => exact h
  | case2 base h ih => exact ih

/-- **The search skips no free row.** -/
theorem leastRowFrom_le {taken : List Nat} {span base row : Nat} (h : IsFree taken span row)
    (hb : base ≤ row) : leastRowFrom taken span base ≤ row := by
  fun_induction leastRowFrom taken span base with
  | case1 base _ => exact hb
  | case2 base hn ih =>
    -- the base itself is not free, so the row begins behind it
    have : base ≠ row := fun e => hn (e ▸ h)
    exact ih (by omega)

/-! ## Uniforms -/

/-- Give a uniform its explicit location, or else the next number. -/
def assignUniform (state : PlacementTable × Nat) (d : Declaration) : PlacementTable × Nat :=
  if (state.1.find? d.name).isSome then state
  else
    match d.location with
    | some location => (state.1.insert d.name ⟨some location, d.binding⟩, state.2)
    | none => (state.1.insert d.name ⟨some state.2, d.binding⟩, state.2 + 1)

/-- The locations of uniforms, samplers and images. -/
def assignUniforms (ds : List Declaration) : PlacementTable :=
  (ds.foldl assignUniform ([], 0)).1

/-! ## Blocks and attributes -/

/-- A variable that needs a row of numbers. -/
structure Claimant where
  /-- the identifier -/
  name : String
  /-- the length of the row -/
  span : Nat
  /-- where the row begins, if the text says so -/
  explicit : Option Nat
  deriving DecidableEq

/-- The numbers that the text claims. -/
def explicitlyTaken (claimants : List Claimant) : List Nat :=
  claimants.flatMap fun c =>
    match c.explicit with
    | some base => List.range' base c.span
    | none => []

/-- Go through the claimants in order and give each one its explicit row, or else the least free
one. -/
def assignRows (taken : List Nat) : List Claimant → List (String × Nat)
  | [] => []
  | c :: rest =>
    match c.explicit with
    | some base => (c.name, base) :: assignRows taken rest
    | none =>
      let base := leastRow taken c.span
      (c.name, base) :: assignRows (List.range' base c.span ++ taken) rest

/-- Rows for all claimants. -/
def assign (claimants : List Claimant) : List (String × Nat) :=
  assignRows (explicitlyTaken claimants) claimants

/-- The claimants among the declarations that are blocks of a kind. -/
def blockClaimants (kind : BlockKind) (ds : List Declaration) : List Claimant :=
  ds.filterMap fun d => if d.kind = .block kind then some ⟨d.name, 1, d.binding⟩ else none

/-- The claimants among the declarations that are attributes. -/
def attributeClaimants (ds : List Declaration) : List Claimant :=
  ds.filterMap fun d =>
    match d.kind with
    | .vertexAttribute locations => some ⟨d.name, locations, d.location⟩
    | _ => none

/-- Is the declaration one of a plain uniform, a sampler or an image? -/
def Declaration.isUniform (d : Declaration) : Bool := d.kind = .uniform || d.kind = .sampler

/-! ## The whole program -/

/-- The reflection of a program, from the declarations of all its stages. Uniform blocks and
storage blocks are numbered apart, but listed together. -/
def reflect (declarations : List Declaration) : Reflection :=
  let used := declarations.filter (·.used)
  let blocks := assign (blockClaimants .uniform used) ++ assign (blockClaimants .storage used)
  let attributes := assign (attributeClaimants used)
  { uniforms := some (assignUniforms (used.filter Declaration.isUniform))
    blocks := some (Table.ofList (blocks.map fun b => (b.1, { binding := some b.2 })))
    attributes := some (Table.ofList (attributes.map fun a => (a.1, { location := some a.2 }))) }

end ShaderLoom.Reading
