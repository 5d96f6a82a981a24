import Mathlib.Data.List.Forall2
import ShaderLoom.Proofs.Reading.Rows
import ShaderLoom.Proofs.Source.Fault

/-!
# What resolving keeps

Resolving leaves out some elements of a program and tells the others where they ended up. Whether an
element is kept is a question to the element alone, `Reflection.keepsUniform` and its companions,
and an element that is kept is changed in its location or its binding at most,
`Reflection.UniformBecomes` and its companions. So the elements of a resolved program are the
declared ones that are kept, in the order in which they are declared. Resolving fails exactly when
an attribute has no place (**`Reflection.resolve_filters`**).
-/

namespace ShaderLoom

/-! ## Selections -/

section

variable {α β : Type} {keeps : α → Bool} {becomes : α → β → Prop}

/-- What comes of an element: it is left out, or becomes another one. -/
inductive IsSelected (keeps : α → Bool) (becomes : α → β → Prop) (x : α) : Option β → Prop
  /-- the element is not kept -/
  | leftOut (hkeeps : keeps x = false) : IsSelected keeps becomes x none
  /-- the element is kept -/
  | kept {y : β} (hkeeps : keeps x = true) (hbecomes : becomes x y) :
    IsSelected keeps becomes x (some y)

namespace IsSelected

variable {x : α} {xs : List α} {found : Option β} {ys : List β}

theorem becomes_of_eq_some {y : β} (h : IsSelected keeps becomes x found) (hy : found = some y) :
    becomes x y := by
  subst hy
  cases h with
  | kept _ hbecomes => exact hbecomes

theorem exists_of_keeps (h : IsSelected keeps becomes x found) (hx : keeps x = true) :
    ∃ y, found = some y ∧ becomes x y := by
  cases h with
  | leftOut hkeeps => cases hx.symm.trans hkeeps
  | kept _ hbecomes => exact ⟨_, rfl, hbecomes⟩

theorem eq_none_of_not_keeps (h : IsSelected keeps becomes x found) (hx : keeps x = false) :
    found = none := by
  cases h with
  | leftOut _ => rfl
  | kept hkeeps _ => cases hx.symm.trans hkeeps

/-- One more element in front. -/
theorem forall₂_cons (h : IsSelected keeps becomes x found)
    (hrest : List.Forall₂ becomes (xs.filter keeps) ys) :
    List.Forall₂ becomes ((x :: xs).filter keeps) (found.toList ++ ys) := by
  cases h with
  | leftOut hkeeps =>
    rw [List.filter_cons_of_neg (by rw [hkeeps]; exact Bool.false_ne_true)]
    exact hrest
  | kept hkeeps hbecomes =>
    rw [List.filter_cons_of_pos hkeeps]
    exact .cons hbecomes hrest

end IsSelected

/-- **A list of selections** consists of what the elements become that are kept, in order. -/
theorem forall₂_filterMap {f : α → Option β} (h : ∀ x, IsSelected keeps becomes x (f x))
    (xs : List α) : List.Forall₂ becomes (xs.filter keeps) (xs.filterMap f) := by
  induction xs with
  | nil => exact .nil
  | cons x xs ih =>
    have hcons : (x :: xs).filterMap f = (f x).toList ++ xs.filterMap f := by
      rw [List.filterMap_cons]
      cases f x <;> rfl
    rw [hcons]
    exact (h x).forall₂_cons ih

end

namespace Reflection

variable {r : Reflection} {declared : Declared}

/-! ## Uniforms -/

/-- Is a uniform kept? -/
def keepsUniform (r : Reflection) (u : BoundUniform) : Bool :=
  r.uniforms.all fun known => (known.find? u.name).isSome

/-- A uniform learns its location. -/
structure UniformBecomes (r : Reflection) (u u' : BoundUniform) : Prop where
  /-- nothing else changes -/
  rest : u' = { u with location := u'.location }
  /-- its location is what the compiler tells -/
  location : u'.location = r.uniformLocation? u.name

theorem isSelected_resolveUniform? (r : Reflection) (u : BoundUniform) :
    IsSelected r.keepsUniform r.UniformBecomes u (r.resolveUniform? u) := by
  have hkeeps : r.keepsUniform u = r.uniforms.all fun known => (known.find? u.name).isSome := rfl
  rw [resolveUniform?]
  split
  · next hnone =>
    rw [hnone] at hkeeps
    refine .kept hkeeps ⟨rfl, ?_⟩
    rw [uniformLocation?, uniform?, hnone]
    rfl
  · next known hknown =>
    rw [hknown, Option.all_some] at hkeeps
    cases hfind : known.find? u.name with
    | none =>
      rw [hfind] at hkeeps
      exact .leftOut hkeeps
    | some info =>
      rw [hfind] at hkeeps
      refine .kept hkeeps ⟨rfl, ?_⟩
      rw [uniformLocation?, uniform?, hknown, Option.bind_some, hfind]
      rfl

/-! ## Samplers and images -/

/-- Is a sampler or an image kept? The compiler must tell a location or a binding of it, or the text
must fix the binding of one that the compiler knows. -/
def keepsTexture (r : Reflection) (t : BoundTexture) : Bool :=
  t.location.isSome || r.uniforms.all fun known =>
    (known.find? t.name).any fun info =>
      info.location.isSome || (t.binding.isSome || info.binding.isSome)

/-- A sampler or an image learns its location, and its binding if it has none. -/
structure TextureBecomes (r : Reflection) (t t' : BoundTexture) : Prop where
  /-- nothing else changes -/
  rest : t' = { t with location := t'.location, binding := t'.binding }
  /-- its location is its own, or else what the compiler tells -/
  location : t'.location = t.location.or (r.uniformLocation? t.name)
  /-- a binding is not replaced -/
  fixed : ∀ n, t.binding = some n → t'.binding = some n
  /-- an open binding is filled in for one that is looked up -/
  binding : t.binding = none → t'.binding =
    if t.location.isSome then none else (r.uniform? t.name).bind Placement.binding

theorem isSelected_resolveTexture? (r : Reflection) (t : BoundTexture) :
    IsSelected r.keepsTexture r.TextureBecomes t (r.resolveTexture? t) := by
  have hkeeps : r.keepsTexture t = (t.location.isSome || r.uniforms.all fun known =>
    (known.find? t.name).any fun info =>
      info.location.isSome || (t.binding.isSome || info.binding.isSome)) := rfl
  rw [resolveTexture?]
  split
  · next hlocation =>
    rw [hlocation] at hkeeps
    refine .kept hkeeps ⟨rfl, ?_, fun n hn => hn, fun hnone => ?_⟩
    · rw [hlocation, Option.some_or]
    · rw [hnone, hlocation]
      rfl
  · next hlocation hnone =>
    rw [hlocation, hnone] at hkeeps
    refine .kept hkeeps ⟨rfl, ?_, fun n hn => hn, fun hopen => ?_⟩
    · rw [hlocation, uniformLocation?, uniform?, hnone]
      rfl
    · rw [hopen, hlocation, uniform?, hnone]
      rfl
  · next known hlocation hknown =>
    rw [hlocation, hknown, Option.all_some, Option.isSome_none, Bool.false_or] at hkeeps
    have htold : r.uniform? t.name = known.find? t.name := by
      rw [uniform?, hknown, Option.bind_some]
    cases hfind : known.find? t.name with
    | none =>
      rw [hfind] at hkeeps
      exact .leftOut hkeeps
    | some info =>
      rw [hfind] at hkeeps htold
      rw [Option.any_some] at hkeeps
      -- what is left out is asked for the other way round
      have hplaced : (info.location.isNone && (t.binding <|> info.binding).isNone) =
          !r.keepsTexture t := by
        rw [hkeeps]
        cases info.location <;> cases t.binding <;> cases info.binding <;> rfl
      dsimp only
      rw [hplaced]
      cases hkept : r.keepsTexture t with
      | false => exact .leftOut hkept
      | true =>
        refine .kept hkept ⟨rfl, ?_, fun n hn => ?_, fun hopen => ?_⟩
        · rw [hlocation, uniformLocation?, htold]
          rfl
        · rw [hn]
          rfl
        · rw [hopen, hlocation, htold]
          rfl

/-! ## Blocks -/

/-- Is a block kept? -/
def keepsBuffer (r : Reflection) (b : BoundBuffer) : Bool :=
  b.binding.isSome || r.blocks.all fun known =>
    ((known.find? b.name).bind Placement.binding).isSome

/-- A block learns its binding if it has none. -/
structure BufferBecomes (r : Reflection) (b b' : BoundBuffer) : Prop where
  /-- nothing else changes -/
  rest : b' = { b with binding := b'.binding }
  /-- a binding is not replaced -/
  fixed : ∀ n, b.binding = some n → b' = b
  /-- an open binding is what the compiler tells -/
  binding : b.binding = none → b'.binding = r.blockBinding? b.name

theorem isSelected_resolveBuffer? (r : Reflection) (b : BoundBuffer) :
    IsSelected r.keepsBuffer r.BufferBecomes b (r.resolveBuffer? b) := by
  have hkeeps : r.keepsBuffer b = (b.binding.isSome || r.blocks.all fun known =>
    ((known.find? b.name).bind Placement.binding).isSome) := rfl
  rw [resolveBuffer?]
  split
  · next hbinding =>
    rw [hbinding] at hkeeps
    refine .kept hkeeps ⟨rfl, fun _ _ => rfl, fun hopen => ?_⟩
    cases hbinding.symm.trans hopen
  · next hbinding hnone =>
    rw [hbinding, hnone] at hkeeps
    refine .kept hkeeps ⟨rfl, fun _ _ => rfl, fun hopen => ?_⟩
    rw [hopen, blockBinding?, hnone]
    rfl
  · next known hbinding hknown =>
    rw [hbinding, hknown, Option.all_some, Option.isSome_none, Bool.false_or] at hkeeps
    cases htold : (known.find? b.name).bind Placement.binding with
    | none =>
      rw [htold] at hkeeps
      exact .leftOut hkeeps
    | some n =>
      rw [htold] at hkeeps
      refine .kept hkeeps ⟨rfl, fun m hm => ?_, fun _ => ?_⟩
      · cases hbinding.symm.trans hm
      · rw [blockBinding?, hknown, Option.bind_some, htold]

/-! ## Attributes -/

/-- Is an attribute kept? -/
def keepsAttribute (r : Reflection) (a : BoundAttribute AttributeLocation) : Bool :=
  match a.location with
  | .explicit _ => true
  | .pending _ => r.attributes.all fun known => (known.find? a.name).isSome

/-- An attribute learns where it begins. -/
structure AttributeBecomes (r : Reflection) (a : BoundAttribute AttributeLocation)
    (a' : BoundAttribute Nat) : Prop where
  /-- nothing else changes -/
  rest : a' = a.place a'.location
  /-- a location is not replaced -/
  fixed : ∀ n, a.location = .explicit n → a'.location = n
  /-- a later column lies as far behind where the compiler has begun -/
  pending : ∀ column, a.location = .pending column →
    ∃ first, r.attributeLocation? a.name = some first ∧ a'.location = first + column

/-- An attribute needs a location, and the compiler cannot tell any. -/
inductive IsUnplaced (r : Reflection) (a : BoundAttribute AttributeLocation) : Prop
  /-- the compiler tells nothing about attributes -/
  | untold {column : Nat} (hlocation : a.location = .pending column) (hnone : r.attributes = none)
  /-- the compiler knows the attribute, but no location of it -/
  | unlocated {column : Nat} {known : PlacementTable} {info : Placement}
    (hlocation : a.location = .pending column) (hknown : r.attributes = some known)
    (hinfo : known.find? a.name = some info) (hnone : info.location = none)

theorem not_isUnplaced_of_explicit {a : BoundAttribute AttributeLocation} {n : Nat}
    (h : a.location = .explicit n) : ¬r.IsUnplaced a := by
  rintro (⟨hlocation, -⟩ | ⟨hlocation, -, -, -⟩)
  · cases h.symm.trans hlocation
  · cases h.symm.trans hlocation

/-- **What comes of an attribute**: it is selected, unless it has no place. -/
theorem resolveAttribute?_cases (r : Reflection) (a : BoundAttribute AttributeLocation) :
    (¬r.IsUnplaced a ∧ ∃ found, r.resolveAttribute? a = .ok found ∧
        IsSelected r.keepsAttribute r.AttributeBecomes a found) ∨
      r.IsUnplaced a ∧ ∃ e, r.resolveAttribute? a = .error e := by
  have hkeeps : r.keepsAttribute a = match a.location with
    | .explicit _ => true
    | .pending _ => r.attributes.all fun known => (known.find? a.name).isSome := rfl
  rw [resolveAttribute?]
  split
  · next n hlocation =>
    rw [hlocation] at hkeeps
    refine .inl ⟨not_isUnplaced_of_explicit hlocation, _, rfl,
      .kept hkeeps ⟨rfl, fun m hm => ?_, fun column hcolumn => ?_⟩⟩
    · cases hlocation.symm.trans hm
      rfl
    · cases hlocation.symm.trans hcolumn
  · next column hlocation =>
    rw [hlocation] at hkeeps
    split
    · next hnone => exact .inr ⟨.untold hlocation hnone, _, rfl⟩
    · next known hknown =>
      rw [hknown] at hkeeps
      have hplaced : ∀ info, known.find? a.name = some info → r.IsUnplaced a →
          info.location = none := by
        rintro info hinfo (⟨-, hnone⟩ | ⟨-, hknown', hinfo', hnone⟩)
        · cases hknown.symm.trans hnone
        · cases hknown.symm.trans hknown'
          cases hinfo.symm.trans hinfo'
          exact hnone
      split
      · next hfind =>
        simp only [Option.all_some, hfind] at hkeeps
        refine .inl ⟨?_, _, rfl, .leftOut hkeeps⟩
        rintro (⟨-, hnone⟩ | ⟨-, hknown', hinfo', -⟩)
        · cases hknown.symm.trans hnone
        · cases hknown.symm.trans hknown'
          cases hfind.symm.trans hinfo'
      · next info hfind =>
        simp only [Option.all_some, hfind] at hkeeps
        split
        · next hnone => exact .inr ⟨.unlocated hlocation hknown hfind hnone, _, rfl⟩
        · next first hfirst =>
          refine .inl ⟨fun h => ?_, _, rfl,
            .kept hkeeps ⟨rfl, fun m hm => ?_, fun other hother => ⟨first, ?_, ?_⟩⟩⟩
          · cases hfirst.symm.trans (hplaced info hfind h)
          · cases hlocation.symm.trans hm
          · rw [attributeLocation?, hknown, Option.bind_some, hfind, Option.bind_some, hfirst]
          · cases hlocation.symm.trans hother
            rfl

/-- **What comes of attributes**: the selected ones, unless one of them has no place. -/
theorem resolveAttributes_cases (r : Reflection) (as : List (BoundAttribute AttributeLocation)) :
    ((∀ a ∈ as, ¬r.IsUnplaced a) ∧ ∃ found, r.resolveAttributes as = .ok found ∧
        List.Forall₂ r.AttributeBecomes (as.filter r.keepsAttribute) found) ∨
      (∃ a ∈ as, r.IsUnplaced a) ∧ ∃ e, r.resolveAttributes as = .error e := by
  induction as with
  | nil => exact .inl ⟨fun a ha => absurd ha List.not_mem_nil, [], rfl, .nil⟩
  | cons a as ih =>
    rw [resolveAttributes]
    rcases r.resolveAttribute?_cases a with ⟨hplaced, found, hfound, hselected⟩ | ⟨ha, e, he⟩
    · rw [hfound]
      rcases ih with ⟨hrest, others, hothers, hbecome⟩ | ⟨⟨b, hb, hunplaced⟩, e, he⟩
      · rw [hothers]
        exact .inl ⟨List.forall_mem_cons.mpr ⟨hplaced, hrest⟩, _, rfl,
          hselected.forall₂_cons hbecome⟩
      · rw [he]
        exact .inr ⟨⟨b, List.mem_cons_of_mem a hb, hunplaced⟩, e, rfl⟩
    · rw [he]
      exact .inr ⟨⟨a, List.mem_cons_self .., ha⟩, e, rfl⟩

/-! ## Whole programs -/

/-- The elements of a resolved program are the declared ones that are kept, in order. -/
structure Filters (r : Reflection) (declared : Declared) (p : Resolved) : Prop where
  /-- loose uniforms -/
  uniforms : List.Forall₂ r.UniformBecomes (declared.uniforms.filter r.keepsUniform) p.uniforms
  /-- samplers and images -/
  textures : List.Forall₂ r.TextureBecomes (declared.textures.filter r.keepsTexture) p.textures
  /-- blocks -/
  buffers : List.Forall₂ r.BufferBecomes (declared.buffers.filter r.keepsBuffer) p.buffers
  /-- attributes -/
  attributes : List.Forall₂ r.AttributeBecomes (declared.attributes.filter r.keepsAttribute)
    p.attributes

/-- What is kept does not depend on anything but names, locations and bindings: what has a place is
kept, and so is everything of which the compiler tells nothing. -/
structure KeepsEvenly (r : Reflection) : Prop where
  /-- uniforms of one name and location -/
  uniforms : ∀ u v : BoundUniform, u.name = v.name → u.location = v.location →
    r.keepsUniform u = r.keepsUniform v
  /-- textures of one name, location and binding -/
  textures : ∀ t s : BoundTexture, t.name = s.name → t.location = s.location →
    t.binding = s.binding → r.keepsTexture t = r.keepsTexture s
  /-- blocks of one name and binding -/
  buffers : ∀ b c : BoundBuffer, b.name = c.name → b.binding = c.binding →
    r.keepsBuffer b = r.keepsBuffer c
  /-- attributes of one name and location -/
  attributes : ∀ a c : BoundAttribute AttributeLocation, a.name = c.name →
    a.location = c.location → r.keepsAttribute a = r.keepsAttribute c
  /-- a block with a binding -/
  fixedBuffer : ∀ b n, b.binding = some n → r.keepsBuffer b = true
  /-- an attribute with a location -/
  fixedAttribute : ∀ a n, a.location = .explicit n → r.keepsAttribute a = true
  /-- nothing is told about uniforms, samplers and images -/
  untoldUniforms : r.uniforms = none →
    (∀ u, r.keepsUniform u = true) ∧ ∀ t, r.keepsTexture t = true
  /-- nothing is told about blocks -/
  untoldBuffers : r.blocks = none → ∀ b, r.keepsBuffer b = true
  /-- nothing is told about attributes -/
  untoldAttributes : r.attributes = none → ∀ a, r.keepsAttribute a = true

theorem keepsEvenly (r : Reflection) : r.KeepsEvenly where
  uniforms u v hname _ := by
    rw [keepsUniform, hname, ← keepsUniform]
  textures t s hname hlocation hbinding := by
    rw [keepsTexture, hname, hlocation, hbinding, ← keepsTexture]
  buffers b c hname hbinding := by
    rw [keepsBuffer, hname, hbinding, ← keepsBuffer]
  attributes a c hname hlocation := by
    rw [keepsAttribute, hname, hlocation, ← keepsAttribute]
  fixedBuffer b n hn := by
    rw [keepsBuffer, hn]
    rfl
  fixedAttribute a n hn := by
    rw [keepsAttribute, hn]
  untoldUniforms hnone := by
    refine ⟨fun u => ?_, fun t => ?_⟩
    · rw [keepsUniform, hnone]
      rfl
    · rw [keepsTexture, hnone]
      exact Bool.or_true _
  untoldBuffers hnone b := by
    rw [keepsBuffer, hnone]
    exact Bool.or_true _
  untoldAttributes hnone a := by
    rw [keepsAttribute, hnone]
    split <;> rfl

end Reflection

end ShaderLoom
