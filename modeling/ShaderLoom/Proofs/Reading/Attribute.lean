import ShaderLoom.Proofs.Outcome
import ShaderLoom.Proofs.Reading.Assignment

/-!
# Vertex attributes that are read

Only a vertex stage has vertex attributes, and the ones that it uses claim their locations. The
compiler tells where each of them begins (`Reflection.attributeLocation?`), and where the text
leaves all locations open, no two of them have a location in common
(**`areApart_of_attributeLocation?`**).
-/

namespace ShaderLoom

/-- Where an attribute begins, if the compiler tells it. -/
def Reflection.attributeLocation? (r : Reflection) (name : String) : Option Nat :=
  (r.attributes.bind (·.find? name)).bind Placement.location

namespace Reading

open Text

variable {source storage ty name : Text} {ls : List Text} {ds es : List Declaration}

/-! ## Lines of variables -/

/-- The line declares a variable: behind the layout qualifier, which may fix its numbers, stand a
storage qualifier, the type and the name. -/
inductive Declares (vertex : Bool) (source line : Text) : Declaration → Prop
  | words {qualifiers text storage ty word : Text} {others : List Text}
    {location binding : Option Nat} {kind : DeclarationKind}
    (hsplit : splitLayout line = .ok (qualifiers, text))
    (hwords : declarationWords text = storage :: ty :: word :: others)
    (hlocation : qualifierValue "location" qualifiers = .ok location)
    (hbinding : qualifierValue "binding" qualifiers = .ok binding)
    (hkind : classify vertex storage ty word = some kind) :
    Declares vertex source line
      ⟨String.ofList (bareName word), kind, location, binding, isUsed source (bareName word)⟩

/-- A block takes up lines in front of others. -/
theorem suffix_of_readBlock {body : BlockBody} (h : readBlock ls = some body) :
    body.rest <:+ ls := by
  induction ls generalizing body with
  | nil => cases h
  | cons line rest ih =>
    rw [readBlock] at h
    split at h
    · cases h
      exact List.suffix_cons ..
    · obtain ⟨inner, hinner, rfl⟩ := Option.map_eq_some_iff.mp h
      have hrest : (inner.addLine (trim line)).rest = inner.rest := by
        rw [BlockBody.addLine]
        split <;> rfl
      rw [hrest]
      exact (ih hinner).trans (List.suffix_cons ..)

/-- **What is read stands on a line**, unless it is a block. -/
theorem exists_line_of_readLines {vertex : Bool} (h : readLines vertex source ls = .ok ds) :
    ∀ x ∈ ds, (∃ k, x.kind = .block k) ∨ ∃ line ∈ ls, Declares vertex source line x := by
  induction hn : ls.length using Nat.strongRecOn generalizing ls ds with
  | ind n ih =>
    subst hn
    cases ls with
    | nil =>
      rw [readLines] at h
      cases h
      exact fun x hx => absurd hx List.not_mem_nil
    | cons line rest =>
      -- the reader goes on behind the line, or behind the block that it opens
      have hlater : ∀ {others ds}, others <:+ rest → readLines vertex source others = .ok ds →
          ∀ x ∈ ds, (∃ k, x.kind = .block k) ∨
            ∃ l ∈ line :: rest, Declares vertex source l x := by
        intro others ds hsuffix hothers x hx
        have hlt := hsuffix.length_le
        refine (ih _ (by rw [List.length_cons]; omega) hothers rfl x hx).imp_right ?_
        rintro ⟨l, hl, hdeclares⟩
        exact ⟨l, List.mem_cons_of_mem _ (hsuffix.subset hl), hdeclares⟩
      rw [readLines] at h
      obtain ⟨⟨qualifiers, text⟩, hsplit, h⟩ := bind_eq_ok.mp h
      dsimp only at h
      split at h
      · next storage ty word others hwords =>
        obtain ⟨location, hlocation, h⟩ := bind_eq_ok.mp h
        obtain ⟨binding, hbinding, h⟩ := bind_eq_ok.mp h
        split at h
        · exact hlater List.suffix_rfl h
        · split at h
          · cases h
          · next body hbody =>
            obtain ⟨others, hothers, rfl⟩ := map_eq_ok.mp h
            exact List.forall_mem_cons.mpr
              ⟨.inl ⟨_, rfl⟩, hlater (suffix_of_readBlock hbody) hothers⟩
        · next hkind =>
          obtain ⟨others, hothers, rfl⟩ := map_eq_ok.mp h
          exact List.forall_mem_cons.mpr
            ⟨.inr ⟨line, List.mem_cons_self .., hsplit, hwords, hlocation, hbinding, hkind⟩,
              hlater List.suffix_rfl hothers⟩
      · exact hlater List.suffix_rfl h

/-! ## Stages without vertex attributes -/

/-- None of the declarations is a vertex attribute. -/
def HasNoInput (ds : List Declaration) : Prop := ∀ x ∈ ds, ∀ n, x.kind ≠ .vertexAttribute n

theorem HasNoInput.cons {x : Declaration} (hx : ∀ n, x.kind ≠ .vertexAttribute n)
    (h : HasNoInput ds) : HasNoInput (x :: ds) :=
  List.forall_mem_cons.mpr ⟨hx, h⟩

/-- Outside of the vertex stage, no line declares an attribute. -/
theorem classify_false {kind : DeclarationKind} (h : classify false storage ty name = some kind)
    (n : Nat) : kind ≠ .vertexAttribute n := by
  rintro rfl
  rw [classify] at h
  split at h
  · cases h
  · split at h
    · split at h <;> cases h
    · cases h

/-- **Only the vertex stage has attributes.** -/
theorem hasNoInput_readLines (h : readLines false source ls = .ok ds) : HasNoInput ds := by
  intro x hx n hn
  rcases exists_line_of_readLines h x hx with ⟨k, hk⟩ | ⟨line, -, hline⟩
  · cases hn.symm.trans hk
  · cases hline with
    | words _ _ _ _ hkind => exact classify_false hkind n hn

theorem hasNoInput_readStage (h : readStage false source = .ok ds) : HasNoInput ds := by
  rw [readStage] at h
  split at h
  · cases h
  · split at h
    · cases h
    · exact hasNoInput_readLines h

/-! ## Claimants -/

theorem attributeClaimants_append (ds es : List Declaration) :
    attributeClaimants (ds ++ es) = attributeClaimants ds ++ attributeClaimants es :=
  List.filterMap_append

theorem HasNoInput.attributeClaimants_eq (h : HasNoInput ds) : attributeClaimants ds = [] := by
  refine List.filterMap_eq_nil_iff.mpr fun x hx => ?_
  split
  · next n hn => exact absurd hn (h x hx n)
  · rfl

theorem HasNoInput.filter (h : HasNoInput ds) (p : Declaration → Bool) : HasNoInput (ds.filter p) :=
  fun x hx => h x (List.mem_of_mem_filter hx)

/-- The attributes that claim locations in a program: those that it uses. -/
def usedAttributes (ds : List Declaration) : List Claimant :=
  attributeClaimants (ds.filter (·.used))

theorem usedAttributes_append (ds es : List Declaration) :
    usedAttributes (ds ++ es) = usedAttributes ds ++ usedAttributes es := by
  rw [usedAttributes, List.filter_append, attributeClaimants_append]
  rfl

theorem HasNoInput.usedAttributes_eq (h : HasNoInput ds) : usedAttributes ds = [] :=
  (h.filter _).attributeClaimants_eq

/-! ## Locations -/

/-- What is known about an attribute is where it is. -/
theorem exists_location_of_find?_attributes {known : PlacementTable} {name : String}
    {info : Placement} (h : (reflect ds).attributes = some known)
    (hfind : known.find? name = some info) : ∃ base, info.location = some base := by
  obtain rfl := Option.some.inj h
  obtain ⟨row, -, he⟩ := List.mem_map.mp (Table.mem_of_find?_ofList hfind)
  cases he
  exact ⟨row.2, rfl⟩

/-- The compiler tells the locations that were assigned. -/
theorem mem_assign_of_attributeLocation? {name : String} {first : Nat}
    (h : (reflect ds).attributeLocation? name = some first) :
    (name, first) ∈ assign (usedAttributes ds) := by
  obtain ⟨p, hp, hfirst⟩ := Option.bind_eq_some_iff.mp h
  obtain ⟨row, hrow, he⟩ := List.mem_map.mp (Table.mem_of_find?_ofList hp)
  cases he
  obtain rfl := Option.some.inj hfirst
  exact hrow

/-- **An attribute has a location** in a program if the program uses it. -/
theorem isSome_attributeLocation?_reflect {name : String} :
    ((reflect ds).attributeLocation? name).isSome = true ↔
      ∃ c ∈ usedAttributes ds, c.name = name := by
  constructor
  · intro h
    obtain ⟨first, hfirst⟩ := Option.isSome_iff_exists.mp h
    exact exists_claimant (mem_assign_of_attributeLocation? hfirst)
  · rintro ⟨c, hc, rfl⟩
    have hname : c.name ∈ (assign (usedAttributes ds)).map Prod.fst := by
      rw [assign, map_fst_assignRows]
      exact List.mem_map_of_mem hc
    obtain ⟨row, hrow, hfst⟩ := List.mem_map.mp hname
    have hkey : c.name ∈ ((assign (usedAttributes ds)).map fun a =>
        (a.1, ({ location := some a.2 } : Placement))).map Prod.fst := by
      rw [List.map_map]
      exact List.mem_map.mpr ⟨row, hrow, hfst⟩
    obtain ⟨p, hp⟩ := Option.isSome_iff_exists.mp (Table.isSome_find?_ofList.mpr hkey)
    obtain ⟨first, hfirst⟩ := exists_location_of_find?_attributes rfl hp
    exact Option.isSome_iff_exists.mpr ⟨first, Option.bind_eq_some_iff.mpr ⟨p, hp, hfirst⟩⟩

/-- **Attributes of different names** have no location in common, where the text leaves all
locations open. -/
theorem areApart_of_attributeLocation? (h : ∀ c ∈ usedAttributes ds, c.explicit = none)
    (hnames : ((usedAttributes ds).map Claimant.name).Nodup) {c e : Claimant} {m n : Nat}
    (hc : c ∈ usedAttributes ds) (he : e ∈ usedAttributes ds) (hne : c.name ≠ e.name)
    (hm : (reflect ds).attributeLocation? c.name = some m)
    (hn : (reflect ds).attributeLocation? e.name = some n) : AreApart (c, m) (e, n) :=
  areApart_of_mem_assign h hnames hc he hne (mem_assign_of_attributeLocation? hm)
    (mem_assign_of_attributeLocation? hn)

end Reading

end ShaderLoom
