import Mathlib.Data.List.Nodup
import Mathlib.Data.List.Pairwise
import ShaderLoom.Reading.Assignment

/-!
# What is assigned

Every claimant gets a row of numbers under its name. Where the text leaves all rows open, each row
begins with a number that no row before it has taken, so no two claimants get the same number
(**`pairwise_assign`**). A table lists what was assigned by name, and of several entries with one
name the last: a number that is found was assigned under that name, but perhaps to another variable.
-/

namespace ShaderLoom

/-! ## Tables of entries -/

namespace Table

variable {κ α : Type} [DecidableEq κ] {entries : List (κ × α)} {key : κ} {value : α}

/-- The last insertion under a key counts, or else what was there before. -/
theorem find?_foldl_insert (t : Table κ α) :
    find? (entries.foldl (fun t entry => t.insert entry.1 entry.2) t) key =
      ((entries.filter (·.1 = key)).getLast?.map Prod.snd).or (t.find? key) := by
  induction entries generalizing t with
  | nil => rfl
  | cons entry entries ih =>
    rw [List.foldl_cons, ih, find?_insert, List.filter_cons]
    by_cases he : entry.1 = key
    · rw [if_pos (decide_eq_true he), if_pos he.symm, List.getLast?_cons]
      cases (entries.filter (·.1 = key)).getLast? <;> rfl
    · rw [if_neg (Ne.symm he), if_neg (by simpa using he)]

/-- **What is found** is the last entry under its key. -/
theorem find?_ofList :
    (ofList entries).find? key = (entries.filter (·.1 = key)).getLast?.map Prod.snd := by
  rw [ofList, find?_foldl_insert, find?_nil, Option.or_none]

/-- **What is found is an entry.** -/
theorem mem_of_find?_ofList (h : (ofList entries).find? key = some value) :
    (key, value) ∈ entries := by
  rw [find?_ofList] at h
  obtain ⟨⟨key', value'⟩, hlast, rfl⟩ := Option.map_eq_some_iff.mp h
  obtain ⟨hmem, hkey⟩ := List.mem_filter.mp (List.mem_of_getLast? hlast)
  obtain rfl := of_decide_eq_true hkey
  exact hmem

/-- **Every key of an entry is found.** -/
theorem isSome_find?_ofList :
    ((ofList entries).find? key).isSome = true ↔ key ∈ entries.map Prod.fst := by
  rw [find?_ofList, Option.isSome_map, List.getLast?_isSome, ne_eq, List.filter_eq_nil_iff,
    List.mem_map]
  simp

end Table

namespace Reading

variable {taken : List Nat} {claimants : List Claimant} {ds : List Declaration} {name : String}

/-! ## Rows -/

theorem isFree_leastRow (taken : List Nat) (span : Nat) : IsFree taken span (leastRow taken span) :=
  isFree_leastRowFrom taken span 0

/-- Rows stand under the names of their claimants, in order. -/
theorem map_fst_assignRows (taken : List Nat) (claimants : List Claimant) :
    (assignRows taken claimants).map Prod.fst = claimants.map Claimant.name := by
  induction claimants generalizing taken with
  | nil => rfl
  | cons c claimants ih =>
    rw [assignRows]
    split
    · rw [List.map_cons, List.map_cons, ih]
    · rw [List.map_cons, List.map_cons, ih]

/-- The claimants with the beginnings of their rows. -/
def assignedRows (taken : List Nat) (claimants : List Claimant) : List (Claimant × Nat) :=
  claimants.zip ((assignRows taken claimants).map Prod.snd)

theorem assignedRows_cons_of_some {c : Claimant} {base : Nat} (h : c.explicit = some base)
    (taken : List Nat) (claimants : List Claimant) :
    assignedRows taken (c :: claimants) = (c, base) :: assignedRows taken claimants := by
  rw [assignedRows, assignRows, h]
  rfl

theorem assignedRows_cons_of_none {c : Claimant} (h : c.explicit = none) (taken : List Nat)
    (claimants : List Claimant) :
    assignedRows taken (c :: claimants) = (c, leastRow taken c.span) ::
      assignedRows (List.range' (leastRow taken c.span) c.span ++ taken) claimants := by
  rw [assignedRows, assignRows, h]
  rfl

theorem map_assignedRows (taken : List Nat) (claimants : List Claimant) :
    (assignedRows taken claimants).map (fun p => (p.1.name, p.2)) = assignRows taken claimants := by
  rw [assignedRows]
  induction claimants generalizing taken with
  | nil => rfl
  | cons c claimants ih =>
    rw [assignRows]
    split
    · rw [List.map_cons, List.zip_cons_cons, List.map_cons, ih]
    · rw [List.map_cons, List.zip_cons_cons, List.map_cons, ih]

theorem map_fst_assignedRows (taken : List Nat) (claimants : List Claimant) :
    (assignedRows taken claimants).map Prod.fst = claimants := by
  refine List.map_fst_zip (Nat.le_of_eq ?_)
  rw [List.length_map, ← List.length_map Prod.fst, map_fst_assignRows, List.length_map]

/-- What the text says is kept. -/
theorem assignedRows_explicit (taken : List Nat) (claimants : List Claimant) :
    ∀ p ∈ assignedRows taken claimants, ∀ base ∈ p.1.explicit, p.2 = base := by
  induction claimants generalizing taken with
  | nil => exact fun p hp => absurd hp List.not_mem_nil
  | cons c claimants ih =>
    cases hexplicit : c.explicit with
    | some base =>
      rw [assignedRows_cons_of_some hexplicit]
      refine List.forall_mem_cons.mpr ⟨fun n hn => ?_, ih taken⟩
      exact Option.some.inj (hexplicit.symm.trans hn)
    | none =>
      rw [assignedRows_cons_of_none hexplicit]
      refine List.forall_mem_cons.mpr ⟨fun n hn => ?_, ih _⟩
      cases hexplicit.symm.trans hn

/-- Two rows have no number in common. -/
def AreApart (p q : Claimant × Nat) : Prop :=
  ∀ i < p.1.span, ∀ j < q.1.span, p.2 + i ≠ q.2 + j

theorem AreApart.symm {p q : Claimant × Nat} (h : AreApart p q) : AreApart q p :=
  fun i hi j hj he => h j hj i hi he.symm

/-- The row of a claimant is taken. -/
def IsTaken (taken : List Nat) (span base : Nat) : Prop := ∀ i < span, base + i ∈ taken

theorem isTaken_range' (taken : List Nat) (span base : Nat) :
    IsTaken (List.range' base span ++ taken) span base := fun _ hi =>
  List.mem_append_left _
    (List.mem_range'_1.mpr ⟨Nat.le_add_right _ _, Nat.add_lt_add_left hi _⟩)

theorem IsTaken.append {span base : Nat} (h : IsTaken taken span base) (others : List Nat) :
    IsTaken (others ++ taken) span base := fun i hi => List.mem_append_right _ (h i hi)

/-- A free row and a taken row have no number in common. -/
theorem areApart_of_isTaken {p q : Claimant × Nat} (hp : ∀ i < p.1.span, p.2 + i ∉ taken)
    (hq : IsTaken taken q.1.span q.2) : AreApart p q :=
  fun i hi j hj he => hp i hi (he ▸ hq j hj)

/-- The least row is free. -/
theorem leastRow_add_not_mem (taken : List Nat) (span : Nat) :
    ∀ i < span, leastRow taken span + i ∉ taken := by
  intro i hi hmem
  rcases isFree_leastRow taken span _ hmem with hlt | hle
  · omega
  · omega

/-- **Rows are apart**: if all explicit rows are taken, an open row is free of what is taken, and
two rows have a number in common only if both are explicit. -/
theorem assignedRows_apart
    (hexplicit : ∀ c ∈ claimants, ∀ base ∈ c.explicit, IsTaken taken c.span base) :
    (∀ p ∈ assignedRows taken claimants, p.1.explicit = none → ∀ i < p.1.span, p.2 + i ∉ taken) ∧
      (assignedRows taken claimants).Pairwise fun p q =>
        p.1.explicit = none ∨ q.1.explicit = none → AreApart p q := by
  induction claimants generalizing taken with
  | nil => exact ⟨fun p hp => absurd hp List.not_mem_nil, .nil⟩
  | cons c claimants ih =>
    obtain ⟨hc, hrest⟩ := List.forall_mem_cons.mp hexplicit
    cases hopen : c.explicit with
    | some base =>
      obtain ⟨hfree, hpairwise⟩ := ih hrest
      rw [assignedRows_cons_of_some hopen]
      refine ⟨List.forall_mem_cons.mpr ⟨fun h => ?_, hfree⟩, List.pairwise_cons.mpr ⟨?_, hpairwise⟩⟩
      · cases hopen.symm.trans h
      · rintro q hq (h | hq')
        · cases hopen.symm.trans h
        · exact (areApart_of_isTaken (q := (c, base)) (hfree q hq hq') (hc base hopen)).symm
    | none =>
      have hleast := leastRow_add_not_mem taken c.span
      obtain ⟨hfree, hpairwise⟩ := @ih (List.range' (leastRow taken c.span) c.span ++ taken)
        fun x hx base hbase => (hrest x hx base hbase).append _
      rw [assignedRows_cons_of_none hopen]
      refine ⟨List.forall_mem_cons.mpr ⟨fun _ => hleast, fun p hp hp' i hi hmem => ?_⟩,
        List.pairwise_cons.mpr ⟨fun q hq _ => ?_, hpairwise⟩⟩
      · exact hfree p hp hp' i hi (List.mem_append_right _ hmem)
      · cases hq' : q.1.explicit with
        | none =>
          exact (areApart_of_isTaken (q := (c, leastRow taken c.span)) (hfree q hq hq')
            (isTaken_range' taken c.span _)).symm
        | some base =>
          -- the row of an explicit claimant further behind has been taken from the beginning
          have hmem : q.1 ∈ claimants := by
            rw [← map_fst_assignedRows (List.range' (leastRow taken c.span) c.span ++ taken)
              claimants]
            exact List.mem_map_of_mem hq
          obtain rfl := assignedRows_explicit _ _ q hq base hq'
          exact areApart_of_isTaken (p := (c, leastRow taken c.span)) hleast (hrest q.1 hmem _ hq')

/-- What is assigned under a name is the row of the claimant of this name. -/
theorem mem_assignedRows (hnames : (claimants.map Claimant.name).Nodup) {c : Claimant}
    (hc : c ∈ claimants) {n : Nat} (hn : (c.name, n) ∈ assignRows taken claimants) :
    (c, n) ∈ assignedRows taken claimants := by
  rw [← map_assignedRows] at hn
  obtain ⟨p, hp, he⟩ := List.mem_map.mp hn
  obtain ⟨hname, rfl⟩ := Prod.mk.inj he
  obtain rfl := List.inj_on_of_nodup_map hnames (List.of_mem_zip hp).1 hc hname
  exact hp

/-- **Open rows are apart** from one another. -/
theorem pairwise_areApart (taken : List Nat) (h : ∀ c ∈ claimants, c.explicit = none) :
    (assignedRows taken claimants).Pairwise AreApart := by
  have hexplicit : ∀ c ∈ claimants, ∀ base ∈ c.explicit, IsTaken taken c.span base := by
    intro c hc base hbase
    cases (h c hc).symm.trans hbase
  exact (assignedRows_apart hexplicit).2.imp_of_mem fun hp _ hapart =>
    hapart (.inl (h _ (List.of_mem_zip hp).1))

/-- **Claimants of different names** get rows that are apart, if all rows are open. -/
theorem areApart_of_mem_assign (h : ∀ c ∈ claimants, c.explicit = none)
    (hnames : (claimants.map Claimant.name).Nodup) {c e : Claimant} {m n : Nat}
    (hc : c ∈ claimants) (he : e ∈ claimants) (hne : c.name ≠ e.name)
    (hm : (c.name, m) ∈ assign claimants) (hn : (e.name, n) ∈ assign claimants) :
    AreApart (c, m) (e, n) := by
  have hsymm : Std.Symm AreApart := ⟨fun _ _ => AreApart.symm⟩
  refine (pairwise_areApart _ h).forall (mem_assignedRows hnames hc hm)
    (mem_assignedRows hnames he hn) ?_
  rintro heq
  cases heq
  exact hne rfl

/-- The claimant gets a number, and which one is left open. -/
structure Claimant.IsOpen (c : Claimant) : Prop where
  /-- the text does not say where the row begins -/
  explicit : c.explicit = none
  /-- the row is not empty -/
  span : 0 < c.span

/-- **No two claimants get the same number**, if all rows are open. -/
theorem pairwise_assign (h : ∀ c ∈ claimants, c.IsOpen) :
    (assign claimants).Pairwise fun a b => a.2 ≠ b.2 := by
  rw [assign, ← map_assignedRows, List.pairwise_map]
  refine (pairwise_areApart _ fun c hc => (h c hc).explicit).imp_of_mem fun hp hq hapart => ?_
  exact hapart 0 (h _ (List.of_mem_zip hp).1).span 0 (h _ (List.of_mem_zip hq).1).span

/-- Under different names there are different numbers. -/
theorem assign_injective (h : ∀ c ∈ claimants, c.IsOpen) {a b : String × Nat}
    (ha : a ∈ assign claimants) (hb : b ∈ assign claimants) (hne : a.1 ≠ b.1) : a.2 ≠ b.2 := by
  have hsymm : Std.Symm fun a b : String × Nat => a.2 ≠ b.2 := ⟨fun _ _ h => h.symm⟩
  refine (pairwise_assign h).forall ha hb ?_
  rintro rfl
  exact hne rfl

/-- What is assigned stands under the name of a claimant. -/
theorem exists_claimant {row : String × Nat} (h : row ∈ assign claimants) :
    ∃ c ∈ claimants, c.name = row.1 := by
  have hmem : row.1 ∈ (assign claimants).map Prod.fst := List.mem_map_of_mem h
  rw [assign, map_fst_assignRows] at hmem
  obtain ⟨c, hc, hname⟩ := List.mem_map.mp hmem
  exact ⟨c, hc, hname⟩

/-! ## The whole program -/

/-- A claimant that is a block comes from a declaration. -/
theorem mem_blockClaimants {kind : BlockKind} {c : Claimant} :
    c ∈ blockClaimants kind ds ↔ ∃ x ∈ ds, x.kind = .block kind ∧ c = ⟨x.name, 1, x.binding⟩ := by
  rw [blockClaimants, List.mem_filterMap]
  constructor
  · rintro ⟨x, hx, hc⟩
    split at hc
    · next hkind =>
      cases hc
      exact ⟨x, hx, hkind, rfl⟩
    · cases hc
  · rintro ⟨x, hx, hkind, rfl⟩
    exact ⟨x, hx, if_pos hkind⟩

/-- The numbers of the blocks of a kind that a program uses. -/
def blockRows (kind : BlockKind) (ds : List Declaration) : List (String × Nat) :=
  assign (blockClaimants kind (ds.filter (·.used)))

/-- **A block is looked up by its name alone**: what is found is the number of a block of this name,
of either kind. -/
theorem exists_of_find?_blocks {t : PlacementTable} {n : Nat} (ht : (reflect ds).blocks = some t)
    (h : (t.find? name).bind Placement.binding = some n) :
    ∃ kind, (name, n) ∈ blockRows kind ds := by
  obtain ⟨p, hp, hn⟩ := Option.bind_eq_some_iff.mp h
  obtain rfl := Option.some.inj ht
  obtain ⟨row, hrow, he⟩ := List.mem_map.mp (Table.mem_of_find?_ofList hp)
  cases he
  obtain rfl := Option.some.inj hn
  rcases List.mem_append.mp hrow with hrow | hrow
  · exact ⟨.uniform, hrow⟩
  · exact ⟨.storage, hrow⟩

/-- A number of a block is that of a declaration. -/
theorem exists_of_mem_blockRows {kind : BlockKind} {row : String × Nat}
    (h : row ∈ blockRows kind ds) :
    ∃ x ∈ ds, x.name = row.1 ∧ x.kind = .block kind := by
  obtain ⟨c, hc, hname⟩ := exists_claimant h
  obtain ⟨x, hx, hkind, rfl⟩ := mem_blockClaimants.mp hc
  exact ⟨x, (List.mem_filter.mp hx).1, hname, hkind⟩

/-- **Blocks of one kind have different numbers under different names**, where the text leaves the
bindings of the kind open. -/
theorem blockRows_injective {kind : BlockKind} {a b : String × Nat}
    (hopen : ∀ x ∈ ds, x.kind = .block kind → x.binding = none) (ha : a ∈ blockRows kind ds)
    (hb : b ∈ blockRows kind ds) (hne : a.1 ≠ b.1) : a.2 ≠ b.2 := by
  refine assign_injective (fun c hc => ?_) ha hb hne
  obtain ⟨x, hx, hkind, rfl⟩ := mem_blockClaimants.mp hc
  exact ⟨hopen x (List.mem_filter.mp hx).1 hkind, Nat.one_pos⟩

end Reading

end ShaderLoom
