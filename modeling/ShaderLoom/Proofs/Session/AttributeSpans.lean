import ShaderLoom.Proofs.Session.SplitProgram
import ShaderLoom.Proofs.Source.Attribute
import ShaderLoom.Proofs.Text.Occurrence

/-!
# Locations that attributes span

A vertex attribute has one entry for each of its columns, or none at all: its columns stand side by
side from wherever it begins, and where that is, either the text says or the compiler. Either way no
two attributes have a location in common, in a program that was made of the texts of its session
(**`Workspace.hasSpans_of_build`**).
-/

namespace ShaderLoom

open Text Reading

/-! ## Spans -/

/-- The entries of an attribute that begins at a location, column by column. -/
def AttributeDecl.span (x : AttributeDecl) (first : Nat) : List (BoundAttribute Nat) :=
  match x.buffer with
  | none => []
  | some buffer =>
    (List.range x.ty.locations).map fun column =>
      { name := x.name
        location := first + column
        format := x.format
        stride := x.stride
        offset := x.offset + column * x.format.bytes
        rate := x.rate
        buffer }

section

variable {x : AttributeDecl} {first : Nat} {e : BoundAttribute Nat}

theorem ShaderType.locations_pos (ty : ShaderType) : 0 < ty.locations := by
  cases ty <;> decide

theorem AttributeDecl.of_mem_span (h : e ∈ x.span first) :
    e.name = x.name ∧ ∃ column < x.ty.locations, e.location = first + column := by
  rw [span] at h
  split at h
  · cases h
  · obtain ⟨column, hcolumn, rfl⟩ := List.mem_map.mp h
    exact ⟨rfl, column, List.mem_range.mp hcolumn, rfl⟩

/-- Only an attribute without a buffer has no entry. -/
theorem AttributeDecl.span_eq_nil_iff : x.span first = [] ↔ x.buffer = none := by
  rw [span]
  split
  · next hnone => simp [hnone]
  · next buffer hbuffer => simp [hbuffer, x.ty.locations_pos.ne']

theorem AttributeDecl.nodup_locations_span : ((x.span first).map (·.location)).Nodup := by
  rw [span]
  split
  · exact List.nodup_nil
  · rw [List.map_map]
    exact List.nodup_range.map fun _ _ h => Nat.add_left_cancel h

end

/-! ## Resolving spans -/

namespace Reflection

variable {r : Reflection} {out : List (BoundAttribute Nat)}
  {ps : List (AttributeDecl × Option Nat)}

/-- Where an attribute begins in a program: where the text says, or else where the compiler says. -/
def firstLocation? (r : Reflection) (p : AttributeDecl × Option Nat) : Option Nat :=
  p.2 <|> r.attributeLocation? p.1.name

/-- The entries of an attribute in a program. -/
def spanOf (r : Reflection) (p : AttributeDecl × Option Nat) : List (BoundAttribute Nat) :=
  (r.firstLocation? p).elim [] p.1.span

section

variable {p : AttributeDecl × Option Nat} {e : BoundAttribute Nat}

theorem spanOf_eq_nil_or_eq_span : r.spanOf p = [] ∨ ∃ first, r.spanOf p = p.1.span first := by
  rw [spanOf]
  cases r.firstLocation? p with
  | none => exact .inl rfl
  | some first => exact .inr ⟨first, rfl⟩

/-- An attribute has no entry if it begins nowhere or has no buffer. -/
theorem spanOf_eq_nil_iff : r.spanOf p = [] ↔ r.firstLocation? p = none ∨ p.1.buffer = none := by
  rw [spanOf]
  cases r.firstLocation? p with
  | none => simp
  | some first => simp [AttributeDecl.span_eq_nil_iff]

theorem of_mem_spanOf (h : e ∈ r.spanOf p) :
    e.name = p.1.name ∧
      ∃ first ∈ r.firstLocation? p, ∃ column < p.1.ty.locations, e.location = first + column := by
  rw [spanOf] at h
  cases hfirst : r.firstLocation? p with
  | none =>
    rw [hfirst] at h
    cases h
  | some first =>
    rw [hfirst] at h
    obtain ⟨hname, column, hcolumn, hlocation⟩ := AttributeDecl.of_mem_span h
    exact ⟨hname, first, rfl, column, hcolumn, hlocation⟩

theorem nodup_locations_spanOf : ((r.spanOf p).map (·.location)).Nodup := by
  rcases r.spanOf_eq_nil_or_eq_span (p := p) with hnil | ⟨first, hspan⟩
  · rw [hnil]
    exact List.nodup_nil
  · rw [hspan]
    exact AttributeDecl.nodup_locations_span

end

theorem resolveAttributes_append {as bs : List (BoundAttribute AttributeLocation)} :
    r.resolveAttributes (as ++ bs) = .ok out ↔
      ∃ found, r.resolveAttributes as = .ok found ∧
        ∃ others, r.resolveAttributes bs = .ok others ∧ out = found ++ others := by
  induction as generalizing out with
  | nil => simp [resolveAttributes]
  | cons a as ih =>
    simp only [List.cons_append, resolveAttributes, bind_eq_ok, pure_eq_ok, ih]
    constructor
    · rintro ⟨head, hhead, _, ⟨found, hfound, others, hothers, rfl⟩, rfl⟩
      exact ⟨_, ⟨head, hhead, found, hfound, rfl⟩, others, hothers, by rw [List.append_assoc]⟩
    · rintro ⟨_, ⟨head, hhead, found, hfound, rfl⟩, others, hothers, rfl⟩
      exact ⟨head, hhead, _, ⟨found, hfound, others, hothers, rfl⟩, by rw [List.append_assoc]⟩

/-- One column is resolved to the location beside the beginning of its attribute. -/
theorem resolveAttribute?_eq {a : BoundAttribute AttributeLocation} {column : Nat}
    {location : Option Nat} {found : Option (BoundAttribute Nat)}
    (ha : a.location = match location with
      | some base => .explicit (base + column)
      | none => .pending column)
    (h : r.resolveAttribute? a = .ok found) :
    found = (location <|> r.attributeLocation? a.name).map
      fun first => a.place (first + column) := by
  rw [resolveAttribute?, ha] at h
  cases location with
  | some base =>
    cases h
    rfl
  | none =>
    dsimp only at h
    split at h
    · cases h
    · next known hknown =>
      have htold : r.attributeLocation? a.name = (known.find? a.name).bind Placement.location := by
        rw [attributeLocation?, hknown]
        rfl
      rw [htold]
      split at h
      · next hnone =>
        cases h
        rw [hnone]
        rfl
      · next info hinfo =>
        rw [hinfo]
        split at h
        · cases h
        · next base hbase =>
          cases h
          rw [Option.bind_some, hbase]
          rfl

/-- **The columns of an attribute** are all kept or all dropped. -/
theorem resolveAttributes_columns {columns : List Nat}
    {column : Nat → BoundAttribute AttributeLocation} {name : String} {location : Option Nat}
    (h : r.resolveAttributes (columns.map column) = .ok out) (hname : ∀ c, (column c).name = name)
    (hlocation : ∀ c, (column c).location = match location with
      | some base => .explicit (base + c)
      | none => .pending c) :
    out = (location <|> r.attributeLocation? name).elim []
      fun first => columns.map fun c => (column c).place (first + c) := by
  induction columns generalizing out with
  | nil =>
    cases h
    cases location <|> r.attributeLocation? name <;> rfl
  | cons c columns ih =>
    rw [List.map_cons, resolveAttributes, bind_eq_ok] at h
    obtain ⟨found, hfound, h⟩ := h
    obtain ⟨others, hothers, h⟩ := bind_eq_ok.mp h
    cases h
    rw [resolveAttribute?_eq (hlocation c) hfound, ih hothers, hname]
    cases location <|> r.attributeLocation? name <;> rfl

/-- **Attributes are resolved to spans**, wherever they begin. -/
theorem resolveAttributes_eq
    (h : r.resolveAttributes (ps.flatMap fun p => Item.attributeElements p.2 p.1) = .ok out) :
    out = ps.flatMap r.spanOf := by
  induction ps generalizing out with
  | nil =>
    cases h
    rfl
  | cons p ps ih =>
    obtain ⟨x, location⟩ := p
    rw [List.flatMap_cons, resolveAttributes_append] at h
    obtain ⟨found, hfound, others, hothers, rfl⟩ := h
    rw [List.flatMap_cons, ih hothers]
    refine congrArg (· ++ _) ?_
    dsimp only at hfound ⊢
    rw [Item.attributeElements] at hfound
    split at hfound
    · next hnone =>
      cases hfound
      exact (spanOf_eq_nil_iff.mpr (.inr hnone)).symm
    · next buffer hbuffer =>
      have hcolumns := @resolveAttributes_columns r _ _ _ x.name location hfound (fun _ => rfl)
        fun c => by cases location <;> rfl
      rw [hcolumns]
      refine congrArg (Option.elim _ []) (funext fun first => ?_)
      rw [AttributeDecl.span, hbuffer]
      rfl

end Reflection

/-! ## Spans of a program -/

/-- The entries of a name. -/
def Elements.attributesOf {L : Type} (e : Elements L) (name : String) : List (BoundAttribute L) :=
  e.attributes.filter (·.name = name)

/-- **What a program has of its attributes.** Its vertex stage has the given text. -/
structure Elements.HasSpans (e : Elements Nat) (target : Target) (attributes : List AttributeDecl)
    (text : Text) : Prop where
  /-- all columns of an attribute, side by side, or none of them -/
  spans : ∀ x ∈ attributes,
    e.attributesOf x.name = [] ∨ ∃ first, e.attributesOf x.name = x.span first
  /-- an attribute without a buffer has no entry -/
  unbuffered : ∀ x ∈ attributes, x.buffer = none → e.attributesOf x.name = []
  /-- an attribute with a buffer is there if the text fixes its location or uses it -/
  present : ∀ x ∈ attributes, x.buffer.isSome = true →
    (e.attributesOf x.name ≠ [] ↔ target.api = .vulkan ∨ 2 ≤ mentions x.name.toList text)
  /-- every entry belongs to an attribute -/
  declared : ∀ entry ∈ e.attributes, ∃ x ∈ attributes, x.name = entry.name
  /-- no two entries have the same location -/
  distinct : (e.attributes.map (·.location)).Nodup

/-- What was listed under one of several keys is found again. -/
theorem filter_flatMap_of_nodup {α β κ : Type} [DecidableEq κ] {xs : List α} {x : α} {key : α → κ}
    {f : α → List β} {label : β → κ} (hkeys : (xs.map key).Nodup)
    (hf : ∀ x ∈ xs, ∀ y ∈ f x, label y = key x) (hx : x ∈ xs) :
    (xs.flatMap f).filter (fun y => label y = key x) = f x := by
  induction xs with
  | nil => cases hx
  | cons z xs ih =>
    obtain ⟨hz, hkeys⟩ := List.nodup_cons.mp hkeys
    have hne : ∀ w ∈ xs, key w ≠ key z := fun w hw he => hz (he ▸ List.mem_map_of_mem hw)
    rw [List.flatMap_cons, List.filter_append]
    rcases List.mem_cons.mp hx with rfl | hx
    · have hown : (f x).filter (fun y => label y = key x) = f x :=
        List.filter_eq_self.mpr fun y hy => decide_eq_true (hf x (List.mem_cons_self ..) y hy)
      have hothers : (xs.flatMap f).filter (fun y => label y = key x) = [] := by
        refine List.filter_eq_nil_iff.mpr fun y hy hlabel => ?_
        obtain ⟨w, hw, hy⟩ := List.mem_flatMap.mp hy
        refine hne w hw ?_
        rw [← hf w (List.mem_cons_of_mem _ hw) y hy]
        exact of_decide_eq_true hlabel
      rw [hown, hothers, List.append_nil]
    · have hown : (f z).filter (fun y => label y = key x) = [] := by
        refine List.filter_eq_nil_iff.mpr fun y hy hlabel => hne x hx ?_
        rw [← hf z (List.mem_cons_self ..) y hy]
        exact (of_decide_eq_true hlabel).symm
      rw [hown, List.nil_append]
      exact ih hkeys (fun w hw => hf w (List.mem_cons_of_mem _ hw)) hx

section

variable {target : Target} {ps : List (AttributeDecl × Option Nat)} {text : Text}
  {r : Reflection}

/-- Every attribute begins somewhere if it has to, and no two attributes have a location in
common. -/
structure Reflection.SpansApart (r : Reflection) (target : Target)
    (ps : List (AttributeDecl × Option Nat)) (text : Text) : Prop where
  /-- which attributes begin somewhere -/
  present : ∀ p ∈ ps, (r.firstLocation? p).isSome = true ↔
    target.api = .vulkan ∨ 2 ≤ mentions p.1.name.toList text
  /-- the columns of two attributes are apart -/
  apart : ps.Pairwise fun p q => ∀ m ∈ r.firstLocation? p, ∀ n ∈ r.firstLocation? q,
    ∀ i < p.1.ty.locations, ∀ j < q.1.ty.locations, m + i ≠ n + j

/-- **Attributes that are apart** are resolved to spans that are apart. -/
theorem Reflection.SpansApart.hasSpans {e : Elements Nat} (h : r.SpansApart target ps text)
    (hnames : (ps.map (·.1.name)).Nodup)
    (he : e.attributes = ps.flatMap r.spanOf) : e.HasSpans target (ps.map Prod.fst) text := by
  have hown : ∀ p ∈ ps, e.attributesOf p.1.name = r.spanOf p := by
    intro p hp
    rw [Elements.attributesOf, he]
    exact filter_flatMap_of_nodup hnames (fun q _ y hy => (of_mem_spanOf hy).1) hp
  refine ⟨fun x hx => ?_, fun x hx hbuffer => ?_, fun x hx hbuffer => ?_,
    fun entry hentry => ?_, ?_⟩
  · obtain ⟨p, hp, rfl⟩ := List.mem_map.mp hx
    rw [hown p hp]
    exact spanOf_eq_nil_or_eq_span
  · obtain ⟨p, hp, rfl⟩ := List.mem_map.mp hx
    rw [hown p hp]
    exact spanOf_eq_nil_iff.mpr (.inr hbuffer)
  · obtain ⟨p, hp, rfl⟩ := List.mem_map.mp hx
    rw [hown p hp, ← h.present p hp, Option.isSome_iff_ne_none, ne_eq, spanOf_eq_nil_iff,
      or_iff_left (Option.isSome_iff_ne_none.mp hbuffer)]
  · rw [he] at hentry
    obtain ⟨p, hp, hentry⟩ := List.mem_flatMap.mp hentry
    exact ⟨p.1, List.mem_map_of_mem hp, (of_mem_spanOf hentry).1.symm⟩
  · rw [he, List.map_flatMap, List.nodup_flatMap]
    refine ⟨fun p _ => nodup_locations_spanOf, h.apart.imp fun {p q} hapart => ?_⟩
    refine List.disjoint_left.mpr fun location hlocation hother => ?_
    obtain ⟨entry, hentry, rfl⟩ := List.mem_map.mp hlocation
    obtain ⟨other, hmem, hsame⟩ := List.mem_map.mp hother
    obtain ⟨-, m, hm, i, hi, hentryAt⟩ := of_mem_spanOf hentry
    obtain ⟨-, n, hn, j, hj, hotherAt⟩ := of_mem_spanOf hmem
    exact hapart m hm n hn i hi j hj (by rw [← hentryAt, ← hotherAt, hsame])

/-- Only Vulkan texts fix locations. -/
theorem Target.hasExplicitLocations_dialect :
    target.dialect.hasExplicitLocations = decide (target.api = .vulkan) := by
  obtain ⟨api, version, platform, frames⟩ := target
  cases api <;> rfl

/-- **Locations that the text fixes** are apart, whatever the compiler tells. -/
theorem ArePlaced.spansApart {next : Nat} (h : ArePlaced target.dialect next ps)
    (hapi : target.api = .vulkan) (r : Reflection) (text : Text) :
    r.SpansApart target ps text := by
  have hfirst : ∀ p ∈ ps, r.firstLocation? p = p.2 ∧ p.2.isSome = true := by
    intro p hp
    have hsome : p.2.isSome = true := by
      rw [h.isSome p hp, Target.hasExplicitLocations_dialect]
      exact decide_eq_true hapi
    obtain ⟨first, hfirst⟩ := Option.isSome_iff_exists.mp hsome
    rw [Reflection.firstLocation?, hfirst]
    exact ⟨rfl, rfl⟩
  refine ⟨fun p hp => ?_, h.apart.imp_of_mem fun {p q} hp hq hapart m hm n hn i hi j _ => ?_⟩
  · rw [(hfirst p hp).1]
    exact iff_of_true (hfirst p hp).2 (.inl hapi)
  · rw [(hfirst p hp).1] at hm
    rw [(hfirst q hq).1] at hn
    have := hapart m hm n hn
    omega

/-- Other texts leave all locations to the compiler. -/
theorem ArePlaced.firstLocation?_eq {next : Nat} (h : ArePlaced target.dialect next ps)
    (hapi : target.api ≠ .vulkan) {p : AttributeDecl × Option Nat} (hp : p ∈ ps) :
    p.2 = none ∧ r.firstLocation? p = r.attributeLocation? p.1.name := by
  have hnone := h.isSome p hp
  rw [Target.hasExplicitLocations_dialect, decide_eq_false hapi] at hnone
  have hopen : p.2 = none := Option.not_isSome_iff_eq_none.mp (Bool.eq_false_iff.mp hnone)
  rw [Reflection.firstLocation?, hopen]
  exact ⟨rfl, rfl⟩

/-- A compiler assigns a location to the attributes that the text uses. -/
theorem isSome_attributeLocation?_iff_isUsed {ds : List Declaration}
    (hused : usedAttributes ds =
      (ps.filter fun p => isUsed text p.1.name.toList).map fun p => p.1.claimant p.2)
    {p : AttributeDecl × Option Nat} (hp : p ∈ ps) :
    ((reflect ds).attributeLocation? p.1.name).isSome = true ↔
      isUsed text p.1.name.toList = true := by
  rw [isSome_attributeLocation?_reflect, hused]
  constructor
  · rintro ⟨c, hc, hname⟩
    obtain ⟨q, hq, rfl⟩ := List.mem_map.mp hc
    rw [← hname]
    exact (List.mem_filter.mp hq).2
  · intro hp'
    exact ⟨_, List.mem_map_of_mem (List.mem_filter.mpr ⟨hp, hp'⟩), rfl⟩

/-- **Locations that a compiler assigns** are apart, and the attributes that the text uses have
some. -/
theorem ArePlaced.spansApart_reflect {next : Nat} {ds : List Declaration}
    (h : ArePlaced target.dialect next ps) (hapi : target.api ≠ .vulkan)
    (hnames : ∀ p ∈ ps, IsName p.1.name.toList) (hdistinct : (ps.map (·.1.name)).Nodup)
    (hused : usedAttributes ds =
      (ps.filter fun p => isUsed text p.1.name.toList).map fun p => p.1.claimant p.2) :
    (reflect ds).SpansApart target ps text := by
  have hclaims : ∀ p ∈ ps, ∀ m ∈ (reflect ds).attributeLocation? p.1.name,
      p.1.claimant p.2 ∈ usedAttributes ds := by
    intro p hp m hm
    rw [hused]
    exact List.mem_map_of_mem (List.mem_filter.mpr ⟨hp,
      (isSome_attributeLocation?_iff_isUsed hused hp).mp (Option.isSome_iff_exists.mpr ⟨m, hm⟩)⟩)
  refine ⟨fun p hp => ?_, ?_⟩
  · rw [(h.firstLocation?_eq hapi hp).2, isSome_attributeLocation?_iff_isUsed hused hp, isUsed,
      wholeWords_eq (hnames p hp), decide_eq_true_iff]
    simp [hapi, Nat.succ_le_iff]
  · have hpairs : ps.Pairwise fun p q => p.1.name ≠ q.1.name := List.pairwise_map.mp hdistinct
    refine hpairs.imp_of_mem fun {p q} hp hq hne m hm n hn => ?_
    rw [(h.firstLocation?_eq hapi hp).2] at hm
    rw [(h.firstLocation?_eq hapi hq).2] at hn
    refine areApart_of_attributeLocation? (fun c hc => ?_) ?_ (hclaims p hp m hm)
      (hclaims q hq n hn) hne hm hn
    · rw [hused] at hc
      obtain ⟨q, hq, rfl⟩ := List.mem_map.mp hc
      exact (h.firstLocation?_eq (r := reflect ds) hapi (List.mem_of_mem_filter hq)).1
    · rw [hused, List.map_map]
      exact hdistinct.sublist (List.filter_sublist.map _)

end

/-! ## Runs -/

/-- A body that declares nothing declares no input. -/
theorem ReadsNothing.readsNoInput {d : Dialect} {body : String} (h : ReadsNothing d body) :
    d.ReadsNoInput body := by
  intro lowered source ds hl hds
  rw [h lowered true source ds hl hds]
  exact fun x hx => absurd hx List.not_mem_nil

/-- A matrix that is bound. -/
def matrixDeclarations : Declarations where
  attributes :=
    [{ name := "m", ty := .mat4, format := .rgba32Float, offset := 16,
       buffer := some { size := 256 } }]

theorem exists_drafts_matrixDeclarations :
    ∃ vertex fragment,
      (Session.declaring matrixDeclarations).Drafts desktopTarget.dialect 1 vertex fragment ∧
      vertex.items =
        matrixDeclarations.attributes.map (.vertexAttribute "in" "" none) ∧
      fragment.items = [.colorOutput none 1] := by
  refine ⟨_, _, ⟨⟨by decide, by decide, by decide, by decide, by decide, by decide, by decide⟩, rfl,
    rfl, rfl, ?_, ?_⟩, rfl, rfl⟩
  · decide +kernel
  · decide +kernel

theorem areInert_matrix : AreInert ["m;".toList] := by
  have hsplit : splitLayout "m;".toList = .ok ([], "m;".toList) := by
    decide +kernel
  exact areInert_singleton ⟨by decide, by decide⟩ (by decide +kernel) (by decide) hsplit
    (by decide +kernel)

theorem lower_matrix : lower desktopTarget.dialect "m;\n".toList =
    .ok ⟨unlines ["m;".toList], 0⟩ := by
  decide +kernel

end ShaderLoom
