import Mathlib.Data.List.Induction
import Mathlib.Data.List.Nodup
import ShaderLoom.Program.Basic
import ShaderLoom.Proofs.Outcome

/-!
# Locations of uniforms

The uniforms, samplers and images that a program uses have one location for each name, and of
several declarations of a name the first counts. A location that it fixes is kept. The other names
are open, and are numbered one after the other, in the order in which they come up (`AreNumbered`),
whatever locations the text fixes: a number may be one of those. So no open name is put where the
text has put another one exactly when the text fixes no location below the number of open names
(**`compile_areFree_iff`**).
-/

namespace ShaderLoom.Reading

variable {ds : List Declaration} {d : Declaration} {name : String} {state : PlacementTable × Nat}
  {location? : String → Option Nat}

/-! ## First declarations -/

/-- The first declaration of a name. -/
def first? (ds : List Declaration) (name : String) : Option Declaration := ds.find? (·.name = name)

/-- The location that the text fixes for a name. -/
def fixed? (ds : List Declaration) (name : String) : Option Nat :=
  (first? ds name).bind Declaration.location

/-- Is a name declared first without a location? -/
def isOpen (ds : List Declaration) (name : String) : Bool :=
  (first? ds name).any (·.location.isNone)

/-- The names that are declared, in the order in which they come up. -/
def declaredNames (ds : List Declaration) : List String := (ds.map Declaration.name).eraseDups

/-- The open names, in the order in which they come up. -/
def openNames (ds : List Declaration) : List String := (declaredNames ds).filter (isOpen ds)

theorem isSome_first? : (first? ds name).isSome = true ↔ ∃ x ∈ ds, x.name = name := by
  simp [first?]

theorem mem_declaredNames : name ∈ declaredNames ds ↔ (first? ds name).isSome = true := by
  rw [isSome_first?, declaredNames, List.mem_eraseDups, List.mem_map]

theorem isOpen_iff : isOpen ds name = true ↔ ∃ x, first? ds name = some x ∧ x.location = none := by
  rw [isOpen]
  cases first? ds name <;> simp

theorem mem_openNames : name ∈ openNames ds ↔ isOpen ds name = true := by
  rw [openNames, List.mem_filter, mem_declaredNames, isOpen]
  cases first? ds name <;> simp

/-- A name that is declared is fixed or open. -/
theorem fixed?_or_isOpen (h : (first? ds name).isSome = true) :
    (∃ n, fixed? ds name = some n) ∨ isOpen ds name = true := by
  obtain ⟨x, hx⟩ := Option.isSome_iff_exists.mp h
  rw [fixed?, isOpen, hx]
  cases hlocation : x.location <;> simp [hlocation]

/-! ## One more declaration -/

theorem first?_concat (ds : List Declaration) (d : Declaration) (name : String) :
    first? (ds ++ [d]) name = (first? ds name).or (if d.name = name then some d else none) := by
  rw [first?, List.find?_append, List.find?_singleton]
  by_cases h : d.name = name <;> simp [h, first?]

/-- Another declaration of a name does not count. -/
theorem first?_concat_of_isSome (h : (first? ds d.name).isSome = true) (name : String) :
    first? (ds ++ [d]) name = first? ds name := by
  rw [first?_concat]
  split
  · next hname =>
    obtain ⟨x, hx⟩ := Option.isSome_iff_exists.mp h
    rw [← hname, hx, Option.some_or]
  · rw [Option.or_none]

theorem first?_concat_of_ne (h : d.name ≠ name) : first? (ds ++ [d]) name = first? ds name := by
  rw [first?_concat, if_neg h, Option.or_none]

theorem declaredNames_concat (ds : List Declaration) (d : Declaration) :
    declaredNames (ds ++ [d]) =
      declaredNames ds ++ if (first? ds d.name).isSome = true then [] else [d.name] := by
  rw [declaredNames, List.map_append, List.eraseDups_append, declaredNames]
  refine congrArg _ ?_
  by_cases h : (first? ds d.name).isSome = true
  · rw [if_pos h, List.map_singleton, List.removeAll, List.filter_singleton]
    simp [isSome_first?.mp h]
  · have hnew : ¬∃ x ∈ ds, x.name = d.name := fun hx => h (isSome_first?.mpr hx)
    rw [if_neg h, List.map_singleton, List.removeAll, List.filter_singleton]
    simp [hnew, List.eraseDups_cons]

theorem nodup_declaredNames (ds : List Declaration) : (declaredNames ds).Nodup := by
  induction ds using List.reverseRecOn with
  | nil => exact List.nodup_nil
  | append_singleton ds d ih =>
    rw [declaredNames_concat]
    split
    · rw [List.append_nil]
      exact ih
    · next h =>
      rw [← List.concat_eq_append]
      exact ih.concat fun hmem => h (mem_declaredNames.mp hmem)

theorem nodup_openNames (ds : List Declaration) : (openNames ds).Nodup :=
  (nodup_declaredNames ds).filter _

theorem openNames_concat_of_isSome (h : (first? ds d.name).isSome = true) :
    openNames (ds ++ [d]) = openNames ds := by
  rw [openNames, declaredNames_concat, if_pos h, List.append_nil]
  refine List.filter_congr fun name _ => ?_
  rw [isOpen, first?_concat_of_isSome h, isOpen]

/-- The first declaration of a name adds it to the open ones if it fixes no location. -/
theorem openNames_concat_of_none (h : first? ds d.name = none) :
    openNames (ds ++ [d]) = openNames ds ++ if d.location = none then [d.name] else [] := by
  have hnew : (declaredNames ds).filter (isOpen (ds ++ [d])) = openNames ds := by
    refine List.filter_congr fun name hname => ?_
    have hne : d.name ≠ name := fun he => by
      rw [mem_declaredNames, ← he, h] at hname
      cases hname
    rw [isOpen, first?_concat_of_ne hne, isOpen]
  have hself : isOpen (ds ++ [d]) d.name = d.location.isNone := by
    rw [isOpen, first?_concat, h, if_pos rfl]
    rfl
  have hnone : ¬(none : Option Declaration).isSome = true := Bool.false_ne_true
  rw [openNames, declaredNames_concat, h, if_neg hnone, List.filter_append, hnew]
  refine congrArg _ ?_
  cases hlocation : d.location <;> simp [hself, hlocation]

/-! ## The numbering -/

/-- What is told about a name: the location that is fixed for it, or else its number among the open
names. -/
def told? (ds : List Declaration) (name : String) : Option Placement :=
  (first? ds name).map fun d =>
    ⟨some (d.location.getD ((openNames ds).idxOf name)), d.binding⟩

/-- What has come of some declarations. -/
structure IsNumbered (ds : List Declaration) (state : PlacementTable × Nat) : Prop where
  /-- every declared name is told -/
  told : ∀ name, state.1.find? name = told? ds name
  /-- the next number is behind all that were given -/
  next : state.2 = (openNames ds).length

theorem told?_concat_of_isSome (h : (first? ds d.name).isSome = true) (name : String) :
    told? (ds ++ [d]) name = told? ds name := by
  rw [told?, first?_concat_of_isSome h, openNames_concat_of_isSome h, told?]

/-- The first declaration of a name changes nothing for the other names. -/
theorem told?_concat_of_ne (h : first? ds d.name = none) (hne : d.name ≠ name) :
    told? (ds ++ [d]) name = told? ds name := by
  rw [told?, first?_concat_of_ne hne, told?]
  cases hx : first? ds name with
  | none => rfl
  | some x =>
    rw [Option.map_some, Option.map_some]
    cases hlocation : x.location with
    | some n => rfl
    | none =>
      -- an open name keeps its number, since new ones come up behind it
      have hmem : name ∈ openNames ds := mem_openNames.mpr (isOpen_iff.mpr ⟨x, hx, hlocation⟩)
      rw [openNames_concat_of_none h, List.idxOf_append_of_mem hmem]

theorem told?_concat_self (h : first? ds d.name = none) :
    told? (ds ++ [d]) d.name =
      some ⟨some (d.location.getD (openNames ds).length), d.binding⟩ := by
  rw [told?, first?_concat, h, if_pos rfl, Option.none_or, Option.map_some]
  cases hlocation : d.location with
  | some n => rfl
  | none =>
    have hmem : d.name ∉ openNames ds := fun hmem => by
      rw [mem_openNames, isOpen, h] at hmem
      cases hmem
    rw [openNames_concat_of_none h, if_pos hlocation, List.idxOf_append_of_notMem hmem,
      List.idxOf_cons_self, Nat.add_zero, Option.getD_none]

/-- **One more declaration** is numbered behind the others. -/
theorem IsNumbered.assignUniform (h : IsNumbered ds state) (d : Declaration) :
    IsNumbered (ds ++ [d]) (assignUniform state d) := by
  rw [Reading.assignUniform, h.told, told?, Option.isSome_map]
  cases hfirst : first? ds d.name with
  | some x =>
    have hsome : (first? ds d.name).isSome = true := Option.isSome_of_mem hfirst
    rw [Option.isSome_some, if_pos rfl]
    refine ⟨fun name => ?_, ?_⟩
    · rw [h.told, told?_concat_of_isSome hsome]
    · rw [h.next, openNames_concat_of_isSome hsome]
  | none =>
    have htold : ∀ (info : Placement), told? (ds ++ [d]) d.name = some info →
        ∀ name, (state.1.insert d.name info).find? name = told? (ds ++ [d]) name := by
      intro info hinfo name
      rw [Table.find?_insert, h.told]
      split
      · next he => rw [he, hinfo]
      · next he => rw [told?_concat_of_ne hfirst (Ne.symm he)]
    have hself := told?_concat_self hfirst
    rw [Option.isSome_none, if_neg Bool.false_ne_true]
    cases hlocation : d.location with
    | some n =>
      rw [hlocation, Option.getD_some] at hself
      refine ⟨htold _ hself, ?_⟩
      rw [openNames_concat_of_none hfirst, hlocation, if_neg (Option.some_ne_none n),
        List.append_nil]
      exact h.next
    | none =>
      rw [hlocation, Option.getD_none, ← h.next] at hself
      refine ⟨htold _ hself, ?_⟩
      rw [openNames_concat_of_none hfirst, if_pos hlocation, List.length_append,
        List.length_singleton, ← h.next]

/-- **All declarations** are numbered in order. -/
theorem isNumbered_foldl (ds : List Declaration) :
    IsNumbered ds (ds.foldl Reading.assignUniform ([], 0)) := by
  -- numbers count what stands in front, so the list grows at its end
  induction ds using List.reverseRecOn with
  | nil => exact ⟨fun _ => rfl, rfl⟩
  | append_singleton ds d ih =>
    rw [List.foldl_append]
    exact ih.assignUniform d

/-- **What is found under a name** is what its first declaration is told. -/
theorem find?_assignUniforms (ds : List Declaration) (name : String) :
    (assignUniforms ds).find? name = told? ds name := (isNumbered_foldl ds).told name

/-- **What is known about a uniform** comes from a declaration of that name. -/
theorem exists_of_find?_assignUniforms {p : Placement}
    (h : (assignUniforms ds).find? name = some p) :
    ∃ d ∈ ds, d.name = name ∧ p.binding = d.binding := by
  rw [find?_assignUniforms] at h
  obtain ⟨x, hx, rfl⟩ := Option.map_eq_some_iff.mp h
  have hname : x.name = name := by simpa using List.find?_some hx
  exact ⟨x, List.mem_of_find?_eq_some hx, hname, rfl⟩

/-- **Every uniform has a location.** -/
theorem exists_find?_assignUniforms (h : d ∈ ds) :
    ∃ p, (assignUniforms ds).find? d.name = some p ∧ p.location.isSome = true := by
  obtain ⟨x, hx⟩ := Option.isSome_iff_exists.mp (isSome_first?.mpr ⟨d, h, rfl⟩)
  rw [find?_assignUniforms, told?, hx]
  exact ⟨_, rfl, rfl⟩

/-! ## Numbers and fixed locations -/

/-- Locations are fixed by the first declaration of a name, or numbered. -/
structure AreNumbered (ds : List Declaration) (location? : String → Option Nat) : Prop where
  /-- the names that are declared have a location -/
  told : ∀ name, (location? name).isSome = true ↔ ∃ x ∈ ds, x.name = name
  /-- a fixed location is kept -/
  fixed : ∀ name n, fixed? ds name = some n → location? name = some n
  /-- the open names are numbered in the order in which they come up -/
  numbered : ∀ name, isOpen ds name = true → location? name = some ((openNames ds).idxOf name)
  /-- two open names are apart -/
  apart : ∀ name other, isOpen ds name = true → isOpen ds other = true →
    location? name = location? other → name = other

/-- An open name has a location of its own. -/
structure AreFree (ds : List Declaration) (location? : String → Option Nat) : Prop where
  /-- no other name is fixed there -/
  free : ∀ name other n, isOpen ds name = true → fixed? ds other = some n →
    location? name ≠ some n
  /-- two names share a location only if the text has put them there -/
  shared : ∀ name other n, name ≠ other → location? name = some n → location? other = some n →
    fixed? ds name = some n ∧ fixed? ds other = some n

/-- The text fixes no location that an open name needs. -/
def LeavesRoom (ds : List Declaration) : Prop :=
  ∀ name n, fixed? ds name = some n → (openNames ds).length ≤ n

/-- Only the names that are declared matter. -/
theorem leavesRoom_iff :
    LeavesRoom ds ↔ ∀ name ∈ declaredNames ds, ∀ n ∈ fixed? ds name, (openNames ds).length ≤ n := by
  refine ⟨fun h name _ n hn => h name n hn, fun h name n hn => h name ?_ n hn⟩
  obtain ⟨x, hx, -⟩ := Option.bind_eq_some_iff.mp hn
  exact mem_declaredNames.mpr (Option.isSome_of_mem hx)

instance (ds : List Declaration) : Decidable (LeavesRoom ds) := decidable_of_iff' _ leavesRoom_iff

theorem areNumbered_told? (ds : List Declaration) :
    AreNumbered ds fun name => (told? ds name).bind Placement.location := by
  have hopen : ∀ name, isOpen ds name = true →
      (told? ds name).bind Placement.location = some ((openNames ds).idxOf name) := by
    intro name hname
    obtain ⟨x, hx, hlocation⟩ := isOpen_iff.mp hname
    rw [told?, hx, Option.map_some, hlocation]
    rfl
  refine ⟨fun name => ?_, fun name n hn => ?_, hopen, fun name other hname hother he => ?_⟩
  · rw [← isSome_first?, told?]
    cases first? ds name <;> simp
  · obtain ⟨x, hx, hlocation⟩ := Option.bind_eq_some_iff.mp hn
    rw [told?, hx, Option.map_some, hlocation]
    rfl
  · rw [hopen name hname, hopen other hother] at he
    exact (List.idxOf_inj (mem_openNames.mpr hname)).mp (Option.some.inj he)

namespace AreNumbered

/-- **Room for the open names**: they have locations of their own exactly when the text fixes none
below the number of open names. -/
theorem areFree_iff (h : AreNumbered ds location?) : AreFree ds location? ↔ LeavesRoom ds := by
  constructor
  · intro hfree other n hn
    by_contra hle
    have hlt : n < (openNames ds).length := Nat.lt_of_not_le hle
    -- the open name with the number `n` is put where the text has put `other`
    have hopen : isOpen ds (openNames ds)[n] = true := mem_openNames.mp (List.getElem_mem hlt)
    refine hfree.free (openNames ds)[n] other n hopen hn ?_
    rw [h.numbered _ hopen, (nodup_openNames ds).idxOf_getElem n hlt]
  · intro hroom
    have hlow : ∀ name n, isOpen ds name = true → location? name = some n →
        n < (openNames ds).length := by
      intro name n hname hn
      rw [h.numbered name hname] at hn
      obtain rfl := Option.some.inj hn
      exact List.idxOf_lt_length_of_mem (mem_openNames.mpr hname)
    have hfree : ∀ name other n, isOpen ds name = true → fixed? ds other = some n →
        location? name ≠ some n := fun name other n hname hother hn =>
      Nat.not_lt_of_le (hroom other n hother) (hlow name n hname hn)
    have hdeclared : ∀ name n, location? name = some n →
        fixed? ds name = some n ∨ isOpen ds name = true := by
      intro name n hn
      refine (fixed?_or_isOpen (isSome_first?.mpr ((h.told name).mp (Option.isSome_of_mem hn)))).imp
        (fun ⟨m, hm⟩ => ?_) id
      rw [hm, ← h.fixed name m hm, hn]
    refine ⟨hfree, fun name other n hne hn hother => ?_⟩
    rcases hdeclared name n hn with hname | hname
    · rcases hdeclared other n hother with ho | ho
      · exact ⟨hname, ho⟩
      · exact absurd hother (hfree other name n ho hname)
    · rcases hdeclared other n hother with ho | ho
      · exact absurd hn (hfree name other n hname ho)
      · exact absurd (h.apart name other hname ho (hn.trans hother.symm)) hne

end AreNumbered

/-! ## The whole program -/

/-- The uniforms, samplers and images that a program uses. -/
def usedUniforms (ds : List Declaration) : List Declaration :=
  (ds.filter (·.used)).filter Declaration.isUniform

theorem areNumbered_reflect (ds : List Declaration) :
    AreNumbered (usedUniforms ds) (reflect ds).uniformLocation? := by
  have htold : (reflect ds).uniformLocation? = fun name =>
      (told? (usedUniforms ds) name).bind Placement.location := by
    funext name
    rw [← find?_assignUniforms]
    rfl
  rw [htold]
  exact areNumbered_told? _

/-- **What the compiler tells about uniforms**: the location that the first declaration of a name
fixes, or a number. The numbers are no fixed locations exactly when all of these are high enough. -/
theorem compile_areFree_iff (compilerName : String) {texts : StageTexts}
    (hread : readProgram texts = .ok ds) :
    ∃ r, (readingCompiler compilerName).compile texts = .ok r ∧
      AreNumbered (usedUniforms ds) r.uniformLocation? ∧
      (AreFree (usedUniforms ds) r.uniformLocation? ↔ LeavesRoom (usedUniforms ds)) :=
  ⟨reflect ds, congrArg (Except.map reflect) hread, areNumbered_reflect ds,
    (areNumbered_reflect ds).areFree_iff⟩

/-! ## Fixed locations high and low -/

/-- Two stages with open and with fixed uniforms, a sampler and names that are declared twice. -/
def spaciousTexts : StageTexts :=
  .graphics
    ("#version 430\nuniform vec4 a;\nlayout(location=7) uniform sampler2D t;\n" ++
      "uniform vec4 b;\nlayout(location=1) uniform vec4 a;\na t b\n")
    ("#version 430\nuniform vec4 b;\nlayout(location=7) uniform vec4 c;\na t b c\n")

/-- What is read in them. -/
def spaciousDeclarations : List Declaration :=
  [⟨"a", .uniform, none, none, true⟩, ⟨"t", .sampler, some 7, none, true⟩,
    ⟨"b", .uniform, none, none, true⟩, ⟨"a", .uniform, some 1, none, true⟩,
    ⟨"b", .uniform, none, none, true⟩, ⟨"c", .uniform, some 7, none, true⟩]

/-- Seven is high enough for both fixed names, and the open names are numbered below it. The
location that a later declaration of a name fixes does not count. -/
theorem compile_areFree_spacious :
    readProgram spaciousTexts = .ok spaciousDeclarations ∧
      ∃ r, (readingCompiler "reader").compile spaciousTexts = .ok r ∧
        r.uniformLocation? "t" = some 7 ∧ r.uniformLocation? "c" = some 7 ∧
        r.uniformLocation? "a" = some 0 ∧ r.uniformLocation? "b" = some 1 ∧
        AreFree (usedUniforms spaciousDeclarations) r.uniformLocation? := by
  have hread : readProgram spaciousTexts = .ok spaciousDeclarations := by
    decide +kernel
  obtain ⟨r, hr, hnumbered, hfree⟩ := compile_areFree_iff "reader" hread
  have hroom : LeavesRoom (usedUniforms spaciousDeclarations) := by
    decide
  exact ⟨hread, r, hr, hnumbered.fixed "t" 7 (by decide), hnumbered.fixed "c" 7 (by decide),
    hnumbered.numbered "a" (by decide), hnumbered.numbered "b" (by decide), hfree.mpr hroom⟩

/-- A fixed location in front of an open name. -/
def crowdedTexts : StageTexts :=
  .compute "#version 430\nlayout(location=0) uniform vec4 a;\nuniform vec4 b;\na b"

/-- What is read in them. -/
def crowdedDeclarations : List Declaration :=
  [⟨"a", .uniform, some 0, none, true⟩, ⟨"b", .uniform, none, none, true⟩]

/-- The number of the open name is the location that the text has fixed for the other one. -/
theorem not_areFree_crowded :
    readProgram crowdedTexts = .ok crowdedDeclarations ∧
      ∃ r, (readingCompiler "reader").compile crowdedTexts = .ok r ∧
        r.uniformLocation? "a" = some 0 ∧ r.uniformLocation? "b" = some 0 ∧
        fixed? (usedUniforms crowdedDeclarations) "a" = some 0 ∧
        isOpen (usedUniforms crowdedDeclarations) "b" = true ∧
        ¬AreFree (usedUniforms crowdedDeclarations) r.uniformLocation? := by
  have hread : readProgram crowdedTexts = .ok crowdedDeclarations := by
    decide +kernel
  have hfixed : fixed? (usedUniforms crowdedDeclarations) "a" = some 0 := by
    decide
  have hopen : isOpen (usedUniforms crowdedDeclarations) "b" = true := by
    decide
  have ha : (reflect crowdedDeclarations).uniformLocation? "a" = some 0 := by
    decide
  have hb : (reflect crowdedDeclarations).uniformLocation? "b" = some 0 := by
    decide
  exact ⟨hread, _, congrArg (Except.map reflect) hread, ha, hb, hfixed, hopen, fun h =>
    h.free "b" "a" 0 hopen hfixed hb⟩

end ShaderLoom.Reading
