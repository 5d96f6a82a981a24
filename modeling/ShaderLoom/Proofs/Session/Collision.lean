import ShaderLoom.Proofs.Reading.Assignment
import ShaderLoom.Proofs.Session.Run
import ShaderLoom.Proofs.Source.BareBlock
import ShaderLoom.Proofs.Text.Occurrence

/-!
# Colliding bindings

Where the text leaves the bindings of blocks open, the reading compiler numbers uniform blocks and
storage blocks apart, but a number is looked up by name alone. So three blocks of a compute program
are enough for a collision. Two of them are called `a`, and one of these is not used. It gets no
number of its own, but the compiler knows a number under its name: the one of the other block called
`a`. This is the first number of the other kind, and the third block, of the kind of the unused one,
has the first number of that kind (**`Workspace.exists_build_collidingRun`**).
-/

namespace ShaderLoom

open Text Reading

variable {d : Dialect} {target : Target} {a b : String} {kind other : BlockKind} {source : Text}
  {ds : List Declaration}

/-! ## The session -/

/-- A block of a compute program without fields. -/
def bareBlock (name : String) (kind : BlockKind) (instanceName : String) : BlockDecl where
  name := name
  stage := .compute
  block := .empty .std140 kind
  instanceName := some instanceName

/-- The three blocks. The second one is not used: it has neither fields nor an instance name. -/
def collidingBlocks (a b : String) (kind other : BlockKind) : List BlockDecl :=
  [bareBlock b kind "i", bareBlock a kind "", bareBlock a other "j"]

/-- A body that uses the first block and the last. -/
def collidingBody : String := "i i\nj j\n"

theorem isBare_bareBlock {name : String} (kind : BlockKind) {instanceName : String}
    (h : IsName name.toList) (hinstance : instanceName ∈ ["", "i", "j"]) :
    (bareBlock name kind instanceName).IsBare := by
  have hall : ∀ s ∈ ["", "i", "j"], s.toList.all isIdentifier = true ∧
      isTokenlessFrom [] s.toList = true := by decide
  obtain ⟨hidentifier, htoken⟩ := hall instanceName hinstance
  exact ⟨h, List.all_eq_true.mp hidentifier, callFree_of_isTokenlessFrom htoken, rfl, rfl⟩

theorem isBare_collidingBlocks (ha : IsName a.toList) (hb : IsName b.toList)
    (kind other : BlockKind) : ∀ x ∈ collidingBlocks a b kind other, x.IsBare := by
  intro x hx
  simp only [collidingBlocks, List.mem_cons, List.not_mem_nil, or_false] at hx
  rcases hx with rfl | rfl | rfl
  · exact isBare_bareBlock kind hb (by decide)
  · exact isBare_bareBlock kind ha (by decide)
  · exact isBare_bareBlock other ha (by decide)

/-- The first binding of a kind, if the text fixes it. -/
theorem exists_binding_start (d : Dialect) (stage : Stage) (resource : BindingClass) :
    ∃ number, (Allocator.start.binding d stage resource).1 = number ∧
      (number = none ∨ number = some 0) := by
  cases h : d.bindingSpace? stage resource with
  | none => exact ⟨none, congrArg Prod.fst (Allocator.binding_of_none h), .inl rfl⟩
  | some space => exact ⟨some 0, congrArg Prod.fst (Allocator.binding_of_some h), .inr rfl⟩

/-- **The items** of the three blocks. -/
theorem exists_blockItems_collidingBlocks (hopen : d.fixesBindings (.ofBlock kind) = false)
    (a b : String) (other : BlockKind) :
    ∃ number, (number = none ∨ number = some 0) ∧
      blockItems d Allocator.start (collidingBlocks a b kind other) =
        [.block (bareBlock b kind "i") none, .block (bareBlock a kind "") none,
          .block (bareBlock a other "j") number] := by
  have hspace : d.bindingSpace? .compute (.ofBlock kind) = none := by
    rw [Dialect.bindingSpace?, hopen, if_neg (by decide)]
  have hnone : Allocator.start.binding d .compute (.ofBlock kind) = (none, Allocator.start) :=
    Allocator.binding_of_none hspace
  obtain ⟨number, hnumber, hcases⟩ := exists_binding_start d .compute (.ofBlock other)
  refine ⟨number, hcases, ?_⟩
  have hstep : ∀ (name instanceName : String) (rest : List BlockDecl),
      blockItems d Allocator.start (bareBlock name kind instanceName :: rest) =
        .block (bareBlock name kind instanceName) none :: blockItems d Allocator.start rest := by
    intro name instanceName rest
    change Item.block _ (Allocator.start.binding d .compute (.ofBlock kind)).1 ::
      blockItems d (Allocator.start.binding d .compute (.ofBlock kind)).2 rest = _
    rw [hnone]
  rw [collidingBlocks, hstep, hstep, ← hnumber]
  rfl

/-! ## The reflection -/

/-- What is read of the three blocks, whose identifiers are `x` and `y`. -/
def collidingDeclarations (x y : String) (kind other : BlockKind) (number : Option Nat) :
    List Declaration :=
  [⟨y, .block kind, none, none, true⟩, ⟨x, .block kind, none, none, false⟩,
    ⟨x, .block other, none, number, true⟩]

theorem filterMap_declaration?_colliding {number : Option Nat}
    (hi : isUsed source "i".toList = true) (hj : isUsed source "j".toList = true) :
    [Item.block (bareBlock b kind "i") none, .block (bareBlock a kind "") none,
        .block (bareBlock a other "j") number].filterMap (Item.declaration? false source) =
      collidingDeclarations (bareBlock a kind "").identifier (bareBlock b kind "i").identifier kind
        other number := by
  have hused : ∀ {name : String} (kind : BlockKind) (number : Option Nat) {instanceName : String},
      instanceName.toList ≠ [] → isUsed source instanceName.toList = true →
      (Item.block (bareBlock name kind instanceName) number).declaration? false source =
        some ⟨(bareBlock name kind instanceName).identifier, .block kind, none, number, true⟩ := by
    intro name kind number instanceName hne hused
    rw [← hused]
    refine congrArg (fun used => some (Declaration.mk _ _ _ _ used)) ?_
    exact if_neg hne
  have hdead : (Item.block (bareBlock a kind "") none).declaration? false source =
      some ⟨(bareBlock a kind "").identifier, .block kind, none, none, false⟩ := rfl
  rw [List.filterMap_cons_some (hused kind none (by decide) hi), List.filterMap_cons_some hdead,
    List.filterMap_cons_some (hused other number (by decide) hj), List.filterMap_nil]
  rfl

/-- The least number of all. -/
theorem leastRow_nil (span : Nat) : leastRow [] span = 0 := by
  have hfree : IsFree [] span 0 := by
    intro n hn
    cases hn
  exact Nat.le_zero.mp (leastRowFrom_le hfree (Nat.le_refl 0))

/-- **Each kind begins with the first number.** -/
theorem blockRows_colliding {x y : String} {number : Option Nat} (hne : other ≠ kind)
    (hnumber : number = none ∨ number = some 0) :
    blockRows kind (collidingDeclarations x y kind other number) = [(y, 0)] ∧
      blockRows other (collidingDeclarations x y kind other number) = [(x, 0)] := by
  have hkind : blockClaimants kind
      ((collidingDeclarations x y kind other number).filter (·.used)) = [⟨y, 1, none⟩] := by
    simp [collidingDeclarations, blockClaimants, hne]
  have hother : blockClaimants other
      ((collidingDeclarations x y kind other number).filter (·.used)) = [⟨x, 1, number⟩] := by
    simp [collidingDeclarations, blockClaimants, Ne.symm hne]
  have hassign : ∀ name : String, assign [⟨name, 1, none⟩] = [(name, 0)] := by
    intro name
    change [(name, leastRow [] 1)] = _
    rw [leastRow_nil]
  rw [blockRows, blockRows, hkind, hother]
  refine ⟨hassign y, ?_⟩
  rcases hnumber with rfl | rfl
  · exact hassign x
  · rfl

/-- **Both names have the first number.** -/
theorem resolveBuffer?_colliding {x y : String} {number : Option Nat} (hne : other ≠ kind)
    (hxy : x ≠ y) (hnumber : number = none ∨ number = some 0) {z : BoundBuffer}
    (hz : z.name = x ∨ z.name = y) (hbinding : z.binding = none) :
    (reflect (collidingDeclarations x y kind other number)).resolveBuffer? z =
      some { z with binding := some 0 } := by
  obtain ⟨hkind, hother⟩ := blockRows_colliding (x := x) (y := y) hne hnumber
  have hfind : ∀ {rows : List (String × Nat)}, (rows = [(x, 0), (y, 0)] ∨ rows = [(y, 0), (x, 0)]) →
      ((Table.ofList (rows.map fun row => (row.1, ({ binding := some row.2 } : Placement)))).find?
        z.name).bind Placement.binding = some 0 := by
    rintro rows (rfl | rfl)
    all_goals
      rcases hz with hz | hz
      all_goals
        rw [hz]
        simp [Table.ofList, Table.find?_insert, hxy, Ne.symm hxy]
  have hrows : blockRows .uniform (collidingDeclarations x y kind other number) ++
      blockRows .storage (collidingDeclarations x y kind other number) = [(x, 0), (y, 0)] ∨
      blockRows .uniform (collidingDeclarations x y kind other number) ++
        blockRows .storage (collidingDeclarations x y kind other number) = [(y, 0), (x, 0)] := by
    cases kind with
    | uniform =>
      cases other with
      | uniform => exact absurd rfl hne
      | storage =>
        rw [hkind, hother]
        exact .inr rfl
    | storage =>
      cases other with
      | uniform =>
        rw [hkind, hother]
        exact .inl rfl
      | storage => exact absurd rfl hne
  rw [Reflection.resolveBuffer?, hbinding]
  exact Option.map_eq_some_iff.mpr ⟨0, hfind hrows, rfl⟩

/-- The blocks with their bindings. -/
def collidingBuffers (a b : String) (kind other : BlockKind) : List BoundBuffer :=
  [⟨(bareBlock b kind "i").identifier, kind, .compute, some 0, none⟩,
    ⟨(bareBlock a kind "").identifier, kind, .compute, some 0, none⟩,
    ⟨(bareBlock a other "j").identifier, other, .compute, some 0, none⟩]

/-- **All three blocks are resolved to the first number.** -/
theorem resolve_colliding {number : Option Nat} (hne : other ≠ kind) (hba : b ≠ a)
    (hnumber : number = none ∨ number = some 0) :
    (reflect (collidingDeclarations (bareBlock a kind "").identifier
        (bareBlock b kind "i").identifier kind other number)).resolve
      (Declared.ofItems [.block (bareBlock b kind "i") none, .block (bareBlock a kind "") none,
        .block (bareBlock a other "j") number]) =
      .ok { buffers := collidingBuffers a b kind other } := by
  have hxy : (bareBlock a kind "").identifier ≠ (bareBlock b kind "i").identifier := by
    intro he
    exact hba (BlockDecl.identifier_inj.mp he).symm
  have hfirst := resolveBuffer?_colliding hne hxy hnumber
    (z := ⟨(bareBlock b kind "i").identifier, kind, .compute, none, none⟩) (.inr rfl) rfl
  have hdead := resolveBuffer?_colliding hne hxy hnumber
    (z := ⟨(bareBlock a kind "").identifier, kind, .compute, none, none⟩) (.inl rfl) rfl
  have hlast : (reflect (collidingDeclarations (bareBlock a kind "").identifier
      (bareBlock b kind "i").identifier kind other number)).resolveBuffer?
        ⟨(bareBlock a other "j").identifier, other, .compute, number, none⟩ =
      some ⟨(bareBlock a other "j").identifier, other, .compute, some 0, none⟩ := by
    rcases hnumber with rfl | rfl
    · exact resolveBuffer?_colliding hne hxy (.inl rfl) (.inl rfl) rfl
    · rfl
  refine map_eq_ok.mpr ⟨[], rfl, ?_⟩
  have hbuffers : (Declared.ofItems [.block (bareBlock b kind "i") none,
      .block (bareBlock a kind "") none, .block (bareBlock a other "j") number]).buffers =
        [⟨(bareBlock b kind "i").identifier, kind, .compute, none, none⟩,
          ⟨(bareBlock a kind "").identifier, kind, .compute, none, none⟩,
          ⟨(bareBlock a other "j").identifier, other, .compute, number, none⟩] := rfl
  rw [hbuffers, List.filterMap_cons_some hfirst, List.filterMap_cons_some hdead,
    List.filterMap_cons_some hlast]
  rfl

/-! ## The program -/

/-- The body stands behind a line end. -/
theorem exists_stageText_eq (stage : Stage) (hasTextures : Bool) (colors : Nat) (items : List Item)
    (t : Text) :
    ∃ s, StageSource.stageText d stage hasTextures colors items t = s ++ '\n' :: t := by
  have hlast : ∀ ls : List Text, ls ≠ [] → ∃ s, unlines ls = s ++ ['\n'] := by
    intro ls hne
    obtain ⟨front, line, rfl⟩ := (List.eq_nil_or_concat ls).resolve_left hne
    exact ⟨unlines front ++ line, by simp⟩
  obtain ⟨s, hs⟩ := hlast (d.preambleLines stage hasTextures colors ++ items.flatMap Item.lines)
    (List.append_ne_nil_of_left_ne_nil (List.cons_ne_nil _ _) _)
  refine ⟨s, ?_⟩
  rw [StageSource.stageText, ← List.append_assoc, ← unlines_append, hs, List.append_assoc,
    List.singleton_append]

theorem isUsed_stageText {name : Text} {t : Text} {items : List Item} {stage : Stage}
    {hasTextures : Bool} {colors : Nat} (hname : IsName name) (h : 2 ≤ wholeWords name t) :
    isUsed (StageSource.stageText d stage hasTextures colors items t) name = true := by
  obtain ⟨s, hs⟩ := exists_stageText_eq (d := d) stage hasTextures colors items t
  rw [hs]
  exact decide_eq_true (Nat.lt_of_lt_of_le h (wholeWords_le_append hname (by decide)))

theorem readLines_collidingBody (vertex : Bool) (source : Text) :
    readLines vertex source (Text.lines collidingBody.toList) = .ok [] := by
  have hlines : Text.lines collidingBody.toList = ["i i".toList, "j j".toList] := by
    decide +kernel
  have hsplit : ∀ line ∈ ["i i".toList, "j j".toList], splitLayout line = .ok ([], line) := by
    decide +kernel
  have hwords : ∀ line ∈ ["i i".toList, "j j".toList], (declarationWords line).length < 3 := by
    decide +kernel
  rw [hlines, readLines_of_short (hsplit _ (by simp)) (hwords _ (by simp)),
    readLines_of_short (hsplit _ (by simp)) (hwords _ (by simp)), readLines]

/-- A body without calls that declares nothing is plain. -/
theorem isPlainBody_collidingBody (d : Dialect) (vertex : Bool) :
    IsPlainBody d vertex collidingBody := by
  have hfree : CallFree collidingBody.toList := callFree_of_isTokenlessFrom (by decide)
  have hlower : lower d collidingBody.toList = .ok ⟨collidingBody.toList, 0⟩ :=
    (lowers_of_callFree hfree).lower_eq
  intro lowered source ds hlowered hread x hx
  rw [hlower] at hlowered
  cases hlowered
  rw [readLines_collidingBody] at hread
  cases hread
  cases hx

/-- **The program of the three blocks.** -/
theorem exists_assembly_colliding (target : Target) (ha : IsName a.toList) (hb : IsName b.toList)
    (hopen : target.dialect.fixesBindings (.ofBlock kind) = false) (other : BlockKind) :
    ∃ number text, (number = none ∨ number = some 0) ∧
      assemble target.dialect { blocks := collidingBlocks a b kind other } []
          (.compute collidingBody) =
        .ok ⟨.compute text, [.block (bareBlock b kind "i") none,
          .block (bareBlock a kind "") none, .block (bareBlock a other "j") number]⟩ ∧
      readProgram (.compute text) = .ok (collidingDeclarations (bareBlock a kind "").identifier
        (bareBlock b kind "i").identifier kind other number) := by
  have hbare := isBare_collidingBlocks ha hb kind other
  have hfree : CallFree collidingBody.toList := callFree_of_isTokenlessFrom (by decide)
  have hbalanced : IsBalanced collidingBody.toList := by decide
  obtain ⟨number, hnumber, hitems⟩ := exists_blockItems_collidingBlocks hopen a b other
  obtain ⟨text, hassemble, htext⟩ := assemble_bareBlocks target hbare hfree
  have hreadable := isReadable_blockItems target.dialect Allocator.start false hbare
  rw [hitems] at hassemble htext hreadable
  refine ⟨number, text, hnumber, hassemble, ?_⟩
  have hi : isUsed text.toList "i".toList = true := by
    rw [htext]
    exact isUsed_stageText (by decide) (by decide +kernel)
  have hj : isUsed text.toList "j".toList = true := by
    rw [htext]
    exact isUsed_stageText (by decide) (by decide +kernel)
  rw [← filterMap_declaration?_colliding hi hj]
  refine (StageSource.readStage_eq_ok_iff hreadable htext).mpr ⟨hbalanced, ?_, [], ?_, ?_⟩
  · have hlimit : 0 < wordLimit := by decide
    intro item hitem
    simp only [List.mem_cons, List.not_mem_nil, or_false] at hitem
    rcases hitem with rfl | rfl | rfl
    · exact ⟨by simp [Item.location], by simp [Item.binding]⟩
    · exact ⟨by simp [Item.location], by simp [Item.binding]⟩
    · refine ⟨by simp [Item.location], ?_⟩
      rcases hnumber with rfl | rfl
      · simp [Item.binding]
      · simpa [Item.binding] using hlimit
  · exact readLines_collidingBody _ _
  · rw [List.append_nil]

/-! ## The run -/

/-- A session that has declared the three blocks. -/
def collidingSession (a b : String) (kind other : BlockKind) : Session :=
  { declarations := { blocks := collidingBlocks a b kind other }, state := .declaring }

namespace Workspace

/-- A run that declares the three blocks. -/
def collidingRun (a b : String) (kind other : BlockKind) : List Step :=
  [.create 0, .declare 0 { blocks := collidingBlocks a b kind other }]

theorem session?_collidingRun (compiler : Compiler) :
    ((start target compiler).run (collidingRun a b kind other)).session? 0 =
      some (collidingSession a b kind other) := rfl

/-- **All three blocks end up with the first number**, and two of them are of one kind. -/
theorem exists_build_collidingRun (target : Target) (compilerName : String) (ha : IsName a.toList)
    (hb : IsName b.toList) (hne : other ≠ kind) (hba : b ≠ a)
    (hopen : target.dialect.fixesBindings (.ofBlock kind) = false) :
    ∃ assembly r,
      (collidingSession a b kind other).assembly target.dialect (.compute collidingBody) =
          .ok assembly ∧
        (((start target (readingCompiler compilerName)).run
          (collidingRun a b kind other)).build 0 (.compute collidingBody)).1 = some (.ok r) ∧
        r.program.texts = assembly.texts ∧
        r.elements.buffers = collidingBuffers a b kind other := by
  obtain ⟨number, text, hnumber, hassemble, hread⟩ :=
    exists_assembly_colliding target ha hb hopen other
  obtain ⟨reflection, hreflection⟩ : ∃ reflection, reflection = reflect (collidingDeclarations
      (bareBlock a kind "").identifier (bareBlock b kind "i").identifier kind other number) :=
    ⟨_, rfl⟩
  have hcompile : (readingCompiler compilerName).compile (.compute text) = .ok reflection := by
    change (readProgram (.compute text)).map reflect = _
    rw [hread, hreflection]
    rfl
  have hget : (({ compiler := readingCompiler compilerName } : Cache).get (.compute text)).1 =
      .ok ⟨0, .compute text, reflection⟩ := by
    rcases Cache.get_cases { compiler := readingCompiler compilerName } (.compute text) with
      ⟨p, hp, -⟩ | ⟨-, fault, hfault, -⟩ | ⟨-, found, hfound, he⟩
    · cases hp
    · rw [hcompile] at hfault
      cases hfault
    · rw [hcompile] at hfound
      cases hfound
      rw [he]
  have hresolve := resolve_colliding (a := a) (b := b) hne hba hnumber
  rw [← hreflection] at hresolve
  refine ⟨_, ⟨⟨0, .compute text, reflection⟩, { buffers := collidingBuffers a b kind other }, []⟩,
    hassemble, ?_, rfl, rfl⟩
  exact build_eq_ok_iff.mpr ⟨_, session?_collidingRun _, Session.build_eq_ok_iff.mpr
    ⟨rfl, .inr rfl, _, hassemble, hget, hresolve, rfl⟩⟩

end Workspace

end ShaderLoom
