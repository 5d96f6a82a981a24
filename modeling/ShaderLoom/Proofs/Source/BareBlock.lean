import ShaderLoom.Proofs.Source.Assembly
import ShaderLoom.Proofs.Source.CallFree

/-!
# Blocks without fields

A block without fields is the simplest block there is: a line that opens it and a line that closes
it. A compute program that declares nothing else is assembled whatever its blocks are called, if its
body has no calls (**`assemble_bareBlocks`**).
-/

namespace ShaderLoom

open Text Reading

variable {d : Dialect} {b : BlockDecl} {blocks : List BlockDecl}

/-! ## Blocks without fields -/

/-- A block of a compute program that has no fields. -/
structure BlockDecl.IsBare (b : BlockDecl) : Prop where
  /-- the name is one -/
  name : IsName b.name.toList
  /-- the instance name is empty or one that is no token -/
  instanceName : ∀ c ∈ b.instanceIdentifier.toList, isIdentifier c = true
  /-- it is no token -/
  callFree : CallFree b.instanceIdentifier.toList
  /-- the block belongs to a compute program -/
  stage : b.stage = .compute
  /-- it has no fields -/
  fields : b.block.fields = []

/-- No block is called like an intrinsic. -/
theorem BlockDecl.callFree_identifier (h : IsName b.name.toList) :
    CallFree b.identifier.toList := by
  refine callFree_of_isName (BlockDecl.isName_identifier h) fun f hf => ?_
  have hlast : f.token.toList.getLast? ≠ some 'k' := by cases f <;> decide
  rw [hf, b.toList_identifier, List.getLast?_append] at hlast
  exact hlast rfl

theorem BlockDecl.IsBare.callFree_lines (h : b.IsBare) (binding : Option Nat) :
    ∀ line ∈ (Item.block b binding).lines, CallFree line := by
  refine callFree_blockLines (b.callFree_identifier h.name) h.callFree fun f hf => ?_
  rw [h.fields] at hf
  cases hf

/-! ## Programs of blocks -/

theorem draftStage_blocks (d : Dialect) (blocks : List BlockDecl) (a : Allocator) :
    draftStage d { blocks } [] .compute 0 a =
      .ok ((blocks.filter (·.stage = .compute)).foldl (Draft.addBlock d) (Draft.start a)) := by
  have hpool := (items_foldl_addBlock d (Draft.start a) (blocks.filter (·.stage = .compute))).2
  change Draft.closePool d .compute
    ((blocks.filter (·.stage = .compute)).foldl (Draft.addBlock d) (Draft.start a)) = _
  rw [Draft.closePool, hpool]
  exact if_pos rfl

theorem isReadable_blockItems (d : Dialect) (a : Allocator) (vertex : Bool)
    (hblocks : ∀ b ∈ blocks, b.IsBare) :
    ∀ item ∈ blockItems d a blocks, item.IsReadable vertex := by
  induction blocks generalizing a with
  | nil =>
    intro item hitem
    cases hitem
  | cons b blocks ih =>
    have hb := hblocks b (List.mem_cons_self ..)
    intro item hitem
    rcases List.mem_cons.mp hitem with rfl | hitem
    · refine ⟨hb.name, hb.instanceName, fun f hf => ?_⟩
      rw [hb.fields] at hf
      cases hf
    · exact ih _ (fun c hc => hblocks c (List.mem_cons_of_mem b hc)) item hitem

theorem callFree_blockItems {a : Allocator} (hblocks : ∀ b ∈ blocks, b.IsBare) :
    ∀ line ∈ (blockItems d a blocks).flatMap Item.lines, CallFree line := by
  induction blocks generalizing a with
  | nil =>
    intro line hline
    cases hline
  | cons b blocks ih =>
    intro line hline
    rw [blockItems, List.flatMap_cons] at hline
    rcases List.mem_append.mp hline with hline | hline
    · exact (hblocks b (List.mem_cons_self ..)).callFree_lines _ line hline
    · exact ih (fun c hc => hblocks c (List.mem_cons_of_mem b hc)) line hline

/-- **A program of blocks without fields is assembled**, if its body has no calls. -/
theorem assemble_bareBlocks (target : Target) {body : String} (hblocks : ∀ b ∈ blocks, b.IsBare)
    (hbody : CallFree body.toList) :
    ∃ text, assemble target.dialect { blocks } [] (.compute body) =
        .ok ⟨.compute text, blockItems target.dialect Allocator.start blocks⟩ ∧
      text.toList = StageSource.stageText target.dialect .compute false 0
        (blockItems target.dialect Allocator.start blocks) body.toList := by
  have hfilter : blocks.filter (·.stage = .compute) = blocks := by
    rw [List.filter_eq_self]
    exact fun b hb => decide_eq_true (hblocks b hb).stage
  have hdraft := draftStage_blocks target.dialect blocks Allocator.start
  have hitems := (items_foldl_addBlock target.dialect (Draft.start Allocator.start) blocks).1
  rw [hfilter] at hdraft
  have hlower : lower target.dialect body.toList = .ok ⟨body.toList, 0⟩ :=
    (lowers_of_callFree hbody).lower_eq
  obtain ⟨text, htext⟩ : ∃ text : String, text.toList = StageSource.stageText target.dialect .compute
      false 0 (blockItems target.dialect Allocator.start blocks) body.toList :=
    ⟨String.ofList _, String.toList_ofList ..⟩
  have hfinish := (StageSource.finish_eq_ok_iff (isReadable_blockItems _ _ false hblocks)).mpr
    ⟨callFree_blockItems hblocks, ⟨body.toList, 0⟩, hlower, htext⟩
  have hstage : assembleStage target.dialect { blocks } [] .compute 0 body Allocator.start =
      .ok ⟨text, blockItems target.dialect Allocator.start blocks,
        (blocks.foldl (Draft.addBlock target.dialect) (Draft.start Allocator.start)).allocator⟩ := by
    simp only [assembleStage, bind_eq_ok, pure_eq_ok]
    refine ⟨_, hdraft, text, ?_, ?_⟩
    · rw [hitems]
      exact hfinish
    · rw [hitems]
      rfl
  refine ⟨text, ?_, htext⟩
  simp only [assemble, bind_eq_ok, pure_eq_ok]
  exact ⟨_, hstage, rfl⟩

end ShaderLoom
