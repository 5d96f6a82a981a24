import ShaderLoom.Proofs.Source.Origin

/-!
# Stages apart

Where a dialect does not share bindings between stages, a stage uses no numbers but its own. Setting
back the counters of all other stages (`Allocator.only`) changes nothing for it: drafting the stage
from what is left gives the same draft, with the same counters set back (**`draftStage_only`**). And
drafting one stage leaves the counters of another one as they were (**`only_draftStage_of_ne`**).

So the fragment stage of a program does not depend on what is declared for its vertex stage
(**`fragment_apart`**).
-/

namespace ShaderLoom

/-- The stage that a request for numbers comes from. -/
def Request.stage : Request → Stage
  | .binding stage _ | .input stage _ | .output stage _ => stage

/-- The stage that has a space of bindings to itself. -/
def BindingSpace.stage? : BindingSpace → Option Stage
  | .shared => none
  | .own stage _ => some stage

/-- The counters of one stage. All others are set back. -/
def Allocator.only (stage : Stage) (a : Allocator) : Allocator where
  bindings space := if space.stage? = some stage then a.bindings space else 0
  inputs s := if s = stage then a.inputs s else 0
  outputs s := if s = stage then a.outputs s else 0

variable {d : Dialect} {decls decls' : Declarations} {textures : List ExpandedTexture}
  {stage other : Stage} {colors : Nat} {a a' : Allocator} {draft : Draft} {item : Item}
  {entry : StageEntry} {entries : List StageEntry} {r : Request}

/-! ## Requests -/

section

variable {α : Type} [DecidableEq α] (keeps : α → Prop) [DecidablePred keeps] {key : α}

/-- A counter that is not set back is raised all the same. -/
theorem advance_ite_of_keeps (hkey : keeps key) (counters : α → Nat) (n : Nat) :
    advance (fun x => if keeps x then counters x else 0) key n =
      fun x => if keeps x then advance counters key n x else 0 := by
  funext x
  by_cases hx : x = key
  · subst hx
    simp [advance, hkey]
  · simp [advance, hx]

/-- Raising a counter that is set back makes no difference. -/
theorem advance_ite_of_not_keeps (hkey : ¬keeps key) (counters : α → Nat) (n : Nat) :
    (fun x => if keeps x then advance counters key n x else 0) =
      fun x => if keeps x then counters x else 0 := by
  funext x
  by_cases hx : x = key
  · subst hx
    simp [hkey]
  · simp [advance, hx]

end

namespace Allocator

theorem bindingSpace?_eq (hd : d.sharesBindings = false) (stage : Stage) (resource : BindingClass) :
    d.bindingSpace? stage resource =
      if d.fixesBindings resource then some (.own stage resource) else none := by
  rw [Dialect.bindingSpace?, hd, if_neg Bool.false_ne_true]

/-- **A stage uses its own counters**: a request of the stage is answered from them alone. -/
theorem answer_only (hd : d.sharesBindings = false) (hr : r.stage = stage) (a : Allocator) :
    (a.only stage).answer d r = ((a.answer d r).1, (a.answer d r).2.only stage) := by
  cases r with
  | binding s resource =>
    obtain rfl : s = stage := hr
    simp only [answer, binding, bindingSpace?_eq hd]
    cases d.fixesBindings resource with
    | false => rfl
    | true =>
      have hkept : (BindingSpace.own s resource).stage? = some s := rfl
      refine congrArg₂ Prod.mk (congrArg some (if_pos rfl)) ?_
      exact congrArg (fun bindings => { a.only s with bindings })
        (advance_ite_of_keeps (fun space => space.stage? = some s) hkept a.bindings 1)
  | input s count =>
    obtain rfl : s = stage := hr
    simp only [answer, input]
    split
    · refine congrArg₂ Prod.mk (congrArg some (if_pos rfl)) ?_
      exact congrArg (fun inputs => { a.only s with inputs })
        (advance_ite_of_keeps (· = s) rfl a.inputs count)
    · rfl
  | output s count =>
    obtain rfl : s = stage := hr
    simp only [answer, output]
    split
    · refine congrArg₂ Prod.mk (congrArg some (if_pos rfl)) ?_
      exact congrArg (fun outputs => { a.only s with outputs })
        (advance_ite_of_keeps (· = s) rfl a.outputs count)
    · rfl

/-- **A stage leaves the counters of other stages alone.** -/
theorem only_answer_of_ne (hd : d.sharesBindings = false) (hr : r.stage ≠ stage) (a : Allocator) :
    (a.answer d r).2.only stage = a.only stage := by
  cases r with
  | binding s resource =>
    have hne : ¬(BindingSpace.own s resource).stage? = some stage := fun h =>
      hr (Option.some.inj h)
    simp only [answer, binding, bindingSpace?_eq hd]
    cases d.fixesBindings resource with
    | false => rfl
    | true =>
      exact congrArg (fun bindings => { a.only stage with bindings })
        (advance_ite_of_not_keeps (fun space => space.stage? = some stage) hne a.bindings 1)
  | input s count =>
    simp only [answer, input]
    split
    · exact congrArg (fun inputs => { a.only stage with inputs })
        (advance_ite_of_not_keeps (· = stage) hr a.inputs count)
    · rfl
  | output s count =>
    simp only [answer, output]
    split
    · exact congrArg (fun outputs => { a.only stage with outputs })
        (advance_ite_of_not_keeps (· = stage) hr a.outputs count)
    · rfl

end Allocator

/-! ## Drafting -/

/-- The numbers that an entry asks for are numbers of the stage. -/
def StageEntry.IsOwn (stage : Stage) : StageEntry → Prop
  | .colorOutput _ => stage = .fragment
  | .varying _ | .uniform _ => True
  | .textureField _ f => f.stage = stage
  | .block b => b.stage = stage
  | .vertexAttribute _ => stage = .vertex

theorem isOwn_of_mem_stageEntries :
    ∀ entry ∈ stageEntries decls textures stage colors, entry.IsOwn stage := by
  intro entry hentry
  have hfor := isFor_of_mem_stageEntries entry hentry
  cases entry with
  | colorOutput n =>
    have hmem : stage = .fragment ∧ n = colors := by simpa [stageEntries] using hentry
    exact hmem.1
  | varying v => trivial
  | uniform u => trivial
  | textureField t f => exact hfor
  | block b => exact hfor
  | vertexAttribute x =>
    have hmem : stage = .vertex ∧ x ∈ decls.attributes := by simpa [stageEntries] using hentry
    exact hmem.1

namespace Draft

/-- The draft with the counters of one stage. -/
def only (stage : Stage) (draft : Draft) : Draft := draft.advanced (draft.allocator.only stage)

/-- Declare an item that takes numbers. -/
def take (d : Dialect) (r : Request) (item : Option Nat → Item) (draft : Draft) : Draft :=
  (draft.advanced (draft.allocator.answer d r).2).push (item (draft.allocator.answer d r).1)

theorem take_only (hd : d.sharesBindings = false) (hr : r.stage = stage)
    (item : Option Nat → Item) (draft : Draft) :
    (draft.only stage).take d r item = (draft.take d r item).only stage := by
  have hanswer : (draft.only stage).allocator.answer d r =
      ((draft.allocator.answer d r).1, (draft.allocator.answer d r).2.only stage) :=
    Allocator.answer_only hd hr draft.allocator
  rw [take, hanswer]
  rfl

theorem addColorOutput_only (hd : d.sharesBindings = false) (draft : Draft) (colors : Nat) :
    (draft.only .fragment).addColorOutput d colors =
      (draft.addColorOutput d colors).only .fragment := by
  rw [addColorOutput, addColorOutput]
  split
  · exact take_only hd (r := .output .fragment (max colors 1)) rfl
      (fun location => .colorOutput location colors) draft
  · rfl

theorem addVarying_only (hd : d.sharesBindings = false) (draft : Draft) (v : VaryingDecl) :
    (draft.only stage).addVarying d stage v = (draft.addVarying d stage v).only stage := by
  rw [addVarying, addVarying]
  by_cases hstage : stage = .vertex
  · rw [if_pos hstage, if_pos hstage]
    exact take_only hd (r := .output stage v.ty.locations) rfl
      (fun location => .varying (d.varyingQualifier stage) location v) draft
  · rw [if_neg hstage, if_neg hstage]
    exact take_only hd (r := .input stage v.ty.locations) rfl
      (fun location => .varying (d.varyingQualifier stage) location v) draft

theorem addUniform_only (draft : Draft) (u : UniformDecl) :
    (draft.only stage).addUniform d u = (draft.addUniform d u).map (only stage) := by
  have hpool : (draft.only stage).pool = draft.pool := rfl
  rw [addUniform, addUniform, hpool]
  split
  · rfl
  · split
    · split <;> rfl
    · rfl

theorem addTextureField_only (hd : d.sharesBindings = false) (draft : Draft) (t : ExpandedTexture)
    {f : ExpandedField} (hf : f.stage = stage) :
    (draft.only stage).addTextureField d t f =
      (draft.addTextureField d t f).map (only stage) := by
  rw [addTextureField, addTextureField]
  split
  · rw [addOpaque, addOpaque]
    cases imageAccess t with
    | error e => rfl
    | ok image =>
      exact congrArg Except.ok (take_only hd (r := .binding f.stage .texture) hf
        (fun binding => .opaqueUniform (d.precisionQualifier f.ty t.precision .low) image
          { name := f.name, ty := f.ty, stage := f.stage, binding, texture := t.texture }) draft)
  · exact draft.addUniform_only _

/-- **Adding an entry** of a stage takes none but its own numbers. -/
theorem add_only (hd : d.sharesBindings = false) (hentry : entry.IsOwn stage) (draft : Draft) :
    (draft.only stage).add d stage entry = (draft.add d stage entry).map (only stage) := by
  cases entry with
  | colorOutput colors =>
    obtain rfl : stage = .fragment := hentry
    exact congrArg Except.ok (draft.addColorOutput_only hd colors)
  | varying v => exact congrArg Except.ok (draft.addVarying_only hd v)
  | uniform u => exact draft.addUniform_only u
  | textureField t f => exact draft.addTextureField_only hd t hentry
  | block b =>
    exact congrArg Except.ok (take_only hd (r := .binding b.stage (.ofBlock b.block.kind)) hentry
      (.block b) draft)
  | vertexAttribute x =>
    obtain rfl : stage = .vertex := hentry
    exact congrArg Except.ok (take_only hd (r := .input .vertex x.ty.locations) rfl
      (fun location => .vertexAttribute d.inputQualifier
        (d.precisionQualifier x.ty x.precision .high) location x) draft)

theorem closePool_only (hd : d.sharesBindings = false) (draft : Draft) :
    (draft.only stage).closePool d stage = (draft.closePool d stage).map (only stage) := by
  have hpool : (draft.only stage).pool = draft.pool := rfl
  rw [closePool, closePool, hpool]
  split
  · rfl
  · split
    · rfl
    · next buffer _ =>
      exact congrArg Except.ok (take_only hd (r := .binding stage .uniformBlock) rfl
        (.uniformBlock ⟨stage, draft.pool, buffer⟩) draft)

end Draft

/-! ## As far as drafting goes -/

/-- Add entries as far as it goes, and close the pool behind them. What comes out is the draft in
the end, with the error that has stopped it, if there is one. -/
def Draft.addAll (d : Dialect) (stage : Stage) (draft : Draft) :
    List StageEntry → Draft × Option Error
  | [] =>
    match draft.closePool d stage with
    | .error e => (draft, some e)
    | .ok closed => (closed, none)
  | entry :: rest =>
    match draft.add d stage entry with
    | .error e => (draft, some e)
    | .ok next => next.addAll d stage rest

/-- The draft of a stage as far as it goes. -/
def reachedDraft (d : Dialect) (decls : Declarations) (textures : List ExpandedTexture)
    (stage : Stage) (colors : Nat) (a : Allocator) : Draft × Option Error :=
  (Draft.start a).addAll d stage (stageEntries decls textures stage colors)

/-- The draft, unless an error has stopped it. -/
def unlessStopped : Draft × Option Error → Except Error Draft
  | (draft, none) => .ok draft
  | (_, some e) => .error e

theorem Draft.unlessStopped_addAll (d : Dialect) (stage : Stage) (entries : List StageEntry)
    (draft : Draft) :
    unlessStopped (draft.addAll d stage entries) =
      entries.foldlM (Draft.add d stage) draft >>= Draft.closePool d stage := by
  induction entries generalizing draft with
  | nil =>
    rw [addAll]
    change _ = draft.closePool d stage
    cases draft.closePool d stage <;> rfl
  | cons entry rest ih =>
    rw [addAll, List.foldlM_cons]
    cases draft.add d stage entry with
    | error e => rfl
    | ok next => exact ih next

/-- **Drafting a stage** succeeds unless it is stopped. -/
theorem unlessStopped_reachedDraft (d : Dialect) (decls : Declarations)
    (textures : List ExpandedTexture) (stage : Stage) (colors : Nat) (a : Allocator) :
    unlessStopped (reachedDraft d decls textures stage colors a) =
      draftStage d decls textures stage colors a := by
  rw [draftStage_eq]
  exact Draft.unlessStopped_addAll d stage _ _

/-- What a stage that is drafted has reached. -/
theorem reachedDraft_of_draftStage (h : draftStage d decls textures stage colors a = .ok draft) :
    reachedDraft d decls textures stage colors a = (draft, none) := by
  rw [← unlessStopped_reachedDraft] at h
  generalize reachedDraft d decls textures stage colors a = found at h ⊢
  obtain ⟨reached, stopped⟩ := found
  cases stopped with
  | none =>
    cases h
    rfl
  | some e => cases h

/-! ## Drafting from the counters of one stage -/

theorem Draft.addAll_only (hd : d.sharesBindings = false) (draft : Draft)
    (hentries : ∀ entry ∈ entries, entry.IsOwn stage) :
    (draft.only stage).addAll d stage entries =
      (draft.addAll d stage entries).map (only stage) id := by
  induction entries generalizing draft with
  | nil =>
    rw [addAll, addAll, closePool_only hd]
    cases draft.closePool d stage <;> rfl
  | cons entry rest ih =>
    obtain ⟨hentry, hrest⟩ := List.forall_mem_cons.mp hentries
    rw [addAll, addAll, add_only hd hentry]
    cases draft.add d stage entry with
    | error e => rfl
    | ok next => exact ih next hrest

/-- **A stage is drafted from its own counters.** -/
theorem reachedDraft_only (hd : d.sharesBindings = false) (decls : Declarations)
    (textures : List ExpandedTexture) (stage : Stage) (colors : Nat) (a : Allocator) :
    reachedDraft d decls textures stage colors (a.only stage) =
      (reachedDraft d decls textures stage colors a).map (Draft.only stage) id :=
  Draft.addAll_only hd (Draft.start a) isOwn_of_mem_stageEntries

theorem draftStage_only (hd : d.sharesBindings = false) (decls : Declarations)
    (textures : List ExpandedTexture) (stage : Stage) (colors : Nat) (a : Allocator) :
    draftStage d decls textures stage colors (a.only stage) =
      (draftStage d decls textures stage colors a).map (Draft.only stage) := by
  rw [← unlessStopped_reachedDraft, ← unlessStopped_reachedDraft, reachedDraft_only hd]
  obtain ⟨reached, stopped⟩ := reachedDraft d decls textures stage colors a
  cases stopped <;> rfl

/-! ## Counters of other stages -/

theorem StageEntry.Yields.only_eq (hd : d.sharesBindings = false) (hentry : entry.IsOwn stage)
    (hne : stage ≠ other) (h : entry.Yields d stage a item a') : a'.only other = a.only other := by
  have hask : ∀ r : Request, r.stage = stage → (a.answer d r).2.only other = a.only other :=
    fun r hr => Allocator.only_answer_of_ne hd (hr ▸ hne) a
  cases h with
  | colorOutput n => exact hask (.output .fragment (max n 1)) hentry.symm
  | varyingOut v => exact hask (.output stage v.ty.locations) rfl
  | varyingIn v => exact hask (.input stage v.ty.locations) rfl
  | uniform => rfl
  | @opaqueField t f => exact hask (.binding f.stage .texture) hentry
  | block b => exact hask (.binding b.stage (.ofBlock b.block.kind)) hentry
  | vertexAttribute x => exact hask (.input .vertex x.ty.locations) hentry.symm

/-- **Drafting a stage leaves the counters of another one alone.** -/
theorem only_draftStage_of_ne (hd : d.sharesBindings = false) (hne : stage ≠ other)
    (h : draftStage d decls textures stage colors a = .ok draft) :
    draft.allocator.only other = a.only other := by
  rw [draftStage_eq, bind_eq_ok] at h
  obtain ⟨last, hlast, hclose⟩ := h
  have hentries : last.allocator.only other = a.only other :=
    foldlM_preserves (P := fun draft => draft.allocator.only other = a.only other)
      (fun entry hentry c c' hc hadd => by
        cases Draft.adds_of_add hadd with
        | item hyields =>
          have hown := isOwn_of_mem_stageEntries entry hentry
          exact (hyields.only_eq hd hown hne).trans hc
        | pooled => exact hc
        | nothing => exact hc) rfl hlast
  rcases Draft.closePool_eq_ok hclose with ⟨-, rfl⟩ | ⟨-, buffer, -, rfl⟩
  · exact hentries
  · exact (Allocator.only_answer_of_ne (r := .binding stage .uniformBlock) hd hne _).trans hentries

/-! ## Elements of a stage -/

/-- The elements of an item belong to a stage. -/
structure Item.BelongsTo (stage : Stage) (item : Item) : Prop where
  /-- loose uniforms -/
  uniforms : ∀ u ∈ item.elements.uniforms, u.stage = stage
  /-- samplers and images -/
  textures : ∀ t ∈ item.elements.textures, t.stage = stage
  /-- blocks -/
  buffers : ∀ b ∈ item.elements.buffers, b.stage = stage

/-- **The items of a stage belong to it.** -/
theorem belongsTo_of_mem (h : draftStage d decls textures stage colors a = .ok draft)
    (hitem : item ∈ draft.items) : item.BelongsTo stage := by
  rcases exists_entry_of_mem h hitem with ⟨entry, hentry, b, b', hyields⟩ | ⟨pool, buffer, b, rfl⟩
  · have hfor := isFor_of_mem_stageEntries entry hentry
    cases hyields with
    | uniform hu =>
      have hstage := stage_of_uniform? hentry hu
      exact ⟨by simp [Item.elements, hstage], by simp [Item.elements], by simp [Item.elements]⟩
    | opaqueField =>
      have hstage : _ = stage := hfor
      exact ⟨by simp [Item.elements], by simp [Item.elements, hstage], by simp [Item.elements]⟩
    | block x =>
      have hstage : x.stage = stage := hfor
      exact ⟨by simp [Item.elements], by simp [Item.elements], by simp [Item.elements, hstage]⟩
    | colorOutput | varyingOut | varyingIn | vertexAttribute =>
      exact ⟨by simp [Item.elements], by simp [Item.elements], by simp [Item.elements]⟩
  · exact ⟨by simp [Item.elements], by simp [Item.elements], by simp [Item.elements]⟩

/-- Two programs register the same uniforms, textures and blocks in a stage. -/
structure Declared.AgreeIn (stage : Stage) (x y : Declared) : Prop where
  /-- loose uniforms -/
  uniforms : x.uniforms.filter (·.stage = stage) = y.uniforms.filter (·.stage = stage)
  /-- samplers and images -/
  textures : x.textures.filter (·.stage = stage) = y.textures.filter (·.stage = stage)
  /-- blocks -/
  buffers : x.buffers.filter (·.stage = stage) = y.buffers.filter (·.stage = stage)

theorem Declared.AgreeIn.symm {x y : Declared} (h : x.AgreeIn stage y) : y.AgreeIn stage x :=
  ⟨h.uniforms.symm, h.textures.symm, h.buffers.symm⟩

theorem Declared.AgreeIn.trans {x y z : Declared} (h : x.AgreeIn stage y) (h' : y.AgreeIn stage z) :
    x.AgreeIn stage z :=
  ⟨h.uniforms.trans h'.uniforms, h.textures.trans h'.textures, h.buffers.trans h'.buffers⟩

/-- What comes of the items of another stage is not among the elements of a stage. -/
theorem agreeIn_ofItems_append (hne : stage ≠ other) {items rest : List Item}
    (h : ∀ item ∈ items, item.BelongsTo stage) :
    (Declared.ofItems (items ++ rest)).AgreeIn other (Declared.ofItems rest) := by
  have hnone : ∀ {α : Type} (f : Item → List α) (stageOf : α → Stage),
      (∀ item ∈ items, ∀ x ∈ f item, stageOf x = stage) →
        ((items ++ rest).flatMap f).filter (stageOf · = other) =
          (rest.flatMap f).filter (stageOf · = other) := by
    intro α f stageOf hf
    have hempty : (items.flatMap f).filter (stageOf · = other) = [] := by
      refine List.filter_eq_nil_iff.mpr fun x hx => ?_
      obtain ⟨item, hitem, hx⟩ := List.mem_flatMap.mp hx
      rw [hf item hitem x hx]
      simpa using hne
    rw [List.flatMap_append, List.filter_append, hempty, List.nil_append]
  exact ⟨hnone _ _ fun item hitem => (h item hitem).uniforms,
    hnone _ _ fun item hitem => (h item hitem).textures,
    hnone _ _ fun item hitem => (h item hitem).buffers⟩

/-! ## The fragment stage of two programs -/

/-- What is registered for a stage, as far as drafting it goes. -/
def registeredItems (d : Dialect) (decls : Declarations) (textures : List ExpandedTexture)
    (stage : Stage) (colors : Nat) (a : Allocator) : List Item :=
  (reachedDraft d decls textures stage colors a).1.items

/-- Two programs declare the same for the fragment stage, and the same textures and variables. -/
structure Declarations.AgreeInFragment (decls decls' : Declarations) : Prop where
  /-- textures -/
  textures : decls.textures = decls'.textures
  /-- variables between the stages -/
  varyings : decls.varyings = decls'.varyings
  /-- loose uniforms of the fragment stage -/
  uniforms : decls.uniforms.filter (·.stage = .fragment) =
    decls'.uniforms.filter (·.stage = .fragment)
  /-- blocks of the fragment stage -/
  blocks : decls.blocks.filter (·.stage = .fragment) = decls'.blocks.filter (·.stage = .fragment)

namespace Declarations.AgreeInFragment

theorem stageEntries_eq (h : decls.AgreeInFragment decls') (textures : List ExpandedTexture)
    (colors : Nat) :
    stageEntries decls textures .fragment colors =
      stageEntries decls' textures .fragment colors := by
  have hvertex : ¬Stage.fragment = .vertex := by decide
  rw [stageEntries, stageEntries, h.varyings, h.uniforms, h.blocks, if_neg hvertex, if_neg hvertex]

theorem registeredItems_eq (h : decls.AgreeInFragment decls') (d : Dialect)
    (textures : List ExpandedTexture) (colors : Nat) (a : Allocator) :
    registeredItems d decls textures .fragment colors a =
      registeredItems d decls' textures .fragment colors a := by
  rw [registeredItems, registeredItems, reachedDraft, reachedDraft, h.stageEntries_eq]

/-- Nothing else is used of the declarations. -/
theorem assembleStage_eq (h : decls.AgreeInFragment decls') (d : Dialect)
    (textures : List ExpandedTexture) (colors : Nat) (body : String) (a : Allocator) :
    assembleStage d decls textures .fragment colors body a =
      assembleStage d decls' textures .fragment colors body a := by
  rw [assembleStage, assembleStage, draftStage_eq, draftStage_eq, h.stageEntries_eq, h.textures]

end Declarations.AgreeInFragment

/-- Only the dialect of Vulkan shares bindings. -/
theorem Target.sharesBindings_eq_false {target : Target} (h : target.api ≠ .vulkan) :
    target.dialect.sharesBindings = false := by
  obtain ⟨api, version, platform, frames⟩ := target
  cases api with
  | openGl => rfl
  | openGlEs => rfl
  | vulkan => exact absurd rfl h

section

variable {body vertexBody vertexBody' : String} {finished vertex vertex' : FinishedStage}

/-- **A stage that is assembled registers its items.** -/
theorem registeredItems_of_assembleStage
    (h : assembleStage d decls textures stage colors body a = .ok finished) :
    registeredItems d decls textures stage colors a = finished.items := by
  obtain ⟨draft, hdraft, -, hitems, -⟩ := assembleStage_eq_ok h
  rw [registeredItems, reachedDraft_of_draftStage hdraft, hitems]

/-- **The text of a stage depends on its own counters.** -/
theorem map_text_assembleStage_only (hd : d.sharesBindings = false) (decls : Declarations)
    (textures : List ExpandedTexture) (stage : Stage) (colors : Nat) (body : String)
    (a : Allocator) :
    (assembleStage d decls textures stage colors body (a.only stage)).map FinishedStage.text =
      (assembleStage d decls textures stage colors body a).map FinishedStage.text := by
  rw [assembleStage, assembleStage, draftStage_only hd]
  cases draftStage d decls textures stage colors a with
  | error e => rfl
  | ok draft =>
    let source : StageSource :=
      ⟨d.preamble stage (!decls.textures.isEmpty) colors, draft.items, body⟩
    -- the allocator behind the stage is all that the two finished stages differ in
    have htext : ∀ behind : Allocator, (source.finish d >>= fun text =>
        (pure ⟨text, draft.items, behind⟩ : Except Error FinishedStage)).map FinishedStage.text =
          source.finish d := by
      intro behind
      cases source.finish d <;> rfl
    exact (htext (draft.allocator.only stage)).trans (htext draft.allocator).symm

/-- **What is registered for a stage depends on its own counters.** -/
theorem registeredItems_only (hd : d.sharesBindings = false) (decls : Declarations)
    (textures : List ExpandedTexture) (stage : Stage) (colors : Nat) (a : Allocator) :
    registeredItems d decls textures stage colors (a.only stage) =
      registeredItems d decls textures stage colors a := by
  rw [registeredItems, reachedDraft_only hd]
  rfl

/-- The vertex stage hands over the counters of the fragment stage as they were. -/
theorem only_allocator_of_vertex (hd : d.sharesBindings = false)
    (h : assembleStage d decls textures .vertex colors body a = .ok finished) :
    finished.allocator.only .fragment = a.only .fragment := by
  obtain ⟨draft, hdraft, -, -, hallocator⟩ := assembleStage_eq_ok h
  rw [hallocator]
  exact only_draftStage_of_ne hd (by decide) hdraft

/-- What the vertex stage registers is not among the elements of the fragment stage. -/
theorem agreeIn_fragment_of_vertex
    (h : assembleStage d decls textures .vertex colors body a = .ok finished) (rest : List Item) :
    (Declared.ofItems (finished.items ++ rest)).AgreeIn .fragment (Declared.ofItems rest) := by
  obtain ⟨draft, hdraft, -, hitems, -⟩ := assembleStage_eq_ok h
  have hne : Stage.vertex ≠ .fragment := by decide
  exact agreeIn_ofItems_append hne fun item hitem => belongsTo_of_mem hdraft (hitems ▸ hitem)

/-- **The fragment stage stands apart from the vertex stage.** Where bindings are not shared, two
programs that declare the same for the fragment stage get the same text of it or the same error, and
register the same elements for it, as far as they come. -/
theorem fragment_apart {target : Target} (hapi : target.api ≠ .vulkan)
    (hagree : decls.AgreeInFragment decls')
    (hvertex : assembleStage target.dialect decls textures .vertex colors vertexBody .start =
      .ok vertex)
    (hvertex' : assembleStage target.dialect decls' textures .vertex colors vertexBody' .start =
      .ok vertex') :
    (assembleStage target.dialect decls textures .fragment colors body vertex.allocator).map
        FinishedStage.text =
      (assembleStage target.dialect decls' textures .fragment colors body vertex'.allocator).map
        FinishedStage.text ∧
    (Declared.ofItems (vertex.items ++ registeredItems target.dialect decls textures .fragment
        colors vertex.allocator)).AgreeIn .fragment
      (Declared.ofItems (vertex'.items ++ registeredItems target.dialect decls' textures .fragment
        colors vertex'.allocator)) := by
  have hd := Target.sharesBindings_eq_false hapi
  -- both fragment stages begin with the counters that the programs have started with
  have hcounters : vertex.allocator.only .fragment = vertex'.allocator.only .fragment :=
    (only_allocator_of_vertex hd hvertex).trans (only_allocator_of_vertex hd hvertex').symm
  constructor
  · rw [← map_text_assembleStage_only hd, hcounters, hagree.assembleStage_eq,
      map_text_assembleStage_only hd]
  · have hitems : registeredItems target.dialect decls textures .fragment colors vertex.allocator =
        registeredItems target.dialect decls' textures .fragment colors vertex'.allocator := by
      rw [← registeredItems_only hd, hcounters, hagree.registeredItems_eq, registeredItems_only hd]
    rw [hitems]
    exact (agreeIn_fragment_of_vertex hvertex _).trans (agreeIn_fragment_of_vertex hvertex' _).symm

end

/-- A uniform and a storage block of the fragment stage. -/
def plainScene : Declarations where
  varyings := [{ name := "uv", ty := .vec2 }]
  uniforms := [{ name := "tint", ty := .vec4, stage := .fragment }]
  blocks := [{ name := "lights", stage := .fragment, block := .empty .std430 .storage }]

/-- The same, with a uniform, a storage block and an attribute for the vertex stage. -/
def animatedScene : Declarations :=
  { plainScene with
    uniforms := { name := "view", ty := .mat4, stage := .vertex } :: plainScene.uniforms
    blocks := { name := "bones", stage := .vertex, block := .empty .std430 .storage } ::
      plainScene.blocks
    attributes := [{ name := "position", ty := .vec3, format := .rgb32Float }] }

/-- The block of the vertex stage takes no binding away from the block of the fragment stage. -/
theorem fragment_apart_scenes :
    let target : Target := { api := .openGl, version := 430 }
    let text := "#version 430\n\nout vec4 ngl_out_color;\nin vec2 uv;\nuniform vec4 tint;\n" ++
      "layout(std430,binding=0) buffer lights_block \x7b\n\x7d lights;\n"
    target.api ≠ .vulkan ∧ plainScene.AgreeInFragment animatedScene ∧
      ∃ vertex vertex' fragment fragment',
        assembleStage target.dialect plainScene [] .vertex 1 "" .start = .ok vertex ∧
        assembleStage target.dialect animatedScene [] .vertex 1 "bones;\n" .start = .ok vertex' ∧
        assembleStage target.dialect plainScene [] .fragment 1 "" vertex.allocator =
          .ok fragment ∧
        assembleStage target.dialect animatedScene [] .fragment 1 "" vertex'.allocator =
          .ok fragment' ∧
        fragment.text = text ∧ fragment'.text = text ∧
        (Declared.ofItems (vertex.items ++ fragment.items)).AgreeIn .fragment
          (Declared.ofItems (vertex'.items ++ fragment'.items)) := by
  intro target text
  have hapi : target.api ≠ .vulkan := by decide
  have hagree : plainScene.AgreeInFragment animatedScene := ⟨rfl, rfl, rfl, rfl⟩
  have hrun : (assembleStage target.dialect plainScene [] .vertex 1 "" .start >>= fun vertex =>
      (assembleStage target.dialect plainScene [] .fragment 1 "" vertex.allocator).map
        FinishedStage.text) = .ok text := by
    decide +kernel
  obtain ⟨vertex, hvertex, htext⟩ := bind_eq_ok.mp hrun
  obtain ⟨vertex', hvertex'⟩ : ∃ vertex', assembleStage target.dialect animatedScene [] .vertex 1
      "bones;\n" .start = .ok vertex' := exists_eq_ok_of_isOk (by decide +kernel)
  obtain ⟨hsame, helements⟩ := fragment_apart hapi hagree hvertex hvertex'
  obtain ⟨fragment, hfragment, hplain⟩ := map_eq_ok.mp htext
  obtain ⟨fragment', hfragment', hanimated⟩ := map_eq_ok.mp (hsame.symm.trans htext)
  rw [registeredItems_of_assembleStage hfragment,
    registeredItems_of_assembleStage hfragment'] at helements
  exact ⟨hapi, hagree, vertex, vertex', fragment, fragment', hvertex, hvertex', hfragment,
    hfragment', hplain, hanimated, helements⟩

end ShaderLoom
