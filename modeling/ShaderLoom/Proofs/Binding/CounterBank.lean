import ShaderLoom.Binding.CounterBank
import ShaderLoom.Proofs.Binding.Series
import ShaderLoom.Proofs.Outcome

/-!
# Slots and spaces

A bank of counters keeps one counter for each space of bindings that its dialect uses, at the place
where the slots of the space lead (`BindingSpace.counter`). Two spaces have one counter only where
the dialect does not use both (`counter_inj`), so the slots are a detour: a bank answers a request as
the `Allocator` does, in which spaces have nothing to do with each other, unless a counter is no
machine word any more (`Simulates.exists_answer`).

**`handsOut_ofApi`**: so a bank hands out every number once in its series, in every sequence of
requests that asks for no more numbers of a series than there are words.
-/

namespace ShaderLoom

/-- The counter of a space. -/
def BindingSpace.counter : BindingSpace → Slot
  | .shared => Slot.first
  | .own stage resource => Slot.of stage resource

variable {d : Dialect} {b : CounterBank} {a : Allocator} {stage other : Stage}
  {resource resource' : BindingClass} {space space' : BindingSpace}

/-! ## Slots -/

theorem Stage.index_inj : stage.index = other.index ↔ stage = other := by
  cases stage <;> cases other <;> decide

theorem BindingClass.index_inj : resource.index = resource'.index ↔ resource = resource' := by
  cases resource <;> cases resource' <;> decide

/-- **Slots are apart.** -/
theorem Slot.of_inj :
    Slot.of stage resource = Slot.of other resource' ↔ stage = other ∧ resource = resource' := by
  rw [← Stage.index_inj, ← BindingClass.index_inj, Slot.of, Slot.of, Fin.mk.injEq, Fin.ext_iff,
    Fin.ext_iff]
  omega

/-- Some stage and class draws from the space. -/
def Dialect.Uses (d : Dialect) (space : BindingSpace) : Prop :=
  ∃ stage resource, d.bindingSpace? stage resource = some space

/-- **Spaces that are used have counters of their own.** -/
theorem counter_inj (h : d.Uses space) (h' : d.Uses space') :
    space.counter = space'.counter ↔ space = space' := by
  have hspace : ∀ {space}, d.Uses space →
      if d.sharesBindings then space = .shared else ∃ stage resource, space = .own stage resource := by
    rintro space ⟨stage, resource, hs⟩
    rw [Dialect.bindingSpace?] at hs
    split at hs
    · obtain rfl := Option.some.inj hs
      split
      · rfl
      · exact ⟨stage, resource, rfl⟩
    · cases hs
  have hs := hspace h
  have hs' := hspace h'
  split at hs
  · next hshared =>
    rw [if_pos hshared] at hs'
    exact iff_of_true (by rw [hs, hs']) (hs.trans hs'.symm)
  · next hown =>
    rw [if_neg hown] at hs'
    obtain ⟨stage, resource, rfl⟩ := hs
    obtain ⟨other, resource', rfl⟩ := hs'
    rw [BindingSpace.own.injEq]
    exact Slot.of_inj

namespace CounterBank

/-- Setting one place leaves all others alone. -/
theorem get_set {α : Type} {n : Nat} (v : Vector α n) (i j : Fin n) (x : α) :
    (v.set i x i.isLt).get j = if j = i then x else v.get j := by
  by_cases h : j = i
  · subst h
    rw [if_pos rfl]
    exact Vector.getElem_set_self ..
  · rw [if_neg h]
    exact Vector.getElem_set_ne _ _ fun hij => h (Fin.ext hij.symm)

theorem get_replicate {α : Type} {n : Nat} (x : α) (i : Fin n) :
    (Vector.replicate n x).get i = x :=
  Vector.getElem_replicate i.isLt

theorem get_enable (slots : Vector (Option Slot) 9) (place : Stage × BindingClass) :
    (enable d slots place).get (Slot.of stage resource) =
      if (stage, resource) = place ∧ isEnabled d resource = true then
        some (counterOf d stage resource)
      else slots.get (Slot.of stage resource) := by
  by_cases hplace : (stage, resource) = place
  · subst hplace
    by_cases henabled : isEnabled d resource = true
    · rw [enable, if_pos henabled, get_set, if_pos rfl, if_pos ⟨rfl, henabled⟩]
    · rw [if_neg fun h => henabled h.2]
      rw [enable, if_neg henabled]
  · rw [if_neg fun h => hplace h.1, enable]
    split
    · rw [get_set, if_neg fun h => hplace ?_]
      obtain ⟨rfl, rfl⟩ := Slot.of_inj.mp h
      rfl
    · rfl

/-- A slot depends on its own stage and class, whatever comes before and after. -/
theorem get_foldl_enable (slots : Vector (Option Slot) 9) (places : List (Stage × BindingClass)) :
    (places.foldl (enable d) slots).get (Slot.of stage resource) =
      if (stage, resource) ∈ places ∧ isEnabled d resource = true then
        some (counterOf d stage resource)
      else slots.get (Slot.of stage resource) := by
  induction places generalizing slots with
  | nil => exact (if_neg fun h => List.not_mem_nil h.1).symm
  | cons place places ih =>
    rw [List.foldl_cons, ih, get_enable]
    by_cases hrest : (stage, resource) ∈ places ∧ isEnabled d resource = true
    · rw [if_pos hrest, if_pos ⟨List.mem_cons_of_mem place hrest.1, hrest.2⟩]
    · rw [if_neg hrest]
      by_cases hplace : (stage, resource) = place ∧ isEnabled d resource = true
      · rw [if_pos hplace, if_pos ⟨hplace.1 ▸ List.mem_cons_self .., hplace.2⟩]
      · rw [if_neg hplace, if_neg]
        rintro ⟨hmem, henabled⟩
        exact (List.mem_cons.mp hmem).elim (hplace ⟨·, henabled⟩) (hrest ⟨·, henabled⟩)

theorem mem_places : (stage, resource) ∈ places := by
  cases stage <;> cases resource <;> decide

/-- **A slot leads to the counter of its space**, if there is one. -/
theorem get_slotsOf (d : Dialect) (stage : Stage) (resource : BindingClass) :
    (slotsOf d).get (Slot.of stage resource) =
      (d.bindingSpace? stage resource).map BindingSpace.counter := by
  have hfixes : d.fixesBindings resource = (d.hasBufferBindings && isEnabled d resource) := by
    cases resource with
    | uniformBlock => rfl
    | storageBlock => exact (Bool.and_true _).symm
    | texture => rfl
  rw [slotsOf, Dialect.bindingSpace?, hfixes]
  cases d.hasBufferBindings with
  | false => exact get_replicate ..
  | true =>
    rw [if_pos rfl, get_foldl_enable, Bool.true_and]
    cases isEnabled d resource with
    | false =>
      rw [if_neg fun h => Bool.false_ne_true h.2]
      exact get_replicate ..
    | true =>
      rw [if_pos ⟨mem_places, rfl⟩, if_pos rfl, Option.map_some, counterOf]
      split <;> rfl

/-! ## Simulation -/

/-- The counters of locations are those of the stages, where the text fixes locations. -/
def Counts (d : Dialect) (locations : Option (Vector Nat 3)) (next : Stage → Nat) : Prop :=
  if d.hasExplicitLocations then
    ∃ counters, locations = some counters ∧ ∀ stage, counters.get stage.index = next stage
  else locations = none

/-- A bank stands where an allocator does. -/
structure Simulates (d : Dialect) (b : CounterBank) (a : Allocator) : Prop where
  /-- slots lead to the counters of spaces -/
  slots : ∀ stage resource,
    b.slots.get (Slot.of stage resource) = (d.bindingSpace? stage resource).map BindingSpace.counter
  /-- the counters of spaces that are used -/
  counters : ∀ space, d.Uses space → b.counters.get space.counter = a.bindings space
  /-- the input locations -/
  inputs : Counts d b.inputs a.inputs
  /-- the output locations -/
  outputs : Counts d b.outputs a.outputs

theorem counts_locationsOf (d : Dialect) : Counts d (locationsOf d) fun _ => 0 := by
  rw [Counts, locationsOf]
  split
  · exact ⟨_, rfl, fun _ => get_replicate ..⟩
  · rfl

/-- With nothing handed out both stand at 0. -/
theorem simulates_create (d : Dialect) : Simulates d (create d) .start where
  slots := get_slotsOf d
  counters _ _ := get_replicate ..
  inputs := counts_locationsOf d
  outputs := counts_locationsOf d

/-- **A raised counter** is the only one that is other than before. -/
theorem raise_eq {n : Nat} (counters : Vector Nat n) (i : Fin n) (count : Nat) :
    ∃ raised, raise counters i count =
        (wordSum (counters.get i) count).map (fun _ => raised) ∧
      ∀ j, raised.get j = if j = i then counters.get i + count else counters.get j := by
  refine ⟨counters.set i (counters.get i + count) i.isLt, ?_, fun j => get_set counters i j _⟩
  rw [raise]
  cases hsum : wordSum (counters.get i) count with
  | error overflow => rfl
  | ok sum =>
    obtain ⟨rfl, -⟩ := wordSum_eq_ok_iff.mp hsum
    rfl

/-- **Locations** are taken from the counter of the stage, which moves on by as many. -/
theorem Counts.reserve {locations : Option (Vector Nat 3)} {next : Stage → Nat}
    (h : Counts d locations next) (hd : d.hasExplicitLocations = true) (stage : Stage)
    (count : Nat) :
    ∃ raised, reserve locations stage count =
        (wordSum (next stage) count).map (fun _ => (some (next stage), raised)) ∧
      Counts d raised (advance next stage count) := by
  rw [Counts, if_pos hd] at h
  obtain ⟨counters, rfl, hcounters⟩ := h
  obtain ⟨raised, hraise, hget⟩ := raise_eq counters stage.index count
  refine ⟨some raised, ?_, ?_⟩
  · rw [CounterBank.reserve, hraise, hcounters]
    cases wordSum (next stage) count <;> rfl
  · rw [Counts, if_pos hd]
    refine ⟨raised, rfl, fun other => ?_⟩
    rw [hget, advance, hcounters, hcounters]
    simp only [Stage.index_inj]
    split
    · next hother => rw [hother]
    · rfl

/-- There are none where the text does not fix them. -/
theorem Counts.reserve_of_open {locations : Option (Vector Nat 3)} {next : Stage → Nat}
    (h : Counts d locations next) (hd : ¬d.hasExplicitLocations = true) (stage : Stage)
    (count : Nat) : CounterBank.reserve locations stage count = pure (none, locations) := by
  rw [Counts, if_neg hd] at h
  rw [h, CounterBank.reserve]

/-- A request that has no series changes nothing. -/
theorem Simulates.answer_of_none (h : Simulates d b a) {r : Request} (hr : r.series? d = none) :
    b.answer r = .ok (none, b) := by
  cases r with
  | binding stage resource =>
    rw [Request.series?, Option.map_eq_none_iff] at hr
    rw [answer, binding, h.slots, hr]
    rfl
  | input stage count =>
    rw [Request.series?, ite_eq_right_iff] at hr
    rw [answer, input, h.inputs.reserve_of_open fun hd => Option.some_ne_none _ (hr hd)]
    rfl
  | output stage count =>
    rw [Request.series?, ite_eq_right_iff] at hr
    rw [answer, output, h.outputs.reserve_of_open fun hd => Option.some_ne_none _ (hr hd)]
    rfl

/-- **A bank answers with the next number of the series** and moves on with the allocator, if the
number behind those that are taken is a machine word. -/
theorem Simulates.exists_answer (h : Simulates d b a) {r : Request} {k : Series}
    (hr : r.series? d = some k) :
    ∃ b', b.answer r = (wordSum (a.next k) r.amount).map (fun _ => (some (a.next k), b')) ∧
      Simulates d b' (a.take r.amount k) := by
  cases r with
  | binding stage resource =>
    rw [Request.series?, Option.map_eq_some_iff] at hr
    obtain ⟨space, hspace, rfl⟩ := hr
    have hused : d.Uses space := ⟨stage, resource, hspace⟩
    obtain ⟨raised, hraise, hget⟩ := raise_eq b.counters space.counter 1
    rw [h.counters space hused] at hraise hget
    refine ⟨{ b with counters := raised }, ?_, h.slots, fun other hother => ?_, h.inputs, h.outputs⟩
    · rw [answer, binding, h.slots, hspace]
      change (do
        let counters ← raise b.counters space.counter 1
        pure (some (b.counters.get space.counter), { b with counters })) = _
      rw [hraise, h.counters space hused]
      exact bind_map_const ..
    · change raised.get other.counter = advance a.bindings space 1 other
      rw [hget, advance, h.counters other hother]
      simp only [counter_inj hother hused]
      split
      · next hother => rw [hother]
      · rfl
  | input stage count =>
    rw [Request.series?, Option.ite_none_right_eq_some, Option.some.injEq] at hr
    obtain ⟨hd, rfl⟩ := hr
    obtain ⟨raised, hreserve, hcounts⟩ := h.inputs.reserve hd stage count
    refine ⟨{ b with inputs := raised }, ?_, h.slots, h.counters, hcounts, h.outputs⟩
    rw [answer, input, hreserve]
    exact bind_map_const ..
  | output stage count =>
    rw [Request.series?, Option.ite_none_right_eq_some, Option.some.injEq] at hr
    obtain ⟨hd, rfl⟩ := hr
    obtain ⟨raised, hreserve, hcounts⟩ := h.outputs.reserve hd stage count
    refine ⟨{ b with outputs := raised }, ?_, h.slots, h.counters, h.inputs, hcounts⟩
    rw [answer, output, hreserve]
    exact bind_map_const ..

/-- A bank moves on with the allocator as long as all numbers are machine words. -/
theorem Simulates.exists_answer_of_words (h : Simulates d b a) {r : Request}
    (hwords : ∀ k, (a.answer d r).2.next k < UInt32.size) :
    ∃ b', b.answer r = .ok ((a.answer d r).1, b') ∧ Simulates d b' (a.answer d r).2 := by
  cases hr : r.series? d with
  | none =>
    rw [Allocator.answer_eq, hr]
    exact ⟨b, h.answer_of_none hr, h⟩
  | some k =>
    obtain ⟨b', hanswer, hb'⟩ := h.exists_answer hr
    have hword := hwords k
    rw [Allocator.next_answer, if_pos hr] at hword
    rw [hanswer, wordSum_of_lt hword, Allocator.answer_of_series hr]
    exact ⟨b', rfl, hb'⟩

/-- A bank that answers has gone no further than there are machine words. -/
theorem Simulates.words_of_answer (h : Simulates d b a) (hwords : ∀ k, a.next k < UInt32.size)
    {r : Request} {p : Option Nat × CounterBank} (hp : b.answer r = .ok p) (k : Series) :
    (a.answer d r).2.next k < UInt32.size := by
  rw [Allocator.next_answer]
  split
  · next hr =>
    obtain ⟨b', hanswer, -⟩ := h.exists_answer hr
    rw [hanswer, map_eq_ok] at hp
    obtain ⟨sum, hsum, -⟩ := hp
    exact (wordSum_eq_ok_iff.mp hsum).2
  · exact hwords k

/-- **A bank answers as the allocator does** as long as the numbers of each series are machine words,
and no longer. -/
theorem Simulates.answers_eq_ok_iff (h : Simulates d b a) (hwords : ∀ k, a.next k < UInt32.size)
    {requests : List Request} {answers : List (Option Nat)} :
    b.answers requests = .ok answers ↔
      answers = a.answers d requests ∧ ∀ k, a.next k + drawn d k requests < UInt32.size := by
  induction requests generalizing b a answers with
  | nil =>
    rw [CounterBank.answers, pure_eq_ok, eq_comm]
    exact (and_iff_left hwords).symm
  | cons r requests ih =>
    have hdrawn : ∀ k, a.next k + drawn d k (r :: requests) =
        (a.answer d r).2.next k + drawn d k requests := fun k => by
      rw [Allocator.next_answer, drawn, Nat.add_assoc]
    simp only [hdrawn]
    rw [CounterBank.answers, Allocator.answers, bind_eq_ok]
    by_cases hnext : ∀ k, (a.answer d r).2.next k < UInt32.size
    · obtain ⟨b', hanswer, hb'⟩ := h.exists_answer_of_words hnext
      rw [hanswer]
      constructor
      · rintro ⟨_, ⟨⟩, hrest⟩
        obtain ⟨rest, hrest, hpure⟩ := bind_eq_ok.mp hrest
        obtain ⟨rfl, hfits⟩ := (ih hb' hnext).mp hrest
        exact ⟨(pure_eq_ok.mp hpure).symm, hfits⟩
      · rintro ⟨rfl, hfits⟩
        exact ⟨_, rfl, bind_eq_ok.mpr ⟨_, (ih hb' hnext).mpr ⟨rfl, hfits⟩, rfl⟩⟩
    · refine iff_of_false ?_ ?_
      · rintro ⟨p, hp, -⟩
        exact hnext (h.words_of_answer hwords hp)
      · rintro ⟨-, hfits⟩
        exact hnext fun k => Nat.lt_of_le_of_lt (Nat.le_add_right ..) (hfits k)

/-- With nothing handed out, so many numbers are left as there are words. -/
theorem answers_create_eq_ok_iff {requests : List Request} {answers : List (Option Nat)} :
    (create d).answers requests = .ok answers ↔
      answers = Allocator.answers d .start requests ∧ ∀ k, drawn d k requests < UInt32.size := by
  have hstart : ∀ k, Allocator.start.next k = 0 := fun k => by cases k <;> rfl
  rw [(simulates_create d).answers_eq_ok_iff fun k => by rw [hstart]; decide]
  simp only [hstart, Nat.zero_add]

end CounterBank

/-- Bindings of all stages and classes come from one counter, and locations from others. -/
example : (CounterBank.create (.ofApi .vulkan 110)).answers
    [.binding .vertex .uniformBlock, .input .vertex 4, .binding .fragment .texture,
      .output .vertex 2, .input .vertex 1] = .ok [some 0, some 0, some 1, some 0, some 4] := by
  decide

end ShaderLoom
