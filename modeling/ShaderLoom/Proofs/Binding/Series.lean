import Mathlib.Data.List.Basic
import ShaderLoom.Binding

/-!
# Numbers handed out in series

What is counted on its own is a **series** of numbers: the bindings of a space, the input locations of
a stage, the output locations of a stage. A request takes as many numbers as it asks for from one
series, or none where the dialect leaves the numbers to the compiler of the program.

One answer moves the series it is taken from, by what is asked for, and no other (`next_answer`). So
the requests of a series get its numbers in the order of the requests, without a gap, whatever else
is asked for in between (`handedOut_answers`).

**`handsOut_answers`**: this is what a dialect promises about bindings and locations, and what the
`Allocator` keeps.
-/

namespace ShaderLoom

/-- A series of numbers. -/
inductive Series where
  /-- the bindings of a space -/
  | bindings (space : BindingSpace)
  /-- the input locations of a stage -/
  | inputs (stage : Stage)
  /-- the output locations of a stage -/
  | outputs (stage : Stage)
  deriving DecidableEq

/-- The series that a request takes its numbers from. -/
def Request.series? (d : Dialect) : Request → Option Series
  | .binding stage resource => (d.bindingSpace? stage resource).map .bindings
  | .input stage _ => if d.hasExplicitLocations then some (.inputs stage) else none
  | .output stage _ => if d.hasExplicitLocations then some (.outputs stage) else none

/-- How many numbers a request takes. -/
def Request.amount : Request → Nat
  | .binding _ _ => 1
  | .input _ count | .output _ count => count

/-- The next number of a series. -/
def Allocator.next (a : Allocator) : Series → Nat
  | .bindings space => a.bindings space
  | .inputs stage => a.inputs stage
  | .outputs stage => a.outputs stage

/-- Take `n` numbers from a series. -/
def Allocator.take (a : Allocator) (n : Nat) : Series → Allocator
  | .bindings space => { a with bindings := advance a.bindings space n }
  | .inputs stage => { a with inputs := advance a.inputs stage n }
  | .outputs stage => { a with outputs := advance a.outputs stage n }

/-- The requests that take their numbers from a series. -/
def draws (d : Dialect) (k : Series) (requests : List Request) : List Request :=
  requests.filter fun r => r.series? d = some k

/-- How many numbers requests take from a series. -/
def drawn (d : Dialect) (k : Series) : List Request → Nat
  | [] => 0
  | r :: rest => (if r.series? d = some k then r.amount else 0) + drawn d k rest

/-- The requests that take their numbers from a series, with their answers. -/
def handedOut (d : Dialect) (k : Series) (requests : List Request) (answers : List (Option Nat)) :
    List (Request × Option Nat) :=
  (requests.zip answers).filter fun p => p.1.series? d = some k

/-- Each request is answered with the number behind the ones that the request in front of it took. -/
def consecutive (next : Nat) : List Request → List (Request × Option Nat)
  | [] => []
  | r :: rest => (r, some next) :: consecutive (next + r.amount) rest

/-- The classes that a dialect says it leaves to the compiler of the program. -/
def Dialect.leavesOpen (d : Dialect) : BindingClass → Bool
  | .uniformBlock => !d.hasUniformBlockBindings
  | .storageBlock => !d.hasBufferBindings
  | .texture => !d.hasTextureBindings

/-- What a dialect promises about the numbers that are handed out, by the answers to sequences of
requests. -/
structure HandsOut (d : Dialect) (run : List Request → List (Option Nat)) : Prop where
  /-- each request is answered -/
  length : ∀ requests, (run requests).length = requests.length
  /-- a binding is left to the compiler exactly if the dialect says so of its class, in whatever stage
  and after whatever requests -/
  left_iff : ∀ (requests : List Request) stage resource answer,
    (Request.binding stage resource, answer) ∈ requests.zip (run requests) →
      (answer = none ↔ d.leavesOpen resource = true)
  /-- the bindings of a space are 0, 1, 2 and so on, in the order of the requests -/
  bindings : ∀ requests space,
    (handedOut d (.bindings space) requests (run requests)).map Prod.snd =
      (List.range (draws d (.bindings space) requests).length).map some
  /-- the numbers of a series are handed out from 0 on without a gap -/
  consecutive : ∀ requests k,
    handedOut d k requests (run requests) = consecutive 0 (draws d k requests)
  /-- what is handed out first ends where the next begins, or in front of it -/
  disjoint : ∀ requests k, (handedOut d k requests (run requests)).Pairwise fun p q =>
    ∀ m n, p.2 = some m → q.2 = some n → m + p.1.amount ≤ n
  /-- what is asked of other series makes no difference -/
  apart : ∀ requests others k, draws d k requests = draws d k others →
    handedOut d k requests (run requests) = handedOut d k others (run others)

variable {d : Dialect} {a : Allocator} {r : Request} {requests : List Request} {k : Series}
  {next : Nat}

/-! ## One request -/

namespace Allocator

theorem next_take (a : Allocator) (n : Nat) (k other : Series) :
    (a.take n k).next other = if other = k then a.next other + n else a.next other := by
  cases k <;> cases other <;> simp [take, next, advance]

/-- **A request takes numbers from its series**, and none where it has no series. -/
theorem answer_eq (d : Dialect) (a : Allocator) (r : Request) :
    a.answer d r =
      match r.series? d with
      | none => (none, a)
      | some k => (some (a.next k), a.take r.amount k) := by
  cases r with
  | binding stage resource =>
    rw [answer, binding, Request.series?]
    cases d.bindingSpace? stage resource <;> rfl
  | input stage count =>
    rw [answer, input, Request.series?]
    cases d.hasExplicitLocations <;> rfl
  | output stage count =>
    rw [answer, output, Request.series?]
    cases d.hasExplicitLocations <;> rfl

theorem answer_of_series (h : r.series? d = some k) :
    a.answer d r = (some (a.next k), a.take r.amount k) := by
  rw [answer_eq, h]

/-- **A request moves its own series**, by as many numbers as it takes. -/
theorem next_answer (d : Dialect) (a : Allocator) (r : Request) (k : Series) :
    (a.answer d r).2.next k = a.next k + if r.series? d = some k then r.amount else 0 := by
  rw [answer_eq]
  cases hr : r.series? d with
  | none => rw [if_neg (Option.some_ne_none k).symm, Nat.add_zero]
  | some own =>
    change (a.take r.amount own).next k = _
    rw [next_take]
    simp only [Option.some.injEq, eq_comm (a := own)]
    split <;> rfl

/-! ## Sequences of requests -/

theorem length_answers (d : Dialect) (a : Allocator) (requests : List Request) :
    (answers d a requests).length = requests.length := by
  induction requests generalizing a with
  | nil => rfl
  | cons r requests ih => rw [answers, List.length_cons, List.length_cons, ih]

theorem draws_cons (d : Dialect) (k : Series) (r : Request) (requests : List Request) :
    draws d k (r :: requests) =
      if r.series? d = some k then r :: draws d k requests else draws d k requests := by
  rw [draws, List.filter_cons]
  simp only [decide_eq_true_eq]
  rfl

theorem handedOut_cons (d : Dialect) (k : Series) (r : Request) (requests : List Request)
    (answer : Option Nat) (answers : List (Option Nat)) :
    handedOut d k (r :: requests) (answer :: answers) =
      if r.series? d = some k then (r, answer) :: handedOut d k requests answers
      else handedOut d k requests answers := by
  rw [handedOut, List.zip_cons_cons, List.filter_cons]
  simp only [decide_eq_true_eq]
  rfl

/-- **A series is handed out without a gap**, from where it stands, whatever is asked for in
between. -/
theorem handedOut_answers (d : Dialect) (a : Allocator) (k : Series) (requests : List Request) :
    handedOut d k requests (answers d a requests) = consecutive (a.next k) (draws d k requests) := by
  induction requests generalizing a with
  | nil => rfl
  | cons r requests ih =>
    rw [answers, handedOut_cons, draws_cons, ih]
    by_cases hr : r.series? d = some k
    · rw [next_answer, if_pos hr, if_pos hr, if_pos hr, consecutive, answer_of_series hr]
    · rw [next_answer, if_neg hr, if_neg hr, if_neg hr, Nat.add_zero]

/-- Where a binding is left open and where it is not, at any place in a sequence. -/
theorem eq_none_iff_of_mem_zip {stage : Stage} {resource : BindingClass} {answer : Option Nat}
    (h : (Request.binding stage resource, answer) ∈ requests.zip (answers d a requests)) :
    answer = none ↔ d.fixesBindings resource = false := by
  induction requests generalizing a with
  | nil => cases h
  | cons r requests ih =>
    rw [answers, List.zip_cons_cons, List.mem_cons] at h
    rcases h with h | h
    · obtain ⟨rfl, rfl⟩ := Prod.mk.inj h
      rw [answer, binding, Dialect.bindingSpace?]
      cases d.fixesBindings resource with
      | false => exact iff_of_true rfl rfl
      | true => exact iff_of_false (by simp) (by simp)
    · exact ih h

end Allocator

/-! ## Numbers without a gap -/

theorem exists_of_mem_consecutive {p : Request × Option Nat} (h : p ∈ consecutive next requests) :
    ∃ n, p.2 = some n ∧ next ≤ n := by
  induction requests generalizing next with
  | nil => cases h
  | cons r requests ih =>
    rcases List.mem_cons.mp h with rfl | h
    · exact ⟨next, rfl, Nat.le_refl next⟩
    · obtain ⟨n, hn, hle⟩ := ih h
      exact ⟨n, hn, by omega⟩

theorem pairwise_consecutive (next : Nat) (requests : List Request) :
    (consecutive next requests).Pairwise fun p q =>
      ∀ m n, p.2 = some m → q.2 = some n → m + p.1.amount ≤ n := by
  induction requests generalizing next with
  | nil => exact .nil
  | cons r requests ih =>
    refine .cons (fun q hq m n hm hn => ?_) (ih _)
    obtain ⟨n', hn', hle⟩ := exists_of_mem_consecutive hq
    obtain rfl : next = m := Option.some.inj hm
    obtain rfl : n' = n := Option.some.inj (hn'.symm.trans hn)
    exact hle

/-- Numbers that are taken one by one are counted up. -/
theorem map_snd_consecutive (h : ∀ r ∈ requests, r.amount = 1) :
    (consecutive next requests).map Prod.snd = (List.range' next requests.length).map some := by
  induction requests generalizing next with
  | nil => rfl
  | cons r requests ih =>
    obtain ⟨hr, hrequests⟩ := List.forall_mem_cons.mp h
    rw [consecutive, List.map_cons, hr, ih hrequests, List.length_cons, List.range'_succ,
      List.map_cons]

theorem amount_of_mem_draws {space : BindingSpace} (h : r ∈ draws d (.bindings space) requests) :
    r.amount = 1 := by
  have hr : r.series? d = some (.bindings space) := of_decide_eq_true (List.mem_filter.mp h).2
  cases r with
  | binding stage resource => rfl
  | input stage count =>
    rw [Request.series?] at hr
    split at hr <;> cases hr
  | output stage count =>
    rw [Request.series?] at hr
    split at hr <;> cases hr

/-! ## Dialects -/

/-- What the text fixes is what a dialect does not say to leave open. -/
theorem Dialect.fixesBindings_ofApi (api : Api) (version : Nat) (resource : BindingClass) :
    (ofApi api version).fixesBindings resource = !(ofApi api version).leavesOpen resource := by
  cases api with
  | vulkan => cases resource <;> rfl
  | openGl =>
    cases resource with
    | storageBlock => exact (Bool.not_not _).symm
    | uniformBlock => exact Bool.and_false _
    | texture => exact Bool.and_false _
  | openGlEs =>
    cases resource with
    | storageBlock => exact (Bool.not_not _).symm
    | uniformBlock => exact Bool.and_false _
    | texture => exact Bool.and_false _

/-- **Every number is handed out once in its series**, for the dialect of every interface and
version. -/
theorem Allocator.handsOut_answers (api : Api) (version : Nat) :
    HandsOut (.ofApi api version) (answers (.ofApi api version) .start) := by
  have hconsecutive : ∀ requests k,
      handedOut (.ofApi api version) k requests (answers (.ofApi api version) .start requests) =
        consecutive 0 (draws (.ofApi api version) k requests) := fun requests k => by
    rw [handedOut_answers]
    cases k <;> rfl
  refine ⟨length_answers _ _, fun requests stage resource answer h => ?_, fun requests space => ?_,
    hconsecutive, fun requests k => ?_, fun requests others k h => ?_⟩
  · rw [eq_none_iff_of_mem_zip h, Dialect.fixesBindings_ofApi, Bool.not_eq_false']
  · rw [hconsecutive, map_snd_consecutive fun r hr => amount_of_mem_draws hr, List.range_eq_range']
  · rw [hconsecutive]
    exact pairwise_consecutive ..
  · rw [hconsecutive, hconsecutive, h]

end ShaderLoom
