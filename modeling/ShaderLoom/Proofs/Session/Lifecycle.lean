import Mathlib.Data.List.Induction
import ShaderLoom.Proofs.Outcome
import ShaderLoom.Proofs.Program.Handles
import ShaderLoom.Proofs.Session.Build
import ShaderLoom.Proofs.Source.Fault

/-!
# The life of a session

A session is open until it is built, and is built once. After that it holds the program that
building has got, and can only be released. `Session.IsLegal` says which sessions there are: none is
caught between compiling and resolving, and the state tells what is held.

A session shares its context with others, so a history of commands says for each of them in which
context it comes, and nothing ties these contexts together. **`Session.hasLife_after`** describes
the session after any history, what it does with the next command, and how often it has called the
compiler.
-/

namespace ShaderLoom

variable {s : Session} {c : Context} {bodies : ProgramBodies} {p : Program}

namespace Session

/-! ## Commands -/

/-- What is asked of a session that may change it. Reading it is no command, and dropping it is
releasing it. -/
inductive Command where
  /-- add a batch of declarations -/
  | declare (batch : Declarations)
  /-- make the program -/
  | build (bodies : ProgramBodies)
  /-- give everything back -/
  | release

variable {command : Command}

/-- The session and the context after a command. -/
def answer (s : Session) (c : Context) : Command → Session × Context
  | .declare batch =>
    match s.declare batch with
    | .ok declared => (declared, c)
    | .error _ => (s, c)
  | .build bodies => (s.build c bodies).2
  | .release => s.release c

/-- A history of commands, each in the context that it finds. -/
abbrev History := List (Context × Command)

variable {history : History}

/-- A new session after a history. -/
def after (history : History) : Session :=
  history.foldl (fun s entry => (s.answer entry.1 entry.2).1) {}

theorem after_append_singleton (history : History) (c : Context) (command : Command) :
    after (history ++ [(c, command)]) = ((after history).answer c command).1 := by
  rw [after, List.foldl_append]
  rfl

/-- Does a command begin to make a program? It does when it finds the session open. -/
def begins (s : Session) : Command → Bool
  | .build _ => s.isOpen
  | .declare _ | .release => false

/-- How many commands of a history begin to make a program. -/
def builds (s : Session) : History → Nat
  | [] => 0
  | (c, command) :: rest => (if s.begins command then 1 else 0) + (s.answer c command).1.builds rest

/-- How often the commands of a history call the compiler. -/
def compilerCalls (s : Session) : History → Nat
  | [] => 0
  | (c, command) :: rest =>
    ((s.answer c command).2.cache.compiles - c.cache.compiles) +
      (s.answer c command).1.compilerCalls rest

/-- The cache hands out a program for what a session has declared. -/
def Obtains (s : Session) (c : Context) (bodies : ProgramBodies) (p : Program) : Prop :=
  s.Suits bodies ∧
    ∃ a, s.assembly c.dialect bodies = .ok a ∧ (c.cache.get a.texts).1 = .ok p

/-! ## One command -/

/-- What a session can be. -/
structure IsLegal (s : Session) : Prop where
  /-- no session is caught between compiling and resolving -/
  state_ne : s.state ≠ .assembled
  /-- an open session holds no program -/
  unbuilt : s.isOpen = true → s.program = none
  /-- a resolved one holds its program -/
  resolved : s.state = .resolved → ∃ p, s.program = some p
  /-- a released one holds nothing -/
  released : s.state = .released → s = { state := .released }

theorem isLegal_new : ({} : Session).IsLegal := by
  refine ⟨?_, fun _ => rfl, fun h => ?_, fun h => ?_⟩
  · simp
  · cases h
  · cases h

/-- A session that is not open refuses declarations. -/
theorem declare_of_not_isOpen (h : s.isOpen = false) (batch : Declarations) :
    s.declare batch = .error (.wrongState .declare s.state) := by
  simp [declare, h]

/-- A session that is not open refuses to make a program, and nothing changes. -/
theorem build_of_not_isOpen (h : s.isOpen = false) (c : Context) (bodies : ProgramBodies) :
    s.build c bodies = (.error (.wrongState .build s.state), s, c) := by
  simp [build, h]

theorem isOpen_eq_false (h : s.state ≠ .empty) (h' : s.state ≠ .declaring) :
    s.isOpen = false := by
  simp [isOpen, SessionState.isOpen, h, h']

/-- **A build that begins** ends in one of two states, and the session then holds the program that
the cache has handed out, if it has. -/
theorem build_of_isOpen (hlegal : s.IsLegal) (hopen : s.isOpen = true) (c : Context)
    (bodies : ProgramBodies) :
    (((s.build c bodies).2.1.state = .resolved ∧ ∃ r, (s.build c bodies).1 = .ok r) ∨
        (s.build c bodies).2.1.state = .failed ∧ ∃ e, (s.build c bodies).1 = .error e) ∧
      ∀ p, (s.build c bodies).2.1.program = some p ↔ s.Obtains c bodies p := by
  have hnone : s.program = none := hlegal.unbuilt hopen
  have hend := s.buildEnds c bodies
  generalize s.build c bodies = outcome at hend
  cases hend with
  | refused hclosed => cases hopen.symm.trans hclosed
  | unsuited _ hunsuited =>
    refine ⟨.inr ⟨rfl, _, rfl⟩, fun p => iff_of_false ?_ fun h => hunsuited h.1⟩
    simp [fail, hnone]
  | unassembled _ _ ha =>
    refine ⟨.inr ⟨rfl, _, rfl⟩, fun p => iff_of_false ?_ ?_⟩
    · simp [fail, expand, hnone]
    · rintro ⟨-, a, ha', -⟩
      cases ha.symm.trans ha'
  | uncompiled _ _ ha hget =>
    refine ⟨.inr ⟨rfl, _, rfl⟩, fun p => iff_of_false ?_ ?_⟩
    · simp [fail, expand, hnone]
    · rintro ⟨-, a, ha', hget'⟩
      cases ha.symm.trans ha'
      cases hget.symm.trans hget'
  | unresolved _ hsuits ha hget =>
    refine ⟨.inr ⟨rfl, _, rfl⟩, fun p => ?_⟩
    constructor
    · intro h
      obtain rfl := Option.some.inj h
      exact ⟨hsuits, _, ha, hget⟩
    · rintro ⟨-, a, ha', hget'⟩
      cases ha.symm.trans ha'
      cases hget.symm.trans hget'
      rfl
  | resolved _ hsuits ha hget =>
    refine ⟨.inl ⟨rfl, _, rfl⟩, fun p => ?_⟩
    constructor
    · intro h
      obtain rfl := Option.some.inj h
      exact ⟨hsuits, _, ha, hget⟩
    · rintro ⟨-, a, ha', hget'⟩
      cases ha.symm.trans ha'
      cases hget.symm.trans hget'
      rfl

/-- **A command** finds the session not open and leaves it, declares, builds, or releases it. -/
theorem answer_cases (s : Session) (c : Context) (command : Command) :
    s.answer c command = (s, c) ∨
      (∃ batch, command = .declare batch ∧ s.isOpen = true ∧
        s.answer c command =
          ({ s with declarations := s.declarations.append batch, state := .declaring }, c)) ∨
      (∃ bodies, command = .build bodies ∧ s.isOpen = true ∧
        s.answer c command = (s.build c bodies).2) ∨
      command = .release ∧ (s.answer c command).1 = { state := .released } := by
  cases command with
  | declare batch =>
    cases hopen : s.isOpen with
    | false =>
      refine .inl ?_
      rw [answer, declare_of_not_isOpen hopen]
    | true =>
      refine .inr (.inl ⟨batch, rfl, rfl, ?_⟩)
      simp [answer, Session.declare, hopen]
  | build bodies =>
    cases hopen : s.isOpen with
    | false =>
      refine .inl ?_
      rw [answer, build_of_not_isOpen hopen]
    | true => exact .inr (.inr (.inl ⟨bodies, rfl, rfl, rfl⟩))
  | release =>
    rw [answer, Session.release]
    split
    · exact .inl rfl
    · exact .inr (.inr (.inr ⟨rfl, rfl⟩))

theorem IsLegal.answer (h : s.IsLegal) (c : Context) (command : Command) :
    (s.answer c command).1.IsLegal := by
  rcases s.answer_cases c command with he | ⟨batch, -, hopen, he⟩ | ⟨bodies, -, hopen, he⟩ | ⟨-, he⟩
  · rwa [he]
  · rw [he]
    refine ⟨by simp, fun _ => h.unbuilt hopen, fun hstate => ?_, fun hstate => ?_⟩ <;> cases hstate
  · rw [he]
    obtain ⟨⟨hstate, r, hr⟩ | ⟨hstate, -⟩, hprogram⟩ :=
      build_of_isOpen h hopen c bodies
    · refine ⟨by simp [hstate], fun ho => ?_, fun _ => ?_, fun hreleased => ?_⟩
      · rw [isOpen, hstate] at ho
        cases ho
      · obtain ⟨-, hsuits, a, ha, hget, -⟩ := build_eq_ok_iff.mp hr
        exact ⟨r.program, (hprogram _).mpr ⟨hsuits, a, ha, hget⟩⟩
      · cases hstate.symm.trans hreleased
    · refine ⟨by simp [hstate], fun ho => ?_, fun hresolved => ?_, fun hreleased => ?_⟩
      · rw [isOpen, hstate] at ho
        cases ho
      · cases hstate.symm.trans hresolved
      · cases hstate.symm.trans hreleased
  · rw [he]
    refine ⟨by simp, fun ho => ?_, fun hstate => ?_, fun _ => rfl⟩
    · cases ho
    · cases hstate

/-- **A released session** is beyond all commands. -/
theorem answer_of_released (h : s.state = .released) (c : Context) (command : Command) :
    s.answer c command = (s, c) := by
  have hclosed : s.isOpen = false := isOpen_eq_false (by simp [h]) (by simp [h])
  cases command with
  | declare batch => rw [answer, declare_of_not_isOpen hclosed]
  | build bodies => rw [answer, build_of_not_isOpen hclosed]
  | release => rw [answer, release, if_pos h]

/-- **A failed session** can only be released. -/
theorem answer_of_failed (h : s.state = .failed) (c : Context) (command : Command) :
    s.answer c command = (s, c) ∨
      command = .release ∧ (s.answer c command).1 = { state := .released } := by
  have hclosed : s.isOpen = false := isOpen_eq_false (by simp [h]) (by simp [h])
  rcases s.answer_cases c command with he | ⟨batch, -, hopen, -⟩ | ⟨bodies, -, hopen, -⟩ | he
  · exact .inl he
  · cases hclosed.symm.trans hopen
  · cases hclosed.symm.trans hopen
  · exact .inr he

/-! ## Calls of the compiler -/

/-- A build calls the compiler at most once. -/
theorem compiles_build (s : Session) (c : Context) (bodies : ProgramBodies) :
    (s.build c bodies).2.2.cache.compiles ≤ c.cache.compiles + 1 := by
  have hrequested : ∀ texts, (requested c texts).cache.compiles ≤ c.cache.compiles + 1 := by
    intro texts
    have hcompiles := Cache.compiles_get c.cache texts
    rw [requested]
    dsimp only
    split at hcompiles <;> omega
  have hend := s.buildEnds c bodies
  generalize s.build c bodies = outcome at hend
  cases hend with
  | refused | unsuited | unassembled => exact Nat.le_succ _
  | uncompiled | unresolved | resolved => exact hrequested _

/-- **Only a command that begins to make a program** calls the compiler, and calls it at most
once. -/
theorem compiles_answer (s : Session) (c : Context) (command : Command) :
    (s.answer c command).2.cache.compiles - c.cache.compiles ≤
      if s.begins command then 1 else 0 := by
  cases command with
  | declare batch =>
    rcases s.answer_cases c (.declare batch) with
      he | ⟨_, -, -, he⟩ | ⟨_, hcommand, -⟩ | ⟨hcommand, -⟩
    · simp [he]
    · simp [he]
    · cases hcommand
    · cases hcommand
  | build bodies =>
    rw [begins, answer]
    split
    · have hcompiles := s.compiles_build c bodies
      omega
    · next hclosed => rw [build_of_not_isOpen (by simpa using hclosed)]; simp
  | release =>
    rw [answer, release]
    split
    · simp
    · cases s.program with
      | none => simp
      | some p => simp

/-- **A session that is not open** stays so, whatever is asked of it. -/
theorem isOpen_answer (h : s.isOpen = false) (c : Context) (command : Command) :
    (s.answer c command).1.isOpen = false := by
  rcases s.answer_cases c command with he | ⟨_, -, hopen, -⟩ | ⟨_, -, hopen, -⟩ | ⟨-, he⟩
  · rwa [he]
  · cases h.symm.trans hopen
  · cases h.symm.trans hopen
  · rw [he]
    rfl

/-- A history begins to make a program at most once, and not at all with a session that is not
open. -/
theorem builds_le (hlegal : s.IsLegal) (history : History) :
    s.builds history ≤ if s.isOpen then 1 else 0 := by
  induction history generalizing s with
  | nil => exact Nat.zero_le _
  | cons entry rest ih =>
    obtain ⟨c, command⟩ := entry
    have hrest := ih (hlegal.answer c command)
    rw [builds]
    cases hopen : s.isOpen with
    | false =>
      rw [isOpen_answer hopen] at hrest
      have hbegins : s.begins command = false := by cases command <;> simp [begins, hopen]
      simpa [hbegins] using hrest
    | true =>
      cases command with
      | build bodies =>
        have hclosed : (s.build c bodies).2.1.isOpen = false := by
          obtain ⟨⟨hstate, -⟩ | ⟨hstate, -⟩, -⟩ :=
            build_of_isOpen hlegal hopen c bodies <;> rw [isOpen, hstate] <;> rfl
        rw [answer, hclosed] at hrest
        have hzero : (s.build c bodies).2.1.builds rest = 0 := by simpa using hrest
        simp [answer, begins, hopen, hzero]
      | declare batch | release =>
        rw [begins, if_neg Bool.false_ne_true, Nat.zero_add, if_pos rfl]
        refine Nat.le_trans hrest ?_
        split <;> simp

theorem compilerCalls_le (s : Session) (history : History) :
    s.compilerCalls history ≤ s.builds history := by
  induction history generalizing s with
  | nil => exact Nat.le_refl 0
  | cons entry rest ih => exact Nat.add_le_add (s.compiles_answer entry.1 entry.2) (ih _)

/-! ## Histories -/

theorem isLegal_after (history : History) : (after history).IsLegal :=
  foldl_preserves (fun entry _ _ h => h.answer entry.1 entry.2) isLegal_new

/-- **A session that has failed or is resolved** is as the one build that has begun has left it. -/
theorem exists_build
    (hstate : (after history).state = .resolved ∨ (after history).state = .failed) :
    ∃ before c bodies rest, history = before ++ (c, .build bodies) :: rest ∧
      (after before).isOpen = true ∧ after history = ((after before).build c bodies).2.1 := by
  induction history using List.reverseRecOn with
  | nil => rcases hstate with h | h <;> cases h
  | append_singleton history entry ih =>
    obtain ⟨c, command⟩ := entry
    rw [after_append_singleton] at hstate ⊢
    rcases (after history).answer_cases c command with
      he | ⟨batch, -, -, he⟩ | ⟨bodies, rfl, hopen, he⟩ | ⟨-, he⟩
    · rw [he] at hstate ⊢
      obtain ⟨before, c', bodies, rest, hhistory, hopen, hbuilt⟩ := ih hstate
      refine ⟨before, c', bodies, rest ++ [(c, command)], ?_, hopen, hbuilt⟩
      rw [hhistory, List.append_assoc, List.cons_append]
    · rw [he] at hstate
      rcases hstate with h | h <;> cases h
    · exact ⟨history, c, bodies, [], rfl, hopen, by rw [he]⟩
    · rw [he] at hstate
      rcases hstate with h | h <;> cases h

/-- The life of a session, as far as a history goes. -/
structure HasLife (history : History) : Prop where
  /-- the session is seen in five states only -/
  state : (after history).state = .empty ∨ (after history).state = .declaring ∨
    (after history).state = .resolved ∨ (after history).state = .failed ∨
    (after history).state = .released
  /-- no more than one command has begun to make a program -/
  builds : ({} : Session).builds history ≤ 1
  /-- the compiler was called no more than once -/
  compilerCalls : ({} : Session).compilerCalls history ≤ 1
  /-- a session holds no program before it is built, nor after it is released -/
  program_none : (after history).state = .empty ∨ (after history).state = .declaring ∨
    (after history).state = .released → (after history).program = none
  /-- a resolved session holds a program -/
  program_resolved : (after history).state = .resolved → ∃ p, (after history).program = some p
  /-- a failed session holds the program that the failing command got from the cache, if it got
  one -/
  program_failed : (after history).state = .failed →
    ∃ before c bodies rest e, history = before ++ (c, .build bodies) :: rest ∧
      (after before).isOpen = true ∧ ((after before).build c bodies).1 = .error e ∧
      ∀ p, (after history).program = some p ↔ (after before).Obtains c bodies p
  /-- only a resolved session knows where a uniform is -/
  locateUniform? : (after history).state ≠ .resolved →
    ∀ name stage, (after history).locateUniform? name stage = none
  /-- a batch is refused for the state alone, and the refusal changes nothing -/
  refused_declare : ∀ batch e, (after history).declare batch = .error e →
    e = .wrongState .declare (after history).state ∧
      ∀ c, (after history).answer c (.declare batch) = (after history, c)
  /-- a refusal to make a program changes nothing, unless it is the compiler that speaks of a
  state -/
  refused_build : ∀ c bodies e, ((after history).build c bodies).1 = .error e →
    e.kind = .invalidState →
      ((after history).build c bodies).2 = (after history, c) ∨
        ∃ fault, e = .compile fault ∧ fault.kind = .invalidState
  /-- a failed session stays as it is until it is released -/
  failed : (after history).state = .failed → ∀ c command,
    ((after history).answer c command).1 = after history ∨
      command = .release ∧ ((after history).answer c command).1.state = .released
  /-- a released session is beyond all commands, a second release included -/
  released : (after history).state = .released → ∀ c command,
    (after history).answer c command = (after history, c)
  /-- nothing is left in it -/
  released_empty : (after history).state = .released →
    (after history).declared = {} ∧ (after history).textures = [] ∧
      (after history).program = none

/-- A build that is refused for the state of the session changes nothing. -/
theorem build_of_invalidState {e : Error} (h : (s.build c bodies).1 = .error e)
    (hkind : e.kind = .invalidState) :
    (s.build c bodies).2 = (s, c) ∨ ∃ fault, e = .compile fault ∧ fault.kind = .invalidState := by
  have hearly : ¬ e.IsEarly := by simp [Error.IsEarly, hkind]
  have hend := s.buildEnds c bodies
  generalize s.build c bodies = outcome at hend h
  cases hend with
  | refused => exact .inl rfl
  | unsuited =>
    cases h
    cases hkind
  | unassembled _ _ ha =>
    cases h
    exact absurd (isEarly_of_assemble ha) hearly
  | uncompiled =>
    cases h
    exact .inr ⟨_, rfl, hkind⟩
  | unresolved _ _ _ _ hresolve =>
    cases h
    rw [kind_of_resolve hresolve] at hkind
    cases hkind
  | resolved => cases h

/-- **The life of a session** is the same after every history. -/
theorem hasLife_after (history : History) : HasLife history := by
  have hlegal := isLegal_after history
  have hbuilds : ({} : Session).builds history ≤ 1 := builds_le isLegal_new history
  refine
    { state := ?_
      builds := hbuilds
      compilerCalls := Nat.le_trans (compilerCalls_le _ history) hbuilds
      program_none := ?_
      program_resolved := hlegal.resolved
      program_failed := fun hfailed => ?_
      locateUniform? := fun hstate name stage => if_neg hstate
      refused_declare := fun batch e hrefused => ?_
      refused_build := fun c bodies e => build_of_invalidState
      failed := fun hfailed c command => ?_
      released := answer_of_released
      released_empty := fun hreleased => ?_ }
  · have hne := hlegal.state_ne
    cases hstate : (after history).state <;> simp_all
  · rintro (h | h | h)
    · exact hlegal.unbuilt (by simp [isOpen, h, SessionState.isOpen])
    · exact hlegal.unbuilt (by simp [isOpen, h, SessionState.isOpen])
    · rw [hlegal.released h]
  · obtain ⟨before, c, bodies, rest, hhistory, hopen, hbuilt⟩ := exists_build (.inr hfailed)
    obtain ⟨⟨hstate, -⟩ | ⟨-, e, he⟩, hprogram⟩ :=
      build_of_isOpen (isLegal_after before) hopen c bodies
    · rw [hbuilt, hstate] at hfailed
      cases hfailed
    · rw [← hbuilt] at hprogram
      exact ⟨before, c, bodies, rest, e, hhistory, hopen, he, hprogram⟩
  · cases hopen : (after history).isOpen with
    | true =>
      rw [declare, if_pos hopen] at hrefused
      cases hrefused
    | false =>
      rw [declare_of_not_isOpen hopen] at hrefused
      cases hrefused
      exact ⟨rfl, fun c => by rw [answer, declare_of_not_isOpen hopen]⟩
  · rcases answer_of_failed hfailed c command with he | ⟨hcommand, he⟩
    · exact .inl (congrArg Prod.fst he)
    · exact .inr ⟨hcommand, by rw [he]⟩
  · rw [hlegal.released hreleased]
    exact ⟨rfl, rfl, rfl⟩

end Session

end ShaderLoom
