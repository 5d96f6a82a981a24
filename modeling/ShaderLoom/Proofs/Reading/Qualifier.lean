import ShaderLoom.Proofs.Text.Numeral
import ShaderLoom.Proofs.Text.Words
import ShaderLoom.Reading.Stage

/-!
# Layout qualifiers that were written

A written layout qualifier consists of plain words and of assignments of numbers to keys, with
commas in between. A key is read with the number that was written for it
(`qualifierValue_assignment`), and a key that nothing was written for is not read at all.
-/

namespace ShaderLoom

open Text

variable {s t q gap : Text} {c : Char} {key other : String} {n : Nat}

/-! ## Cutting texts up -/

namespace Text

theorem cut?_of_not_mem (h : c ∉ t) : cut? c t = none := by
  have hne : ∀ d ∈ t, (d != c) = true := by
    intro d hd
    rw [bne_iff_ne]
    rintro rfl
    exact h hd
  have hdrop : t.dropWhile (· != c) = [] := List.dropWhile_eq_nil_iff.mpr hne
  rw [cut?, hdrop]

/-- **The first separator** is where the first side ends. -/
theorem cut?_append (h : c ∉ s) : cut? c (s ++ c :: t) = some (s, t) := by
  have hne : ∀ d ∈ s, (d != c) = true := by
    intro d hd
    rw [bne_iff_ne]
    rintro rfl
    exact h hd
  have hdrop : (s ++ c :: t).dropWhile (· != c) = c :: t := by
    rw [List.dropWhile_append_of_pos hne]
    simp
  have htake : (s ++ c :: t).takeWhile (· != c) = s := by
    rw [List.takeWhile_append_of_pos hne]
    simp
  rw [cut?, hdrop, htake]

theorem separate_of_not_mem (h : c ∉ t) : separate c t = [t] := by
  induction t with
  | nil => rfl
  | cons d t ih =>
    have hd : d ≠ c := fun e => h (by rw [e]; exact List.mem_cons_self ..)
    rw [separate, if_neg hd, ih fun hmem => h (List.mem_cons_of_mem d hmem)]

theorem separate_append (h : c ∉ s) : separate c (s ++ c :: t) = s :: separate c t := by
  induction s with
  | nil => rw [List.nil_append, separate, if_pos rfl]
  | cons d s ih =>
    have hd : d ≠ c := fun e => h (by rw [e]; exact List.mem_cons_self ..)
    rw [List.cons_append, separate, if_neg hd, ih fun hmem => h (List.mem_cons_of_mem d hmem)]

end Text

/-! ## Numbers in qualifiers -/

namespace Reading

/-- What is read where `n` was written for `key`, or nothing. -/
def readBack (key : String) : Option Nat → Except CompileFault (Option Nat)
  | none => .ok none
  | some n => if n < wordLimit then .ok (some n) else .error (.badQualifier key n.repr)

/-- What is read is what was written. -/
theorem readBack_eq_ok {number read : Option Nat} (h : readBack key number = .ok read) :
    read = number := by
  cases number with
  | none =>
    cases h
    rfl
  | some n =>
    rw [readBack] at h
    by_cases hn : n < wordLimit
    · rw [if_pos hn] at h
      cases h
      rfl
    · rw [if_neg hn] at h
      cases h

/-- Reading goes on behind a number that is not too large. -/
theorem readBack_bind_eq_ok_iff {α : Type} {number : Option Nat} {x : Except CompileFault α}
    {a : α} :
    (do
      let _ ← readBack key number
      x) = .ok a ↔ (∀ n ∈ number, n < wordLimit) ∧ x = .ok a := by
  cases number with
  | none => simp [readBack, bind, Except.bind]
  | some n =>
    by_cases hn : n < wordLimit
    · simp [readBack, hn, bind, Except.bind]
    · simp [readBack, hn, bind, Except.bind]

/-- The assignment of a number to a key. -/
def assignment (key : String) (n : Nat) : Text := key.toList ++ '=' :: n.repr.toList

/-- What may stand between a comma and an assignment. -/
def IsGap (gap : Text) : Prop := gap = [] ∨ gap = [' ']

theorem IsGap.trim_append (hgap : IsGap gap) : trim (gap ++ t) = trim t := by
  rcases hgap with rfl | rfl
  · rfl
  · exact trim_cons_of_white (by decide)

theorem IsGap.not_mem (hgap : IsGap gap) (hc : isWhite c = false) : c ∉ gap := by
  rcases hgap with rfl | rfl
  · exact List.not_mem_nil
  · intro hmem
    obtain rfl := List.mem_singleton.mp hmem
    revert hc
    decide

theorem cut?_assignment (hgap : IsGap gap) (hkey : IsName key.toList) :
    cut? '=' (gap ++ assignment key n) = some (gap ++ key.toList, n.repr.toList) := by
  rw [assignment, ← List.append_assoc]
  refine cut?_append fun hmem => ?_
  rcases List.mem_append.mp hmem with hmem | hmem
  · exact hgap.not_mem (by decide) hmem
  · exact hkey.not_mem (by decide) hmem

theorem comma_not_mem_assignment (hgap : IsGap gap) (hkey : IsName key.toList) :
    ',' ∉ gap ++ assignment key n := by
  intro hmem
  rcases List.mem_append.mp hmem with hmem | hmem
  · exact hgap.not_mem (by decide) hmem
  · rcases List.mem_append.mp hmem with hmem | hmem
    · exact hkey.not_mem (by decide) hmem
    · rcases List.mem_cons.mp hmem with he | hmem
      · revert he
        decide
      · have hident := isIdentifier_of_mem_repr hmem
        revert hident
        decide

/-- The digits of a number are those of an identifier. -/
theorem isName_repr (n : Nat) : IsName n.repr.toList :=
  ⟨repr_toList_ne_nil n, fun _ hc => isIdentifier_of_mem_repr hc⟩

/-- **A key is read with the number that was written for it.** -/
theorem qualifierValue_assignment (hgap : IsGap gap) (hkey : IsName key.toList) (n : Nat) :
    qualifierValue key (gap ++ assignment key n) = readBack key (some n) := by
  have hassigned : assigned? key (gap ++ assignment key n) = some n.repr.toList := by
    rw [assigned?, separate_of_not_mem (comma_not_mem_assignment hgap hkey), List.findSome?_cons,
      cut?_assignment hgap hkey]
    simp only [hgap.trim_append, hkey.trim_eq, (isName_repr n).trim_eq, if_true]
  rw [qualifierValue, hassigned]
  simp only [numeral?_repr, readBack]
  by_cases hn : n < wordLimit
  · rw [if_pos hn, if_pos hn]
  · rw [if_neg hn, if_neg hn, String.ofList_toList]

/-- The number of another key is not read. -/
theorem qualifierValue_other (hgap : IsGap gap) (hother : IsName other.toList)
    (hne : other.toList ≠ key.toList) :
    qualifierValue key (gap ++ assignment other n) = .ok none := by
  have hassigned : assigned? key (gap ++ assignment other n) = none := by
    rw [assigned?, separate_of_not_mem (comma_not_mem_assignment hgap hother), List.findSome?_cons,
      cut?_assignment hgap hother]
    simp only [hgap.trim_append, hother.trim_eq, if_neg hne, List.findSome?_nil]
  rw [qualifierValue, hassigned]

/-- A plain word gives a number to no key. -/
theorem qualifierValue_plain (hq : ∀ c ∈ q, isIdentifier c = true) :
    qualifierValue key q = .ok none := by
  have hcomma : ',' ∉ q := fun hmem => absurd (hq _ hmem) (by decide)
  have hequals : '=' ∉ q := fun hmem => absurd (hq _ hmem) (by decide)
  rw [qualifierValue, assigned?, separate_of_not_mem hcomma, List.findSome?_cons,
    cut?_of_not_mem hequals]
  rfl

theorem qualifierValue_nil : qualifierValue key [] = .ok none :=
  qualifierValue_plain fun _ hc => absurd hc List.not_mem_nil

/-- A plain word in front does not matter. -/
theorem qualifierValue_plain_append (hq : ∀ c ∈ q, isIdentifier c = true) :
    qualifierValue key (q ++ ',' :: t) = qualifierValue key t := by
  have hcomma : ',' ∉ q := fun hmem => absurd (hq _ hmem) (by decide)
  have hequals : '=' ∉ q := fun hmem => absurd (hq _ hmem) (by decide)
  have hassigned : assigned? key (q ++ ',' :: t) = assigned? key t := by
    rw [assigned?, separate_append hcomma, List.findSome?_cons, cut?_of_not_mem hequals, assigned?]
  rw [qualifierValue, hassigned, qualifierValue]

end Reading

end ShaderLoom
