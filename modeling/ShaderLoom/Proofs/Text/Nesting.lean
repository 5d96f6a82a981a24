import Mathlib.Data.List.Chain
import ShaderLoom.Proofs.Text.WhiteSpace

/-!
# Nesting

In a text without comments, parentheses and commas are all that decides where an argument ends.
`depthAfter n t` is the number of parentheses that are open behind `t` when `n` are open in front
of it. There is no such number when `t` contains a **stop**: a comma outside all parentheses, or a
parenthesis that closes none of them. A **balanced** text has no stop and closes what it opens, so
it can stand anywhere and be replaced by any other balanced text.
-/

namespace ShaderLoom.Text

variable {s t u : Text} {c : Char} {m n k : Nat}

/-! ## Texts without comments -/

/-- Do the two characters, one after the other, begin a comment? -/
def Opens (a b : Char) : Prop := a = '/' ∧ (b = '/' ∨ b = '*')

/-- No comment begins in the text. -/
def Uncommented (t : Text) : Prop := t.IsChain fun a b => ¬ Opens a b

instance (a b : Char) : Decidable (Opens a b) := inferInstanceAs (Decidable (_ ∧ (_ ∨ _)))

instance (t : Text) : Decidable (Uncommented t) := inferInstanceAs (Decidable (t.IsChain _))

theorem uncommented_iff : Uncommented t ↔ ¬ ['/', '/'] <:+: t ∧ ¬ ['/', '*'] <:+: t := by
  rw [Uncommented, List.isChain_iff_forall_rel_of_append_cons_cons]
  constructor
  · intro h
    constructor
    · rintro ⟨s, u, he⟩
      exact h (by simpa using he.symm) ⟨rfl, .inl rfl⟩
    · rintro ⟨s, u, he⟩
      exact h (by simpa using he.symm) ⟨rfl, .inr rfl⟩
  · rintro ⟨hline, hblock⟩ a b s u he ⟨rfl, rfl | rfl⟩
    · exact hline ⟨s, u, by simp [he]⟩
    · exact hblock ⟨s, u, by simp [he]⟩

theorem uncommented_nil : Uncommented [] := List.isChain_nil

theorem uncommented_cons :
    Uncommented (c :: t) ↔ (∀ d ∈ t.head?, ¬ Opens c d) ∧ Uncommented t :=
  List.isChain_cons

theorem Uncommented.of_append_left (h : Uncommented (s ++ t)) : Uncommented s := h.left_of_append

theorem Uncommented.of_append_right (h : Uncommented (s ++ t)) : Uncommented t := h.right_of_append

theorem not_opens_of_ne (h : c ≠ '/') (d : Char) : ¬ Opens c d := fun ho => h ho.1

theorem not_opens_of_right {d : Char} (hslash : d ≠ '/') (hstar : d ≠ '*') (c : Char) :
    ¬ Opens c d :=
  fun ho => ho.2.elim hslash hstar

theorem ne_of_isIdentifier (h : isIdentifier c = true) : c ≠ '/' ∧ c ≠ '*' := by
  constructor <;> rintro rfl <;> revert h <;> decide

/-- A text without slashes has no comments. -/
theorem uncommented_of_notMem (h : '/' ∉ t) : Uncommented t := by
  induction t with
  | nil => exact uncommented_nil
  | cons c t ih =>
    have hc : c ≠ '/' := (List.ne_of_not_mem_cons h).symm
    refine uncommented_cons.mpr ⟨fun d _ => not_opens_of_ne hc d, ih ?_⟩
    exact List.not_mem_of_not_mem_cons h

/-! ## Depth -/

/-- Open parentheses behind one character. -/
def depthStep (n : Nat) (c : Char) : Option Nat :=
  if c = '(' then some (n + 1)
  else if n = 0 ∧ (c = ',' ∨ c = ')') then none
  else if c = ')' then some (n - 1)
  else some n

/-- Open parentheses behind a text. -/
def depthAfter (n : Nat) (t : Text) : Option Nat := t.foldlM depthStep n

@[simp] theorem depthAfter_nil : depthAfter n [] = some n := rfl

theorem depthAfter_cons : depthAfter n (c :: t) = (depthStep n c).bind (depthAfter · t) := rfl

theorem depthAfter_append : depthAfter n (s ++ t) = (depthAfter n s).bind (depthAfter · t) := by
  rw [depthAfter, List.foldlM_append]
  rfl

theorem depthAfter_append_of_eq (h : depthAfter n s = some m) :
    depthAfter n (s ++ t) = depthAfter m t := by
  rw [depthAfter_append, h]
  rfl

/-- The text on the left has a depth behind it. -/
theorem exists_depthAfter_left (h : depthAfter n (s ++ t) = some k) :
    ∃ m, depthAfter n s = some m ∧ depthAfter m t = some k := by
  rw [depthAfter_append, Option.bind_eq_some_iff] at h
  exact h

theorem depthStep_eq_none_iff : depthStep n c = none ↔ n = 0 ∧ (c = ',' ∨ c = ')') := by
  rw [depthStep]
  constructor
  · intro h
    split at h
    · cases h
    · split at h
      · next hstop => exact hstop
      · split at h <;> cases h
  · rintro ⟨rfl, rfl | rfl⟩ <;> rfl

/-- More open parentheses in front do not make a stop. -/
theorem depthStep_add (h : depthStep m c = some k) (n : Nat) :
    depthStep (n + m) c = some (n + k) := by
  rw [depthStep] at h ⊢
  split at h
  · next hc =>
    cases h
    rw [if_pos hc, Nat.add_assoc]
  · next hc =>
    split at h
    · cases h
    · next hstop =>
      have hstop' : ¬ (n + m = 0 ∧ (c = ',' ∨ c = ')')) := fun hs => hstop ⟨by omega, hs.2⟩
      rw [if_neg hc, if_neg hstop']
      split at h
      · next hclose =>
        have hm : m ≠ 0 := fun hm => hstop ⟨hm, .inr hclose⟩
        cases h
        rw [if_pos hclose, Nat.add_sub_assoc (by omega)]
      · next hclose =>
        cases h
        rw [if_neg hclose]

theorem depthAfter_add (h : depthAfter m t = some k) (n : Nat) :
    depthAfter (n + m) t = some (n + k) := by
  induction t generalizing m with
  | nil =>
    cases h
    rfl
  | cons c t ih =>
    rw [depthAfter_cons, Option.bind_eq_some_iff] at h
    obtain ⟨j, hj, ht⟩ := h
    rw [depthAfter_cons, depthStep_add hj n]
    exact ih ht

/-- **A text without a depth behind it** has a first stop. -/
theorem exists_stop (h : depthAfter n t = none) :
    ∃ s c u, t = s ++ c :: u ∧ depthAfter n s = some 0 ∧ (c = ',' ∨ c = ')') := by
  induction t generalizing n with
  | nil => cases h
  | cons c t ih =>
    cases hc : depthStep n c with
    | none =>
      obtain ⟨rfl, hstop⟩ := depthStep_eq_none_iff.mp hc
      exact ⟨[], c, t, rfl, rfl, hstop⟩
    | some m =>
      rw [depthAfter_cons, hc] at h
      obtain ⟨s, d, u, rfl, hs, hd⟩ := ih h
      refine ⟨c :: s, d, u, rfl, ?_, hd⟩
      rw [depthAfter_cons, hc]
      exact hs

/-- What is closed behind a stop has parentheses open in front. -/
theorem depthAfter_stop (h : depthAfter n s = some 0) (hc : c = ',' ∨ c = ')') :
    depthAfter n (s ++ c :: u) = none := by
  rw [depthAfter_append_of_eq h, depthAfter_cons, depthStep_eq_none_iff.mpr ⟨rfl, hc⟩]
  rfl

/-! ## Balanced texts -/

/-- The text closes what it opens, and has no stop. -/
def Balanced (t : Text) : Prop := depthAfter 0 t = some 0

theorem balanced_nil : Balanced [] := rfl

/-- **A balanced text can stand anywhere.** -/
theorem Balanced.depthAfter_eq (h : Balanced t) (n : Nat) : depthAfter n t = some n :=
  depthAfter_add h n

theorem Balanced.depthAfter_append (h : Balanced s) :
    depthAfter n (s ++ t) = depthAfter n t :=
  depthAfter_append_of_eq (h.depthAfter_eq n)

theorem Balanced.append (hs : Balanced s) (ht : Balanced t) : Balanced (s ++ t) := by
  rw [Balanced, hs.depthAfter_append]
  exact ht

/-- What is balanced can be taken away from the end. -/
theorem Balanced.of_append (h : Balanced (s ++ t)) (ht : Balanced t) : Balanced s := by
  obtain ⟨m, hm, hrest⟩ := exists_depthAfter_left h
  rw [ht.depthAfter_eq m] at hrest
  cases hrest
  exact hm

/-- Neither a parenthesis nor a comma. -/
def IsFlat (c : Char) : Prop := c ≠ '(' ∧ c ≠ ')' ∧ c ≠ ','

theorem depthStep_of_isFlat (h : IsFlat c) : depthStep n c = some n := by
  obtain ⟨hopen, hclose, hcomma⟩ := h
  simp [depthStep, hopen, hclose, hcomma]

theorem balanced_of_all (h : ∀ c ∈ t, IsFlat c) : Balanced t := by
  induction t with
  | nil => rfl
  | cons c t ih =>
    rw [Balanced, depthAfter_cons, depthStep_of_isFlat (h c (List.mem_cons_self ..))]
    exact ih fun d hd => h d (List.mem_cons_of_mem c hd)

theorem isFlat_of_isIdentifier (h : isIdentifier c = true) : IsFlat c := by
  refine ⟨?_, ?_, ?_⟩ <;> rintro rfl <;> revert h <;> decide

theorem isFlat_of_isWhite (h : isWhite c = true) : IsFlat c := by
  refine ⟨?_, ?_, ?_⟩ <;> rintro rfl <;> revert h <;> decide

theorem balanced_of_white (h : ∀ c ∈ t, isWhite c = true) : Balanced t :=
  balanced_of_all fun c hc => isFlat_of_isWhite (h c hc)

theorem balanced_of_blanks (h : ∀ c ∈ t, isBlank c = true) : Balanced t :=
  balanced_of_white fun c hc => isWhite_of_isBlank (h c hc)

theorem FirstWord.balanced {w : Text} (h : FirstWord w t) : Balanced w :=
  balanced_of_all fun c hc => isFlat_of_isIdentifier (h.all c hc)

end ShaderLoom.Text
