import ShaderLoom.Proofs.Text.Lines
import ShaderLoom.Proofs.Text.Words

/-!
# Braces

A stage is only read if it has as many opening as closing braces. Lines of declarations have no
braces at all, or open and close a block, so it is left to the body to be **balanced**.
-/

namespace ShaderLoom.Text

variable {s t w : Text} {c : Char}

/-- As many opening as closing braces. -/
def IsBalanced (t : Text) : Prop := t.count '\x7b' = t.count '\x7d'

instance (t : Text) : Decidable (IsBalanced t) :=
  inferInstanceAs (Decidable (t.count '\x7b' = t.count '\x7d'))

/-- Neither of the braces. -/
def isBraceless (c : Char) : Bool := c != '\x7b' && c != '\x7d'

theorem isBraceless_of_isIdentifier (h : isIdentifier c = true) : isBraceless c = true := by
  rw [isBraceless, Bool.and_eq_true, bne_iff_ne, bne_iff_ne]
  refine ⟨?_, ?_⟩
  all_goals
    rintro rfl
    revert h
    decide

theorem isBalanced_nil : IsBalanced [] := rfl

/-- **A balanced text in front** does not matter. -/
theorem isBalanced_append (hs : IsBalanced s) : IsBalanced (s ++ t) ↔ IsBalanced t := by
  rw [IsBalanced] at hs ⊢
  rw [List.count_append, List.count_append, hs]
  exact Nat.add_left_cancel_iff

/-- **A pair of braces in front** does not matter. -/
theorem isBalanced_pair (hs : IsBalanced s) :
    IsBalanced ('\x7b' :: (s ++ '\x7d' :: t)) ↔ IsBalanced t := by
  unfold IsBalanced at hs ⊢
  have hopen : ('\x7b' :: (s ++ '\x7d' :: t)).count '\x7b' =
      s.count '\x7b' + (t.count '\x7b' + 1) := by
    rw [List.count_cons_self, List.count_append, List.count_cons_of_ne (by decide), Nat.add_assoc]
  have hclose : ('\x7b' :: (s ++ '\x7d' :: t)).count '\x7d' =
      s.count '\x7d' + (t.count '\x7d' + 1) := by
    rw [List.count_cons_of_ne (by decide), List.count_append, List.count_cons_self]
  rw [hopen, hclose]
  omega

theorem isBalanced_of_isBraceless (h : ∀ c ∈ t, isBraceless c = true) : IsBalanced t := by
  have hnot : ∀ {c : Char}, isBraceless c = false → t.count c = 0 := by
    intro c hc
    rw [List.count_eq_zero]
    intro hmem
    rw [h c hmem] at hc
    cases hc
  rw [IsBalanced]
  rw [hnot (by decide), hnot (by decide)]

theorem isBraceless_of_mem_joinWords {ws : List Text} (h : ∀ w ∈ ws, ∀ c ∈ w, isBraceless c = true)
    (hc : c ∈ joinWords ws) : isBraceless c = true := by
  obtain rfl | ⟨w, hw, hc⟩ := mem_joinWords hc
  · decide
  · exact h w hw c hc

theorem IsName.isBraceless (hw : IsName w) : ∀ c ∈ w, isBraceless c = true :=
  fun c hc => isBraceless_of_isIdentifier (hw.all c hc)

/-- Lines are balanced if they are line by line. -/
theorem isBalanced_unlines {ls : List Text} (h : ∀ line ∈ ls, IsBalanced line) :
    IsBalanced (unlines ls) := by
  induction ls with
  | nil => exact isBalanced_nil
  | cons line ls ih =>
    rw [unlines_cons, isBalanced_append (h line (List.mem_cons_self ..))]
    have hfeed : IsBalanced ['\n'] := by decide
    exact (isBalanced_append hfeed).mpr (ih fun l hl => h l (List.mem_cons_of_mem line hl))

end ShaderLoom.Text
