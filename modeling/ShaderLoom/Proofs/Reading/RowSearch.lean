import Mathlib.Order.Bounds.Defs
import ShaderLoom.Proofs.Outcome
import ShaderLoom.Proofs.Reading.Rows
import ShaderLoom.Reading.RowSearch

/-!
# The search for a row ends

A base is given up only because a number of its row is taken. So no base is given up that is larger
than every number taken, and the search ends there at the latest (`leastRow_eq_zero_or`); where it
ends is the least row (`searchRow_eq_ok_iff`).

**`isLeast_searchRow`**: whatever is taken and however long the row is, the search ends with the
least base of a free row, as long as this row ends at a machine word.
-/

namespace ShaderLoom.Reading

variable {taken : List Nat} {span base row turns : Nat}

/-! ## Rows -/

theorem isFree_iff : IsFree taken span base ↔ ∀ i < span, base + i ∉ taken := by
  refine ⟨fun h i hi hmem => ?_, isFree_of_forall_not_mem⟩
  rcases h (base + i) hmem with hlt | hle
  · omega
  · omega

theorem le_leastRowFrom (taken : List Nat) (span base : Nat) :
    base ≤ leastRowFrom taken span base := by
  fun_induction leastRowFrom taken span base with
  | case1 base h => exact Nat.le_refl base
  | case2 base h ih => omega

/-- **The least row** is at 0, or right behind a number that is taken. -/
theorem leastRow_eq_zero_or (taken : List Nat) (span : Nat) :
    leastRow taken span = 0 ∨ ∃ n ∈ taken, leastRow taken span = n + 1 := by
  by_cases hzero : leastRow taken span = 0
  · exact .inl hzero
  · obtain ⟨base, hbase⟩ := Nat.exists_eq_succ_of_ne_zero hzero
    -- the row in front is not free, and only its first number is not one of the least row
    have hfree := isFree_leastRow taken span
    have htaken : ¬IsFree taken span base := fun h => by
      have hle := leastRowFrom_le h (Nat.zero_le base)
      rw [leastRow] at hbase
      omega
    simp only [IsFree, Classical.not_forall, not_or, Nat.not_lt, Nat.not_le] at htaken
    obtain ⟨n, hn, hle, hlt⟩ := htaken
    refine .inr ⟨n, hn, ?_⟩
    rcases hfree n hn with h | h
    · omega
    · omega

/-! ## Turns -/

/-- A turn ends the search exactly when the row is free. -/
theorem any_range'_eq_false_iff :
    (List.range' base span).any (· ∈ taken) = false ↔ IsFree taken span base := by
  rw [isFree_iff, List.any_eq_false]
  constructor
  · intro h i hi
    simpa using h (base + i) (List.mem_range'.mpr ⟨i, hi, by rw [Nat.one_mul]⟩)
  · intro h n hn
    obtain ⟨i, hi, rfl⟩ := List.mem_range'.mp hn
    simpa using h i hi

/-- **The search ends** at the least row from its base on, if it has the turns to get there and the
row ends at a machine word, and nowhere else. -/
theorem searchRow_eq_ok_iff :
    searchRow taken span turns base = .ok (some row) ↔
      row = leastRowFrom taken span base ∧ row < base + turns ∧ row + span < UInt32.size := by
  have hbase := le_leastRowFrom taken span base
  induction turns generalizing base with
  | zero =>
    refine iff_of_false (by simp [searchRow, pure_eq_ok]) ?_
    rintro ⟨rfl, hlt, -⟩
    omega
  | succ turns ih =>
    rw [searchRow, bind_eq_ok]
    by_cases hfree : IsFree taken span base
    · have hany := any_range'_eq_false_iff.mpr hfree
      have hrow : leastRowFrom taken span base = base := by rw [leastRowFrom, if_pos hfree]
      rw [hrow]
      constructor
      · rintro ⟨stop, hstop, h⟩
        obtain ⟨rfl, hword⟩ := wordSum_eq_ok_iff.mp hstop
        rw [Nat.add_sub_cancel_left, hany, if_neg Bool.false_ne_true] at h
        cases h
        exact ⟨rfl, by omega, hword⟩
      · rintro ⟨rfl, -, hword⟩
        refine ⟨row + span, wordSum_eq_ok_iff.mpr ⟨rfl, hword⟩, ?_⟩
        rw [Nat.add_sub_cancel_left, hany, if_neg Bool.false_ne_true]
        rfl
    · have hany : (List.range' base span).any (· ∈ taken) = true :=
        Bool.of_not_eq_false (mt any_range'_eq_false_iff.mp hfree)
      have hrow : leastRowFrom taken span base = leastRowFrom taken span (base + 1) := by
        rw [leastRowFrom, if_neg hfree]
      have hnext := le_leastRowFrom taken span (base + 1)
      rw [hrow]
      constructor
      · rintro ⟨stop, hstop, h⟩
        obtain ⟨rfl, -⟩ := wordSum_eq_ok_iff.mp hstop
        rw [Nat.add_sub_cancel_left, hany, if_pos rfl, bind_eq_ok] at h
        obtain ⟨next, hsum, h⟩ := h
        obtain ⟨rfl, -⟩ := wordSum_eq_ok_iff.mp hsum
        obtain ⟨hleast, hlt, hword⟩ := (ih hnext).mp h
        exact ⟨hleast, by omega, hword⟩
      · rintro ⟨hleast, hlt, hword⟩
        refine ⟨base + span, wordSum_eq_ok_iff.mpr ⟨rfl, by omega⟩, ?_⟩
        rw [Nat.add_sub_cancel_left, hany, if_pos rfl, bind_eq_ok]
        exact ⟨base + 1, wordSum_eq_ok_iff.mpr ⟨rfl, by omega⟩,
          (ih hnext).mpr ⟨hleast, by omega, hword⟩⟩

/-- **The search for a row ends with the least free one.** The least row is free, and there is no
lesser one; it is at 0, or right behind a number that is taken, so never further than one above the
largest. The search comes to it, and to nothing else, in one turn for each base up to there, as long
as the row ends at a machine word. -/
theorem isLeast_searchRow (taken : List Nat) (span : Nat) :
    IsLeast {base | ∀ i < span, base + i ∉ taken} (leastRow taken span) ∧
      (leastRow taken span = 0 ∨ ∃ n ∈ taken, leastRow taken span = n + 1) ∧
        ∀ turns row, searchRow taken span turns 0 = .ok (some row) ↔
          row = leastRow taken span ∧ row < turns ∧ row + span < UInt32.size := by
  refine ⟨⟨leastRow_add_not_mem taken span, fun base hbase => ?_⟩, leastRow_eq_zero_or taken span,
    fun turns row => ?_⟩
  · exact leastRowFrom_le (isFree_of_forall_not_mem hbase) (Nat.zero_le base)
  · rw [searchRow_eq_ok_iff, Nat.zero_add]
    rfl

/-- Gaps that are too short are passed over. -/
example : searchRow [0, 2, 3, 6, 11] 3 8 0 = .ok (some 7) := by decide

end ShaderLoom.Reading
