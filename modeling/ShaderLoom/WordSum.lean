/-!
# Sums of machine words

Locations and bindings are counted in machine words. A sum that is no machine word is a misstep.
-/

namespace ShaderLoom

/-- Two machine words whose sum is none. -/
structure WordOverflow where
  /-- the word that is added to -/
  summand : Nat
  /-- the word that is added -/
  other : Nat
  deriving DecidableEq

/-- A sum of machine words. -/
def wordSum (summand other : Nat) : Except WordOverflow Nat :=
  if summand + other < UInt32.size then .ok (summand + other) else .error ⟨summand, other⟩

variable {m n sum : Nat}

theorem wordSum_of_lt (h : m + n < UInt32.size) : wordSum m n = .ok (m + n) := if_pos h

theorem wordSum_eq_ok_iff : wordSum m n = .ok sum ↔ sum = m + n ∧ m + n < UInt32.size := by
  rw [wordSum]
  split
  · next h => simp [h, eq_comm]
  · next h => simp [h]

end ShaderLoom
