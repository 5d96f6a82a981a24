/-!
# Steps that may fail

A chain of steps succeeds exactly when each of its steps does. The lemmas here take such a chain
apart.
-/

namespace ShaderLoom

variable {ε α β : Type}

theorem bind_eq_ok {x : Except ε α} {f : α → Except ε β} {b : β} :
    x >>= f = .ok b ↔ ∃ a, x = .ok a ∧ f a = .ok b := by
  cases x with
  | error e =>
    constructor
    · intro h
      cases h
    · rintro ⟨a, h, -⟩
      cases h
  | ok a =>
    constructor
    · intro h
      exact ⟨a, rfl, h⟩
    · rintro ⟨a', h, hb⟩
      cases h
      exact hb

theorem map_eq_ok {x : Except ε α} {f : α → β} {b : β} :
    x.map f = .ok b ↔ ∃ a, x = .ok a ∧ f a = b := by
  cases x with
  | error e => simp [Except.map]
  | ok a => simp [Except.map]

theorem bind_eq_error {x : Except ε α} {f : α → Except ε β} {e : ε} :
    x >>= f = .error e ↔ x = .error e ∨ ∃ a, x = .ok a ∧ f a = .error e := by
  cases x with
  | error e' =>
    constructor
    · intro h
      cases h
      exact .inl rfl
    · rintro (h | ⟨a, h, -⟩) <;> cases h
      rfl
  | ok a =>
    constructor
    · exact fun h => .inr ⟨a, rfl, h⟩
    · rintro (h | ⟨a', h, he⟩) <;> cases h
      exact he

theorem map_eq_error {x : Except ε α} {f : α → β} {e : ε} :
    x.map f = .error e ↔ x = .error e := by
  cases x with
  | error e' => simp [Except.map]
  | ok a => simp [Except.map]

theorem exists_eq_ok_of_isOk {x : Except ε α} (h : x.isOk = true) : ∃ a, x = .ok a := by
  cases x with
  | error e => cases h
  | ok a => exact ⟨a, rfl⟩

theorem pure_eq_ok {a b : α} : (pure a : Except ε α) = .ok b ↔ a = b := by
  constructor
  · intro h
    cases h
    rfl
  · rintro rfl
    rfl

/-- What is made of a result that is known beforehand is known as well. -/
theorem bind_map_const {γ : Type} (x : Except ε α) (b : β) (f : β → γ) :
    (x.map fun _ => b) >>= (fun b => pure (f b)) = x.map fun _ => f b := by
  cases x <;> rfl

/-- **What every step preserves**, a chain of steps over a list preserves. -/
theorem foldlM_preserves {f : β → α → Except ε β} {P : β → Prop} {as : List α} {b b' : β}
    (hstep : ∀ a ∈ as, ∀ c c', P c → f c a = .ok c' → P c') (hb : P b)
    (h : as.foldlM f b = .ok b') : P b' := by
  induction as generalizing b with
  | nil =>
    cases h
    exact hb
  | cons a as ih =>
    rw [List.foldlM_cons, bind_eq_ok] at h
    obtain ⟨c, hc, h⟩ := h
    exact ih (fun x hx => hstep x (List.mem_cons_of_mem a hx))
      (hstep a (List.mem_cons_self ..) b c hb hc) h

/-- **A chain of steps over a list fails** in one of its steps. -/
theorem exists_of_foldlM_eq_error {f : β → α → Except ε β} {as : List α} {b : β} {e : ε}
    (h : as.foldlM f b = .error e) : ∃ a ∈ as, ∃ c, f c a = .error e := by
  induction as generalizing b with
  | nil => cases h
  | cons a as ih =>
    rw [List.foldlM_cons, bind_eq_error] at h
    rcases h with h | ⟨c, -, h⟩
    · exact ⟨a, List.mem_cons_self .., b, h⟩
    · obtain ⟨a', ha', found⟩ := ih h
      exact ⟨a', List.mem_cons_of_mem a ha', found⟩

/-- **A chain of steps over a list**, together with the part of the list that it has gone
through. -/
theorem foldlM_induction {f : β → α → Except ε β} {motive : List α → β → Prop} {as : List α}
    {b b' : β} (nil : motive [] b)
    (step : ∀ as a c c', motive as c → f c a = .ok c' → motive (as ++ [a]) c')
    (h : as.foldlM f b = .ok b') : motive as b' := by
  suffices ∀ before b, motive before b → as.foldlM f b = .ok b' → motive (before ++ as) b' from
    this [] b nil h
  clear nil h
  induction as with
  | nil =>
    intro before b hb h
    cases h
    rwa [List.append_nil]
  | cons a as ih =>
    intro before b hb h
    rw [List.foldlM_cons, bind_eq_ok] at h
    obtain ⟨c, hc, h⟩ := h
    have hrest := ih (before ++ [a]) c (step before a b c hb hc) h
    rwa [List.append_assoc, List.singleton_append] at hrest

theorem foldl_preserves {f : β → α → β} {P : β → Prop} {as : List α} {b : β}
    (hstep : ∀ a ∈ as, ∀ c, P c → P (f c a)) (hb : P b) : P (as.foldl f b) := by
  induction as generalizing b with
  | nil => exact hb
  | cons a as ih =>
    exact ih (fun x hx => hstep x (List.mem_cons_of_mem a hx))
      (hstep a (List.mem_cons_self ..) b hb)

end ShaderLoom
