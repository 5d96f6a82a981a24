import Mathlib.Data.List.Induction
import ShaderLoom.Text.Lines

/-!
# Lines of a written text

A text that is written line by line is read line by line: **`lines_unlines_append`**.
-/

namespace ShaderLoom.Text

variable {t line : Text} {c : Char}

/-- **The first line** of a text. -/
theorem lines_line (h : '\n' ∉ line) : lines (line ++ '\n' :: t) = dropReturn line :: lines t := by
  have hne : ∀ c ∈ line, (c != '\n') = true := by
    intro c hc
    rw [bne_iff_ne]
    rintro rfl
    exact h hc
  have htake : (line ++ '\n' :: t).takeWhile (· != '\n') = line := by
    rw [List.takeWhile_append_of_pos hne]
    simp
  have hdrop : (line ++ '\n' :: t).dropWhile (· != '\n') = '\n' :: t := by
    rw [List.dropWhile_append_of_pos hne]
    simp
  rw [lines]
  split
  · next hnil =>
    rw [hdrop] at hnil
    cases hnil
  · next c rest hrest =>
    rw [hdrop] at hrest
    cases hrest
    rw [htake]

/-- The last line of a text, if it has no end. -/
theorem lines_of_not_mem (h : '\n' ∉ t) (hne : t ≠ []) : lines t = [t] := by
  have hall : ∀ c ∈ t, (c != '\n') = true := by
    intro c hc
    rw [bne_iff_ne]
    rintro rfl
    exact h hc
  have hdrop : t.dropWhile (· != '\n') = [] := by
    rw [← List.append_nil t, List.dropWhile_append_of_pos hall, List.dropWhile_nil]
  rw [lines]
  split
  · exact if_neg hne
  · next hcons =>
    rw [hdrop] at hcons
    cases hcons

/-- What a line begins with is not cut off with its end. -/
theorem prefix_dropReturn {s : Text} (hlast : s.getLast? ≠ some '\r') (t : Text) :
    s <+: dropReturn (s ++ t) := by
  rw [dropReturn]
  split
  · next hreturn =>
    cases t using List.reverseRecOn with
    | nil =>
      rw [List.append_nil] at hreturn
      exact absurd hreturn hlast
    | append_singleton t c =>
      rw [← List.append_assoc, List.dropLast_concat]
      exact List.prefix_append ..
  · exact List.prefix_append ..

/-- **What stands behind a line feed begins a line.** -/
theorem exists_line_of_append {head : Text} (hne : head ≠ []) (hfeed : '\n' ∉ head)
    (hlast : head.getLast? ≠ some '\r') (s t : Text) :
    ∃ line ∈ lines (s ++ '\n' :: (head ++ t)), head <+: line := by
  induction hn : s.length using Nat.strongRecOn generalizing s with
  | ind n ih =>
    subst hn
    by_cases hs : '\n' ∈ s
    · obtain ⟨s₁, s₂, rfl, hs₁⟩ := List.eq_append_cons_of_mem hs
      obtain ⟨line, hline, hprefix⟩ := ih s₂.length (by simp; omega) s₂ rfl
      refine ⟨line, ?_, hprefix⟩
      rw [List.append_assoc, List.cons_append, lines_line hs₁]
      exact List.mem_cons_of_mem _ hline
    · rw [lines_line hs]
      by_cases ht : '\n' ∈ t
      · obtain ⟨t₁, t₂, rfl, ht₁⟩ := List.eq_append_cons_of_mem ht
        have hfirst : '\n' ∉ head ++ t₁ := by simp [hfeed, ht₁]
        refine ⟨dropReturn (head ++ t₁), ?_, prefix_dropReturn hlast t₁⟩
        rw [← List.append_assoc, lines_line hfirst]
        simp
      · refine ⟨head ++ t, ?_, List.prefix_append ..⟩
        rw [lines_of_not_mem (by simp [hfeed, ht]) (List.append_ne_nil_of_left_ne_nil hne t)]
        simp

/-! ## Writing lines -/

/-- A string that is put into another one stands there as it is. -/
theorem toString_string (s : String) : toString s = s := rfl

/-- What a line may be: it has no line end in it, and none is put together by the line feed that is
written behind it. -/
structure IsLine (line : Text) : Prop where
  /-- no line feed -/
  feed : '\n' ∉ line
  /-- no carriage return at the end -/
  carriage : line.getLast? ≠ some '\r'

/-- Lines with their ends. -/
def unlines (ls : List Text) : Text := ls.flatMap fun line => line ++ ['\n']

@[simp] theorem unlines_nil : unlines [] = [] := rfl

@[simp] theorem unlines_cons {ls : List Text} :
    unlines (line :: ls) = line ++ '\n' :: unlines ls := by
  simp [unlines]

@[simp] theorem unlines_append {ks ls : List Text} :
    unlines (ks ++ ls) = unlines ks ++ unlines ls := by
  simp [unlines]

theorem infix_unlines {ls : List Text} (h : line ∈ ls) : line <:+: unlines ls := by
  obtain ⟨front, back, rfl⟩ := List.append_of_mem h
  exact ⟨unlines front, '\n' :: unlines back, by simp⟩

/-- **Lines that are written are read.** -/
theorem lines_unlines_append {ls : List Text} (h : ∀ line ∈ ls, IsLine line) :
    lines (unlines ls ++ t) = ls ++ lines t := by
  induction ls with
  | nil => rfl
  | cons line ls ih =>
    obtain ⟨hfeed, hreturn⟩ := h line (List.mem_cons_self ..)
    rw [unlines_cons, List.append_assoc, List.cons_append, lines_line hfeed, dropReturn,
      if_neg hreturn, ih fun l hl => h l (List.mem_cons_of_mem line hl), List.cons_append]

end ShaderLoom.Text
