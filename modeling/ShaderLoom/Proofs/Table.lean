import Mathlib.Data.List.Nodup
import Mathlib.Data.List.Perm.Basic
import ShaderLoom.Table

/-!
# Values of a table

A table that is only changed by inserting and erasing lists no key twice: `Table.IsKeyed`. Its
values then are exactly what is found in it, each key gives one value, and what is found under a key
is the one value that erasing the key takes away.
-/

namespace ShaderLoom.Table

section

variable {κ α : Type}

/-- No key is listed twice. -/
def IsKeyed (t : Table κ α) : Prop := (List.map Prod.fst t).Nodup

/-- The values, newest first. -/
def values (t : Table κ α) : List α := List.map Prod.snd t

theorem isKeyed_nil : IsKeyed ([] : Table κ α) := List.nodup_nil

theorem isKeyed_cons {entry : κ × α} {t : Table κ α} :
    IsKeyed (entry :: t) ↔ (∀ e ∈ t, e.1 ≠ entry.1) ∧ IsKeyed t := by
  rw [IsKeyed, List.map_cons, List.nodup_cons, List.mem_map]
  simp only [not_exists, not_and]
  exact Iff.rfl

end

variable {κ α : Type} [DecidableEq κ] {t : Table κ α} {key : κ} {value : α}

theorem IsKeyed.erase (h : t.IsKeyed) (key : κ) : (Table.erase t key).IsKeyed :=
  h.sublist (List.filter_sublist.map Prod.fst)

theorem IsKeyed.insert (h : t.IsKeyed) (key : κ) (value : α) :
    (Table.insert t key value).IsKeyed := by
  apply isKeyed_cons.mpr
  refine ⟨fun e he => ?_, h.erase key⟩
  simpa using (List.mem_filter.mp he).2

theorem find?_eq_none_iff : t.find? key = none ↔ ∀ e ∈ t, e.1 ≠ key := by
  simp [find?]

/-- Erasing a key that is not listed changes nothing. -/
theorem erase_eq_self (h : t.find? key = none) : t.erase key = t :=
  List.filter_eq_self.mpr fun e he => decide_eq_true (find?_eq_none_iff.mp h e he)

@[simp] theorem values_insert : (t.insert key value).values = value :: (t.erase key).values := rfl

/-- Erasing a key that was inserted leaves what erasing it before would have left. -/
theorem erase_insert_self (t : Table κ α) (key : κ) (value : α) :
    (t.insert key value).erase key = t.erase key := by
  simp [insert, erase, List.filter_filter]

/-- **Erasing a key** takes its value away, and no other. -/
theorem perm_values (h : t.IsKeyed) (hfind : t.find? key = some value) :
    t.values.Perm (value :: (t.erase key).values) := by
  induction t with
  | nil => cases hfind
  | cons entry t ih =>
    obtain ⟨hfresh, ht⟩ := isKeyed_cons.mp h
    rw [find?_cons] at hfind
    by_cases hkey : entry.1 = key
    · rw [if_pos hkey] at hfind
      obtain rfl := Option.some.inj hfind
      have herase : erase (entry :: t) key = erase t key := by simp [erase, hkey]
      rw [herase, erase_eq_self (find?_eq_none_iff.mpr fun e he => hkey ▸ hfresh e he)]
      exact List.Perm.refl _
    · rw [if_neg hkey] at hfind
      have herase : erase (entry :: t) key = entry :: erase t key := by simp [erase, hkey]
      rw [herase]
      exact ((ih ht hfind).cons entry.2).trans (List.Perm.swap ..)

/-- **The values** are what is found. -/
theorem mem_values_iff (h : t.IsKeyed) : value ∈ t.values ↔ ∃ key, t.find? key = some value := by
  constructor
  · rw [values, List.mem_map]
    rintro ⟨entry, hentry, rfl⟩
    refine ⟨entry.1, ?_⟩
    induction t with
    | nil => cases hentry
    | cons first t ih =>
      obtain ⟨hfresh, ht⟩ := isKeyed_cons.mp h
      rw [find?_cons]
      rcases List.mem_cons.mp hentry with rfl | hentry
      · exact if_pos rfl
      · rw [if_neg (hfresh entry hentry).symm]
        exact ih ht hentry
  · rintro ⟨key, hkey⟩
    exact (perm_values h hkey).mem_iff.mpr (List.mem_cons_self ..)

end ShaderLoom.Table
