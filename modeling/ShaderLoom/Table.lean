/-!
# Small tables

A table is a list of keys with their values, newest first, in which no key is listed twice. It
is read with `find?` and changed with `insert` and `erase`; what each of them does is said by
one equation about `find?`.
-/

namespace ShaderLoom

/-- Keys with their values. -/
abbrev Table (κ α : Type) := List (κ × α)

namespace Table

variable {κ α : Type} [DecidableEq κ]

/-- The value of a key. -/
def find? (t : Table κ α) (key : κ) : Option α :=
  (List.find? (fun entry => entry.1 = key) t).map Prod.snd

/-- Remove a key. -/
def erase (t : Table κ α) (key : κ) : Table κ α := List.filter (fun entry => entry.1 ≠ key) t

/-- Give a key a value, whether it had one or not. -/
def insert (t : Table κ α) (key : κ) (value : α) : Table κ α := (key, value) :: t.erase key

/-- Give a key a value unless it has one. -/
def insertNew (t : Table κ α) (key : κ) (value : α) : Table κ α :=
  if (t.find? key).isSome then t else t.insert key value

/-- The table of a list of entries; of two entries with one key the later counts. -/
def ofList (entries : List (κ × α)) : Table κ α :=
  entries.foldl (fun t entry => t.insert entry.1 entry.2) []

@[simp] theorem find?_nil (key : κ) : find? ([] : Table κ α) key = none := rfl

theorem find?_cons (entry : κ × α) (t : Table κ α) (key : κ) :
    find? (entry :: t) key = if entry.1 = key then some entry.2 else find? t key := by
  by_cases h : entry.1 = key <;> simp [find?, h]

/-- **Erasing** forgets one key and no other. -/
theorem find?_erase (t : Table κ α) (key other : κ) :
    (t.erase key).find? other = if other = key then none else t.find? other := by
  induction t with
  | nil => simp [erase]
  | cons entry t ih =>
    by_cases h : entry.1 = key
    · have : erase (entry :: t) key = erase t key := by simp [erase, h]
      rw [this, ih, find?_cons]
      by_cases ho : other = key
      · simp [ho]
      · have : entry.1 ≠ other := fun e => ho (e ▸ h)
        simp [ho, this]
    · have : erase (entry :: t) key = entry :: erase t key := by simp [erase, h]
      rw [this, find?_cons, ih, find?_cons]
      by_cases he : entry.1 = other
      · have : other ≠ key := fun e => h (he.trans e)
        simp [he, this]
      · simp [he]

/-- **Inserting** sets one key and no other. -/
theorem find?_insert (t : Table κ α) (key other : κ) (value : α) :
    (t.insert key value).find? other = if other = key then some value else t.find? other := by
  unfold insert
  rw [find?_cons, find?_erase]
  by_cases h : other = key
  · simp [h]
  · simp [h, Ne.symm h]

end Table

end ShaderLoom
