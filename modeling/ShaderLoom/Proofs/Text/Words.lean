import ShaderLoom.Proofs.Text.WhiteSpace

/-!
# Words of a written line

A line that is written word by word, with white space between the words, is read word by word:
`words_word` takes off the first word of a text, and `words_cons_of_white` the white space in front
of the next. **`words_joinWords`**: the words of a line are the words it was written with.

The words of declarations are made of **code**, that is of identifier characters and some
punctuation. No white space is code, and neither are the parentheses of a call.
-/

namespace ShaderLoom.Text

variable {t w : Text} {c : Char}

/-- A word is not empty and has no white space in it. -/
structure IsWord (w : Text) : Prop where
  /-- there is at least one character -/
  ne_nil : w ≠ []
  /-- none of them is white space -/
  ink : ∀ c ∈ w, isWhite c = false

/-- What may follow a word: nothing, or white space. -/
def EndsWord (t : Text) : Prop := ∀ c ∈ t.head?, isWhite c = true

theorem endsWord_nil : EndsWord [] := by
  intro c hc
  cases hc

theorem endsWord_cons (hc : isWhite c = true) : EndsWord (c :: t) := by
  intro d hd
  cases hd
  exact hc

/-! ## Equations -/

@[simp] theorem words_nil : words [] = [] := by
  rw [words]
  rfl

theorem words_cons_of_white (hc : isWhite c = true) : words (c :: t) = words t := by
  have hdrop : (c :: t).dropWhile isWhite = t.dropWhile isWhite := List.dropWhile_cons_of_pos hc
  rw [words, words]
  split <;> split <;> simp_all

/-- **The first word** of a text. -/
theorem words_word (hw : IsWord w) (ht : EndsWord t) : words (w ++ t) = w :: words t := by
  obtain ⟨c, w, rfl⟩ := List.exists_cons_of_ne_nil hw.ne_nil
  have hc : isWhite c = false := hw.ink c (List.mem_cons_self ..)
  have hink : ∀ d ∈ w, (!isWhite d) = true := by
    intro d hd
    rw [hw.ink d (List.mem_cons_of_mem c hd)]
    rfl
  have htake : t.takeWhile (! isWhite ·) = [] := by
    cases t with
    | nil => rfl
    | cons d t => simp [ht d rfl]
  have hdrop : t.dropWhile (! isWhite ·) = t := by
    cases t with
    | nil => rfl
    | cons d t => simp [ht d rfl]
  have hfirst : (c :: w ++ t).dropWhile isWhite = c :: (w ++ t) := by
    rw [List.cons_append]
    exact List.dropWhile_cons_of_neg (by simp [hc])
  rw [words]
  split
  · next hnil =>
    rw [hfirst] at hnil
    cases hnil
  · next e rest he =>
    rw [hfirst] at he
    cases he
    rw [List.takeWhile_append_of_pos hink, htake, List.append_nil,
      List.dropWhile_append_of_pos hink, hdrop]

theorem words_singleton (hw : IsWord w) : words w = [w] := by
  have h := words_word hw endsWord_nil
  rwa [List.append_nil, words_nil] at h

/-- A word, a blank, and more. -/
theorem words_word_blank (hw : IsWord w) : words (w ++ ' ' :: t) = w :: words t := by
  rw [words_word hw (endsWord_cons (by decide)), words_cons_of_white (by decide)]

/-! ## Trimming -/

/-- Nothing is trimmed off a text that begins and ends with ink. -/
theorem trim_eq_self (hhead : ∀ c ∈ t.head?, isWhite c = false)
    (hlast : ∀ c ∈ t.getLast?, isWhite c = false) : trim t = t := by
  have hdrop : t.dropWhile isWhite = t := by
    cases t with
    | nil => rfl
    | cons c t => simp [hhead c rfl]
  rw [trim, hdrop, trimEnd_of_getLast? hlast]

theorem trim_cons_of_white (hc : isWhite c = true) : trim (c :: t) = trim t := by
  rw [trim, List.dropWhile_cons_of_pos hc, trim]

theorem IsWord.trim_eq (hw : IsWord w) : trim w = w :=
  trim_eq_self (fun c hc => hw.ink c (List.mem_of_head? hc))
    fun c hc => hw.ink c (List.mem_of_getLast? hc)

/-! ## Code -/

/-- The characters in the words of a declaration. -/
def isCode (c : Char) : Bool :=
  isIdentifier c || c == ';' || c == '[' || c == ']' || c == '\x7b' || c == '\x7d'

/-- A name: an identifier on its own. -/
structure IsName (w : Text) : Prop where
  /-- there is at least one character -/
  ne_nil : w ≠ []
  /-- all of them are identifier characters -/
  all : ∀ c ∈ w, isIdentifier c = true

/-- A word of a declaration. -/
structure IsCode (w : Text) : Prop where
  /-- there is at least one character -/
  ne_nil : w ≠ []
  /-- all of them are code -/
  all : ∀ c ∈ w, isCode c = true

instance (w : Text) : Decidable (IsName w) :=
  decidable_of_iff (w ≠ [] ∧ w.all isIdentifier = true)
    ⟨fun h => ⟨h.1, List.all_eq_true.mp h.2⟩, fun h => ⟨h.ne_nil, List.all_eq_true.mpr h.all⟩⟩

instance (w : Text) : Decidable (IsCode w) :=
  decidable_of_iff (w ≠ [] ∧ w.all isCode = true)
    ⟨fun h => ⟨h.1, List.all_eq_true.mp h.2⟩, fun h => ⟨h.ne_nil, List.all_eq_true.mpr h.all⟩⟩

theorem isCode_of_isIdentifier (h : isIdentifier c = true) : isCode c = true := by
  simp [isCode, h]

/-- Code is no white space. -/
theorem isWhite_of_isCode (h : isCode c = true) : isWhite c = false := by
  simp only [isCode, Bool.or_eq_true, beq_iff_eq] at h
  rcases h with ((((h | rfl) | rfl) | rfl) | rfl) | rfl
  · rw [Bool.eq_false_iff]
    intro hwhite
    rw [isIdentifier_of_isWhite hwhite] at h
    cases h
  all_goals decide

theorem IsName.isCode (hw : IsName w) : IsCode w :=
  ⟨hw.ne_nil, fun c hc => isCode_of_isIdentifier (hw.all c hc)⟩

theorem IsCode.isWord (hw : IsCode w) : IsWord w :=
  ⟨hw.ne_nil, fun c hc => isWhite_of_isCode (hw.all c hc)⟩

/-- A character that is no code is in no word of a declaration. -/
theorem IsCode.not_mem (hw : IsCode w) (hc : isCode c = false) : c ∉ w := by
  intro hmem
  rw [hw.all c hmem] at hc
  cases hc

theorem IsName.not_mem (hw : IsName w) (hc : isIdentifier c = false) : c ∉ w := by
  intro hmem
  rw [hw.all c hmem] at hc
  cases hc

theorem IsName.trim_eq (hw : IsName w) : trim w = w := hw.isCode.isWord.trim_eq

theorem IsCode.append (hw : IsCode w) (ht : ∀ c ∈ t, isCode c = true) : IsCode (w ++ t) := by
  refine ⟨List.append_ne_nil_of_left_ne_nil hw.ne_nil t, fun c hc => ?_⟩
  rcases List.mem_append.mp hc with hc | hc
  · exact hw.all c hc
  · exact ht c hc

/-! ## Lines of words -/

/-- Words with a blank between any two of them. -/
def joinWords : List Text → Text
  | [] => []
  | [w] => w
  | w :: ws => w ++ ' ' :: joinWords ws

@[simp] theorem joinWords_nil : joinWords [] = [] := rfl

@[simp] theorem joinWords_singleton : joinWords [w] = w := rfl

theorem joinWords_cons_cons {v : Text} {ws : List Text} :
    joinWords (w :: v :: ws) = w ++ ' ' :: joinWords (v :: ws) := rfl

theorem mem_joinWords {ws : List Text} (h : c ∈ joinWords ws) : c = ' ' ∨ ∃ w ∈ ws, c ∈ w := by
  fun_induction joinWords ws with
  | case1 => cases h
  | case2 w => exact .inr ⟨w, List.mem_singleton_self w, h⟩
  | case3 w ws _ ih =>
    rcases List.mem_append.mp h with h | h
    · exact .inr ⟨w, List.mem_cons_self .., h⟩
    · rcases List.mem_cons.mp h with h | h
      · exact .inl h
      · obtain hblank | ⟨v, hv, hc⟩ := ih h
        · exact .inl hblank
        · exact .inr ⟨v, List.mem_cons_of_mem w hv, hc⟩

/-- **The words of a line of words.** -/
theorem words_joinWords {ws : List Text} (h : ∀ w ∈ ws, IsWord w) : words (joinWords ws) = ws := by
  fun_induction joinWords ws with
  | case1 => exact words_nil
  | case2 w => exact words_singleton (h w (List.mem_singleton_self w))
  | case3 w ws _ ih =>
    rw [words_word_blank (h w (List.mem_cons_self ..)),
      ih fun v hv => h v (List.mem_cons_of_mem w hv)]

theorem joinWords_ne_nil {ws : List Text} (hne : ws ≠ []) (h : ∀ w ∈ ws, IsWord w) :
    joinWords ws ≠ [] := by
  obtain ⟨w, ws, rfl⟩ := List.exists_cons_of_ne_nil hne
  have hw := (h w (List.mem_cons_self ..)).ne_nil
  cases ws with
  | nil => exact hw
  | cons v ws => exact List.append_ne_nil_of_left_ne_nil hw _

/-- A line of words begins with its first word. -/
theorem head?_joinWords {w : Text} {ws : List Text} (hw : w ≠ []) :
    (joinWords (w :: ws)).head? = w.head? := by
  obtain ⟨d, w, rfl⟩ := List.exists_cons_of_ne_nil hw
  cases ws with
  | nil => rfl
  | cons v ws => rfl

/-- A line of words ends with ink. -/
theorem getLast?_joinWords {ws : List Text} (h : ∀ w ∈ ws, IsWord w) :
    ∀ c ∈ (joinWords ws).getLast?, isWhite c = false := by
  intro c hc
  fun_induction joinWords ws with
  | case1 => cases hc
  | case2 w => exact (h w (List.mem_singleton_self w)).ink c (List.mem_of_getLast? hc)
  | case3 w ws hne ih =>
    have hws : ∀ v ∈ ws, IsWord v := fun v hv => h v (List.mem_cons_of_mem w hv)
    have hlast := joinWords_ne_nil hne hws
    rw [List.getLast?_append, List.getLast?_cons_of_ne_nil hlast,
      List.getLast?_eq_some_getLast hlast, Option.some_or,
      ← List.getLast?_eq_some_getLast hlast] at hc
    exact ih hws hc

/-- A line of words begins and ends with ink. -/
theorem trim_joinWords {ws : List Text} (h : ∀ w ∈ ws, IsWord w) :
    trim (joinWords ws) = joinWords ws := by
  refine trim_eq_self (fun c hc => ?_) (getLast?_joinWords h)
  cases ws with
  | nil => cases hc
  | cons w ws =>
    have hw := h w (List.mem_cons_self ..)
    rw [head?_joinWords hw.ne_nil] at hc
    exact hw.ink c (List.mem_of_head? hc)

end ShaderLoom.Text
