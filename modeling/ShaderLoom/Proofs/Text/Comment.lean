import ShaderLoom.Proofs.Text.Nesting

/-!
# Comments

A text is taken apart into **glyphs**: characters of code, and whole comments. A line comment
reaches up to the end of its line, and a block comment up to the first `*/`. Where there is none
behind a `/*`, no comment begins.

`glyphInduction` is induction along the glyphs of a text. Comments and words do not follow each
other, so it goes its own way through the text, and not that of `wordInduction`.
-/

namespace ShaderLoom.Text

variable {s t u w body : Text} {c : Char}

/-! ## Block comments -/

/-- The text up to the first `*/`, with it, and the text behind. -/
def cutBlock? : Text → Option (Text × Text)
  | [] => none
  | '*' :: '/' :: t => some (['*', '/'], t)
  | c :: t => (cutBlock? t).map fun cut => (c :: cut.1, cut.2)

theorem cutBlock?_cons (h : c = '*' → t.head? ≠ some '/') :
    cutBlock? (c :: t) = (cutBlock? t).map fun cut => (c :: cut.1, cut.2) := by
  rw [cutBlock?]
  rintro u rfl rfl
  exact h rfl rfl

theorem cutBlock?_append (h : cutBlock? t = some (s, u)) (v : Text) :
    cutBlock? (t ++ v) = some (s, u ++ v) := by
  fun_induction cutBlock? t generalizing s with
  | case1 => cases h
  | case2 t =>
    cases h
    rfl
  | case3 c t hends ih =>
    obtain ⟨⟨body, behind⟩, hcut, he⟩ := Option.map_eq_some_iff.mp h
    cases he
    cases t with
    | nil => cases hcut
    | cons e t =>
      rw [List.cons_append, cutBlock?_cons, ih hcut]
      · rfl
      · rintro rfl he
        rw [List.cons_append, List.head?_cons, Option.some_inj] at he
        exact hends t rfl (by rw [he])

/-- What is a block comment by itself is one in front of any text. -/
theorem cutBlock?_body (h : cutBlock? body = some (body, [])) (t : Text) :
    cutBlock? (body ++ t) = some (body, t) :=
  cutBlock?_append h t

/-- What is cut off is cut off by itself. -/
theorem cutBlock?_eq_some (h : cutBlock? t = some (s, u)) :
    t = s ++ u ∧ cutBlock? s = some (s, []) := by
  fun_induction cutBlock? t generalizing s with
  | case1 => cases h
  | case2 t =>
    cases h
    exact ⟨rfl, rfl⟩
  | case3 c t hends ih =>
    obtain ⟨⟨body, behind⟩, hcut, he⟩ := Option.map_eq_some_iff.mp h
    cases he
    obtain ⟨rfl, hbody⟩ := ih hcut
    refine ⟨rfl, ?_⟩
    rw [cutBlock?_cons, hbody]
    · rfl
    · rintro rfl he
      obtain ⟨body, rfl⟩ := List.head?_eq_some_iff.mp he
      exact hends _ rfl rfl

theorem getLast?_of_cutBlock? (h : cutBlock? t = some (s, u)) : s.getLast? = some '/' := by
  fun_induction cutBlock? t generalizing s with
  | case1 => cases h
  | case2 t =>
    cases h
    rfl
  | case3 c t hends ih =>
    obtain ⟨⟨body, behind⟩, hcut, he⟩ := Option.map_eq_some_iff.mp h
    cases he
    rw [List.getLast?_cons, ih hcut]
    rfl

/-- A block comment that is not closed has no `*/`. -/
theorem cutBlock?_eq_none_iff :
    cutBlock? t = none ↔ t.IsChain fun a b => ¬(a = '*' ∧ b = '/') := by
  fun_induction cutBlock? t with
  | case1 => exact iff_of_true rfl List.isChain_nil
  | case2 t =>
    refine iff_of_false (by simp) fun h => ?_
    exact (List.isChain_cons_cons.mp h).1 ⟨rfl, rfl⟩
  | case3 c t hends ih =>
    rw [Option.map_eq_none_iff, ih, List.isChain_cons]
    refine (and_iff_right ?_).symm
    rintro e he ⟨rfl, rfl⟩
    obtain ⟨u, rfl⟩ := List.head?_eq_some_iff.mp he
    exact hends u rfl rfl

/-! ## Line comments -/

/-- A line comment ends where the line ends. -/
theorem split_line (hbody : ∀ c ∈ body, isLineEnd c = false)
    (ht : ∀ c ∈ t.head?, isLineEnd c = true) :
    (body ++ t).takeWhile (! isLineEnd ·) = body ∧ (body ++ t).dropWhile (! isLineEnd ·) = t := by
  have hwhile : ∀ c ∈ body, (! isLineEnd c) = true := fun c hc => by rw [hbody c hc]; rfl
  have hstop : t.takeWhile (! isLineEnd ·) = [] ∧ t.dropWhile (! isLineEnd ·) = t := by
    cases t with
    | nil => exact ⟨rfl, rfl⟩
    | cons e t => simp [ht e rfl]
  rw [List.takeWhile_append_of_pos hwhile, List.dropWhile_append_of_pos hwhile, hstop.1, hstop.2,
    List.append_nil]
  exact ⟨rfl, rfl⟩

/-! ## Glyphs -/

/-- A character of code, or a whole comment. -/
inductive Glyph where
  | code (c : Char)
  | comment (w : Text)
  deriving DecidableEq

/-- The glyphs of a text. -/
def glyphs : Text → List Glyph
  | [] => []
  | '/' :: '/' :: t =>
    .comment ('/' :: '/' :: t.takeWhile (! isLineEnd ·)) :: glyphs (t.dropWhile (! isLineEnd ·))
  | '/' :: '*' :: t =>
    match _h : cutBlock? t with
    | some (body, behind) => .comment ('/' :: '*' :: body) :: glyphs behind
    | none => .code '/' :: .code '*' :: glyphs t
  | c :: t => .code c :: glyphs t
termination_by t => t.length
decreasing_by
  · have := length_dropWhile_le (! isLineEnd ·) t
    simp only [List.length_cons]
    omega
  · have := congrArg List.length (cutBlock?_eq_some _h).1
    simp only [List.length_append] at this
    simp only [List.length_cons]
    omega
  · simp only [List.length_cons]
    omega
  · simp

/-- `w` is the comment that `w ++ t` begins with. -/
inductive FirstComment : Text → Text → Prop
  /-- a line comment, up to the end of the line -/
  | line {body t : Text} (hbody : ∀ c ∈ body, isLineEnd c = false)
    (ht : ∀ c ∈ t.head?, isLineEnd c = true) : FirstComment ('/' :: '/' :: body) t
  /-- a block comment, up to its end -/
  | block {body t : Text} (hbody : cutBlock? body = some (body, [])) :
    FirstComment ('/' :: '*' :: body) t

@[simp] theorem glyphs_nil : glyphs [] = [] := by
  rw [glyphs]

theorem glyphs_code (h : ∀ e ∈ t.head?, ¬Opens c e) : glyphs (c :: t) = .code c :: glyphs t := by
  rw [glyphs]
  · rintro u rfl rfl
    exact h '/' rfl ⟨rfl, .inl rfl⟩
  · rintro u rfl rfl
    exact h '*' rfl ⟨rfl, .inr rfl⟩

theorem glyphs_unclosed (h : cutBlock? t = none) :
    glyphs ('/' :: '*' :: t) = .code '/' :: .code '*' :: glyphs t := by
  rw [glyphs]
  split
  · next hcut => simp [h] at hcut
  · rfl

theorem glyphs_comment (h : FirstComment w t) : glyphs (w ++ t) = .comment w :: glyphs t := by
  cases h with
  | @line body t hbody ht =>
    obtain ⟨hline, hbehind⟩ := split_line hbody ht
    rw [List.cons_append, List.cons_append, glyphs, hline, hbehind]
  | @block body t hbody =>
    have hcut := cutBlock?_body hbody t
    rw [List.cons_append, List.cons_append, glyphs]
    split
    · next hsome =>
      cases hcut.symm.trans hsome
      rfl
    · next hnone => simp [hcut] at hnone

/-- **Induction along the glyphs of a text.** -/
@[elab_as_elim]
theorem glyphInduction {motive : Text → Prop} (nil : motive [])
    (code : ∀ c t, (∀ e ∈ t.head?, ¬Opens c e) → motive t → motive (c :: t))
    (unclosed : ∀ t, cutBlock? t = none → motive t → motive ('/' :: '*' :: t))
    (comment : ∀ w t, FirstComment w t → motive t → motive (w ++ t)) (t : Text) : motive t := by
  fun_induction glyphs t with
  | case1 => exact nil
  | case2 t ih =>
    have hcomment : FirstComment ('/' :: '/' :: t.takeWhile (! isLineEnd ·))
        (t.dropWhile (! isLineEnd ·)) := by
      refine .line (fun c hc => ?_) fun c hc => ?_
      · simpa using List.all_eq_true.mp List.all_takeWhile c hc
      · have hne : t.dropWhile (! isLineEnd ·) ≠ [] := by
          intro hnil
          rw [hnil] at hc
          cases hc
        have hhead := List.head_dropWhile_not (! isLineEnd ·) hne
        rw [List.head?_eq_some_head hne] at hc
        cases hc
        simpa using hhead
    have h := comment _ _ hcomment ih
    rwa [List.cons_append, List.cons_append, List.takeWhile_append_dropWhile] at h
  | case3 t body behind hcut ih =>
    obtain ⟨rfl, hbody⟩ := cutBlock?_eq_some hcut
    exact comment _ _ (.block hbody) ih
  | case4 t hcut ih => exact unclosed t hcut ih
  | case5 c t hline hblock ih =>
    refine code c t ?_ ih
    rintro e he ⟨rfl, rfl | rfl⟩
    · obtain ⟨u, rfl⟩ := List.head?_eq_some_iff.mp he
      exact hline u rfl rfl
    · obtain ⟨u, rfl⟩ := List.head?_eq_some_iff.mp he
      exact hblock u rfl rfl

/-- **The front of a text**: it is empty, or it begins with code, with a block comment that does not
end, or with a comment. -/
theorem glyph_cases (t : Text) :
    t = [] ∨ (∃ c u, t = c :: u ∧ ∀ e ∈ u.head?, ¬Opens c e) ∨
      (∃ u, t = '/' :: '*' :: u ∧ cutBlock? u = none) ∨ ∃ w u, t = w ++ u ∧ FirstComment w u := by
  induction t using glyphInduction with
  | nil => exact .inl rfl
  | code c t hc _ => exact .inr (.inl ⟨c, t, rfl, hc⟩)
  | unclosed t ht _ => exact .inr (.inr (.inl ⟨t, rfl, ht⟩))
  | comment w t hw _ => exact .inr (.inr (.inr ⟨w, t, rfl, hw⟩))

/-- A line end is white space. -/
theorem isWhite_of_isLineEnd (h : isLineEnd c = true) : isWhite c = true := by
  rw [isLineEnd, Bool.or_eq_true, beq_iff_eq, beq_iff_eq] at h
  rcases h with rfl | rfl <;> decide

theorem beginsIdentifier_of_lineEnd (h : ∀ c ∈ t.head?, isLineEnd c = true) :
    beginsIdentifier t = false := by
  cases t with
  | nil => rfl
  | cons c t => exact isIdentifier_of_isWhite (isWhite_of_isLineEnd (h c rfl))

namespace FirstComment

theorem ne_nil (h : FirstComment w t) : w ≠ [] := by
  cases h <;> exact List.cons_ne_nil _ _

/-- Only what a line comment ends at decides whether it is one. -/
theorem congr (h : FirstComment w t) (hu : beginsIdentifier t = false → u.head? = t.head?) :
    FirstComment w u := by
  cases h with
  | block hbody => exact .block hbody
  | line hbody ht =>
    exact .line hbody (by rwa [hu (beginsIdentifier_of_lineEnd ht)])

/-- No identifier reaches from a comment into what follows. -/
theorem apart (h : FirstComment w t) : Apart w t := by
  cases h with
  | @block body t hbody =>
    refine .inl ?_
    have hlast : ('/' :: '*' :: body).getLast? = some '/' := by
      rw [List.getLast?_cons_cons, List.getLast?_cons, getLast?_of_cutBlock? hbody]
      rfl
    rw [endsIdentifier, hlast]
    rfl
  | line hbody ht => exact .inr (beginsIdentifier_of_lineEnd ht)

end FirstComment

end ShaderLoom.Text
