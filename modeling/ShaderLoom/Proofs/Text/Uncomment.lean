import ShaderLoom.Proofs.Text.Comment

/-!
# Taking comments out

A text is **closed** when its glyphs stay the same whatever follows: neither a comment nor the
beginning of one is left open at its end. Texts that are closed can be put together glyph by glyph
(`IsClosed.append`), and what is put together can be taken apart again (`IsClosed.of_append`).

`uncomment` puts a blank for every comment. No comment begins in what becomes of a closed text
(**`IsClosed.uncommented`**).
-/

namespace ShaderLoom.Text

variable {s t u w : Text} {c : Char}

/-! ## Closed texts -/

/-- No comment begins where the two texts meet. -/
def Joins (s t : Text) : Prop :=
  ∀ c, (glyphs s).getLast? = some (.code c) → ∀ e ∈ t.head?, ¬Opens c e

/-- Whatever follows the text, its glyphs stay the same. -/
def IsClosed (s : Text) : Prop := ∀ t, Joins s t → glyphs (s ++ t) = glyphs s ++ glyphs t

theorem glyphs_ne_nil (h : t ≠ []) : glyphs t ≠ [] := by
  induction t using glyphInduction with
  | nil => exact absurd rfl h
  | code c t hc _ => rw [glyphs_code hc]; exact List.cons_ne_nil _ _
  | unclosed t ht _ => rw [glyphs_unclosed ht]; exact List.cons_ne_nil _ _
  | comment w t hw _ => rw [glyphs_comment hw]; exact List.cons_ne_nil _ _

theorem joins_of_head? (h : ∀ e ∈ t.head?, e ≠ '/' ∧ e ≠ '*') : Joins s t :=
  fun c _ e he => not_opens_of_right (h e he).1 (h e he).2 c

theorem joins_blank (s t : Text) : Joins s (' ' :: t) := by
  refine joins_of_head? ?_
  rintro e ⟨⟩
  decide

/-- Only the glyphs at the end decide what a text joins. -/
theorem Joins.congr (h : Joins s u) (hst : (glyphs t).getLast? = (glyphs s).getLast?) :
    Joins t u :=
  fun c hc => h c (hst ▸ hc)

theorem isClosed_nil : IsClosed [] := by
  intro t _
  rw [glyphs_nil]
  rfl

theorem glyphs_singleton (c : Char) : glyphs [c] = [.code c] := by
  rw [glyphs_code (fun e he => by cases he), glyphs_nil]

theorem joins_singleton_iff : Joins [c] t ↔ ∀ e ∈ t.head?, ¬Opens c e := by
  rw [Joins, glyphs_singleton]
  constructor
  · exact fun h => h c rfl
  · rintro h c ⟨⟩
    exact h

theorem isClosed_singleton (c : Char) : IsClosed [c] := by
  intro t ht
  rw [glyphs_singleton, List.singleton_append, List.singleton_append]
  exact glyphs_code (joins_singleton_iff.mp ht)

/-- What joins the end of two texts joins the second one, if it is not empty. -/
theorem IsClosed.getLast?_append (hs : IsClosed s) (hj : Joins s t) (ht : t ≠ []) :
    (glyphs (s ++ t)).getLast? = (glyphs t).getLast? := by
  rw [hs t hj, List.getLast?_append_of_ne_nil _ (glyphs_ne_nil ht)]

theorem Joins.append_left (hj : Joins s t) (hu : Joins (s ++ t) u) (hs : IsClosed s) :
    Joins s (t ++ u) ∧ Joins t u := by
  by_cases ht : t = []
  · subst ht
    rw [List.append_nil] at hu
    exact ⟨hu, fun c hc => by rw [glyphs_nil] at hc; cases hc⟩
  · refine ⟨?_, hu.congr (hs.getLast?_append hj ht).symm⟩
    rw [Joins, List.head?_append_of_ne_nil _ ht]
    exact hj

/-- **Closed texts may be joined** where no comment begins between them. -/
theorem IsClosed.append (hs : IsClosed s) (ht : IsClosed t) (hj : Joins s t) :
    IsClosed (s ++ t) := by
  intro u hu
  obtain ⟨hsu, htu⟩ := hj.append_left hu hs
  rw [List.append_assoc, hs _ hsu, ht u htu, hs t hj, List.append_assoc]

/-- What stands behind a closed text is closed if the whole is. -/
theorem IsClosed.of_append (h : IsClosed (s ++ t)) (hs : IsClosed s) (hj : Joins s t) :
    IsClosed t := by
  by_cases ht : t = []
  · rw [ht]
    exact isClosed_nil
  · intro u hu
    have hwhole := hu.congr (hs.getLast?_append hj ht)
    have hglyphs := h u hwhole
    rw [List.append_assoc, hs _ (hj.append_left hwhole hs).1, hs t hj, List.append_assoc] at hglyphs
    exact List.append_cancel_left hglyphs

/-- A character of code in front of a closed text. -/
theorem isClosed_cons_iff (hc : ∀ e ∈ t.head?, ¬Opens c e) : IsClosed (c :: t) ↔ IsClosed t := by
  have hj : Joins [c] t := joins_singleton_iff.mpr hc
  constructor
  · exact fun h => IsClosed.of_append h (isClosed_singleton c) hj
  · exact fun h => (isClosed_singleton c).append h hj

/-- A text without comments is closed, and all its glyphs are code. -/
theorem Uncommented.glyphs_append (hs : Uncommented s)
    (h : ∀ c ∈ s.getLast?, ∀ e ∈ t.head?, ¬Opens c e) :
    glyphs (s ++ t) = s.map .code ++ glyphs t := by
  induction s with
  | nil => rfl
  | cons c s ih =>
    obtain ⟨hhead, hs⟩ := uncommented_cons.mp hs
    have hjoin : ∀ e ∈ (s ++ t).head?, ¬Opens c e := by
      cases s with
      | nil => exact h c rfl
      | cons e s => exact hhead
    have htail : ∀ c ∈ s.getLast?, ∀ e ∈ t.head?, ¬Opens c e := by
      cases s with
      | nil => exact fun c hc => by cases hc
      | cons e s =>
        rw [List.getLast?_cons_cons] at h
        exact h
    rw [List.cons_append, glyphs_code hjoin, ih hs htail, List.map_cons, List.cons_append]

theorem Uncommented.glyphs_eq (hs : Uncommented s) : glyphs s = s.map .code := by
  have h := hs.glyphs_append (t := []) fun c _ e he => by cases he
  rwa [List.append_nil, glyphs_nil, List.append_nil] at h

theorem Uncommented.isClosed (hs : Uncommented s) : IsClosed s := by
  intro t ht
  rw [hs.glyphs_append, hs.glyphs_eq]
  intro c hc
  refine ht c ?_
  rw [hs.glyphs_eq, List.getLast?_map, hc]
  rfl

/-- A glyph of code at the end is the last character. -/
theorem getLast?_of_glyphs (h : (glyphs t).getLast? = some (.code c)) : t.getLast? = some c := by
  induction t using glyphInduction with
  | nil =>
    rw [glyphs_nil] at h
    cases h
  | code e t he ih =>
    rw [glyphs_code he] at h
    by_cases ht : t = []
    · rw [ht, glyphs_nil] at h
      rw [ht]
      cases h
      rfl
    · rw [List.getLast?_cons_of_ne_nil (glyphs_ne_nil ht)] at h
      rw [List.getLast?_cons_of_ne_nil ht]
      exact ih h
  | unclosed t hcut ih =>
    rw [glyphs_unclosed hcut] at h
    by_cases ht : t = []
    · rw [ht, glyphs_nil] at h
      rw [ht]
      cases h
      rfl
    · rw [List.getLast?_cons_cons, List.getLast?_cons_of_ne_nil (glyphs_ne_nil ht)] at h
      rw [List.getLast?_cons_cons, List.getLast?_cons_of_ne_nil ht]
      exact ih h
  | comment w t hw ih =>
    rw [glyphs_comment hw] at h
    by_cases ht : t = []
    · rw [ht, glyphs_nil] at h
      cases h
    · rw [List.getLast?_cons_of_ne_nil (glyphs_ne_nil ht)] at h
      rw [List.getLast?_append_of_ne_nil _ ht]
      exact ih h

/-- Texts join if their characters do. -/
theorem joins_of_getLast? (h : ∀ c ∈ s.getLast?, ∀ e ∈ t.head?, ¬Opens c e) : Joins s t :=
  fun c hc => h c (getLast?_of_glyphs hc)

/-- A text without slashes joins every text. -/
theorem joins_of_notMem (hs : '/' ∉ s) (t : Text) : Joins s t := by
  refine joins_of_getLast? fun c hc e _ => not_opens_of_ne ?_ e
  rintro rfl
  exact hs (List.mem_of_getLast? hc)

theorem glyphs_append_of_notMem (hs : '/' ∉ s) (t : Text) :
    glyphs (s ++ t) = glyphs s ++ glyphs t :=
  (uncommented_of_notMem hs).isClosed t (joins_of_notMem hs t)

/-! ## Behind a closed text -/

/-- `u` stands at the end of `t`, behind a closed text. -/
def IsBehind (u t : Text) : Prop := ∃ front, t = front ++ u ∧ IsClosed front ∧ Joins front u

namespace IsBehind

theorem trans {v : Text} (hut : IsBehind u t) (hvu : IsBehind v u) : IsBehind v t := by
  obtain ⟨front, rfl, hfront, hjoins⟩ := hut
  obtain ⟨middle, rfl, hmiddle, hjoins'⟩ := hvu
  refine ⟨front ++ middle, (List.append_assoc ..).symm, ?_, ?_⟩
  · refine hfront.append hmiddle fun c hc e he => hjoins c hc e ?_
    rw [List.head?_append, Option.mem_def.mp he]
    rfl
  · by_cases hnil : middle = []
    · subst hnil
      rwa [List.append_nil]
    · refine hjoins'.congr (hfront.getLast?_append ?_ hnil)
      rwa [Joins, List.head?_append_of_ne_nil _ hnil] at hjoins

theorem glyphs_eq (h : IsBehind u t) : ∃ front, glyphs t = front ++ glyphs u := by
  obtain ⟨front, rfl, hfront, hjoins⟩ := h
  exact ⟨_, hfront u hjoins⟩

/-- What stands behind a closed text is closed if the whole is. -/
theorem isClosed (h : IsBehind u t) (ht : IsClosed t) : IsClosed u := by
  obtain ⟨front, rfl, hfront, hjoins⟩ := h
  exact ht.of_append hfront hjoins

theorem of_notMem (hs : '/' ∉ s) (t : Text) : IsBehind t (s ++ t) :=
  ⟨s, rfl, (uncommented_of_notMem hs).isClosed, joins_of_notMem hs t⟩

end IsBehind

/-! ## Closed comments -/

theorem Joins.behind_comment (hw : FirstComment w t) (h : Joins (w ++ t) u) : Joins t u := by
  intro c hc
  refine h c ?_
  have hne : glyphs t ≠ [] := by
    intro hnil
    rw [hnil] at hc
    cases hc
  rw [glyphs_comment hw, List.getLast?_cons_of_ne_nil hne]
  exact hc

/-- A comment whose end is settled is closed together with what follows. -/
theorem IsClosed.comment (ht : IsClosed t) (hw : ∀ u, FirstComment w (t ++ u)) :
    IsClosed (w ++ t) := by
  have hfirst : FirstComment w t := by simpa using hw []
  intro u hu
  rw [List.append_assoc, glyphs_comment (hw u), glyphs_comment hfirst,
    ht u (hu.behind_comment hfirst), List.cons_append]

/-- Does the text end within a line comment? -/
def endsInLineComment (t : Text) : Bool :=
  match (glyphs t).getLast? with
  | some (.comment ('/' :: '/' :: _)) => true
  | _ => false

theorem endsInLineComment_of_cons {g : Glyph} (h : glyphs s = g :: glyphs t)
    (hs : endsInLineComment s = false) : endsInLineComment t = false := by
  by_cases hnil : glyphs t = []
  · rw [endsInLineComment, hnil]
    rfl
  · rw [← hs, endsInLineComment, endsInLineComment, h, List.getLast?_cons_of_ne_nil hnil]

/-- A comment that the text does not end in stays when more text follows. -/
theorem FirstComment.append (hw : FirstComment w t) (h : endsInLineComment (w ++ t) = false)
    (u : Text) : FirstComment w (t ++ u) := by
  cases hw with
  | block hbody => exact .block hbody
  | @line body t hbody ht =>
    refine .line hbody ?_
    cases t with
    | nil =>
      have hglyphs := glyphs_comment (.line hbody ht)
      rw [endsInLineComment, hglyphs, glyphs_nil] at h
      cases h
    | cons e t => exact ht

/-- A closed text does not end in a line comment that it begins with. -/
theorem FirstComment.append_of_isClosed (hw : FirstComment w t) (h : IsClosed (w ++ t)) (u : Text) :
    FirstComment w (t ++ u) := by
  cases hw with
  | block hbody => exact .block hbody
  | @line body t hbody ht =>
    refine .line hbody ?_
    cases t with
    | cons e t => exact ht
    | nil =>
      -- a blank behind the comment would go into it
      have hopen : FirstComment ('/' :: '/' :: (body ++ [' '])) [] := by
        refine .line (fun c hc => ?_) fun c hc => by cases hc
        rcases List.mem_append.mp hc with hc | hc
        · exact hbody c hc
        · rw [List.mem_singleton.mp hc]
          decide
      have hclosed := glyphs_comment (.line hbody ht)
      have hblank := h [' '] (joins_blank _ _)
      have hgrown := glyphs_comment hopen
      rw [List.append_nil] at hgrown hclosed hblank
      rw [hclosed] at hblank
      have hlength := congrArg List.length (hgrown.symm.trans hblank)
      rw [glyphs_nil, glyphs_code fun e he => by cases he] at hlength
      simp at hlength

theorem IsClosed.of_comment (h : IsClosed (w ++ t)) (hw : FirstComment w t) : IsClosed t := by
  intro u hu
  by_cases ht : t = []
  · rw [ht, glyphs_nil]
    rfl
  · have hjoins : Joins (w ++ t) u := by
      refine hu.congr ?_
      rw [glyphs_comment hw, List.getLast?_cons_of_ne_nil (glyphs_ne_nil ht)]
    have hglyphs := h u hjoins
    rw [List.append_assoc, glyphs_comment (hw.append_of_isClosed h u), glyphs_comment hw,
      List.cons_append] at hglyphs
    exact (List.cons.inj hglyphs).2

/-- A block comment that does not end leaves the text open. -/
theorem not_isClosed_unclosed (h : cutBlock? t = none) : ¬IsClosed ('/' :: '*' :: t) := by
  intro hclosed
  have hends : cutBlock? (t ++ [' ', '*', '/']) ≠ none := by
    rw [Ne, cutBlock?_eq_none_iff]
    intro hchain
    exact absurd hchain.right_of_append (by decide)
  obtain ⟨⟨body, behind⟩, hcut⟩ := Option.ne_none_iff_exists'.mp hends
  obtain ⟨he, hbody⟩ := cutBlock?_eq_some hcut
  have hcomment := glyphs_comment (t := behind) (.block hbody)
  have hglyphs := hclosed [' ', '*', '/'] (joins_blank _ _)
  rw [List.cons_append, List.cons_append, he] at hglyphs
  rw [List.cons_append, List.cons_append, hglyphs, glyphs_unclosed h] at hcomment
  cases hcomment

/-- White space has no slashes. -/
theorem notMem_of_white (hs : ∀ c ∈ s, isWhite c = true) : '/' ∉ s := by
  intro hmem
  have hwhite := hs _ hmem
  revert hwhite
  decide

theorem notMem_of_blanks (hs : ∀ c ∈ s, isBlank c = true) : '/' ∉ s :=
  notMem_of_white fun c hc => isWhite_of_isBlank (hs c hc)

theorem not_opens_of_isWhite {e : Char} (he : isWhite e = true) (c : Char) : ¬Opens c e := by
  rintro ⟨-, rfl | rfl⟩ <;> revert he <;> decide

theorem cutBlock?_append_of_white (h : cutBlock? t = none) (hs : ∀ c ∈ s, isWhite c = true) :
    cutBlock? (t ++ s) = none := by
  have hslash := notMem_of_white hs
  rw [cutBlock?_eq_none_iff] at h ⊢
  refine List.isChain_append.mpr ⟨h, ?_, ?_⟩
  · rw [List.isChain_iff_forall_rel_of_append_cons_cons]
    rintro a b x y rfl ⟨-, rfl⟩
    simp at hslash
  · rintro a - b hb ⟨-, rfl⟩
    exact hslash (List.mem_of_head? hb)

/-- **White space at the end** of a closed text may be taken away, unless it ends a line comment. -/
theorem IsClosed.of_append_white {gap : Text} (h : IsClosed (s ++ gap))
    (hgap : ∀ c ∈ gap, isWhite c = true) (hend : endsInLineComment s = false) : IsClosed s := by
  induction s using glyphInduction with
  | nil => exact isClosed_nil
  | code c s hc ih =>
    have hhead : ∀ e ∈ (s ++ gap).head?, ¬Opens c e := by
      cases s with
      | nil => exact fun e he => not_opens_of_isWhite (hgap e (List.mem_of_head? he)) c
      | cons e s => exact hc
    exact (isClosed_cons_iff hc).mpr (ih ((isClosed_cons_iff hhead).mp h)
      (endsInLineComment_of_cons (glyphs_code hc) hend))
  | unclosed s hs ih =>
    exact absurd h (not_isClosed_unclosed (cutBlock?_append_of_white hs hgap))
  | comment w s hw ih =>
    have hw' := hw.append hend
    rw [List.append_assoc] at h
    exact (ih (h.of_comment (hw' gap))
      (endsInLineComment_of_cons (glyphs_comment hw) hend)).comment hw'

/-! ## Taking comments out -/

/-- What stands for a glyph without comments: a blank for a comment. -/
def Glyph.blanked : Glyph → Text
  | .code c => [c]
  | .comment _ => [' ']

/-- The comment that a glyph is. -/
def Glyph.comment? : Glyph → Option Text
  | .code _ => none
  | .comment w => some w

/-- The text with a blank for every comment. -/
def uncomment (t : Text) : Text := (glyphs t).flatMap Glyph.blanked

/-- The comments of a text. -/
def comments (t : Text) : List Text := (glyphs t).filterMap Glyph.comment?

@[simp] theorem uncomment_nil : uncomment [] = [] := by
  rw [uncomment, glyphs_nil, List.flatMap_nil]

theorem uncomment_code (h : ∀ e ∈ t.head?, ¬Opens c e) : uncomment (c :: t) = c :: uncomment t := by
  rw [uncomment, glyphs_code h]
  rfl

theorem uncomment_unclosed (h : cutBlock? t = none) :
    uncomment ('/' :: '*' :: t) = '/' :: '*' :: uncomment t := by
  rw [uncomment, glyphs_unclosed h]
  rfl

theorem uncomment_comment (h : FirstComment w t) : uncomment (w ++ t) = ' ' :: uncomment t := by
  rw [uncomment, glyphs_comment h]
  rfl

theorem comments_code (h : ∀ e ∈ t.head?, ¬Opens c e) : comments (c :: t) = comments t := by
  rw [comments, glyphs_code h]
  rfl

theorem comments_unclosed (h : cutBlock? t = none) : comments ('/' :: '*' :: t) = comments t := by
  rw [comments, glyphs_unclosed h]
  rfl

theorem comments_comment (h : FirstComment w t) : comments (w ++ t) = w :: comments t := by
  rw [comments, glyphs_comment h]
  rfl

theorem uncomment_append (h : glyphs (s ++ t) = glyphs s ++ glyphs t) :
    uncomment (s ++ t) = uncomment s ++ uncomment t := by
  rw [uncomment, h, List.flatMap_append]
  rfl

theorem comments_append (h : glyphs (s ++ t) = glyphs s ++ glyphs t) :
    comments (s ++ t) = comments s ++ comments t := by
  rw [comments, h, List.filterMap_append]
  rfl

theorem Uncommented.uncomment_eq (h : Uncommented t) : uncomment t = t := by
  rw [uncomment, h.glyphs_eq, List.flatMap_map]
  exact List.flatMap_singleton' t

theorem Uncommented.comments_eq (h : Uncommented t) : comments t = [] := by
  rw [comments, h.glyphs_eq, List.filterMap_map]
  exact List.filterMap_eq_nil_iff.mpr fun c _ => rfl

/-- Text without slashes in front has no part in comments. -/
theorem uncomment_append_of_notMem (hs : '/' ∉ s) (t : Text) :
    uncomment (s ++ t) = s ++ uncomment t := by
  rw [uncomment_append (glyphs_append_of_notMem hs t), (uncommented_of_notMem hs).uncomment_eq]

theorem comments_append_of_notMem (hs : '/' ∉ s) (t : Text) : comments (s ++ t) = comments t := by
  rw [comments_append (glyphs_append_of_notMem hs t), (uncommented_of_notMem hs).comments_eq,
    List.nil_append]

/-- The first character stays, or is the blank for a comment. -/
theorem head?_uncomment (t : Text) :
    (uncomment t).head? = t.head? ∨ (uncomment t).head? = some ' ' := by
  induction t using glyphInduction with
  | nil => exact .inl (by rw [uncomment_nil])
  | code c t hc _ => exact .inl (by rw [uncomment_code hc]; rfl)
  | unclosed t ht _ => exact .inl (by rw [uncomment_unclosed ht]; rfl)
  | comment w t hw _ => exact .inr (by rw [uncomment_comment hw]; rfl)

theorem beginsIdentifier_uncomment (h : beginsIdentifier t = false) :
    beginsIdentifier (uncomment t) = false := by
  have hhead : ∀ c ∈ (uncomment t).head?, isIdentifier c = false := by
    intro c hc
    rcases head?_uncomment t with he | he
    · cases t with
      | nil =>
        rw [he] at hc
        cases hc
      | cons e t =>
        rw [he] at hc
        cases hc
        exact h
    · cases he.symm.trans hc
      decide
  cases hu : uncomment t with
  | nil => rfl
  | cons c u =>
    rw [hu] at hhead
    exact hhead c rfl

theorem FirstWord.notMem (hw : FirstWord w t) : '/' ∉ w := fun hmem =>
  (ne_of_isIdentifier (hw.all _ hmem)).1 rfl

/-- A word in front of a text stays the first word when comments are taken out. -/
theorem FirstWord.uncomment (hw : FirstWord w t) : FirstWord w (uncomment t) :=
  hw.congr (beginsIdentifier_uncomment hw.ends)

/-- Where no comment begins in front of a text, none begins in front of what becomes of it. -/
theorem not_opens_head?_uncomment (h : ∀ e ∈ t.head?, ¬Opens c e) :
    ∀ e ∈ (uncomment t).head?, ¬Opens c e := by
  intro e he
  rcases head?_uncomment t with hhead | hhead
  · exact h e (hhead ▸ he)
  · cases hhead.symm.trans he
    exact not_opens_of_right (by decide) (by decide) c

/-- **No comment is left** of a closed text. -/
theorem IsClosed.uncommented (h : IsClosed t) : Uncommented (uncomment t) := by
  induction t using glyphInduction with
  | nil =>
    rw [uncomment_nil]
    exact uncommented_nil
  | code c t hc ih =>
    rw [uncomment_code hc]
    exact uncommented_cons.mpr
      ⟨not_opens_head?_uncomment hc, ih ((isClosed_cons_iff hc).mp h)⟩
  | unclosed t ht _ => exact absurd h (not_isClosed_unclosed ht)
  | comment w t hw ih =>
    rw [uncomment_comment hw]
    exact uncommented_cons.mpr
      ⟨fun e _ => not_opens_of_ne (by decide) e, ih (h.of_comment hw)⟩

end ShaderLoom.Text
