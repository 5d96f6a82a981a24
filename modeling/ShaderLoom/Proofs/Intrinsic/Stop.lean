import ShaderLoom.Proofs.Intrinsic.CommentedCall

/-!
# The first stop

Taken apart into glyphs, a text has **stops**: delimiters of code in front of which every parenthesis
that was opened in code is closed. A block comment that does not end hides everything behind it, so
only the glyphs in front of it count: `readableGlyphs`, which `exists_unreadable` describes.

**`readArgument_cases`**: an argument is read up to the first stop, and it cannot be read if there is
no stop. What stands behind the stop is not looked at (`readArgument_stop_append`).
-/

namespace ShaderLoom

open Text

variable {s t u w : Text} {c : Char} {a : Argument} {m n : Nat} {fault : CallFault}
  {g : Glyph} {seen other : List Glyph}

/-! ## Glyphs that can be read -/

namespace Text

/-- The text that a glyph stands for. -/
def Glyph.text : Glyph → Text
  | .code c => [c]
  | .comment w => w

/-- The glyphs of a text in front of the first block comment that does not end. -/
def readableGlyphs : Text → List Glyph
  | [] => []
  | '/' :: '/' :: t =>
    .comment ('/' :: '/' :: t.takeWhile (! isLineEnd ·)) ::
      readableGlyphs (t.dropWhile (! isLineEnd ·))
  | '/' :: '*' :: t =>
    match _h : cutBlock? t with
    | some (body, behind) => .comment ('/' :: '*' :: body) :: readableGlyphs behind
    | none => []
  | c :: t => .code c :: readableGlyphs t
termination_by t => t.length
decreasing_by
  · have := length_dropWhile_le (! isLineEnd ·) t
    simp only [List.length_cons]
    omega
  · have := congrArg List.length (cutBlock?_eq_some _h).1
    simp only [List.length_append] at this
    simp only [List.length_cons]
    omega
  · simp

@[simp] theorem readableGlyphs_nil : readableGlyphs [] = [] := by
  rw [readableGlyphs]

theorem readableGlyphs_code (h : ∀ e ∈ t.head?, ¬Opens c e) :
    readableGlyphs (c :: t) = .code c :: readableGlyphs t := by
  rw [readableGlyphs]
  · rintro u rfl rfl
    exact h '/' rfl ⟨rfl, .inl rfl⟩
  · rintro u rfl rfl
    exact h '*' rfl ⟨rfl, .inr rfl⟩

theorem readableGlyphs_unclosed (h : cutBlock? t = none) :
    readableGlyphs ('/' :: '*' :: t) = [] := by
  rw [readableGlyphs]
  split
  · next hcut => simp [h] at hcut
  · rfl

theorem readableGlyphs_comment (h : FirstComment w t) :
    readableGlyphs (w ++ t) = .comment w :: readableGlyphs t := by
  cases h with
  | @line body t hbody ht =>
    obtain ⟨hline, hbehind⟩ := split_line hbody ht
    rw [List.cons_append, List.cons_append, readableGlyphs, hline, hbehind]
  | @block body t hbody =>
    have hcut := cutBlock?_body hbody t
    rw [List.cons_append, List.cons_append, readableGlyphs]
    split
    · next hsome =>
      cases hcut.symm.trans hsome
      rfl
    · next hnone => simp [hcut] at hnone

/-- **What can be read is the front of the text**, and what is left is nothing or begins with a block
comment that does not end. -/
theorem exists_unreadable (t : Text) :
    ∃ rest, t = (readableGlyphs t).flatMap Glyph.text ++ rest ∧
      (rest = [] ∨ ∃ u, rest = '/' :: '*' :: u ∧ cutBlock? u = none) := by
  induction t using glyphInduction with
  | nil => exact ⟨[], by simp, .inl rfl⟩
  | code c t hc ih =>
    obtain ⟨rest, ht, hrest⟩ := ih
    refine ⟨rest, ?_, hrest⟩
    rw [readableGlyphs_code hc, List.flatMap_cons, List.append_assoc, ← ht]
    rfl
  | unclosed t ht _ =>
    refine ⟨'/' :: '*' :: t, ?_, .inr ⟨t, rfl, ht⟩⟩
    rw [readableGlyphs_unclosed ht]
    rfl
  | comment w t hw ih =>
    obtain ⟨rest, ht, hrest⟩ := ih
    refine ⟨rest, ?_, hrest⟩
    rw [readableGlyphs_comment hw, List.flatMap_cons, List.append_assoc, ← ht]
    rfl

end Text

/-! ## Stops -/

/-- Behind the glyphs `seen` of the text stands a delimiter, and in front of it all parentheses are
closed, where `n` of them were open from the beginning. -/
structure IsStop (n : Nat) (t : Text) (seen : List Glyph) : Prop where
  /-- the delimiter is code, and can be read -/
  delimiter : ∃ stop : Delimiter, seen ++ [.code stop.char] <+: readableGlyphs t
  /-- as many parentheses are opened as are closed -/
  balanced : n + seen.count (.code '(') = seen.count (.code ')')

/-- A stop that stands in front of all others. -/
structure IsFirstStop (n : Nat) (t : Text) (seen : List Glyph) : Prop extends IsStop n t seen where
  /-- there is no other stop in front -/
  first : ∀ other, IsStop n t other → seen <+: other

/-- There is one first stop. -/
theorem IsFirstStop.unique (h : IsFirstStop n t seen) (h' : IsFirstStop n t other) :
    seen = other :=
  (h.first other h'.toIsStop).eq_of_length_le (h'.first seen h.toIsStop).length_le

/-- The glyph `g`, which is no stop, takes the depth from `n` to `m`. -/
structure Text.Glyph.Passes (n : Nat) (g : Glyph) (m : Nat) : Prop where
  /-- the glyph is no stop -/
  not_stop : n = 0 → ∀ stop : Delimiter, g ≠ .code stop.char
  /-- the depth counts the parentheses that are open -/
  depth : n + [g].count (.code '(') = m + [g].count (.code ')')

theorem passes_comment (n : Nat) (w : Text) : Glyph.Passes n (.comment w) n where
  not_stop := fun _ stop h => by cases h
  depth := by simp

theorem passes_code (h : depthStep n c = some m) : Glyph.Passes n (.code c) m where
  not_stop := by
    rintro rfl stop he
    cases he
    rw [depthStep_eq_none_iff.mpr ⟨rfl, stop.char_eq⟩] at h
    cases h
  depth := by
    rw [depthStep] at h
    split at h
    · next hopen =>
      cases h
      subst hopen
      simp
    · next hopen =>
      split at h
      · cases h
      · next hstop =>
        split at h
        · next hclose =>
          cases h
          subst hclose
          have hn : n ≠ 0 := fun hn => hstop ⟨hn, .inr rfl⟩
          simp
          omega
        · next hclose =>
          cases h
          simp [hopen, hclose]

/-- Behind a glyph that is no stop stand the stops of the text. -/
theorem isStop_iff_of_passes (hg : Glyph.Passes n g m)
    (hu : readableGlyphs u = g :: readableGlyphs t) :
    IsStop n u seen ↔ ∃ rest, seen = g :: rest ∧ IsStop m t rest := by
  have hdepth := hg.depth
  constructor
  · rintro ⟨⟨stop, hstop⟩, hbalanced⟩
    rw [hu] at hstop
    cases seen with
    | nil =>
      obtain ⟨he, -⟩ := List.cons_prefix_cons.mp hstop
      exact absurd he.symm (hg.not_stop (by simpa using hbalanced) stop)
    | cons e rest =>
      obtain ⟨rfl, hrest⟩ := List.cons_prefix_cons.mp hstop
      refine ⟨rest, rfl, ⟨stop, hrest⟩, ?_⟩
      rw [← List.singleton_append, List.count_append, List.count_append] at hbalanced
      omega
  · rintro ⟨rest, rfl, ⟨stop, hrest⟩, hbalanced⟩
    refine ⟨⟨stop, ?_⟩, ?_⟩
    · rw [hu, List.cons_append]
      exact List.cons_prefix_cons.mpr ⟨rfl, hrest⟩
    · rw [← List.singleton_append, List.count_append, List.count_append]
      omega

/-! ## Reading up to the first stop -/

/-- `r` is what reading gives: the argument in front of the first stop, or a fault if there is no
stop. -/
def ReadsUpToStop (n : Nat) (t : Text) (r : Except CallFault Argument) : Prop :=
  (∃ a seen, r = .ok a ∧ IsFirstStop n t seen ∧ a.text = seen.flatMap Glyph.text) ∨
    ∃ fault, r = .error fault ∧ ∀ seen, ¬IsStop n t seen

theorem ReadsUpToStop.of_nil (h : readableGlyphs t = []) (n : Nat) (fault : CallFault) :
    ReadsUpToStop n t (.error fault) := by
  refine .inr ⟨fault, rfl, ?_⟩
  rintro seen ⟨⟨stop, hstop⟩, -⟩
  rw [h, List.prefix_nil] at hstop
  exact List.append_ne_nil_of_right_ne_nil seen (List.cons_ne_nil _ _) hstop

theorem ReadsUpToStop.of_passes {r : Except CallFault Argument} (hr : ReadsUpToStop m t r)
    (hg : Glyph.Passes n g m) (hu : readableGlyphs u = g :: readableGlyphs t) :
    ReadsUpToStop n u (r.map (Argument.prepend g.text)) := by
  obtain ⟨a, seen, rfl, hseen, ha⟩ | ⟨fault, rfl, hno⟩ := hr
  · refine .inl ⟨_, g :: seen, rfl, ⟨?_, fun other hother => ?_⟩, ?_⟩
    · exact (isStop_iff_of_passes hg hu).mpr ⟨seen, rfl, hseen.toIsStop⟩
    · obtain ⟨rest, rfl, hrest⟩ := (isStop_iff_of_passes hg hu).mp hother
      exact List.cons_prefix_cons.mpr ⟨rfl, hseen.first rest hrest⟩
    · rw [List.flatMap_cons, ← ha]
      rfl
  · refine .inr ⟨fault, rfl, fun seen hseen => ?_⟩
    obtain ⟨rest, -, hrest⟩ := (isStop_iff_of_passes hg hu).mp hseen
    exact hno rest hrest

/-- **An argument is read up to the first stop**, and where there is no stop it cannot be read. -/
theorem readArgument_cases (n : Nat) (t : Text) : ReadsUpToStop n t (readArgument (.code n) t) := by
  induction t using glyphInduction generalizing n with
  | nil =>
    rw [readArgument]
    exact .of_nil readableGlyphs_nil n _
  | code c t hc ih =>
    have hglyphs := readableGlyphs_code hc
    cases hstep : depthStep n c with
    | none =>
      obtain ⟨rfl, hstop⟩ := depthStep_eq_none_iff.mp hstep
      obtain ⟨stop, rfl⟩ := Delimiter.exists_char hstop
      rw [readArgument_delimiter]
      refine .inl ⟨_, [], rfl, ⟨⟨⟨stop, ?_⟩, rfl⟩, fun other _ => List.nil_prefix⟩, rfl⟩
      rw [hglyphs]
      exact List.cons_prefix_cons.mpr ⟨rfl, List.nil_prefix⟩
    | some m =>
      rw [readArgument_cons_of_step hc hstep]
      exact (ih m).of_passes (passes_code hstep) hglyphs
  | unclosed t ht _ =>
    rw [readArgument, readArgument_blockComment, ht]
    exact .of_nil (readableGlyphs_unclosed ht) n _
  | comment w t hw ih =>
    rw [readArgument_comment hw]
    exact (ih n).of_passes (passes_comment n w) (readableGlyphs_comment hw)

/-- **What stands behind the delimiter is not looked at.** -/
theorem readArgument_stop_append (h : readArgument (.code n) t = .ok a) (u : Text) :
    readArgument (.code n) (a.text ++ a.stop.char :: u) = .ok { a with rest := u } := by
  induction t using glyphInduction generalizing n a with
  | nil =>
    rw [readArgument] at h
    cases h
  | code c t hc ih =>
    cases hstep : depthStep n c with
    | none =>
      obtain ⟨rfl, hstop⟩ := depthStep_eq_none_iff.mp hstep
      obtain ⟨stop, rfl⟩ := Delimiter.exists_char hstop
      rw [readArgument_delimiter] at h
      cases h
      exact readArgument_delimiter stop u
    | some m =>
      rw [readArgument_cons_of_step hc hstep] at h
      obtain ⟨b, hb, rfl⟩ := Argument.map_prepend_eq_ok h
      have hc' : ∀ e ∈ (b.text ++ b.stop.char :: u).head?, ¬Opens c e := by
        rw [eq_of_readArgument hb, Argument.remainder] at hc
        cases hs : b.text with
        | nil => rwa [hs] at hc
        | cons e s => rwa [hs] at hc
      rw [Argument.prepend, List.singleton_append, List.cons_append,
        readArgument_cons_of_step hc' hstep, ih hb]
      rfl
  | unclosed t ht _ =>
    rw [readArgument, readArgument_blockComment, ht] at h
    cases h
  | comment w t hw ih =>
    rw [readArgument_comment hw] at h
    obtain ⟨b, hb, rfl⟩ := Argument.map_prepend_eq_ok h
    have hw' := FirstComment.of_readArgument hw hb (b.stop.char :: u)
    rw [Argument.prepend, List.append_assoc, readArgument_comment hw', ih hb]
    rfl

end ShaderLoom
