import ShaderLoom.Proofs.Intrinsic.CommentedCall
import ShaderLoom.Proofs.Source.Concatenation

/-!
# Lowering with and without comments

The parts of a call are pasted into its expression with their comments. Where every part has a clean
end, this is all the difference that comments make: **`lower_uncomment`**.

The proof goes through the text by words, and by glyphs where no word begins
(`commentedInduction`). In a call the parts are lowered without comments first, and then without the
blanks that are left at their ends (`Lowers.exists_of_trims`). The expression is put together from
closed parts, so no comment reaches out of one of them (`uncomments_renderPieces`).
-/

namespace ShaderLoom

open Text

variable {d : Dialect} {s t u w : Text} {c : Char} {f : Intrinsic} {call : Call} {l : Lowered}

/-! ## Calls in parts of a text -/

section

variable {P : Intrinsic → Text → Prop}

theorem EachCall.of_append_left (hP : ∀ f s u, P f (s ++ u) → P f s) (h : EachCall P (s ++ t))
    (hapart : Apart s t) : EachCall P s := by
  intro site hsite
  have hmem : site ∈ callSites (s ++ t) := by
    rw [callSites_eq, callSitesFrom_append hapart]
    exact List.mem_append_left _ hsite
  have hsite' := h site hmem
  rw [CallSite.behind_append hsite] at hsite'
  exact hP _ _ _ hsite'

theorem EachCall.of_append_right (h : EachCall P (s ++ t)) (hapart : Apart s t) :
    EachCall P t := by
  rw [← forall_callSitesFrom_iff s t]
  intro site hsite
  refine h site ?_
  rw [callSites_eq, callSitesFrom_append hapart, Nat.zero_add]
  exact List.mem_append_right _ hsite

/-- **What holds of every call** holds of the calls in the parts of a call, if it does not depend on
what follows. -/
theorem EachCall.readCall (hP : ∀ f s u, P f (s ++ u) → P f s) (h : EachCall P t)
    (hread : f.readCall t = .ok call) :
    EachCall P call.texture ∧ EachCall P call.coordinates ∧ EachCall P call.rest := by
  cases hf : f.isVideo with
  | false =>
    obtain ⟨lead, gap, -, -, ht, hlead, hgap, hapart, hcoordinates, -⟩ :=
      text_of_simpleCall hf hread
    rw [ht] at h
    have hparts := h.of_append_right (hlead.apart _)
    refine ⟨hparts.of_append_left hP hapart, ?_,
      (hparts.of_append_right hapart).of_append_right (hgap.apart _)⟩
    rw [hcoordinates]
    exact eachCall_nil
  | true =>
    obtain ⟨lead, gap, close, ht, hlead, hgap, hclose, hapart, hapart₂⟩ :=
      text_of_videoCall hf hread
    rw [ht] at h
    have hparts := h.of_append_right (hlead.apart _)
    have hsecond := (hparts.of_append_right (hapart _)).of_append_right (hgap.apart _)
    exact ⟨hparts.of_append_left hP (hapart _), hsecond.of_append_left hP (hapart₂ _),
      (hsecond.of_append_right (hapart₂ _)).of_append_right (hclose.apart _)⟩

end

/-- The call that the intrinsic reads keeps its comments. -/
def Intrinsic.KeepsComments (f : Intrinsic) (t : Text) : Prop :=
  ∀ call, f.readCall t = .ok call → call.KeepsComments

instance (f : Intrinsic) (t : Text) : Decidable (f.KeepsComments t) :=
  match h : f.readCall t with
  | .error _ => isTrue fun _ hread => nomatch h.symm.trans hread
  | .ok call =>
    decidable_of_iff call.KeepsComments
      ⟨fun hk _ hread => Except.ok.inj (h.symm.trans hread) ▸ hk, fun hk => hk call h⟩

/-- Whether a call keeps its comments does not depend on what follows. -/
theorem Intrinsic.keepsComments_of_append (f : Intrinsic) (s u : Text)
    (h : f.KeepsComments (s ++ u)) : f.KeepsComments s := by
  intro call hread
  obtain ⟨htexture, hcoordinates, hink⟩ := h _ (readCall_append hread u)
  exact ⟨htexture, hcoordinates, hink⟩

/-! ## Lowering between blanks -/

/-- The text without its blanks. -/
def ink (t : Text) : Text := t.filter (! isBlank ·)

theorem ink_append (s t : Text) : ink (s ++ t) = ink s ++ ink t := List.filter_append ..

theorem ink_of_blanks (h : ∀ c ∈ s, isBlank c = true) : ink s = [] := by
  rw [ink, List.filter_eq_nil_iff]
  intro c hc
  simp [h c hc]

/-- **Blanks at the ends** have no part in lowering a text. -/
theorem Lowers.exists_of_trims (hrg : d.rg = "rg" ∨ d.rg = "ra") (h : Lowers d t l)
    (ht : Uncommented t) (hbalanced : Balanced t) (htrims : Trims t s) :
    ∃ m, Lowers d s m ∧ m.calls = l.calls ∧ ink m.text = ink l.text := by
  obtain ⟨lead, gap, rfl, hlead, hgap⟩ := htrims
  have hspacing := isSpacing_of_blank hlead
  have hwhite : ∀ c ∈ gap, isWhite c = true := fun c hc => isWhite_of_isBlank (hgap c hc)
  have hlower := h.lower_eq
  rw [lower_append_of_callFree (callFree_of_all hspacing) (hspacing.apart _)] at hlower
  obtain ⟨l', hl', rfl⟩ := map_eq_ok.mp hlower
  -- `s` closes its parentheses, so the blanks behind it hold nothing that its calls need
  rw [Text.Balanced, (balanced_of_blanks hlead).depthAfter_append] at hbalanced
  have hm := Balanced.of_append hbalanced (balanced_of_blanks hgap)
  have hs := ht.of_append_right
  have hreads := (exists_lower_iff_readsCalls hrg hs).mp ⟨l', hl'⟩
  obtain ⟨m, hlowers⟩ := (hreads.split hs hm (beginsIdentifier_of_white hwhite)
    (head?_dropWhile_of_white hwhite)).1.exists_lowers d hs.of_append_left
  have happend := hlowers.lower_append (apart_of_begins (beginsIdentifier_of_white hwhite))
  rw [hl', (lowers_of_callFree (callFree_of_all (isSpacing_of_blank hgap))).lower_eq] at happend
  cases happend
  refine ⟨m, hlowers, rfl, ?_⟩
  rw [Lowered.prepend, Lowered.append, ink_append, ink_append, ink_of_blanks hlead,
    ink_of_blanks hgap, List.append_nil, List.nil_append]

/-! ## Expressions -/

section

variable {texture coordinates : Text} {pieces : List Piece}

/-- Taking out comments passes through a text that is put together from arguments. -/
structure Uncomments (s texture coordinates s' : Text) : Prop where
  /-- no comment is left open -/
  closed : IsClosed s
  /-- what becomes of the text -/
  uncomment_eq : uncomment s = s'
  /-- the comments are those of the arguments -/
  comments : ∀ w ∈ comments s, w ∈ comments texture ∨ w ∈ comments coordinates

theorem Text.Uncommented.uncomments (hs : Uncommented s) (texture coordinates : Text) :
    Uncomments s texture coordinates s where
  closed := hs.isClosed
  uncomment_eq := hs.uncomment_eq
  comments := by
    rw [hs.comments_eq]
    exact fun w hw => absurd hw List.not_mem_nil

theorem Uncomments.append {s' t' : Text} (hs : Uncomments s texture coordinates s')
    (ht : Uncomments t texture coordinates t') (hj : Joins s t) :
    Uncomments (s ++ t) texture coordinates (s' ++ t') where
  closed := hs.closed.append ht.closed hj
  uncomment_eq := by rw [uncomment_append (hs.closed t hj), hs.uncomment_eq, ht.uncomment_eq]
  comments := by
    rw [comments_append (hs.closed t hj)]
    intro w hw
    rcases List.mem_append.mp hw with hw | hw
    · exact hs.comments w hw
    · exact ht.comments w hw

theorem uncomments_render {p : Piece} (hp : Uncommented p.skeleton) (htexture : IsClosed texture)
    (hcoordinates : IsClosed coordinates) :
    Uncomments (p.render texture coordinates) texture coordinates
      (p.render (uncomment texture) (uncomment coordinates)) := by
  cases p with
  | fixed text => exact Uncommented.uncomments hp texture coordinates
  | field field =>
    have hsuffix : Uncommented ('_' :: field.suffix.toList) :=
      isLoose_not_opens.isChain_of_all field.isIdentifier_suffix
    refine Uncomments.append ⟨htexture, rfl, fun w hw => .inl hw⟩
      (hsuffix.uncomments texture coordinates) (joins_of_head? ?_)
    rintro e he
    cases he
    decide
  | coordinates => exact ⟨hcoordinates, rfl, fun w hw => .inr hw⟩

/-- **Comments are taken out of an expression** by taking them out of its arguments. -/
theorem uncomments_renderPieces (hseams : pieces.IsChain Piece.Seam)
    (hfixed : ∀ p ∈ pieces, Uncommented p.skeleton) (htexture : IsClosed texture)
    (hcoordinates : IsClosed coordinates) :
    Uncomments (renderPieces pieces texture coordinates) texture coordinates
      (renderPieces pieces (uncomment texture) (uncomment coordinates)) := by
  induction pieces with
  | nil => exact uncommented_nil.uncomments texture coordinates
  | cons p pieces ih =>
    have hp := uncomments_render (hfixed p (List.mem_cons_self ..)) htexture hcoordinates
    refine hp.append (ih hseams.tail fun q hq => hfixed q (List.mem_cons_of_mem p hq)) ?_
    by_cases hne : pieces = []
    · rw [hne]
      exact fun c _ e he => by cases he
    · exact joins_of_getLast? (isLoose_not_opens.seam (seam_renderPieces hseams hne))

/-- The ink of an expression is settled by the ink of its arguments. -/
theorem ink_renderPieces {texture' coordinates' : Text} (htexture : ink texture = ink texture')
    (hcoordinates : ink coordinates = ink coordinates') (pieces : List Piece) :
    ink (renderPieces pieces texture coordinates) =
      ink (renderPieces pieces texture' coordinates') := by
  induction pieces with
  | nil => rfl
  | cons p pieces ih =>
    rw [renderPieces_cons, renderPieces_cons, ink_append, ink_append, ih]
    refine congrArg (· ++ _) ?_
    cases p with
    | fixed text => rfl
    | field field =>
      rw [Piece.render, Piece.render, ink_append, ink_append, htexture]
    | coordinates => exact hcoordinates

end

/-! ## The shape of a lowered text -/

section

variable {R : Char → Char → Prop}

/-- The first character stays, unless an expression begins there. -/
theorem Lowers.head?_of_not (h : Lowers d t l) (ht : Text.beginsIdentifier t = false) :
    l.text.head? = t.head? := by
  cases h with
  | nil => rfl
  | other hc _ => rfl
  | word hw _ _ =>
    rw [hw.beginsIdentifier_append] at ht
    cases ht
  | call hw _ _ _ _ _ =>
    rw [hw.beginsIdentifier_append] at ht
    cases ht

/-- What holds in front of a text holds in front of the lowered text. -/
theorem Lowers.rel_head? (hR : IsLoose R) (hrg : d.rg = "rg" ∨ d.rg = "ra") (h : Lowers d t l)
    (hc : ∀ e ∈ t.head?, R c e) : ∀ e ∈ l.text.head?, R c e := by
  cases h with
  | nil => exact hc
  | other he _ => exact hc
  | word hw _ _ =>
    obtain ⟨e, w, rfl⟩ := List.exists_cons_of_ne_nil hw.ne_nil
    exact hc
  | @call w t f call texture coordinates behind _ _ _ _ _ _ =>
    intro e he
    rw [Lowered.ofCall, List.head?_append] at he
    rcases head?_renderPieces f d.frames texture.text coordinates.text hrg with hhead | hhead
    · rw [hhead] at he
      cases he
      exact hR.right (by decide) c
    · rw [hhead] at he
      cases he
      exact hR.right (by decide) c

/-- Behind an expression the relation holds. -/
theorem IsLoose.behind_renderPieces (hR : IsLoose R) (f : Intrinsic) (frames : FrameShape)
    (rg : String) (texture coordinates t : Text) :
    ∀ c ∈ (renderPieces (f.pieces frames rg) texture coordinates).getLast?, ∀ e ∈ t.head?,
      R c e := by
  intro c hc e _
  refine hR.left ?_ e
  cases hf : f.isVideo with
  | false =>
    rw [getLast?_renderPieces_simple hf] at hc
    cases hc
    decide
  | true =>
    rw [getLast?_renderPieces_video hf] at hc
    cases hc
    decide

/-- **Lowering a chain** gives a chain. -/
theorem Lowers.isChain (hR : IsLoose R) (hrg : d.rg = "rg" ∨ d.rg = "ra")
    (hfixed : ∀ f : Intrinsic, ∀ p ∈ f.pieces d.frames d.rg, p.skeleton.IsChain R)
    (h : Lowers d t l) (ht : t.IsChain R) : l.text.IsChain R := by
  induction h with
  | nil => exact List.isChain_nil
  | other hc hl ih =>
    obtain ⟨hhead, ht⟩ := List.isChain_cons.mp ht
    exact List.isChain_cons.mpr ⟨hl.rel_head? hR hrg hhead, ih ht⟩
  | @word w t l hw ho hl ih =>
    refine List.isChain_append.mpr ⟨ht.left_of_append, ih ht.right_of_append, ?_⟩
    exact fun c hc e _ => hR.left (ne_of_isIdentifier (hw.all c (List.mem_of_getLast? hc))) e
  | @call w t f call texture coordinates behind hw ho hread _ _ _ ihtexture ihcoordinates
      ihbehind =>
    obtain ⟨htexture, hcoordinates, hrest⟩ := isChain_of_readCall ht.right_of_append hread
    have hexpression := isChain_renderPieces hR (f.isChain_pieces hrg d.frames) (hfixed f)
      (ihtexture htexture) (ihcoordinates hcoordinates)
    exact List.isChain_append.mpr
      ⟨hexpression, ihbehind hrest, hR.behind_renderPieces f d.frames d.rg _ _ _⟩

end

/-- A block comment that does not end does not end in the lowered text. -/
theorem Lowers.cutBlock?_eq_none (hrg : d.rg = "rg" ∨ d.rg = "ra") (h : Lowers d t l)
    (ht : cutBlock? t = none) : cutBlock? l.text = none := by
  rw [cutBlock?_eq_none_iff] at ht ⊢
  refine h.isChain (fun a b hab => ?_) hrg (fun f => ?_) ht
  · obtain ⟨ha, hb⟩ := not_not.mp hab
    exact ⟨.inr ha, .inl hb⟩
  · generalize d.rg = rg at hrg
    generalize d.frames = frames
    rcases hrg with rfl | rfl <;> cases f <;> cases frames <;> decide

/-! ## Whole texts -/

/-- `m` is what `s` is lowered to without its comments, if `l` is what it is lowered to with
them. -/
structure LowersUncommented (d : Dialect) (s : Text) (l m : Lowered) : Prop where
  /-- without comments, the text is lowered -/
  lowers : Lowers d (uncomment s) m
  /-- as many calls are replaced -/
  calls_eq : m.calls = l.calls
  /-- but for blanks and comments, the lowered texts are the same -/
  ink_eq : ink (uncomment l.text) = ink m.text
  /-- nothing comes into a comment -/
  mem_comments : ∀ w ∈ comments l.text, w ∈ comments s
  /-- no comment is opened -/
  isClosed : IsClosed s → IsClosed l.text

variable {m : Lowered}

theorem Text.FirstComment.lowers (hw : FirstComment w t) (hl : Lowers d t l) :
    FirstComment w l.text :=
  hw.congr hl.head?_of_not

namespace LowersUncommented

theorem nil : LowersUncommented d [] ⟨[], 0⟩ ⟨[], 0⟩ := by
  refine ⟨?_, rfl, ?_, fun w hw => hw, id⟩
  · rw [uncomment_nil]
    exact .nil
  · rw [uncomment_nil]

theorem prependCode (hrg : d.rg = "rg" ∨ d.rg = "ra") (hc : isIdentifier c = false)
    (hopens : ∀ e ∈ t.head?, ¬Opens c e) (hl : Lowers d t l) (h : LowersUncommented d t l m) :
    LowersUncommented d (c :: t) (l.prepend [c]) (m.prepend [c]) := by
  have hopens' := hl.rel_head? isLoose_not_opens hrg hopens
  refine ⟨?_, h.calls_eq, ?_, ?_, fun hclosed => ?_⟩
  · rw [uncomment_code hopens]
    exact .other hc h.lowers
  · rw [Lowered.prepend, Lowered.prepend, List.singleton_append, uncomment_code hopens',
      ← List.singleton_append, ink_append, ink_append, h.ink_eq]
  · rw [Lowered.prepend, List.singleton_append, comments_code hopens', comments_code hopens]
    exact h.mem_comments
  · exact (isClosed_cons_iff hopens').mpr (h.isClosed ((isClosed_cons_iff hopens).mp hclosed))

theorem prependWord (hw : FirstWord w t) (ho : Intrinsic.ofToken? w = none)
    (h : LowersUncommented d t l m) :
    LowersUncommented d (w ++ t) (l.prepend w) (m.prepend w) := by
  refine ⟨?_, h.calls_eq, ?_, ?_, fun hclosed => ?_⟩
  · rw [uncomment_append_of_notMem hw.notMem]
    exact .word hw.uncomment ho h.lowers
  · rw [Lowered.prepend, Lowered.prepend, uncomment_append_of_notMem hw.notMem, ink_append,
      ink_append, h.ink_eq]
  · rw [Lowered.prepend, comments_append_of_notMem hw.notMem, comments_append_of_notMem hw.notMem]
    exact h.mem_comments
  · have ht := (IsBehind.of_notMem hw.notMem t).isClosed hclosed
    exact (uncommented_of_notMem hw.notMem).isClosed.append (h.isClosed ht)
      (joins_of_notMem hw.notMem _)

theorem prependUnclosed (hrg : d.rg = "rg" ∨ d.rg = "ra") (ht : cutBlock? t = none)
    (hl : Lowers d t l) (h : LowersUncommented d t l m) :
    LowersUncommented d ('/' :: '*' :: t) (l.prepend ['/', '*']) (m.prepend ['/', '*']) := by
  have ht' := hl.cutBlock?_eq_none hrg ht
  refine ⟨?_, h.calls_eq, ?_, ?_, fun hclosed => absurd hclosed (not_isClosed_unclosed ht)⟩
  · rw [uncomment_unclosed ht]
    exact .other (by decide) (.other (by decide) h.lowers)
  · change ink (uncomment ('/' :: '*' :: l.text)) = ink (['/', '*'] ++ m.text)
    rw [uncomment_unclosed ht', ink_append, ← h.ink_eq, ← ink_append]
    rfl
  · change ∀ w ∈ comments ('/' :: '*' :: l.text), w ∈ comments ('/' :: '*' :: t)
    rw [comments_unclosed ht', comments_unclosed ht]
    exact h.mem_comments

theorem prependComment (hw : FirstComment w t) (hl : Lowers d t l) (h : LowersUncommented d t l m) :
    LowersUncommented d (w ++ t) (l.prepend w) (m.prepend [' ']) := by
  have hw' := hw.lowers hl
  refine ⟨?_, h.calls_eq, ?_, ?_, fun hclosed => ?_⟩
  · rw [uncomment_comment hw]
    exact .other (by decide) h.lowers
  · rw [Lowered.prepend, Lowered.prepend, uncomment_comment hw', ← List.singleton_append,
      ink_append, ink_append, h.ink_eq]
  · rw [Lowered.prepend, comments_comment hw', comments_comment hw]
    intro v hv
    rcases List.mem_cons.mp hv with rfl | hv
    · exact List.mem_cons_self ..
    · exact List.mem_cons_of_mem w (h.mem_comments v hv)
  · -- what the comment ends at is still there
    refine (h.isClosed (hclosed.of_comment hw)).comment fun u => ?_
    refine (hw.append_of_isClosed hclosed u).congr fun hbegins => ?_
    rw [List.head?_append, List.head?_append, hl.head?_of_not ?_]
    cases t with
    | nil => rfl
    | cons e t => exact hbegins

/-- **A call without its comments** is replaced by the same expression, but for blanks and
comments. -/
theorem ofCall (hrg : d.rg = "rg" ∨ d.rg = "ra") (hw : FirstWord w t)
    (ho : Intrinsic.ofToken? w = some f) {call' : Call}
    (hread' : f.readCall (uncomment t) = .ok call')
    (hcall : UncommentedCall t call call')
    {texture coordinates behind mt mc mb : Lowered}
    (ht : LowersUncommented d call.texture texture mt)
    (hc : LowersUncommented d call.coordinates coordinates mc)
    (hb : LowersUncommented d call.rest behind mb) :
    ∃ m, LowersUncommented d (w ++ t)
      (Lowered.ofCall (f.pieces d.frames d.rg) texture coordinates behind) m := by
  obtain ⟨nt, hnt, hcallst, hinkt⟩ := ht.lowers.exists_of_trims hrg
    hcall.texture.closed.uncommented hcall.texture.balanced hcall.texture.trims
  obtain ⟨nc, hnc, hcallsc, hinkc⟩ := hc.lowers.exists_of_trims hrg
    hcall.coordinates.closed.uncommented hcall.coordinates.balanced hcall.coordinates.trims
  have hexpression := uncomments_renderPieces (f.isChain_pieces hrg d.frames)
    (f.uncommented_skeleton hrg d.frames) (ht.isClosed hcall.texture.closed)
    (hc.isClosed hcall.coordinates.closed)
  have hjoins : Joins (renderPieces (f.pieces d.frames d.rg) texture.text coordinates.text)
      behind.text :=
    joins_of_getLast? (isLoose_not_opens.behind_renderPieces f d.frames d.rg _ _ _)
  have hmem : ∀ v ∈ comments t, v ∈ comments (w ++ t) :=
    (IsBehind.of_notMem hw.notMem t).mem_comments
  refine ⟨Lowered.ofCall (f.pieces d.frames d.rg) nt nc mb, ?_, ?_, ?_, ?_, fun hclosed => ?_⟩
  · rw [uncomment_append_of_notMem hw.notMem]
    exact .call hw.uncomment ho hread' hnt hnc (hcall.rest ▸ hb.lowers)
  · simp only [Lowered.ofCall, hcallst, hcallsc, ht.calls_eq, hc.calls_eq, hb.calls_eq]
  · rw [Lowered.ofCall, Lowered.ofCall, uncomment_append (hexpression.closed _ hjoins),
      hexpression.uncomment_eq, ink_append, ink_append, hb.ink_eq,
      ink_renderPieces (ht.ink_eq.trans hinkt.symm) (hc.ink_eq.trans hinkc.symm)]
  · rw [Lowered.ofCall, comments_append (hexpression.closed _ hjoins)]
    intro v hv
    refine hmem v ?_
    rcases List.mem_append.mp hv with hv | hv
    · rcases hexpression.comments v hv with hv | hv
      · exact hcall.texture.comments v (ht.mem_comments v hv)
      · exact hcall.coordinates.comments v (hc.mem_comments v hv)
    · exact hcall.behind.mem_comments v (hb.mem_comments v hv)
  · have hrest := hcall.behind.isClosed ((IsBehind.of_notMem hw.notMem t).isClosed hclosed)
    exact hexpression.closed.append (hb.isClosed hrest) hjoins

end LowersUncommented

/-- **Comments have no part in lowering**, where no call loses its comments. -/
theorem exists_lowersUncommented (hrg : d.rg = "rg" ∨ d.rg = "ra") (h : lower d s = .ok l)
    (hfree : ∀ w ∈ comments s, CallFree w) (hkeeps : EachCall Intrinsic.KeepsComments s) :
    ∃ m, LowersUncommented d s l m := by
  induction s using commentedInduction generalizing l with
  | nil =>
    rw [lower_nil] at h
    cases h
    exact ⟨_, .nil⟩
  | code c t hc hopens ih =>
    rw [lower_cons_of_not hc] at h
    obtain ⟨l', hl', rfl⟩ := map_eq_ok.mp h
    rw [comments_code hopens] at hfree
    obtain ⟨m, hm⟩ := ih hl' hfree ((eachCall_cons_of_not hc).mp hkeeps)
    exact ⟨_, hm.prependCode hrg hc hopens (lowers_of_lower hl')⟩
  | word w t hw ho ih =>
    rw [lower_word_of_none hw ho] at h
    obtain ⟨l', hl', rfl⟩ := map_eq_ok.mp h
    rw [comments_append_of_notMem hw.notMem] at hfree
    obtain ⟨m, hm⟩ := ih hl' hfree ((eachCall_word_of_none hw ho).mp hkeeps)
    exact ⟨_, hm.prependWord hw ho⟩
  | call w t f hw ho ih =>
    rw [lower_word_of_some hw ho] at h
    simp only [bind_eq_ok] at h
    obtain ⟨call, hread, texture, ht, coordinates, hc, behind, hb, he⟩ := h
    cases he
    obtain ⟨ihtexture, ihcoordinates, ihbehind⟩ := ih call hread
    rw [comments_append_of_notMem hw.notMem] at hfree
    obtain ⟨hclean, hkeeps⟩ := (eachCall_word_of_some hw ho).mp hkeeps
    obtain ⟨hkt, hkc, hkb⟩ := hkeeps.readCall Intrinsic.keepsComments_of_append hread
    obtain ⟨call', hread', hcall⟩ := exists_readCall_uncomment hread (hclean call hread)
    obtain ⟨mt, hmt⟩ := ihtexture ht (fun v hv => hfree v (hcall.texture.comments v hv)) hkt
    obtain ⟨mc, hmc⟩ := ihcoordinates hc (fun v hv => hfree v (hcall.coordinates.comments v hv)) hkc
    obtain ⟨mb, hmb⟩ := ihbehind hb (fun v hv => hfree v (hcall.behind.mem_comments v hv)) hkb
    exact hmt.ofCall hrg hw ho hread' hcall hmc hmb
  | unclosed t ht ih =>
    -- what stands behind the `/*` is no comment, so calls are lowered there
    rw [lower_cons_of_not (by decide), lower_cons_of_not (by decide)] at h
    obtain ⟨l₁, hl₁, rfl⟩ := map_eq_ok.mp h
    obtain ⟨l', hl', rfl⟩ := map_eq_ok.mp hl₁
    rw [comments_unclosed ht] at hfree
    rw [eachCall_cons_of_not (by decide), eachCall_cons_of_not (by decide)] at hkeeps
    obtain ⟨m, hm⟩ := ih hl' hfree hkeeps
    exact ⟨_, hm.prependUnclosed hrg ht (lowers_of_lower hl')⟩
  | comment w t hw ih =>
    rw [comments_comment hw, List.forall_mem_cons] at hfree
    obtain ⟨hcallFree, hfree⟩ := hfree
    rw [lower_append_of_callFree hcallFree hw.apart] at h
    obtain ⟨l', hl', rfl⟩ := map_eq_ok.mp h
    obtain ⟨m, hm⟩ := ih hl' hfree (hkeeps.of_append_right hw.apart)
    exact ⟨_, hm.prependComment hw (lowers_of_lower hl')⟩

/-- **Comments do not change what calls are replaced by**, where every call keeps its comments: the
text is also lowered with a blank for every comment, and both lowered texts are the same but for
comments and blanks. What is put in for a call does not come into a comment. -/
theorem lower_uncomment (target : Target) {source : Text} {l : Lowered}
    (hfree : ∀ w ∈ comments source, CallFree w)
    (hkeeps : ∀ site ∈ callSites source, site.intrinsic.KeepsComments (site.behind source))
    (h : lower target.dialect source = .ok l) :
    ∃ m, lower target.dialect (uncomment source) = .ok m ∧ m.calls = l.calls ∧
      ink (uncomment l.text) = ink m.text ∧ ∀ w ∈ comments l.text, w ∈ comments source := by
  obtain ⟨m, hm⟩ := exists_lowersUncommented target.rg_dialect h hfree hkeeps
  exact ⟨m, hm.lowers.lower_eq, hm.calls_eq, hm.ink_eq, hm.mem_comments⟩

/-- Comments in front of a texture, behind it, and within coordinates. -/
theorem lower_uncomment_arguments :
    let target : Target := { api := .openGl, version := 330 }
    let source := "ngl_texvideo(/* a, */ t /* b */, f(x, // c)\n y)) // d".toList
    let lowered := "(ngli_tex2d(/* a, */ t /* b */_sampler, f(x, // c)\n y))) // d".toList
    (∀ w ∈ comments source, CallFree w) ∧
      (∀ site ∈ callSites source, site.intrinsic.KeepsComments (site.behind source)) ∧
      lower target.dialect source = .ok ⟨lowered, 1⟩ ∧
      ∃ m, lower target.dialect (uncomment source) = .ok m ∧ m.calls = 1 ∧
        ink (uncomment lowered) = ink m.text ∧ ∀ w ∈ comments lowered, w ∈ comments source := by
  have hfree : ∀ w ∈ comments "ngl_texvideo(/* a, */ t /* b */, f(x, // c)\n y)) // d".toList,
      CallFree w := by
    decide +kernel
  have hkeeps : ∀ site ∈ callSites "ngl_texvideo(/* a, */ t /* b */, f(x, // c)\n y)) // d".toList,
      site.intrinsic.KeepsComments
        (site.behind "ngl_texvideo(/* a, */ t /* b */, f(x, // c)\n y)) // d".toList) := by
    decide +kernel
  have h : lower ({ api := .openGl, version := 330 } : Target).dialect
      "ngl_texvideo(/* a, */ t /* b */, f(x, // c)\n y)) // d".toList =
        .ok ⟨"(ngli_tex2d(/* a, */ t /* b */_sampler, f(x, // c)\n y))) // d".toList, 1⟩ := by
    decide +kernel
  exact ⟨hfree, hkeeps, h, lower_uncomment _ hfree hkeeps h⟩

/-- A line comment at the end of a texture takes in what is put in behind it, and a comment counts
as a texture: the call fails without it. -/
theorem not_lower_uncomment :
    let target : Target := { api := .openGlEs, version := 300 }
    let source := "ngl_tex2d(t // c\n, uv)".toList
    let lowered := "ngli_tex2d(t // c_sampler, uv)".toList
    ((∀ w ∈ comments source, CallFree w) ∧ lower target.dialect source = .ok ⟨lowered, 1⟩ ∧
      comments lowered = ["// c_sampler, uv)".toList] ∧
      ¬∃ m, lower target.dialect (uncomment source) = .ok m ∧
        ink (uncomment lowered) = ink m.text) ∧
    lower target.dialect "ngl_tex2d(/* c */, uv)".toList =
        .ok ⟨"ngli_tex2d(/* c */_sampler, uv)".toList, 1⟩ ∧
      lower target.dialect (uncomment "ngl_tex2d(/* c */, uv)".toList) =
        .error (.missingTexture .sample2D) := by
  refine ⟨⟨by decide +kernel, by decide +kernel, by decide +kernel, ?_⟩, by decide +kernel,
    by decide +kernel⟩
  have h : lower ({ api := .openGlEs, version := 300 } : Target).dialect
      (uncomment "ngl_tex2d(t // c\n, uv)".toList) =
        .ok ⟨"ngli_tex2d(t_sampler, uv)".toList, 1⟩ := by
    decide +kernel
  rintro ⟨m, hm, hink⟩
  cases h.symm.trans hm
  revert hink
  decide +kernel

end ShaderLoom
