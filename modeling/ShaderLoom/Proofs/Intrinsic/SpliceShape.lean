import ShaderLoom.Proofs.Intrinsic.Argument
import ShaderLoom.Proofs.Intrinsic.Expression
import ShaderLoom.Proofs.Intrinsic.Splice

/-!
# What splicing keeps

The buffer in which calls have been replaced looks like the text where it matters for reading more
calls from it: it begins and ends in the same way (`Splices.head?`, `Splices.getLast?`), no comment
begins in it (`Splices.uncommented`), and parentheses are nested to the same depth behind it
(`Splices.depthAfter_eq`). The last is due to the expressions: that of a video call is balanced, and
that of a simple call opens one parenthesis, as the call does in front of its first argument.
-/

namespace ShaderLoom

open Text

variable {d : Dialect} {s t u b w texture coordinates : Text} {c : Char} {f : Intrinsic}
  {call : Call} {rg : String} {frames : FrameShape} {pieces : List Piece} {m n k : Nat}

/-! ## Expressions from outside -/

/-- The first character of an expression that begins with fixed text. -/
def Piece.firstOf? : List Piece → Option Char
  | .fixed text :: _ => text.toList.head?
  | _ => none

theorem head?_renderPieces_of_firstOf? (h : Piece.firstOf? pieces = some c) :
    (renderPieces pieces texture coordinates).head? = some c := by
  unfold Piece.firstOf? at h
  split at h
  · rw [renderPieces_cons, Piece.render, List.head?_append, h]
    rfl
  · cases h

/-- An expression begins with the name of a function or with a parenthesis. -/
theorem head?_renderPieces (f : Intrinsic) (frames : FrameShape) (texture coordinates : Text)
    (hrg : rg = "rg" ∨ rg = "ra") :
    (renderPieces (f.pieces frames rg) texture coordinates).head? = some 'n' ∨
      (renderPieces (f.pieces frames rg) texture coordinates).head? = some '(' := by
  have hfirst : Piece.firstOf? (f.pieces frames rg) = some 'n' ∨
      Piece.firstOf? (f.pieces frames rg) = some '(' := by
    rcases hrg with rfl | rfl <;> cases f <;> cases frames <;> decide
  exact hfirst.imp head?_renderPieces_of_firstOf? head?_renderPieces_of_firstOf?

theorem Intrinsic.pieces_of_simple (frames : FrameShape) (rg : String) (hf : f.isVideo = false) :
    ∃ text, f.pieces frames rg = [.fixed text, .field .defaultSampler] := by
  rw [Intrinsic.pieces]
  split
  · exact ⟨_, rfl⟩
  · next h => simp [Intrinsic.isVideo, h] at hf

/-- The expression of a video call ends with a parenthesis. -/
theorem getLast?_renderPieces_video (hf : f.isVideo = true) :
    (renderPieces (f.pieces frames rg) texture coordinates).getLast? = some ')' := by
  obtain ⟨pieces, hpieces⟩ := f.exists_pieces_of_isVideo frames rg hf
  rw [hpieces, renderPieces, List.flatMap_append, List.getLast?_append]
  rfl

/-- The expression of a simple call ends with the name of a sampler. -/
theorem getLast?_renderPieces_simple (hf : f.isVideo = false) :
    (renderPieces (f.pieces frames rg) texture coordinates).getLast? = some 'r' := by
  obtain ⟨text, hpieces⟩ := Intrinsic.pieces_of_simple frames rg hf
  have hsampler : ('_' :: TextureField.defaultSampler.suffix.toList).getLast? = some 'r' := by
    decide
  rw [hpieces, renderPieces_cons, renderPieces_cons, renderPieces_nil, List.append_nil,
    Piece.render, Piece.render, List.getLast?_append, List.getLast?_append, hsampler]
  rfl

/-! ## Both ends -/

/-- **The first character** stays, or is that of an expression. -/
theorem Splices.head? (hrg : d.rg = "rg" ∨ d.rg = "ra") (h : Splices d t b) :
    b.head? = t.head? ∨ b.head? = some 'n' ∨ b.head? = some '(' := by
  cases h with
  | nil => exact .inl rfl
  | other hc ht => exact .inl rfl
  | word hw ho ht =>
    obtain ⟨c, w, rfl⟩ := List.exists_cons_of_ne_nil hw.ne_nil
    exact .inl rfl
  | @call w t b f call hw ho ht hr =>
    have hhead := head?_renderPieces f d.frames call.texture call.coordinates hrg
    refine .inr (hhead.imp ?_ ?_) <;>
    · intro hc
      rw [List.head?_append, hc]
      rfl

theorem Splices.eq_nil_iff (hrg : d.rg = "rg" ∨ d.rg = "ra") (h : Splices d t b) :
    b = [] ↔ t = [] := by
  constructor
  · rintro rfl
    rcases h.head? hrg with hhead | hhead | hhead
    · exact List.head?_eq_none_iff.mp hhead.symm
    · cases hhead
    · cases hhead
  · rintro rfl
    rw [← spliceCalls_eq_ok_iff, spliceCalls_nil] at h
    exact (Except.ok.inj h).symm

theorem ne_nil_of_readCall (h : f.readCall t = .ok call) : t ≠ [] := by
  have hlt := Call.length_lt h
  exact List.length_pos_iff.mp (by omega)

/-- What a call leaves is the end of the text. -/
theorem exists_front_of_readCall (h : f.readCall t = .ok call) :
    ∃ front, t = front ++ call.rest := by
  cases hf : f.isVideo with
  | false =>
    obtain ⟨lead, gap, -, -, ht, -⟩ := text_of_simpleCall hf h
    refine ⟨lead ++ (call.texture ++ gap), ?_⟩
    rw [ht]
    simp only [List.append_assoc]
  | true =>
    obtain ⟨lead, gap, close, ht, -⟩ := text_of_videoCall hf h
    refine ⟨lead ++ (call.texture ++ (gap ++ (call.coordinates ++ close))), ?_⟩
    rw [ht]
    simp only [List.append_assoc]

/-- **The last character** stays, or is that of an expression. -/
theorem Splices.getLast? (hrg : d.rg = "rg" ∨ d.rg = "ra") (h : Splices d t b) :
    b.getLast? = t.getLast? ∨ b.getLast? = some ')' := by
  induction h with
  | nil => exact .inl rfl
  | @other c t b hc ht ih =>
    by_cases hnil : t = []
    · rw [(ht.eq_nil_iff hrg).mpr hnil, hnil]
      exact .inl rfl
    · have hb : b ≠ [] := mt (ht.eq_nil_iff hrg).mp hnil
      rwa [List.getLast?_cons_of_ne_nil hb, List.getLast?_cons_of_ne_nil hnil]
  | @word w t b hw ho ht ih =>
    by_cases hnil : t = []
    · rw [(ht.eq_nil_iff hrg).mpr hnil, hnil]
      exact .inl rfl
    · have hb : b ≠ [] := mt (ht.eq_nil_iff hrg).mp hnil
      rwa [List.getLast?_append_of_ne_nil _ hb, List.getLast?_append_of_ne_nil _ hnil]
  | @call w t b f call hw ho ht hr ih =>
    -- a simple call leaves its delimiter, a video call may leave nothing
    obtain ⟨front, hb⟩ := exists_front_of_readCall hr
    have hne : t ≠ [] := mt (ht.eq_nil_iff hrg).mpr (ne_nil_of_readCall hr)
    rw [List.getLast?_append_of_ne_nil _ hne]
    by_cases hrest : call.rest = []
    · cases hf : f.isVideo with
      | false =>
        obtain ⟨-, -, stop, rest, -, -, -, -, -, hstop⟩ := text_of_simpleCall hf hr
        rw [hstop] at hrest
        cases hrest
      | true =>
        rw [hrest, List.append_nil]
        exact .inr (getLast?_renderPieces_video hf)
    · rw [List.getLast?_append_of_ne_nil _ hrest]
      rwa [hb, List.getLast?_append_of_ne_nil _ hrest] at ih

/-! ## Comments -/

theorem Text.Uncommented.append (hs : Uncommented s) (ht : Uncommented t)
    (h : ∀ c ∈ s.getLast?, ∀ e ∈ t.head?, ¬ Opens c e) : Uncommented (s ++ t) :=
  List.isChain_append.mpr ⟨hs, ht, h⟩

/-- The relation fails only between slashes and stars, as those that make comments do. -/
def IsLoose (R : Char → Char → Prop) : Prop :=
  ∀ a b, ¬R a b → (a = '/' ∨ a = '*') ∧ (b = '/' ∨ b = '*')

theorem isLoose_not_opens : IsLoose fun a b => ¬Opens a b := by
  intro a b h
  obtain ⟨ha, hb⟩ := not_not.mp h
  exact ⟨.inl ha, hb⟩

section

variable {R : Char → Char → Prop}

/-- Between other characters the relation holds. -/
theorem IsLoose.left (hR : IsLoose R) (hc : c ≠ '/' ∧ c ≠ '*') (e : Char) : R c e :=
  not_not.mp fun h => (hR c e h).1.elim hc.1 hc.2

theorem IsLoose.right (hR : IsLoose R) {e : Char} (he : e ≠ '/' ∧ e ≠ '*') (c : Char) : R c e :=
  not_not.mp fun h => (hR c e h).2.elim he.1 he.2

theorem ne_of_isSeam (h : isSeam c = true) : c ≠ '/' ∧ c ≠ '*' := by
  constructor <;> rintro rfl <;> revert h <;> decide

/-- At a seam the relation holds. -/
theorem IsLoose.seam (hR : IsLoose R) (h : Seam s t) :
    ∀ c ∈ s.getLast?, ∀ e ∈ t.head?, R c e := by
  intro c hc e he
  rcases h with ⟨x, hx, hseam⟩ | ⟨x, hx, hseam⟩
  · cases hx.symm.trans hc
    exact hR.left (ne_of_isSeam hseam) e
  · cases hx.symm.trans he
    exact hR.right (ne_of_isSeam hseam) c

theorem IsLoose.isChain_of_all (hR : IsLoose R) (h : ∀ c ∈ t, isIdentifier c = true) :
    t.IsChain R := by
  rw [List.isChain_iff_forall_rel_of_append_cons_cons]
  rintro a b x y rfl
  exact hR.left (ne_of_isIdentifier (h a (by simp))) b

end

/-- The fixed text of the pieces, with nothing for the texture and the coordinates. -/
def Piece.skeleton : Piece → Text
  | .fixed text => text.toList
  | .field _ | .coordinates => []

theorem Intrinsic.uncommented_skeleton (hrg : rg = "rg" ∨ rg = "ra") (frames : FrameShape)
    (f : Intrinsic) : ∀ p ∈ f.pieces frames rg, Uncommented p.skeleton := by
  rcases hrg with rfl | rfl <;> cases f <;> cases frames <;> decide

/-- **An expression is a chain** if its fixed text and the arguments are. -/
theorem isChain_renderPieces {R : Char → Char → Prop} (hR : IsLoose R)
    (hseams : pieces.IsChain Piece.Seam) (hfixed : ∀ p ∈ pieces, p.skeleton.IsChain R)
    (htexture : texture.IsChain R) (hcoordinates : coordinates.IsChain R) :
    (renderPieces pieces texture coordinates).IsChain R := by
  refine renderPieces_induction List.isChain_nil
    (fun s t hseam hs ht => List.isChain_append.mpr ⟨hs, ht, hR.seam hseam⟩) hseams fun p hp => ?_
  cases p with
  | fixed text => exact hfixed _ hp
  | field field =>
    refine List.isChain_append.mpr ⟨htexture, hR.isChain_of_all field.isIdentifier_suffix, ?_⟩
    rintro c - e he
    cases he
    exact hR.right (by decide) c
  | coordinates => exact hcoordinates

theorem uncommented_renderPieces (hrg : rg = "rg" ∨ rg = "ra") (htexture : Uncommented texture)
    (hcoordinates : Uncommented coordinates) :
    Uncommented (renderPieces (f.pieces frames rg) texture coordinates) :=
  isChain_renderPieces isLoose_not_opens (f.isChain_pieces hrg frames)
    (f.uncommented_skeleton hrg frames) htexture hcoordinates

/-- The parts of a call are chains if the text is one. -/
theorem isChain_of_readCall {R : Char → Char → Prop} (ht : t.IsChain R)
    (h : f.readCall t = .ok call) :
    call.texture.IsChain R ∧ call.coordinates.IsChain R ∧ call.rest.IsChain R := by
  cases hf : f.isVideo with
  | false =>
    obtain ⟨lead, gap, -, -, he, -, -, -, hcoordinates, -⟩ := text_of_simpleCall hf h
    rw [he] at ht
    have hparts := ht.right_of_append
    refine ⟨hparts.left_of_append, ?_, hparts.right_of_append.right_of_append⟩
    rw [hcoordinates]
    exact List.isChain_nil
  | true =>
    obtain ⟨lead, gap, close, he, -⟩ := text_of_videoCall hf h
    rw [he] at ht
    have hparts := ht.right_of_append
    have hbehind := hparts.right_of_append.right_of_append
    exact ⟨hparts.left_of_append, hbehind.left_of_append, hbehind.right_of_append.right_of_append⟩

/-- The parts of a call have no comments that the text did not have. -/
theorem uncommented_of_readCall (ht : Uncommented t) (h : f.readCall t = .ok call) :
    Uncommented call.texture ∧ Uncommented call.coordinates ∧ Uncommented call.rest :=
  isChain_of_readCall ht h

/-- **No comment begins** in the buffer where none begins in the text. -/
theorem Splices.uncommented (hrg : d.rg = "rg" ∨ d.rg = "ra") (h : Splices d t b)
    (ht : Uncommented t) : Uncommented b := by
  -- what stands in front of a text keeps apart from the expression that the text may begin with
  have hfront {c : Char} {t b : Text} (h : Splices d t b) (ht : ∀ e ∈ t.head?, ¬ Opens c e) :
      ∀ e ∈ b.head?, ¬ Opens c e := by
    intro e he
    rcases h.head? hrg with hhead | hhead | hhead
    · exact ht e (hhead ▸ he)
    · cases hhead.symm.trans he
      exact not_opens_of_right (by decide) (by decide) c
    · cases hhead.symm.trans he
      exact not_opens_of_right (by decide) (by decide) c
  induction h with
  | nil => exact uncommented_nil
  | @other c t b hc hs ih =>
    obtain ⟨hhead, ht⟩ := uncommented_cons.mp ht
    exact uncommented_cons.mpr ⟨hfront hs hhead, ih ht⟩
  | @word w t b hw ho hs ih =>
    refine ht.of_append_left.append (ih ht.of_append_right) ?_
    rintro c hc e - ⟨rfl, -⟩
    have hident := hw.all _ (List.mem_of_getLast? hc)
    revert hident
    decide
  | @call w t b f call hw ho hs hr ih =>
    obtain ⟨htexture, hcoordinates, hrest⟩ := uncommented_of_readCall (ih ht.of_append_right) hr
    refine (uncommented_renderPieces hrg htexture hcoordinates).append hrest ?_
    rintro c hc e - ⟨rfl, -⟩
    cases hf : f.isVideo with
    | false =>
      rw [getLast?_renderPieces_simple hf] at hc
      cases hc
    | true =>
      rw [getLast?_renderPieces_video hf] at hc
      cases hc

/-! ## Depth -/

theorem Text.Balanced.trimEnd (h : Balanced t) : Balanced (trimEnd t) := by
  obtain ⟨gap, ht, hgap⟩ := exists_trimEnd t
  rw [ht] at h
  exact h.of_append (balanced_of_white hgap)

theorem balanced_suffix (field : TextureField) : Balanced ('_' :: field.suffix.toList) := by
  cases field <;> rfl

/-- Only fixed text changes the depth. -/
theorem depthAfter_renderPieces (htexture : Balanced texture) (hcoordinates : Balanced coordinates)
    (pieces : List Piece) (n : Nat) :
    depthAfter n (renderPieces pieces texture coordinates) =
      depthAfter n (pieces.flatMap Piece.skeleton) := by
  induction pieces generalizing n with
  | nil => rfl
  | cons p pieces ih =>
    rw [renderPieces_cons, List.flatMap_cons]
    cases p with
    | fixed text =>
      rw [depthAfter_append, depthAfter_append]
      exact Option.bind_congr fun m _ => ih m
    | field field =>
      have hfield : Balanced (texture ++ '_' :: field.suffix.toList) :=
        htexture.append (balanced_suffix field)
      exact hfield.depthAfter_append.trans (ih n)
    | coordinates => exact hcoordinates.depthAfter_append.trans (ih n)

theorem Intrinsic.depthAfter_skeleton (hrg : rg = "rg" ∨ rg = "ra") (frames : FrameShape)
    (f : Intrinsic) :
    depthAfter 0 ((f.pieces frames rg).flatMap Piece.skeleton) =
      some (if f.isVideo then 0 else 1) := by
  rcases hrg with rfl | rfl <;> cases f <;> cases frames <;> decide

/-- A simple call leaves its parenthesis open in front of what it leaves, and a video call closes
it. Its arguments are balanced. -/
theorem depthAfter_of_readCall (ht : Uncommented t) (h : f.readCall t = .ok call) (n : Nat) :
    depthAfter n t = depthAfter (n + if f.isVideo then 0 else 1) call.rest ∧
      Balanced call.texture ∧ Balanced call.coordinates := by
  obtain ⟨inside, first, hopen, harg, hc⟩ := readCall_iff.mp h
  have hinside := (ht.inside hopen).dropWhile
  obtain ⟨hsplit, hfirst⟩ := (argument_iff hinside).mp harg
  have hlead : depthAfter n t = depthAfter (n + 1) (first.stop.char :: first.rest) := by
    rw [← depthAfter_dropWhile_isBlank, hopen, depthAfter_cons]
    change depthAfter (n + 1) inside = _
    rw [← depthAfter_dropWhile_isBlank, hsplit, hfirst.depthAfter_append]
  cases hf : f.isVideo with
  | false =>
    obtain ⟨-, -, rfl⟩ := (simpleCall_iff hf).mp hc
    exact ⟨hlead, hfirst.trimEnd, balanced_nil⟩
  | true =>
    obtain ⟨-, hstop, second, harg₂, hclose, rfl⟩ := (videoCall_iff hf).mp hc
    obtain ⟨hsplit₂, hsecond⟩ := (argument_iff (hinside.rest harg).dropWhile).mp harg₂
    refine ⟨?_, hfirst.trimEnd, hsecond.trimEnd⟩
    rw [hlead, hstop]
    change depthAfter (n + 1) first.rest = _
    rw [← depthAfter_dropWhile_isBlank, hsplit₂, hsecond.depthAfter_append, hclose]
    rfl

/-- **Parentheses are nested as before** behind the buffer. -/
theorem Splices.depthAfter_eq (hrg : d.rg = "rg" ∨ d.rg = "ra") (h : Splices d t b)
    (ht : Uncommented t) (n : Nat) : depthAfter n b = depthAfter n t := by
  induction h generalizing n with
  | nil => rfl
  | @other c t b hc hs ih =>
    rw [depthAfter_cons, depthAfter_cons]
    exact Option.bind_congr fun m _ => ih (uncommented_cons.mp ht).2 m
  | @word w t b hw ho hs ih =>
    rw [hw.balanced.depthAfter_append, hw.balanced.depthAfter_append]
    exact ih ht.of_append_right n
  | @call w t b f call hw ho hs hr ih =>
    -- the expression opens what the call had opened in front of what it leaves
    have hb := hs.uncommented hrg ht.of_append_right
    obtain ⟨hdepth, htexture, hcoordinates⟩ := depthAfter_of_readCall hb hr n
    have hexpression := depthAfter_add (f.depthAfter_skeleton hrg d.frames) n
    rw [← depthAfter_renderPieces htexture hcoordinates] at hexpression
    rw [hw.balanced.depthAfter_append, ← ih ht.of_append_right n, hdepth]
    exact depthAfter_append_of_eq hexpression

end ShaderLoom
