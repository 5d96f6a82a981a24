import Mathlib.Data.List.Chain
import ShaderLoom.Dialect
import ShaderLoom.Proofs.Intrinsic.Site

/-!
# Expressions that replace calls

What a call becomes is written out from pieces: fixed text, fields of the texture, and the
coordinates. Neighbouring pieces meet at a **seam**, where one of the two is fixed text and has a
character that takes part neither in an identifier nor in the opening of a comment. So nothing can
arise between two pieces, and what holds of the pieces holds of the expression
(`renderPieces_induction`).

**`callFree_renderPieces`**: the expression of a call whose arguments are call free is call free.
-/

namespace ShaderLoom

open Text

/-! ## Seams -/

/-- A character that belongs neither to an identifier nor to the opening of a comment. -/
def Text.isSeam (c : Char) : Bool := !isIdentifier c && c != '/' && c != '*'

/-- Two texts meet at a seam. -/
def Text.Seam (s t : Text) : Prop := (∃ c ∈ s.getLast?, isSeam c) ∨ ∃ c ∈ t.head?, isSeam c

theorem Text.isIdentifier_of_isSeam {c : Char} (h : isSeam c = true) : isIdentifier c = false := by
  simp only [isSeam, Bool.and_eq_true, Bool.not_eq_true'] at h
  exact h.1.1

/-- Texts that meet at a seam are apart. -/
theorem Text.Seam.apart {s t : Text} (h : Seam s t) : Apart s t := by
  rcases h with ⟨c, hc, hseam⟩ | ⟨c, hc, hseam⟩
  · refine .inl ?_
    rw [endsIdentifier, Option.mem_def.mp hc]
    exact isIdentifier_of_isSeam hseam
  · refine .inr ?_
    obtain ⟨d, t, rfl⟩ := List.exists_cons_of_ne_nil (l := t) (by rintro rfl; cases hc)
    cases hc
    exact isIdentifier_of_isSeam hseam

variable {pieces : List Piece} {texture coordinates : Text}

namespace Piece

/-- The piece ends with a seam, whatever the texture and the coordinates are. -/
def endsWithSeam : Piece → Bool
  | .fixed text => text.toList.getLast?.any isSeam
  | .field _ | .coordinates => false

/-- The piece begins with a seam, whatever the texture and the coordinates are. -/
def beginsWithSeam : Piece → Bool
  | .fixed text => text.toList.head?.any isSeam
  | .field _ | .coordinates => false

/-- Two pieces meet at a seam. -/
def Seam (p q : Piece) : Prop := p.endsWithSeam = true ∨ q.beginsWithSeam = true

instance (p q : Piece) : Decidable (Seam p q) := inferInstanceAs (Decidable (_ ∨ _))

theorem exists_getLast?_render {p : Piece} (h : p.endsWithSeam = true) :
    ∃ c ∈ (p.render texture coordinates).getLast?, isSeam c = true := by
  cases p with
  | fixed text => exact (Option.any_eq_true ..).mp h
  | field f => cases h
  | coordinates => cases h

theorem exists_head?_render {p : Piece} (h : p.beginsWithSeam = true)
    (texture coordinates : Text) :
    ∃ c ∈ (p.render texture coordinates).head?, isSeam c = true := by
  cases p with
  | fixed text => exact (Option.any_eq_true ..).mp h
  | field f => cases h
  | coordinates => cases h

end Piece

@[simp] theorem renderPieces_nil : renderPieces [] texture coordinates = [] := rfl

@[simp] theorem renderPieces_cons (p : Piece) :
    renderPieces (p :: pieces) texture coordinates =
      p.render texture coordinates ++ renderPieces pieces texture coordinates := rfl

/-- A piece and the pieces behind it meet at a seam. -/
theorem seam_renderPieces {p : Piece} (hseams : (p :: pieces).IsChain Piece.Seam)
    (hne : pieces ≠ []) :
    Seam (p.render texture coordinates) (renderPieces pieces texture coordinates) := by
  obtain ⟨q, pieces, rfl⟩ := List.exists_cons_of_ne_nil hne
  rcases (List.isChain_cons_cons.mp hseams).1 with hseam | hseam
  · exact .inl (Piece.exists_getLast?_render hseam)
  · obtain ⟨c, hc, hseam⟩ := Piece.exists_head?_render hseam texture coordinates
    refine .inr ⟨c, ?_, hseam⟩
    rw [renderPieces_cons, List.head?_append, Option.mem_def.mp hc]
    rfl

/-- **What holds of the pieces holds of the expression**, if it passes to texts that are joined at a
seam. -/
theorem renderPieces_induction {P : Text → Prop} (nil : P [])
    (append : ∀ s t, Seam s t → P s → P t → P (s ++ t)) (hseams : pieces.IsChain Piece.Seam)
    (h : ∀ p ∈ pieces, P (p.render texture coordinates)) :
    P (renderPieces pieces texture coordinates) := by
  induction pieces with
  | nil => exact nil
  | cons p pieces ih =>
    have hp := h p (List.mem_cons_self ..)
    have hpieces := ih hseams.tail fun q hq => h q (List.mem_cons_of_mem p hq)
    by_cases hne : pieces = []
    · subst hne
      simpa using hp
    · exact append _ _ (seam_renderPieces hseams hne) hp hpieces

/-! ## Fixed text -/

/-- No identifier of the text is a token; `word` is the identifier in front, backwards. -/
def Text.isTokenlessFrom (word : Text) : Text → Bool
  | [] => (Intrinsic.ofToken? word.reverse).isNone
  | c :: t =>
    if isIdentifier c then isTokenlessFrom (c :: word) t
    else (Intrinsic.ofToken? word.reverse).isNone && isTokenlessFrom [] t

theorem Text.isTokenlessFrom_word {word w t : Text} (hw : ∀ c ∈ w, isIdentifier c = true) :
    isTokenlessFrom word (w ++ t) = isTokenlessFrom (w.reverse ++ word) t := by
  induction w generalizing word with
  | nil => rfl
  | cons c w ih =>
    rw [List.cons_append, isTokenlessFrom, if_pos (hw c (List.mem_cons_self ..)),
      ih fun d hd => hw d (List.mem_cons_of_mem c hd)]
    simp

/-- One pass over a text finds out whether it is call free. -/
theorem callFree_of_isTokenlessFrom {t : Text} (h : isTokenlessFrom [] t = true) : CallFree t := by
  induction t using wordInduction with
  | nil => exact callFree_nil
  | other c t hc ih =>
    rw [isTokenlessFrom, hc, if_neg Bool.false_ne_true, Bool.and_eq_true] at h
    exact (callFree_cons_of_not hc).mpr (ih h.2)
  | word w t hw ih =>
    rw [isTokenlessFrom_word hw.all, List.append_nil] at h
    cases t with
    | nil =>
      rw [isTokenlessFrom, List.reverse_reverse, Option.isNone_iff_eq_none] at h
      exact (callFree_word hw).mpr ⟨h, callFree_nil⟩
    | cons c t =>
      have hc : isIdentifier c = false := hw.ends
      rw [isTokenlessFrom, hc, if_neg Bool.false_ne_true, List.reverse_reverse, Bool.and_eq_true,
        Option.isNone_iff_eq_none] at h
      refine (callFree_word hw).mpr ⟨h.1, ih ?_⟩
      rw [isTokenlessFrom, hc, if_neg Bool.false_ne_true, Bool.and_eq_true]
      exact ⟨by decide, h.2⟩

/-- The fixed text of a piece has no token. -/
def Piece.isTokenless : Piece → Bool
  | .fixed text => isTokenlessFrom [] text.toList
  | .field _ | .coordinates => true

theorem Piece.callFree_render {p : Piece} (h : p.isTokenless = true) (htexture : CallFree texture)
    (hcoordinates : CallFree coordinates) : CallFree (p.render texture coordinates) := by
  cases p with
  | fixed text => exact callFree_of_isTokenlessFrom h
  | field f => exact htexture.append_suffix f
  | coordinates => exact hcoordinates

/-! ## The expressions of the intrinsics -/

/-- Every target selects two components by one of two names. -/
theorem Target.rg_dialect (t : Target) : t.dialect.rg = "rg" ∨ t.dialect.rg = "ra" := by
  obtain ⟨api, version, platform, frames⟩ := t
  cases api with
  | openGl => exact .inl rfl
  | openGlEs =>
    by_cases h : version < 300
    · exact .inr (if_pos h)
    · exact .inl (if_neg h)
  | vulkan => exact .inl rfl

variable {rg : String} {f : Intrinsic}

theorem Intrinsic.isChain_pieces (hrg : rg = "rg" ∨ rg = "ra") (s : FrameShape) (f : Intrinsic) :
    (f.pieces s rg).IsChain Piece.Seam := by
  rcases hrg with rfl | rfl <;> cases f <;> cases s <;> decide

theorem Intrinsic.isTokenless_pieces (hrg : rg = "rg" ∨ rg = "ra") (s : FrameShape)
    (f : Intrinsic) : ∀ p ∈ f.pieces s rg, p.isTokenless = true := by
  rcases hrg with rfl | rfl <;> cases f <;> cases s <;> decide

/-- **The expression of a call is call free** if the arguments of the call are. -/
theorem callFree_renderPieces (hrg : rg = "rg" ∨ rg = "ra") (s : FrameShape) (f : Intrinsic)
    (htexture : CallFree texture) (hcoordinates : CallFree coordinates) :
    CallFree (renderPieces (f.pieces s rg) texture coordinates) := by
  refine renderPieces_induction callFree_nil (fun s t hseam hs ht => ?_) (f.isChain_pieces hrg s)
    fun p hp => Piece.callFree_render (f.isTokenless_pieces hrg s p hp) htexture hcoordinates
  exact (callFree_append hseam.apart).mpr ⟨hs, ht⟩

/-- The expression of a video call ends with its last parenthesis. -/
theorem Intrinsic.exists_pieces_of_isVideo (s : FrameShape) (rg : String) (hf : f.isVideo = true) :
    ∃ pieces, f.pieces s rg = pieces ++ [.fixed ")"] := by
  have hs : ∃ pieces, s.samplePieces (f = .sampleVideoFast) rg = pieces ++ [.fixed ")"] := by
    rw [FrameShape.samplePieces]
    split
    · split
      · exact ⟨_, rfl⟩
      · exact ⟨_, rfl⟩
    · exact ⟨_, rfl⟩
  cases f with
  | sampleVideo => exact hs
  | sampleVideoFast => exact hs
  | _ => cases hf

theorem endsIdentifier_renderPieces (s : FrameShape) (hf : f.isVideo = true) :
    endsIdentifier (renderPieces (f.pieces s rg) texture coordinates) = false := by
  obtain ⟨pieces, hpieces⟩ := f.exists_pieces_of_isVideo s rg hf
  rw [hpieces, renderPieces, List.flatMap_append]
  exact endsIdentifier_append_of_ne_nil (by simp [Piece.render])

end ShaderLoom
