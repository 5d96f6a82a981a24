import ShaderLoom.Proofs.Intrinsic.Expression
import ShaderLoom.Proofs.Intrinsic.Lowering

/-!
# Lowering is complete

Lowering reaches every call, wherever it stands: at the top, or in an argument of another call, to
any depth. Each is replaced once, and no replacement puts a call together that was not there
before. So a lowered text is call free, and lowering it again changes nothing.

The count goes by the parts of a call, which are apart from each other
(`length_callSites_readCall`); that nothing new arises goes by the seams of expressions (`callFree_renderPieces`).
-/

namespace ShaderLoom

open Text

variable {d : Dialect} {s t : Text} {f : Intrinsic} {call : Call} {l : Lowered}

/-! ## Counting the calls in the parts of a call -/

theorem length_callSites_append (h : Apart s t) :
    (callSites (s ++ t)).length = (callSites s).length + (callSites t).length := by
  rw [callSites_eq, callSitesFrom_append h, List.length_append, length_callSitesFrom,
    length_callSitesFrom]

theorem IsSpacing.length_callSites (h : IsSpacing s) : (callSites s).length = 0 :=
  List.length_eq_zero_iff.mpr (callFree_of_all h)

theorem IsSpacing.length_callSites_append (h : IsSpacing s) :
    (callSites (s ++ t)).length = (callSites t).length := by
  rw [ShaderLoom.length_callSites_append (h.apart t), h.length_callSites, Nat.zero_add]

/-- **Every call behind a token is in one part of the call** that the token begins. -/
theorem length_callSites_readCall (h : f.readCall t = .ok call) :
    (callSites t).length =
      (callSites call.texture).length + (callSites call.coordinates).length +
        (callSites call.rest).length := by
  cases hf : f.isVideo with
  | false =>
    obtain ⟨lead, gap, -, -, rfl, hlead, hgap, hapart, hcoordinates, -⟩ := text_of_simpleCall hf h
    have hnil : callSites [] = [] := callFree_nil
    rw [hlead.length_callSites_append, length_callSites_append hapart, hgap.length_callSites_append,
      hcoordinates, hnil, List.length_nil, Nat.add_zero]
  | true =>
    obtain ⟨lead, gap, close, rfl, hlead, hgap, hclose, htexture, hcoordinates⟩ :=
      text_of_videoCall hf h
    rw [hlead.length_callSites_append, length_callSites_append (htexture _),
      hgap.length_callSites_append, length_callSites_append (hcoordinates _),
      hclose.length_callSites_append, Nat.add_assoc]

/-! ## Nothing is left over -/

/-- No identifier reaches from the expression of a call into what follows the call. -/
theorem apart_renderPieces {rg : String} {frames : FrameShape} {texture coordinates : Text}
    {behind : Lowered} (h : f.readCall t = .ok call) (hbehind : Lowers d call.rest behind) :
    Apart (renderPieces (f.pieces frames rg) texture coordinates) behind.text := by
  cases hf : f.isVideo with
  | false => exact .inr (hbehind.beginsIdentifier (beginsIdentifier_rest hf h))
  | true => exact .inl (endsIdentifier_renderPieces frames hf)

/-- **Every call is replaced once**, and no call is left. -/
theorem Lowers.calls_eq_and_callFree (hrg : d.rg = "rg" ∨ d.rg = "ra") (h : Lowers d t l) :
    l.calls = (callSites t).length ∧ CallFree l.text := by
  induction h with
  | nil => exact ⟨by simp [callSites_eq], callFree_nil⟩
  | @other c t l hc _ ih =>
    refine ⟨?_, (callFree_cons_of_not hc).mpr ih.2⟩
    rw [callSites_eq, callSitesFrom_cons_of_not hc, length_callSitesFrom]
    exact ih.1
  | @word w t l hw ho ht ih =>
    have hends := hw.congr (ht.beginsIdentifier hw.ends)
    refine ⟨?_, (callFree_word hends).mpr ⟨ho, ih.2⟩⟩
    rw [callSites_eq, callSitesFrom_word_of_none hw ho, length_callSitesFrom]
    exact ih.1
  | @call w t f call texture coordinates behind hw ho hr _ _ hbehind ihtexture ihcoordinates
      ihbehind =>
    constructor
    · rw [callSites_eq, callSitesFrom_word_of_some hw ho, List.length_cons, length_callSitesFrom,
        length_callSites_readCall hr, ← ihtexture.1, ← ihcoordinates.1, ← ihbehind.1]
      simp only [Lowered.ofCall]
      omega
    · have hexpression : CallFree (renderPieces (f.pieces d.frames d.rg) texture.text
          coordinates.text) := callFree_renderPieces hrg d.frames f ihtexture.2 ihcoordinates.2
      exact (callFree_append (apart_renderPieces hr hbehind)).mpr ⟨hexpression, ihbehind.2⟩

/-- **Lowering is complete and idempotent**, for every target: as many calls are replaced as the
text has call sites, the lowered text has none, and lowering it again leaves it as it is. -/
theorem lower_complete (target : Target) {source : Text}
    (h : lower target.dialect source = .ok l) :
    l.calls = (callSites source).length ∧ callSites l.text = [] ∧
      lower target.dialect l.text = .ok ⟨l.text, 0⟩ := by
  obtain ⟨hcalls, hfree⟩ := (lowers_of_lower h).calls_eq_and_callFree target.rg_dialect
  exact ⟨hcalls, hfree, (lowers_of_callFree hfree).lower_eq⟩

/-- A call in the coordinates of a call, and one behind. -/
theorem lower_complete_nested :
    let target : Target := { api := .openGl, version := 330 }
    let source := "ngl_texvideo(a, ngl_img2d(b, c)) + ngl_tex2d(d, e)".toList
    let lowered :=
      "(ngli_tex2d(a_sampler, ngli_img2d(b_sampler, c))) + ngli_tex2d(d_sampler, e)".toList
    lower target.dialect source = .ok ⟨lowered, 3⟩ ∧
      3 = (callSites source).length ∧ callSites lowered = [] ∧
        lower target.dialect lowered = .ok ⟨lowered, 0⟩ := by
  have h : lower ({ api := .openGl, version := 330 } : Target).dialect
      "ngl_texvideo(a, ngl_img2d(b, c)) + ngl_tex2d(d, e)".toList =
        .ok ⟨"(ngli_tex2d(a_sampler, ngli_img2d(b_sampler, c))) + ngli_tex2d(d_sampler, e)".toList,
          3⟩ := by
    decide +kernel
  exact ⟨h, lower_complete _ h⟩

end ShaderLoom
