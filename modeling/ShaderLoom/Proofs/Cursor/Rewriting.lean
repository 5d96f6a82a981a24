import ShaderLoom.Cursor.Rewriting
import ShaderLoom.Proofs.Cursor.Call
import ShaderLoom.Proofs.Cursor.Search
import ShaderLoom.Proofs.Intrinsic.Lowering

/-!
# Lowering in place is lowering

Behind each call the cursor stands where `lower` goes on, the call sites in front of it were passed
within the call, and the sites behind it are those of the rest of the text. So the two come to the same
result, call by call (`rewriteSites_append`), and part by part (`rewrite_eq`).

**`preprocess_ne_misstep`**: lowering in place makes no misstep, whatever the text and the dialect.
-/

namespace ShaderLoom.Cursor

open Text

variable {d : Dialect} {s t u w part : Text} {f : Intrinsic} {call : Call} {site : CallSite}
  {sites skipped : List CallSite} {base offset cursor : Nat} {span : Span} {spans : CallSpans}
  {lowerPart : Span → Checked Lowered}

/-! ## The call sites of a part -/

/-- A call site lies within the text. -/
theorem bounds_of_mem_callSitesFrom (h : site ∈ callSitesFrom offset t) :
    offset ≤ site.offset ∧ site.offset < offset + byteSize t := by
  obtain ⟨before, after, rfl, hsite, -, hword⟩ := mem_callSitesFrom_iff.mp h
  have hpos := mt byteSize_eq_zero_iff.mp hword.ne_nil
  rw [byteSize_append, byteSize_append]
  omega

theorem partitionPoint_append {p : CallSite → Bool} (hs : ∀ site ∈ skipped, p site = true)
    (hsites : ∀ site ∈ sites, p site = false) :
    partitionPoint p (skipped ++ sites) = skipped.length := by
  have hnil : sites.takeWhile p = [] := by
    cases sites with
    | nil => rfl
    | cons site sites => rw [List.takeWhile_cons_of_neg (by simp [hsites site])]
  rw [partitionPoint, List.takeWhile_append_of_pos hs, hnil, List.append_nil]

/-- The call sites in front of a position are those of the text in front of it. -/
theorem partitionPoint_callSitesFrom (h : Apart s t) (base : Nat) :
    partitionPoint (fun site => site.offset < base + byteSize s) (callSitesFrom base (s ++ t)) =
      (callSitesFrom base s).length := by
  rw [callSitesFrom_append h]
  refine partitionPoint_append (fun site hsite => ?_) fun site hsite => ?_
  · exact decide_eq_true (bounds_of_mem_callSitesFrom hsite).2
  · exact decide_eq_false (Nat.not_lt.mpr (bounds_of_mem_callSitesFrom hsite).1)

/-- **The call sites within a part** are those of the part. -/
theorem within_callSitesFrom (h : span.Tells t part) (base : Nat) :
    within (callSitesFrom base t) ⟨base + span.start, base + span.stop⟩ =
      .ok (callSitesFrom (base + span.start) part) := by
  obtain ⟨before, after, rfl, rfl, hbefore, hafter⟩ := h
  have hfirst := partitionPoint_callSitesFrom (t := part ++ after) (.inl hbefore) base
  have hlast := partitionPoint_callSitesFrom (s := before ++ part) (.inr hafter) base
  rw [List.append_assoc, byteSize_append] at hlast
  simp only [within, hfirst, hlast]
  rw [callSitesFrom_append (.inl hbefore), if_pos (by simp), ← List.append_assoc,
    callSitesFrom_append (.inr hafter), callSitesFrom_append (.inl hbefore), List.take_left,
    List.drop_left]

/-! ## One call -/

/-- The call sites in front of the cursor are passed over. -/
theorem rewriteSites_skip
    (hskipped : ∀ site ∈ skipped, base ≤ site.offset ∧ site.offset < base + cursor)
    (sites : List CallSite) :
    rewriteSites d lowerPart t base cursor (skipped ++ sites) =
      rewriteSites d lowerPart t base cursor sites := by
  induction skipped with
  | nil => rfl
  | cons site skipped ih =>
    obtain ⟨hle, hlt⟩ := hskipped site (List.mem_cons_self ..)
    obtain ⟨n, hn⟩ := Nat.exists_eq_add_of_le hle
    have hcursor : n < cursor := by omega
    rw [List.cons_append, rewriteSites, hn, difference_add]
    simp only [bind, Except.bind, if_pos hcursor]
    exact ih fun other hother => hskipped other (List.mem_cons_of_mem site hother)

theorem replacement_simple (hf : f.isVideo = false) (texture : Text) :
    replacement d f texture none = .ok (renderPieces (f.pieces d.frames d.rg) texture []) := by
  obtain ⟨internal, hinternal⟩ := Option.isSome_iff_exists.mp (isVideo_eq_false_iff.mp hf)
  simp only [replacement, Intrinsic.pieces, hinternal, renderPieces, List.flatMap_cons,
    List.flatMap_nil, Piece.render, String.toList_append, List.append_nil, List.append_assoc]
  rfl

theorem replacement_video (hf : f.isVideo = true) (texture coordinates : Text) :
    replacement d f texture (some coordinates) =
      .ok (renderPieces (f.pieces d.frames d.rg) texture coordinates) := by
  rw [Intrinsic.isVideo, Option.isNone_iff_eq_none] at hf
  rw [replacement, Intrinsic.pieces, hf]

/-- The parts of calls in the text are lowered, wherever they stand. -/
def LowersParts (d : Dialect) (t : Text) (lowerPart : Span → Checked Lowered) : Prop :=
  ∀ span part, Span.Tells t span part → part.length < t.length →
    lowerPart span = .ofReading (lower d part)

/-- **A call is replaced** by what its lowered parts make of it. -/
theorem replaceCall_eq (hparts : LowersParts d t lowerPart) (htell : spans.Tell t f call)
    (htexture : call.texture.length < t.length) (hcoordinates : call.coordinates.length < t.length) :
    replaceCall d lowerPart f spans = Checked.ofReading (do
      let texture ← lower d call.texture
      let coordinates ← lower d call.coordinates
      pure ⟨renderPieces (f.pieces d.frames d.rg) texture.text coordinates.text,
        texture.calls + coordinates.calls + 1⟩) := by
  have htells := htell.coordinates
  rw [replaceCall, hparts _ _ htell.texture htexture]
  cases lower d call.texture with
  | error fault => rfl
  | ok texture =>
    cases hspan : spans.coordinates? with
    | none =>
      rw [hspan] at htells
      obtain ⟨hf, hnil⟩ := htells
      rw [hnil, lower_nil, Option.mapM_none]
      simp only [bind, Except.bind, Checked.ofReading, Except.mapError, pure, Except.pure,
        Option.map_none, replacement_simple hf]
      rfl
    | some span =>
      rw [hspan] at htells
      obtain ⟨hf, hspan⟩ := htells
      rw [Option.mapM_some, hparts _ _ hspan hcoordinates]
      cases lower d call.coordinates with
      | error fault => rfl
      | ok coordinates =>
        simp only [bind, Except.bind, Checked.ofReading, Except.mapError, pure, Except.pure,
          Functor.map, Except.map, Option.map_some, replacement_video hf]
        rfl

/-! ## The whole text -/

/-- The call that comes next, with the pending text in front of it. -/
theorem rewriteSites_cons {done pending : Text} (ht : t = done ++ (pending ++ u)) (f : Intrinsic)
    (sites : List CallSite) (base : Nat) :
    rewriteSites d lowerPart t base (byteSize done)
        (⟨f, base + byteSize (done ++ pending)⟩ :: sites) = (do
      let call ← callSpans t (byteSize (done ++ pending)) f
      let replaced ← replaceCall d lowerPart f call
      let rest ← rewriteSites d lowerPart t base call.stop sites
      pure ⟨pending ++ (replaced.text ++ rest.text), replaced.calls + rest.calls⟩) := by
  have hcursor : ¬byteSize (done ++ pending) < byteSize done := by
    rw [byteSize_append]
    omega
  have huntouched := slice_append done pending u
  rw [← byteSize_append, ← ht] at huntouched
  rw [rewriteSites, difference_add]
  simp only [bind, Except.bind, if_neg hcursor, huntouched]

/-- The call sites in what the call took up are passed over. -/
theorem rewriteSites_consumed {front consumed : Text} (h : Apart (front ++ consumed) u) :
    rewriteSites d lowerPart t base (byteSize (front ++ consumed))
        (callSitesFrom (base + byteSize front) (consumed ++ u)) =
      rewriteSites d lowerPart t base (byteSize (front ++ consumed))
        (callSitesFrom (base + byteSize (front ++ consumed)) u) := by
  have hapart : Apart consumed u := by
    by_cases hnil : consumed = []
    · rw [hnil]
      exact apart_nil_left
    · exact h.of_append_left hnil
  rw [callSitesFrom_append hapart, rewriteSites_skip, byteSize_append, Nat.add_assoc]
  intro site hsite
  have hbounds := bounds_of_mem_callSitesFrom hsite
  rw [byteSize_append]
  omega

theorem ofReading_map_prepend (r : Except CallFault Lowered) (s t : Text) :
    Checked.ofReading ((r.map (Lowered.prepend t)).map (Lowered.prepend s)) =
      .ofReading (r.map (Lowered.prepend (s ++ t))) := by
  cases r with
  | error fault => rfl
  | ok l => simp only [Except.map, Lowered.prepend, List.append_assoc]

theorem map_prepend_nil (r : Except CallFault Lowered) : r.map (Lowered.prepend []) = r := by
  cases r <;> rfl

/-- The text behind a call is the end of the text behind its token. -/
theorem exists_consumed {before : Text} (ht : s ++ u = before ++ call.rest)
    (hread : f.readCall u = .ok call) :
    ∃ consumed, before = s ++ consumed ∧ u = consumed ++ call.rest := by
  obtain ⟨consumed, hbefore, hu⟩ | ⟨consumed, rfl, hrest⟩ := List.append_eq_append_iff.mp ht
  · exact ⟨consumed, hbefore, hu⟩
  · have hlt := Call.length_lt hread
    rw [hrest, List.length_append] at hlt
    omega

/-- **In place, a text is lowered** from the cursor on as it is lowered by itself. The text up to the
cursor is done, and the text behind it, up to the sites that are left, is pending. -/
theorem rewriteSites_append (hparts : LowersParts d t lowerPart) (base : Nat) (done pending u : Text)
    (ht : t = done ++ (pending ++ u)) (h : Apart (done ++ pending) u) :
    rewriteSites d lowerPart t base (byteSize done)
        (callSitesFrom (base + byteSize (done ++ pending)) u) =
      .ofReading ((lower d u).map (Lowered.prepend pending)) := by
  induction u using callInduction generalizing done pending with
  | nil =>
    rw [callSitesFrom_nil, rewriteSites, ht, behind_append, lower_nil]
    rfl
  | other c u hc ih =>
    have hapart : Apart (done ++ (pending ++ [c])) u := by
      refine .inl ?_
      rw [← List.append_assoc, endsIdentifier_append_of_ne_nil (by simp)]
      exact endsIdentifier_of_all (by simpa using hc)
    have hrest := ih done (pending ++ [c]) (by rw [ht]; simp) hapart
    rw [callSitesFrom_cons_of_not hc, lower_cons_of_not hc, ofReading_map_prepend, ← hrest,
      ← List.append_assoc, byteSize_append (done ++ pending), byteSize_cons, byteSize_nil,
      Nat.add_zero, Nat.add_assoc]
  | word w u hw ho ih =>
    have hrest := ih done (pending ++ w) (by rw [ht]; simp) (.inr hw.ends)
    rw [callSitesFrom_word_of_none hw ho, lower_word_of_none hw ho, ofReading_map_prepend, ← hrest,
      ← List.append_assoc, byteSize_append (done ++ pending), Nat.add_assoc]
  | call w u f hw ho ih =>
    have ht' : t = done ++ pending ++ (w ++ u) := by rw [ht, List.append_assoc]
    have hspans := callSpans_agree (done ++ pending) u f
    rw [← eq_token_of_ofToken? ho, ← ht'] at hspans
    rw [callSitesFrom_word_of_some hw ho, lower_word_of_some hw ho, rewriteSites_cons ht]
    obtain ⟨fault, hread, hcall⟩ | ⟨call, spans, hread, hcall, htell⟩ := hspans.cases
    · rw [hcall, hread]
      rfl
    · -- the text that the call took up is done then, and nothing is pending behind it
      obtain ⟨before, hbefore, hstop, hapart⟩ := htell.rest
      have hlt := Call.length_lt hread
      have hlength : u.length ≤ t.length := by
        rw [ht']
        simp only [List.length_append]
        omega
      have hsplit : done ++ pending ++ w ++ u = before ++ call.rest := by
        rw [← hbefore, ht', List.append_assoc (done ++ pending)]
      obtain ⟨consumed, rfl, hu⟩ := exists_consumed hsplit hread
      have hrest := (ih call hread).2.2 _ [] hbefore (by rwa [List.append_nil])
      rw [List.append_nil, ← rewriteSites_consumed hapart, ← hstop, ← hu, byteSize_append _ w,
        ← Nat.add_assoc, map_prepend_nil] at hrest
      have hreplaced := replaceCall_eq hparts htell (by omega) (by omega)
      rw [hcall, hread]
      simp only [bind, Except.bind, hreplaced, hrest]
      cases lower d call.texture with
      | error fault => rfl
      | ok texture =>
        cases lower d call.coordinates with
        | error fault => rfl
        | ok coordinates => cases lower d call.rest <;> rfl

/-- **A text is lowered in place** as it is lowered by itself, wherever it stands. -/
theorem rewrite_eq (d : Dialect) (t : Text) (base : Nat) :
    rewrite d t base (callSitesFrom base t) = .ofReading (lower d t) := by
  induction hn : t.length using Nat.strongRecOn generalizing t base with
  | ind n ih =>
    subst hn
    rw [rewrite]
    refine (rewriteSites_append (t := t) ?_ base [] [] t rfl apart_nil_left).trans ?_
    · intro span part htells hlt
      beta_reduce
      rw [htells.slice_eq, within_callSitesFrom htells]
      exact (dif_pos hlt).trans (ih part.length hlt part (base + span.start) rfl)
    · rw [map_prepend_nil]

/-- **Lowering in place is lowering**: there is the same text, or the same fault. -/
theorem preprocess_eq (d : Dialect) (t : Text) :
    preprocess d t = .ofReading ((lower d t).map fun l => ⟨l, (callSites t).length⟩) := by
  have hsearch : search t = .ok (callSites t) := searchFrom_eq apart_nil_left
  rw [preprocess, hsearch]
  simp only [bind, Except.bind, callSites_eq, rewrite_eq]
  cases lower d t <;> rfl

/-- An argument is shorter than the text it stands in. -/
theorem exists_slice_of_tell (htell : spans.Tell t f call)
    (hlt : call.texture.length + call.coordinates.length < t.length) :
    ∀ span ∈ spans.texture :: spans.coordinates?.toList,
      ∃ part, slice t span.start span.stop = .ok part ∧ part.length < t.length := by
  have hcoordinates := htell.coordinates
  intro span hspan
  rcases List.mem_cons.mp hspan with rfl | hspan
  · exact ⟨call.texture, htell.texture.slice_eq, by omega⟩
  · rw [Option.mem_toList] at hspan
    rw [Option.mem_def.mp hspan] at hcoordinates
    exact ⟨call.coordinates, hcoordinates.2.slice_eq, by omega⟩

end ShaderLoom.Cursor
