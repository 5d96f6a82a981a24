import ShaderLoom.Proofs.Intrinsic.Completeness
import ShaderLoom.Proofs.Intrinsic.Kept
import ShaderLoom.Proofs.Intrinsic.SpliceShape
import ShaderLoom.Proofs.Text.Occurrence

/-!
# What a lowered call reads

A call may stand inside the arguments of another one. The parts of the outer call are lowered apart,
but a call is read from a part as it is read from the whole text, since what stands behind a call
has no part in reading it. So every call site of a text is replaced by an expression that reads
fields of the texture that the call names, and the identifiers of these fields are identifiers of
the lowered text: **`Lowers.standsIn`**.
-/

namespace ShaderLoom

open Text

variable {d : Dialect} {s t u w : Text} {c : Char} {site : CallSite} {f : Intrinsic} {call : Call}
  {l : Lowered} {pieces : List Piece} {field : TextureField} {rg : String}

/-! ## Sites of a part -/

theorem mem_callSitesFrom :
    site ∈ callSitesFrom (byteSize s) t ↔
      ∃ inner ∈ callSites t, inner.shift (byteSize s) = site := by
  have hsites := callSitesFrom_add (byteSize s) 0 t
  rw [Nat.add_zero, ← callSites_eq] at hsites
  rw [hsites, List.mem_map]

/-- A call site is one of a part of the text, and the text behind it begins in the part. -/
def CallSite.IsWithin (site : CallSite) (t part : Text) : Prop :=
  ∃ inner ∈ callSites part, inner.intrinsic = site.intrinsic ∧
    ∃ more, site.behind t = inner.behind part ++ more

/-- A site is where its token stands. -/
theorem exists_token_of_mem_callSites (h : site ∈ callSites t) :
    ∃ front, t = front ++ (site.intrinsic.token.toList ++ site.behind t) ∧
      site.offset = byteSize front := by
  -- text in front of a site goes into the front
  have hshift : ∀ {s t : Text}, (∀ {site}, site ∈ callSites t →
        ∃ front, t = front ++ (site.intrinsic.token.toList ++ site.behind t) ∧
          site.offset = byteSize front) →
      ∀ {site}, site ∈ callSitesFrom (byteSize s) t →
        ∃ front, s ++ t = front ++ (site.intrinsic.token.toList ++ site.behind (s ++ t)) ∧
          site.offset = byteSize front := by
    intro s t ih site hsite
    obtain ⟨inner, hinner, rfl⟩ := mem_callSitesFrom.mp hsite
    obtain ⟨front, ht, hoffset⟩ := ih hinner
    refine ⟨s ++ front, ?_, ?_⟩
    · rw [CallSite.behind_shift, List.append_assoc]
      exact congrArg (s ++ ·) ht
    · rw [byteSize_append, ← hoffset]
      rfl
  induction t using wordInduction generalizing site with
  | nil =>
    rw [callSites_eq, callSitesFrom_nil] at h
    cases h
  | other c t hc ih =>
    rw [callSites_eq, callSitesFrom_cons_of_not hc, Nat.zero_add] at h
    have hsize : c.utf8Size = byteSize [c] := by simp
    rw [hsize] at h
    exact hshift ih h
  | word w t hw ih =>
    rw [callSites_eq] at h
    cases ho : Intrinsic.ofToken? w with
    | none =>
      rw [callSitesFrom_word_of_none hw ho, Nat.zero_add] at h
      exact hshift ih h
    | some f =>
      rw [callSitesFrom_word_of_some hw ho, Nat.zero_add] at h
      rcases List.mem_cons.mp h with rfl | h
      · refine ⟨[], ?_, rfl⟩
        rw [CallSite.behind, cutAt_zero, eq_token_of_ofToken? ho, cutAt_byteSize]
        rfl
      · exact hshift ih h

theorem CallSite.behind_append (h : site ∈ callSites s) (t : Text) :
    site.behind (s ++ t) = site.behind s ++ t := by
  obtain ⟨front, hs, hoffset⟩ := exists_token_of_mem_callSites h
  have hst : s ++ t = front ++ (site.intrinsic.token.toList ++ (site.behind s ++ t)) := by
    conv_lhs => rw [hs]
    simp
  rw [hst]
  generalize site.behind s = behind
  rw [CallSite.behind, hoffset, cutAt_byteSize, cutAt_byteSize]

namespace CallSite.IsWithin

theorem refl (h : site ∈ callSites t) : site.IsWithin t t :=
  ⟨site, h, rfl, [], (List.append_nil _).symm⟩

theorem shift (h : site.IsWithin t u) (s : Text) :
    (site.shift (byteSize s)).IsWithin (s ++ t) u := by
  obtain ⟨inner, hinner, hf, more, hmore⟩ := h
  exact ⟨inner, hinner, hf, more, by rw [behind_shift, hmore]⟩

/-- What a site of a part is within, the site is within. -/
theorem exists_inner (h : site.IsWithin t s) :
    ∃ inner ∈ callSites s, ∀ part, inner.IsWithin s part → site.IsWithin t part := by
  obtain ⟨inner, hinner, hf, more, hmore⟩ := h
  refine ⟨inner, hinner, fun part hpart => ?_⟩
  obtain ⟨innermost, hinnermost, hf', more', hmore'⟩ := hpart
  refine ⟨innermost, hinnermost, hf'.trans hf, more' ++ more, ?_⟩
  rw [hmore, hmore', List.append_assoc]

/-- **A site of texts that are apart** is one of the first or one of the second. -/
theorem append (h : site.IsWithin t (s ++ u)) (hapart : Apart s u) :
    site.IsWithin t s ∨ site.IsWithin t u := by
  obtain ⟨inner, hinner, htrans⟩ := h.exists_inner
  rw [callSites_eq, callSitesFrom_append hapart, Nat.zero_add] at hinner
  rcases List.mem_append.mp hinner with hinner | hinner
  · exact .inl (htrans s ⟨inner, hinner, rfl, u, behind_append hinner u⟩)
  · obtain ⟨innermost, hinnermost, rfl⟩ := mem_callSitesFrom.mp hinner
    exact .inr (htrans u ((refl hinnermost).shift s))

theorem spacing (h : site.IsWithin t (s ++ u)) (hs : IsSpacing s) : site.IsWithin t u := by
  refine (h.append (hs.apart u)).resolve_left ?_
  rintro ⟨inner, hinner, -⟩
  have hfree : callSites s = [] := callFree_of_all hs
  rw [hfree] at hinner
  cases hinner

end CallSite.IsWithin

/-- **A site behind a token** is one of a part of the call that the token begins. -/
theorem isWithin_readCall (h : f.readCall t = .ok call) (hsite : site ∈ callSites t) :
    site.IsWithin t call.texture ∨ f.isVideo = true ∧ site.IsWithin t call.coordinates ∨
      site.IsWithin t call.rest := by
  have hwithin := CallSite.IsWithin.refl hsite
  cases hf : f.isVideo with
  | false =>
    obtain ⟨lead, gap, -, -, ht, hlead, hgap, hapart, -⟩ := text_of_simpleCall hf h
    nth_rewrite 2 [ht] at hwithin
    rcases (hwithin.spacing hlead).append hapart with htexture | hrest
    · exact .inl htexture
    · exact .inr (.inr (hrest.spacing hgap))
  | true =>
    obtain ⟨lead, gap, close, ht, hlead, hgap, hclose, hapart, hapart₂⟩ := text_of_videoCall hf h
    nth_rewrite 2 [ht] at hwithin
    rcases (hwithin.spacing hlead).append (hapart _) with htexture | hrest
    · exact .inl htexture
    · rcases (hrest.spacing hgap).append (hapart₂ _) with hcoordinates | hrest
      · exact .inr (.inl ⟨rfl, hcoordinates⟩)
      · exact .inr (.inr (hrest.spacing hclose))

/-! ## Fields in an expression -/

theorem mem_fields {field : TextureField} :
    field ∈ Piece.fields pieces ↔ Piece.field field ∈ pieces := by
  rw [Piece.fields, List.mem_filterMap]
  constructor
  · rintro ⟨p, hp, he⟩
    split at he
    · cases he
      exact hp
    · cases he
  · exact fun h => ⟨_, h, rfl⟩

/-- **The identifier of a field** stands between other characters. -/
theorem standsIn_renderPieces {front back : List Piece} {texture coordinates behind : Text}
    (hseams : (front ++ .field field :: back).IsChain Piece.Seam) (hfront : front ≠ [])
    (hback : back = [] → ∃ e ∈ behind.head?, isIdentifier e = false) :
    StandsIn (texture ++ '_' :: field.suffix.toList)
      (renderPieces (front ++ .field field :: back) texture coordinates ++ behind) := by
  obtain ⟨-, hrest, hlast⟩ := List.isChain_append.mp hseams
  obtain ⟨front, p, rfl⟩ := (List.eq_nil_or_concat' front).resolve_left hfront
  -- a field has no seam of its own
  have hp : p.endsWithSeam = true :=
    (hlast p (by simp) (.field field) rfl).resolve_right Bool.false_ne_true
  obtain ⟨c, hc, hcseam⟩ : ∃ c ∈ (p.render texture coordinates).getLast?, isSeam c = true :=
    Piece.exists_getLast?_render hp
  obtain ⟨u, hu⟩ := List.getLast?_eq_some_iff.mp hc
  have hahead : ∃ e ∈ (renderPieces back texture coordinates ++ behind).head?,
      isIdentifier e = false := by
    cases back with
    | nil => exact hback rfl
    | cons q back =>
      have hq : q.beginsWithSeam = true :=
        (List.isChain_cons_cons.mp hrest).1.resolve_left Bool.false_ne_true
      obtain ⟨e, he, heseam⟩ := Piece.exists_head?_render hq texture coordinates
      refine ⟨e, ?_, isIdentifier_of_isSeam heseam⟩
      rw [renderPieces_cons, List.append_assoc, List.head?_append, Option.mem_def.mp he]
      rfl
  obtain ⟨e, he, hident⟩ := hahead
  obtain ⟨v, hv⟩ := List.head?_eq_some_iff.mp he
  refine ⟨renderPieces front texture coordinates ++ u, v, c, e, ?_,
    isIdentifier_of_isSeam hcseam, hident⟩
  have hfield : (Piece.field field).render texture coordinates =
      texture ++ '_' :: field.suffix.toList := rfl
  rw [← hv]
  simp [renderPieces, hu, hfield]

/-- An expression begins with fixed text. -/
theorem Intrinsic.exists_fixed_pieces (f : Intrinsic) (frames : FrameShape) (rg : String) :
    ∃ text pieces, f.pieces frames rg = .fixed text :: pieces := by
  cases f <;> cases frames <;> exact ⟨_, _, rfl⟩

/-- **What a call reads** stands in the text that it is lowered to, in front of what is lowered
behind it. -/
theorem standsIn_ofCall {frames : FrameShape} {texture coordinates behind : Lowered}
    (hrg : rg = "rg" ∨ rg = "ra") (hread : f.readCall t = .ok call)
    (hbehind : Lowers d call.rest behind) (hfield : field ∈ Piece.fields (f.pieces frames rg)) :
    StandsIn (texture.text ++ '_' :: field.suffix.toList)
      (Lowered.ofCall (f.pieces frames rg) texture coordinates behind).text := by
  obtain ⟨front, back, hpieces⟩ := List.append_of_mem (mem_fields.mp hfield)
  have hseams := f.isChain_pieces hrg frames
  rw [Lowered.ofCall, hpieces]
  rw [hpieces] at hseams
  refine standsIn_renderPieces hseams (fun hnil => ?_) fun hnil => ?_
  · obtain ⟨text, pieces, hfixed⟩ := f.exists_fixed_pieces frames rg
    rw [hpieces, hnil] at hfixed
    cases hfixed
  · cases hf : f.isVideo with
    | false =>
      obtain ⟨-, -, stop, rest, -, -, -, -, -, hrest⟩ := text_of_simpleCall hf hread
      have hlower := hbehind.lower_eq
      rw [hrest, lower_cons_of_not stop.isIdentifier_char] at hlower
      obtain ⟨l, -, rfl⟩ := map_eq_ok.mp hlower
      exact ⟨stop.char, rfl, stop.isIdentifier_char⟩
    | true =>
      obtain ⟨pieces, hlast⟩ := f.exists_pieces_of_isVideo frames rg hf
      rw [hpieces, hnil] at hlast
      have hne := (List.append_inj' hlast rfl).2
      cases hne

/-! ## Lowered texts -/

/-- A name is lowered to itself, if it can be lowered at all. -/
theorem Lowers.eq_of_isName (hw : IsName w) (h : Lowers d w l) : l = ⟨w, 0⟩ := by
  have hfirst : FirstWord w [] := ⟨hw.ne_nil, hw.all, rfl⟩
  have hlower := h.lower_eq
  rw [← List.append_nil w] at hlower
  cases ho : Intrinsic.ofToken? w with
  | none =>
    rw [lower_word_of_none hfirst ho, lower_nil] at hlower
    cases hlower
    simp [Lowered.prepend]
  | some f =>
    rw [lower_word_of_some hfirst ho] at hlower
    obtain ⟨call, hread, -⟩ := bind_eq_ok.mp hlower
    exact absurd rfl (ne_nil_of_readCall hread)

/-- A call is read at the site, and if its texture is named by an identifier, the fields of the
texture that the call reads stand in the lowered text. -/
def CallSite.IsLowered (d : Dialect) (t lowered : Text) (site : CallSite) : Prop :=
  ∃ call, site.intrinsic.readCall (site.behind t) = .ok call ∧
    (IsName call.texture → ∀ field ∈ Piece.fields (site.intrinsic.pieces d.frames d.rg),
      StandsIn (call.texture ++ '_' :: field.suffix.toList) lowered)

/-- What is lowered in a part of a text is lowered in the text. -/
theorem CallSite.IsLowered.of_isWithin {lowered part whole : Text} (h : site.IsWithin t part)
    (hpart : ∀ inner ∈ callSites part, inner.IsLowered d part lowered)
    (hwithin : lowered <:+: whole) : site.IsLowered d t whole := by
  obtain ⟨inner, hinner, hf, more, hmore⟩ := h
  obtain ⟨call, hread, hstands⟩ := hpart inner hinner
  rw [hf] at hread hstands
  refine ⟨_, hmore ▸ readCall_append hread more, fun hname field hfield => ?_⟩
  exact (hstands hname field hfield).of_isInfix hwithin

/-- **Every call site is lowered.** -/
theorem Lowers.standsIn (hrg : d.rg = "rg" ∨ d.rg = "ra") (h : Lowers d t l) :
    ∀ site ∈ callSites t, site.IsLowered d t l.text := by
  induction h with
  | nil =>
    intro site hsite
    rw [callSites_eq, callSitesFrom_nil] at hsite
    cases hsite
  | @other c t l hc hl ih =>
    intro site hsite
    have hsize : c.utf8Size = byteSize [c] := by simp
    rw [callSites_eq, callSitesFrom_cons_of_not hc, Nat.zero_add, hsize] at hsite
    obtain ⟨inner, hinner, rfl⟩ := mem_callSitesFrom.mp hsite
    exact .of_isWithin ((CallSite.IsWithin.refl hinner).shift [c]) ih
      (List.suffix_append _ _).isInfix
  | @word w t l hw ho hl ih =>
    intro site hsite
    rw [callSites_eq, callSitesFrom_word_of_none hw ho, Nat.zero_add] at hsite
    obtain ⟨inner, hinner, rfl⟩ := mem_callSitesFrom.mp hsite
    exact .of_isWithin ((CallSite.IsWithin.refl hinner).shift w) ih (List.suffix_append _ _).isInfix
  | @call w t f call texture coordinates behind hw ho hread htexture hcoordinates hbehind
      ihtexture ihcoordinates ihbehind =>
    intro site hsite
    rw [callSites_eq, callSitesFrom_word_of_some hw ho, Nat.zero_add] at hsite
    rcases List.mem_cons.mp hsite with rfl | hsite
    · refine ⟨call, ?_, fun hname field hfield => ?_⟩
      · rw [CallSite.behind, cutAt_zero, eq_token_of_ofToken? ho, cutAt_byteSize]
        exact hread
      · obtain rfl := htexture.eq_of_isName hname
        exact standsIn_ofCall hrg hread hbehind hfield
    · -- another site is one of a part of the call
      obtain ⟨inner, hinner, rfl⟩ := mem_callSitesFrom.mp hsite
      have hexpression : renderPieces (f.pieces d.frames d.rg) texture.text coordinates.text <:+:
          (Lowered.ofCall (f.pieces d.frames d.rg) texture coordinates behind).text :=
        (List.prefix_append _ _).isInfix
      rcases isWithin_readCall hread hinner with hwithin | ⟨hf, hwithin⟩ | hwithin
      · obtain ⟨field, hfield⟩ := (f.places_mem_pieces d.frames d.rg).1
        exact .of_isWithin (hwithin.shift w) ihtexture (((List.prefix_append _ _).isInfix.trans
          (infix_renderPieces hfield texture.text coordinates.text)).trans hexpression)
      · exact .of_isWithin (hwithin.shift w) ihcoordinates ((infix_renderPieces
          ((f.places_mem_pieces d.frames d.rg).2 hf) texture.text coordinates.text).trans
            hexpression)
      · exact .of_isWithin (hwithin.shift w) ihbehind (List.suffix_append _ _).isInfix

end ShaderLoom
