import ShaderLoom.Proofs.Intrinsic.Argument
import ShaderLoom.Proofs.Intrinsic.Lowering

/-!
# Text that lowering keeps

Calls can begin anywhere in front of a piece of text, and their arguments can reach into it or past
it. A **solid** piece is kept all the same when a statement ends right in front of it: no call
begins in it, no argument ends in it, and nothing of it is trimmed, so it moves as a whole into the
replacement of a call, or stays where it is (**`Lowers.keeps`**).
-/

namespace ShaderLoom

open Text

variable {d : Dialect} {s t u w : Text} {c : Char} {m : Argument.Mode} {n : Nat} {a : Argument}
  {f : Intrinsic} {call : Call} {l : Lowered}

/-! ## Solid text -/

/-- No call begins in the text, no argument and no comment begins or ends in it, it stands on one
line, and nothing can be trimmed off its end. -/
structure IsSolid (s : Text) : Prop where
  /-- there are no calls -/
  callFree : CallFree s
  /-- no comment begins -/
  slash : '/' ∉ s
  /-- no comment ends -/
  star : '*' ∉ s
  /-- no argument ends -/
  balanced : Balanced s
  /-- it stands on one line -/
  feed : '\n' ∉ s
  /-- there is ink at the end -/
  last : ∃ c ∈ s.getLast?, isWhite c = false

/-- Solid text on a line of its own, behind the end of a statement. -/
def behindStatement (s : Text) : Text := ';' :: '\n' :: s

theorem IsSolid.ne_nil (h : IsSolid s) : s ≠ [] := by
  rintro rfl
  obtain ⟨c, hc, -⟩ := h.last
  cases hc

theorem IsSolid.getLast?_ne (h : IsSolid s) : s.getLast? ≠ some '\r' := by
  obtain ⟨c, hc, hwhite⟩ := h.last
  intro he
  rw [hc] at he
  cases he
  exact absurd hwhite (by decide)

theorem IsSolid.getLast?_behindStatement (h : IsSolid s) :
    ∃ c ∈ (behindStatement s).getLast?, isWhite c = false := by
  obtain ⟨c, hc, hwhite⟩ := h.last
  refine ⟨c, ?_, hwhite⟩
  rw [behindStatement, List.getLast?_cons_of_ne_nil (by simp),
    List.getLast?_cons_of_ne_nil h.ne_nil]
  exact hc

/-! ## Reading an argument up to solid text -/

/-- One step through code. -/
theorem readArgument_code_cons (h : ∀ e ∈ t.head?, ¬Opens c e)
    (hread : readArgument (.code n) (c :: t) = .ok a) :
    a = ⟨[], a.stop, t⟩ ∧ c = a.stop.char ∨
      ∃ k b, readArgument (.code k) t = .ok b ∧ a = b.prepend [c] := by
  cases hc : depthStep n c with
  | none =>
    obtain ⟨rfl, hstop⟩ := depthStep_eq_none_iff.mp hc
    obtain ⟨stop, rfl⟩ := Delimiter.exists_char hstop
    rw [readArgument_delimiter] at hread
    cases hread
    exact .inl ⟨rfl, rfl⟩
  | some k =>
    rw [readArgument_cons_of_step h hc] at hread
    obtain ⟨b, hb, rfl⟩ := Argument.map_prepend_eq_ok hread
    exact .inr ⟨k, b, hb, rfl⟩

theorem readArgument_lineComment_cons
    (hread : readArgument (.lineComment n) (c :: t) = .ok a) :
    ∃ m b, readArgument m t = .ok b ∧ a = b.prepend [c] := by
  rw [readArgument] at hread
  split at hread
  · obtain ⟨b, hb, rfl⟩ := Argument.map_prepend_eq_ok hread
    exact ⟨_, b, hb, rfl⟩
  · obtain ⟨b, hb, rfl⟩ := Argument.map_prepend_eq_ok hread
    exact ⟨_, b, hb, rfl⟩

theorem readArgument_blockComment_cons (h : c = '*' → t.head? ≠ some '/')
    (hread : readArgument (.blockComment n) (c :: t) = .ok a) :
    ∃ b, readArgument (.blockComment n) t = .ok b ∧ a = b.prepend [c] := by
  rw [readArgument] at hread
  · obtain ⟨b, hb, rfl⟩ := Argument.map_prepend_eq_ok hread
    exact ⟨b, hb, rfl⟩
  · rintro rest rfl rfl
    exact h rfl rfl

/-- One step in front of a semicolon: reading ends at the first character, or passes it, perhaps
together with the next one. -/
theorem readArgument_step (hread : readArgument m (c :: (u ++ ';' :: w)) = .ok a) :
    a = ⟨[], a.stop, u ++ ';' :: w⟩ ∧ c = a.stop.char ∨
      ∃ lead v k b, c :: u = lead ++ v ∧ lead ≠ [] ∧ readArgument k (v ++ ';' :: w) = .ok b ∧
        a = b.prepend lead := by
  have hhead : ∀ e, (u ++ ';' :: w).head? = some e → e ≠ ';' → ∃ v, u = e :: v := by
    intro e he hne
    cases u with
    | nil => exact absurd (Option.some.inj he).symm hne
    | cons x u => exact ⟨u, by rw [Option.some.inj he]⟩
  cases m with
  | code n =>
    by_cases hopens : ∃ e, (u ++ ';' :: w).head? = some e ∧ Opens c e
    · obtain ⟨e, he, rfl, he'⟩ := hopens
      obtain ⟨v, rfl⟩ := hhead e he (by rcases he' with rfl | rfl <;> decide)
      rcases he' with rfl | rfl
      · rw [List.cons_append, readArgument] at hread
        obtain ⟨b, hb, rfl⟩ := Argument.map_prepend_eq_ok hread
        exact .inr ⟨['/', '/'], v, _, b, rfl, by simp, hb, rfl⟩
      · rw [List.cons_append, readArgument] at hread
        obtain ⟨b, hb, rfl⟩ := Argument.map_prepend_eq_ok hread
        exact .inr ⟨['/', '*'], v, _, b, rfl, by simp, hb, rfl⟩
    · have hstep : ∀ e ∈ (u ++ ';' :: w).head?, ¬Opens c e :=
        fun e he ho => hopens ⟨e, he, ho⟩
      rcases readArgument_code_cons hstep hread with hstop | ⟨k, b, hb, ha⟩
      · exact .inl hstop
      · exact .inr ⟨[c], u, .code k, b, rfl, by simp, hb, ha⟩
  | lineComment n =>
    obtain ⟨k, b, hb, ha⟩ := readArgument_lineComment_cons hread
    exact .inr ⟨[c], u, k, b, rfl, by simp, hb, ha⟩
  | blockComment n =>
    by_cases hends : c = '*' ∧ (u ++ ';' :: w).head? = some '/'
    · obtain ⟨rfl, he⟩ := hends
      obtain ⟨v, rfl⟩ := hhead '/' he (by decide)
      rw [List.cons_append, readArgument] at hread
      obtain ⟨b, hb, rfl⟩ := Argument.map_prepend_eq_ok hread
      exact .inr ⟨['*', '/'], v, _, b, rfl, by simp, hb, rfl⟩
    · obtain ⟨b, hb, ha⟩ := readArgument_blockComment_cons (fun hc he => hends ⟨hc, he⟩) hread
      exact .inr ⟨[c], u, _, b, rfl, by simp, hb, ha⟩

/-- **Reading an argument** ends in front of a semicolon or comes to it in some mode. -/
theorem readArgument_semicolon (hread : readArgument m (u ++ ';' :: w) = .ok a) :
    (∃ v, u = a.text ++ a.stop.char :: v ∧ a.rest = v ++ ';' :: w) ∨
      ∃ k b, readArgument k (';' :: w) = .ok b ∧ a = b.prepend u := by
  -- one step may pass two characters, so the induction is on the length
  induction hn : u.length using Nat.strongRecOn generalizing u m a with
  | ind n ih =>
    subst hn
    cases u with
    | nil => exact .inr ⟨m, a, hread, rfl⟩
    | cons c u =>
      rcases readArgument_step hread with ⟨ha, hc⟩ | ⟨lead, v, k, b, hu, hlead, hb, rfl⟩
      · refine .inl ⟨u, ?_, ?_⟩
        · rw [ha]
          exact congrArg (· :: u) hc
        · rw [ha]
      · have hlt : v.length < (c :: u).length := by
          have hpos := List.length_pos_iff.mpr hlead
          rw [hu, List.length_append]
          omega
        rw [hu]
        rcases ih v.length hlt hb rfl with ⟨v', rfl, hrest⟩ | ⟨k', b', hb', rfl⟩
        · exact .inl ⟨v', by simp [Argument.prepend], hrest⟩
        · exact .inr ⟨k', b', hb', by simp [Argument.prepend]⟩

/-! ## Reading past solid text -/

/-- Solid text is passed in code. -/
theorem readArgument_code_append (hslash : '/' ∉ s) {k : Nat} (hdepth : depthAfter n s = some k)
    (hread : readArgument (.code n) (s ++ t) = .ok a) :
    ∃ b, readArgument (.code k) t = .ok b ∧ a = b.prepend s := by
  induction s generalizing n a with
  | nil =>
    cases hdepth
    exact ⟨a, hread, rfl⟩
  | cons c s ih =>
    rw [depthAfter_cons, Option.bind_eq_some_iff] at hdepth
    obtain ⟨j, hj, hdepth⟩ := hdepth
    have hc : c ≠ '/' := (List.ne_of_not_mem_cons hslash).symm
    rw [List.cons_append,
      readArgument_cons_of_step (fun e _ => not_opens_of_ne hc e) hj] at hread
    obtain ⟨b, hb, rfl⟩ := Argument.map_prepend_eq_ok hread
    obtain ⟨b', hb', rfl⟩ := ih (List.not_mem_of_not_mem_cons hslash) hdepth hb
    exact ⟨b', hb', rfl⟩

/-- Text without a star is passed in a block comment. -/
theorem readArgument_blockComment_append (hstar : '*' ∉ s)
    (hread : readArgument (.blockComment n) (s ++ t) = .ok a) :
    ∃ b, readArgument (.blockComment n) t = .ok b ∧ a = b.prepend s := by
  induction s generalizing a with
  | nil => exact ⟨a, hread, rfl⟩
  | cons c s ih =>
    have hc : c ≠ '*' := (List.ne_of_not_mem_cons hstar).symm
    rw [List.cons_append] at hread
    obtain ⟨b, hb, rfl⟩ := readArgument_blockComment_cons (fun he => absurd he hc) hread
    obtain ⟨b', hb', rfl⟩ := ih (List.not_mem_of_not_mem_cons hstar) hb
    exact ⟨b', hb', rfl⟩

/-- **Solid text is passed** in every mode: the line end in front of it ends a line comment. -/
theorem IsSolid.readArgument (h : IsSolid s)
    (hread : readArgument m (behindStatement s ++ t) = .ok a) :
    ∃ k b, ShaderLoom.readArgument k t = .ok b ∧ a = b.prepend (behindStatement s) := by
  have hdepth : ∀ n, depthAfter n (behindStatement s) = some n := by
    have hflat : Balanced [';', '\n'] := rfl
    intro n
    exact (hflat.depthAfter_append (t := s)).trans (h.balanced.depthAfter_eq n)
  cases m with
  | code n =>
    have hslash : '/' ∉ behindStatement s := by
      simpa [behindStatement] using h.slash
    obtain ⟨b, hb, ha⟩ := readArgument_code_append hslash (hdepth n) hread
    exact ⟨_, b, hb, ha⟩
  | lineComment n =>
    have hread' : ShaderLoom.readArgument (.lineComment n) (';' :: '\n' :: (s ++ t)) = .ok a :=
      hread
    rw [ShaderLoom.readArgument, if_neg (by decide)] at hread'
    obtain ⟨b, hb, rfl⟩ := Argument.map_prepend_eq_ok hread'
    rw [ShaderLoom.readArgument, if_pos (by decide)] at hb
    obtain ⟨b', hb', rfl⟩ := Argument.map_prepend_eq_ok hb
    obtain ⟨b'', hb'', rfl⟩ := readArgument_code_append h.slash (h.balanced.depthAfter_eq n) hb'
    exact ⟨_, b'', hb'', rfl⟩
  | blockComment n =>
    have hstar : '*' ∉ behindStatement s := by
      simpa [behindStatement] using h.star
    obtain ⟨b, hb, ha⟩ := readArgument_blockComment_append hstar hread
    exact ⟨_, b, hb, ha⟩

/-- **Reading an argument** ends in front of solid text or takes it in whole. -/
theorem IsSolid.readArgument_cases (h : IsSolid s)
    (hread : ShaderLoom.readArgument m (u ++ (behindStatement s ++ t)) = .ok a) :
    (∃ v, u = a.text ++ a.stop.char :: v ∧ a.rest = v ++ (behindStatement s ++ t)) ∨
      ∃ v, a.text = u ++ (behindStatement s ++ v) ∧ t = v ++ a.remainder := by
  rcases readArgument_semicolon hread with hfront | ⟨k, b, hb, rfl⟩
  · exact .inl hfront
  · obtain ⟨k', b', hb', rfl⟩ := h.readArgument hb
    refine .inr ⟨b'.text, ?_, eq_of_readArgument hb'⟩
    simp [Argument.prepend]

/-! ## The parts of a call -/

theorem dropWhile_isBlank_semicolon (u w : Text) :
    (u ++ ';' :: w).dropWhile isBlank = u.dropWhile isBlank ++ ';' :: w := by
  rw [List.dropWhile_append]
  split
  · next hnil =>
    rw [List.isEmpty_iff.mp hnil]
    exact List.dropWhile_cons_of_neg (by decide)
  · rfl

/-- What ends with ink is kept when the text behind it is trimmed. -/
theorem trimEnd_append (h : ∃ c ∈ s.getLast?, isWhite c = false) (t : Text) :
    trimEnd (s ++ t) = s ++ trimEnd t := by
  induction t using List.reverseRecOn with
  | nil =>
    obtain ⟨c, hc, hwhite⟩ := h
    have hself : trimEnd s = s := by
      refine trimEnd_of_getLast? fun e he => ?_
      rw [hc] at he
      cases he
      exact hwhite
    rw [List.append_nil, hself]
    exact (List.append_nil s).symm
  | append_singleton t c ih =>
    rw [← List.append_assoc]
    by_cases hc : isWhite c = true
    · have hgap : ∀ e ∈ [c], isWhite e = true := by simpa using hc
      rw [trimEnd_append_of_all hgap, trimEnd_append_of_all hgap, ih]
    · rw [trimEnd_eq, trimEnd_eq, List.rdropWhile_concat_neg _ _ _ hc,
        List.rdropWhile_concat_neg _ _ _ hc, List.append_assoc]

/-- Solid text is not trimmed. -/
theorem IsSolid.trimEnd (h : IsSolid s) (u t : Text) :
    Text.trimEnd (u ++ (behindStatement s ++ t)) =
      u ++ (behindStatement s ++ Text.trimEnd t) := by
  obtain ⟨c, hc, hwhite⟩ := h.getLast?_behindStatement
  rw [← List.append_assoc, trimEnd_append, List.append_assoc]
  exact ⟨c, by rw [List.getLast?_append, hc]; rfl, hwhite⟩

theorem isPrefix_trimEnd (t : Text) : trimEnd t <+: t := List.rdropWhile_prefix _ t

/-- **Solid text stands in one part of a call** that is read in front of it. -/
theorem IsSolid.exists_part (h : IsSolid s)
    (hread : f.readCall (u ++ (behindStatement s ++ t)) = .ok call) :
    ∃ v w, w <+: t ∧ (call.texture = v ++ (behindStatement s ++ w) ∨
      f.isVideo = true ∧ call.coordinates = v ++ (behindStatement s ++ w) ∨
        call.rest = v ++ (behindStatement s ++ w)) := by
  obtain ⟨inside, first, hopen, harg, hcomplete⟩ := readCall_iff.mp hread
  have hsemicolon : ∀ v, v ++ (behindStatement s ++ t) = v ++ ';' :: ('\n' :: (s ++ t)) :=
    fun v => rfl
  -- the opening stands in front of the solid text
  obtain ⟨v, rfl⟩ : ∃ v, inside = v ++ (behindStatement s ++ t) := by
    rw [hsemicolon, dropWhile_isBlank_semicolon] at hopen
    cases hu : u.dropWhile isBlank with
    | nil =>
      rw [hu] at hopen
      exact absurd (List.cons.inj hopen).1 (by decide)
    | cons c v =>
      rw [hu, List.cons_append] at hopen
      exact ⟨v, (List.cons.inj hopen).2.symm⟩
  rw [hsemicolon, dropWhile_isBlank_semicolon, ← hsemicolon] at harg
  rcases h.readArgument_cases harg with ⟨v', hv', hrest⟩ | ⟨v', htext, ht⟩
  · cases hf : f.isVideo with
    | false =>
      obtain ⟨-, -, rfl⟩ := (simpleCall_iff hf).mp hcomplete
      refine ⟨first.stop.char :: v', t, List.prefix_rfl, .inr (.inr ?_)⟩
      rw [Argument.remainder, hrest, List.cons_append]
    | true =>
      obtain ⟨-, -, second, harg', -, rfl⟩ := (videoCall_iff hf).mp hcomplete
      rw [hrest, hsemicolon, dropWhile_isBlank_semicolon, ← hsemicolon] at harg'
      rcases h.readArgument_cases harg' with ⟨v'', -, hrest'⟩ | ⟨v'', htext', ht'⟩
      · exact ⟨v'', t, List.prefix_rfl, .inr (.inr hrest')⟩
      · refine ⟨v'.dropWhile isBlank, Text.trimEnd v'', ?_, .inr (.inl ⟨rfl, ?_⟩)⟩
        · exact (isPrefix_trimEnd v'').trans ⟨_, ht'.symm⟩
        · rw [htext', h.trimEnd]
  · refine ⟨v.dropWhile isBlank, Text.trimEnd v', (isPrefix_trimEnd v').trans ⟨_, ht.symm⟩, .inl ?_⟩
    have htexture : call.texture = Text.trimEnd first.text := by
      cases hf : f.isVideo with
      | false =>
        obtain ⟨-, -, rfl⟩ := (simpleCall_iff hf).mp hcomplete
        rfl
      | true =>
        obtain ⟨-, -, second, -, -, rfl⟩ := (videoCall_iff hf).mp hcomplete
        rfl
    rw [htexture, htext, h.trimEnd]

/-! ## Replacements -/

/-- **Every replacement has a place** for the texture, and that of a video call has one for the
coordinates. -/
theorem Intrinsic.places_mem_pieces (f : Intrinsic) (shape : FrameShape) (rg : String) :
    (∃ field, Piece.field field ∈ f.pieces shape rg) ∧
      (f.isVideo = true → Piece.coordinates ∈ f.pieces shape rg) := by
  cases f <;> cases shape <;>
    simp [isVideo, pieces, internalName?, FrameShape.samplePieces, FrameShape.mode?,
      FrameShape.framePieces, FrameShape.ordinaryPieces]

/-- A piece stands in the replacement. -/
theorem infix_renderPieces {pieces : List Piece} {p : Piece} (hp : p ∈ pieces)
    (texture coordinates : Text) :
    p.render texture coordinates <:+: renderPieces pieces texture coordinates := by
  obtain ⟨front, back, rfl⟩ := List.append_of_mem hp
  rw [renderPieces, List.flatMap_append, List.flatMap_cons]
  exact ⟨_, _, List.append_assoc ..⟩

/-! ## Whole texts -/

/-- Solid text at the start of a text stays there. -/
theorem IsSolid.prefix_of_lower (h : IsSolid s) (ht : beginsIdentifier t = false)
    (hl : lower d (s ++ t) = .ok l) : s <+: l.text := by
  rw [lower_append_of_callFree h.callFree (.inr ht)] at hl
  obtain ⟨l', -, rfl⟩ := map_eq_ok.mp hl
  exact List.prefix_append ..

theorem beginsIdentifier_of_prefix (h : w <+: t) (ht : beginsIdentifier t = false) :
    beginsIdentifier w = false := by
  cases w with
  | nil => rfl
  | cons c w =>
    obtain ⟨v, rfl⟩ := h
    exact ht

/-- A first word stands in front of a semicolon. -/
theorem FirstWord.exists_append (hw : FirstWord w t) (he : w ++ t = u ++ ';' :: s) :
    ∃ v, u = w ++ v ∧ t = v ++ ';' :: s := by
  rcases List.append_eq_append_iff.mp he with ⟨v, rfl, ht⟩ | ⟨v, rfl, hs⟩
  · exact ⟨v, rfl, ht⟩
  · cases v with
    | nil => exact ⟨[], by simp, by simpa using hs.symm⟩
    | cons c v =>
      have hc : isIdentifier c = true := hw.all c (by simp)
      rw [← (List.cons.inj hs).1] at hc
      exact absurd hc (by decide)

/-- **Lowering keeps solid text** behind the end of a statement, wherever it stands. -/
theorem Lowers.keeps (h : IsSolid s) (ht : Text.beginsIdentifier t = false)
    (hl : Lowers d (u ++ (behindStatement s ++ t)) l) : behindStatement s <:+: l.text := by
  generalize hT : u ++ (behindStatement s ++ t) = T at hl
  induction hl generalizing u t with
  | nil => simp [behindStatement] at hT
  | @other c T' l hc hl ih =>
    cases u with
    | nil =>
      have hfree : CallFree ('\n' :: s) := (callFree_cons_of_not (by decide)).mpr h.callFree
      obtain ⟨rfl, rfl⟩ := List.cons.inj hT
      have hlower := hl.lower_eq
      change lower d (('\n' :: s) ++ t) = _ at hlower
      rw [lower_append_of_callFree hfree (.inr ht)] at hlower
      obtain ⟨l', -, rfl⟩ := map_eq_ok.mp hlower
      exact (List.prefix_append _ _).isInfix
    | cons e u =>
      obtain ⟨-, rfl⟩ := List.cons.inj hT
      exact (ih ht rfl).trans (List.suffix_append _ _).isInfix
  | word hw ho hl ih =>
    obtain ⟨v, -, rfl⟩ := FirstWord.exists_append hw hT.symm
    exact (ih ht rfl).trans (List.suffix_append _ _).isInfix
  | @call w T' f call texture coordinates behind hw ho hr _ _ _ ihtexture ihcoordinates ihbehind =>
    obtain ⟨v, -, rfl⟩ := FirstWord.exists_append hw hT.symm
    obtain ⟨v', w', hprefix, hpart⟩ := h.exists_part hr
    have ht' := beginsIdentifier_of_prefix hprefix ht
    rw [Lowered.ofCall]
    rcases hpart with hpart | ⟨hf, hpart⟩ | hpart
    · obtain ⟨field, hfield⟩ := (f.places_mem_pieces d.frames d.rg).1
      have hwithin := infix_renderPieces hfield texture.text coordinates.text
      exact (((ihtexture ht' hpart.symm).trans (List.prefix_append _ _).isInfix).trans
        hwithin).trans (List.prefix_append _ _).isInfix
    · have hwithin := infix_renderPieces ((f.places_mem_pieces d.frames d.rg).2 hf) texture.text
        coordinates.text
      exact ((ihcoordinates ht' hpart.symm).trans hwithin).trans (List.prefix_append _ _).isInfix
    · exact (ihbehind ht' hpart.symm).trans (List.suffix_append _ _).isInfix

end ShaderLoom
