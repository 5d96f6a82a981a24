import ShaderLoom.Proofs.Intrinsic.SpliceParts

/-!
# Both ways of lowering agree

`lower` reads every call from the untouched text, while `spliceCalls` reads it from a buffer in
which everything behind its token has been replaced. In a text without comments the two read the
same calls: replacing keeps the nesting, so a call is split into its arguments at the same places
(`Splices.exists_argument`), and the parts of the call in the buffer are what becomes of its parts
in the text (`Splices.exists_readCall`).

They differ in one point. Splicing may find the parenthesis of a call in an expression that has
been put behind its token, where the text had another token. **`lower_eq_ok_iff_spliceCalls`**:
lowering succeeds exactly when splicing does and every token of the text is **called**, and then
both give the same text.
-/

namespace ShaderLoom

open Text

variable {d : Dialect} {s t u b : Text} {a a' first first' : Argument} {call call' : Call}
  {f : Intrinsic} {l : Lowered} {stop : Delimiter}

/-! ## Arguments -/

/-- The parts of the second argument are what becomes of the parts of the first. -/
structure SplicedArgument (d : Dialect) (a a' : Argument) : Prop where
  /-- both end with the same delimiter -/
  stop : a'.stop = a.stop
  /-- the characters before the delimiter -/
  text : Splices d a.text a'.text
  /-- the characters behind it -/
  rest : Splices d a.rest a'.rest

theorem Delimiter.head?_dropWhile (stop : Delimiter) (t : Text) :
    ((stop.char :: t).dropWhile isBlank).head? ≠ some '(' := by
  cases stop with
  | comma => simp [Delimiter.char, isBlank]
  | close => simp [Delimiter.char, isBlank]

theorem Delimiter.apart_cons (stop : Delimiter) (s t : Text) : Apart s (stop.char :: t) :=
  .inr stop.isIdentifier_char

/-- White space behind a text, up to which the text is called. -/
theorem head?_dropWhile_of_white {gap : Text} (hwhite : ∀ c ∈ gap, isWhite c = true) :
    (gap.dropWhile isBlank).head? ≠ some '(' := by
  intro hhead
  have hmem := (List.dropWhile_sublist isBlank).subset (List.mem_of_head? hhead)
  have hparen := hwhite '(' hmem
  revert hparen
  decide

theorem beginsIdentifier_of_white {gap : Text} (hwhite : ∀ c ∈ gap, isWhite c = true) :
    beginsIdentifier gap = false := by
  cases gap with
  | nil => rfl
  | cons c gap => exact isIdentifier_of_isWhite (hwhite c (List.mem_cons_self ..))

theorem called_trimEnd_iff : Called (trimEnd t) ↔ Called t := by
  obtain ⟨gap, he, hwhite⟩ := exists_trimEnd t
  have hgap := (isSpacing_of_white hwhite).called
  conv_rhs => rw [he, called_append_iff (.inr (beginsIdentifier_of_white hwhite))
    (head?_dropWhile_of_white hwhite)]
  exact (and_iff_left hgap).symm

theorem called_dropWhile_iff : Called (t.dropWhile isBlank) ↔ Called t :=
  eachCall_dropWhile_iff (P := fun _ t => (t.dropWhile isBlank).head? = some '(')

theorem called_argument_iff (harg : argument t = .ok a) :
    Called t ↔ Called a.text ∧ Called a.rest := by
  rw [eq_of_readArgument harg, Argument.remainder,
    called_append_iff (a.stop.apart_cons ..) (a.stop.head?_dropWhile _),
    called_cons_of_not a.stop.isIdentifier_char]

theorem called_inside_iff {inside : Text} (hopen : t.dropWhile isBlank = '(' :: inside) :
    Called (inside.dropWhile isBlank) ↔ Called t := by
  rw [called_dropWhile_iff, ← called_dropWhile_iff (t := t), hopen, called_cons_of_not (by decide)]

/-- **The tokens behind a token** are called exactly when those in the parts of its call are. -/
theorem called_readCall_iff (hr : f.readCall t = .ok call) :
    Called t ↔ Called call.texture ∧ Called call.coordinates ∧ Called call.rest := by
  obtain ⟨inside, first, hopen, harg, hc⟩ := readCall_iff.mp hr
  rw [← called_inside_iff hopen, called_argument_iff harg]
  cases hf : f.isVideo with
  | false =>
    obtain ⟨-, -, rfl⟩ := (simpleCall_iff hf).mp hc
    rw [Argument.remainder, called_cons_of_not first.stop.isIdentifier_char, called_trimEnd_iff]
    simp [called_nil]
  | true =>
    obtain ⟨-, -, second, harg₂, -, rfl⟩ := (videoCall_iff hf).mp hc
    rw [called_trimEnd_iff, called_trimEnd_iff, ← called_argument_iff harg₂, called_dropWhile_iff]

/-- **The argument in the buffer** is what becomes of the argument in the text. -/
theorem Splices.exists_argument (hrg : d.rg = "rg" ∨ d.rg = "ra") (h : Splices d t b)
    (ht : Uncommented t) (hcalled : Called t) (harg : argument t = .ok a) :
    ∃ a', argument b = .ok a' ∧ SplicedArgument d a a' := by
  obtain ⟨htext, -⟩ := (called_argument_iff harg).mp hcalled
  obtain ⟨he, hbalanced⟩ := (argument_iff ht).mp harg
  have huncommented := ht.text harg
  rw [he] at h ht
  obtain ⟨x, r, rfl, hx, hr⟩ := h.split hrg ht htext hbalanced a.stop.isIdentifier_char
  obtain ⟨y, hy, rfl⟩ := (splices_cons_iff a.stop.isIdentifier_char).mp hr
  have hxbalanced : Balanced x := (hx.depthAfter_eq hrg huncommented 0).trans hbalanced
  exact ⟨⟨x, a.stop, y⟩, argument_balanced (hx.uncommented hrg huncommented) hxbalanced a.stop y,
    rfl, hx, hy⟩

/-- The buffer has an argument only where the text has one. -/
theorem Splices.exists_argument_of (hrg : d.rg = "rg" ∨ d.rg = "ra") (h : Splices d t b)
    (ht : Uncommented t) (harg : argument b = .ok a') : ∃ a, argument t = .ok a := by
  have hdepth := (exists_argument_iff (h.uncommented hrg ht)).mp ⟨a', harg⟩
  rw [h.depthAfter_eq hrg ht] at hdepth
  exact (exists_argument_iff ht).mpr hdepth

/-- An argument list ends in the buffer exactly when it ends in the text. -/
theorem Splices.closeArguments_iff (hrg : d.rg = "rg" ∨ d.rg = "ra") (h : Splices d t b)
    (ht : Uncommented t) (hcalled : Called t) :
    closeArguments stop b = .ok () ↔ closeArguments stop t = .ok () := by
  induction hn : t.length using Nat.strongRecOn generalizing t b stop with
  | ind n ih =>
    subst hn
    cases stop with
    | close => rw [closeArguments_close, closeArguments_close]
    | comma =>
      rw [closeArguments_comma_iff, closeArguments_comma_iff]
      -- behind two arguments that correspond, what is left corresponds and is shorter
      have hbehind {a a' : Argument} (harg : argument t = .ok a) (hs : SplicedArgument d a a') :
          closeArguments a'.stop a'.rest = .ok () ↔ closeArguments a.stop a.rest = .ok () := by
        have hlt := length_of_argument harg
        rw [hs.stop]
        exact ih a.rest.length (by omega) hs.rest (ht.rest harg)
          ((called_argument_iff harg).mp hcalled).2 rfl
      constructor
      · rintro ⟨a', harg', hclose⟩
        obtain ⟨a, harg⟩ := h.exists_argument_of hrg ht harg'
        obtain ⟨x, hx, hs⟩ := h.exists_argument hrg ht hcalled harg
        cases harg'.symm.trans hx
        exact ⟨a, harg, (hbehind harg hs).mp hclose⟩
      · rintro ⟨a, harg, hclose⟩
        obtain ⟨a', harg', hs⟩ := h.exists_argument hrg ht hcalled harg
        exact ⟨a', harg', (hbehind harg hs).mpr hclose⟩

/-- Trimming white space off the end of an argument may wait until its calls are replaced. -/
theorem Splices.trimEnd (hrg : d.rg = "rg" ∨ d.rg = "ra") (h : Splices d t b)
    (ht : Uncommented t) (hcalled : Called t) (hbalanced : Balanced t) :
    Splices d (trimEnd t) (trimEnd b) := by
  obtain ⟨gap, he, hwhite⟩ := exists_trimEnd t
  have hcalled' := called_trimEnd_iff.mpr hcalled
  have h' := h
  have ht' := ht
  rw [he] at h' ht'
  obtain ⟨x, r, rfl, hx, hr⟩ :=
    h'.split hrg ht' hcalled' hbalanced.trimEnd (beginsIdentifier_of_white hwhite)
  obtain rfl := hr.unique (isSpacing_of_white hwhite).splices
  -- what is put in for a call ends in a parenthesis, so no white space comes to the end
  have hink : ∀ c ∈ x.getLast?, isWhite c = false := by
    intro c hc
    rcases hx.getLast? hrg with hlast | hlast
    · exact getLast?_trimEnd t c (hlast ▸ hc)
    · cases hlast.symm.trans hc
      decide
  rw [trimEnd_append_of_all hwhite, trimEnd_of_getLast? hink]
  exact hx

/-! ## Calls -/

/-- The parts of the second call are what becomes of the parts of the first. -/
structure SplicedCall (d : Dialect) (call call' : Call) : Prop where
  /-- the first argument -/
  texture : Splices d call.texture call'.texture
  /-- the coordinates -/
  coordinates : Splices d call.coordinates call'.coordinates
  /-- what the call leaves -/
  rest : Splices d call.rest call'.rest

/-- The texture of a call is that of the text, with its calls replaced. -/
theorem SplicedArgument.texture (hrg : d.rg = "rg" ∨ d.rg = "ra") (hs : SplicedArgument d a a')
    (ht : Uncommented t) (hcalled : Called t) (harg : argument t = .ok a) :
    Splices d (trimEnd a.text) (trimEnd a'.text) :=
  hs.text.trimEnd hrg (ht.text harg) ((called_argument_iff harg).mp hcalled).1
    ((argument_iff ht).mp harg).2

theorem SplicedArgument.exists_completeCall (hrg : d.rg = "rg" ∨ d.rg = "ra")
    (hs : SplicedArgument d first first') (ht : Uncommented t) (hcalled : Called t)
    (harg : argument t = .ok first) (h : f.completeCall first = .ok call) :
    ∃ call', f.completeCall first' = .ok call' ∧ SplicedCall d call call' := by
  have htexture := hs.texture hrg ht hcalled harg
  have hrest := ht.rest harg
  obtain ⟨-, hcalledRest⟩ := (called_argument_iff harg).mp hcalled
  cases hf : f.isVideo with
  | false =>
    obtain ⟨hne, hclose, rfl⟩ := (simpleCall_iff hf).mp h
    refine ⟨_, (simpleCall_iff hf).mpr ⟨mt (htexture.eq_nil_iff hrg).mp hne, ?_, rfl⟩,
      htexture, .nil, ?_⟩
    · rw [hs.stop]
      exact (hs.rest.closeArguments_iff hrg hrest hcalledRest).mpr hclose
    · change Splices d first.remainder first'.remainder
      rw [Argument.remainder, Argument.remainder, hs.stop]
      exact .other first.stop.isIdentifier_char hs.rest
  | true =>
    obtain ⟨hne, hstop, second, harg₂, hclose, rfl⟩ := (videoCall_iff hf).mp h
    have hcalledDrop := called_dropWhile_iff.mpr hcalledRest
    obtain ⟨second', harg₂', hs₂⟩ :=
      (hs.rest.dropWhile hrg).exists_argument hrg hrest.dropWhile hcalledDrop harg₂
    exact ⟨_, (videoCall_iff hf).mpr ⟨mt (htexture.eq_nil_iff hrg).mp hne, hs.stop.trans hstop,
      second', harg₂', hs₂.stop.trans hclose, rfl⟩, htexture,
      hs₂.texture hrg hrest.dropWhile hcalledDrop harg₂, hs₂.rest⟩

theorem SplicedArgument.exists_completeCall_of (hrg : d.rg = "rg" ∨ d.rg = "ra")
    (hs : SplicedArgument d first first') (ht : Uncommented t) (hcalled : Called t)
    (harg : argument t = .ok first) (h : f.completeCall first' = .ok call') :
    ∃ call, f.completeCall first = .ok call := by
  have htexture := hs.texture hrg ht hcalled harg
  have hrest := ht.rest harg
  obtain ⟨-, hcalledRest⟩ := (called_argument_iff harg).mp hcalled
  cases hf : f.isVideo with
  | false =>
    obtain ⟨hne, hclose, -⟩ := (simpleCall_iff hf).mp h
    rw [hs.stop] at hclose
    exact ⟨_, (simpleCall_iff hf).mpr ⟨mt (htexture.eq_nil_iff hrg).mpr hne,
      (hs.rest.closeArguments_iff hrg hrest hcalledRest).mp hclose, rfl⟩⟩
  | true =>
    obtain ⟨hne, hstop, second', harg₂', hclose, -⟩ := (videoCall_iff hf).mp h
    have hdrop := hs.rest.dropWhile hrg
    obtain ⟨second, harg₂⟩ := hdrop.exists_argument_of hrg hrest.dropWhile harg₂'
    obtain ⟨x, hx, hs₂⟩ :=
      hdrop.exists_argument hrg hrest.dropWhile (called_dropWhile_iff.mpr hcalledRest) harg₂
    cases harg₂'.symm.trans hx
    exact ⟨_, (videoCall_iff hf).mpr ⟨mt (htexture.eq_nil_iff hrg).mpr hne,
      hs.stop.symm.trans hstop, second, harg₂, hs₂.stop.symm.trans hclose, rfl⟩⟩

/-- **The call in the buffer** is what becomes of the call in the text. -/
theorem Splices.exists_readCall (hrg : d.rg = "rg" ∨ d.rg = "ra") (h : Splices d t b)
    (ht : Uncommented t) (hcalled : Called t) (hr : f.readCall t = .ok call) :
    ∃ call', f.readCall b = .ok call' ∧ SplicedCall d call call' := by
  obtain ⟨inside, first, hopen, harg, hc⟩ := readCall_iff.mp hr
  obtain ⟨inside', hopen', hinside⟩ := h.inside hrg hopen
  have huncommented := (ht.inside hopen).dropWhile
  have hcalledInside := (called_inside_iff hopen).mpr hcalled
  obtain ⟨first', harg', hs⟩ :=
    (hinside.dropWhile hrg).exists_argument hrg huncommented hcalledInside harg
  obtain ⟨call', hc', hcall⟩ := hs.exists_completeCall hrg huncommented hcalledInside harg hc
  exact ⟨call', readCall_iff.mpr ⟨inside', first', hopen', harg', hc'⟩, hcall⟩

/-- The buffer has a call only where the text has one, if the text has its parenthesis. -/
theorem Splices.exists_readCall_of (hrg : d.rg = "rg" ∨ d.rg = "ra") (h : Splices d t b)
    (ht : Uncommented t) (hcalled : Called t) (hopen : (t.dropWhile isBlank).head? = some '(')
    (hr : f.readCall b = .ok call') : ∃ call, f.readCall t = .ok call := by
  obtain ⟨inside', first', hopen', harg', hc'⟩ := readCall_iff.mp hr
  obtain ⟨inside, hopen⟩ := List.head?_eq_some_iff.mp hopen
  obtain ⟨x, hx, hinside⟩ := h.inside hrg hopen
  rw [hopen'] at hx
  cases hx
  have huncommented := (ht.inside hopen).dropWhile
  have hcalledInside := (called_inside_iff hopen).mpr hcalled
  have hdrop := hinside.dropWhile hrg
  obtain ⟨first, harg⟩ := hdrop.exists_argument_of hrg huncommented harg'
  obtain ⟨y, hy, hs⟩ := hdrop.exists_argument hrg huncommented hcalledInside harg
  cases harg'.symm.trans hy
  obtain ⟨call, hc⟩ := hs.exists_completeCall_of hrg huncommented hcalledInside harg hc'
  exact ⟨call, readCall_iff.mpr ⟨inside, first, hopen, harg, hc⟩⟩

/-! ## Whole texts -/

/-- A text is spliced when the parts of the call in it are. -/
theorem exists_splices_of_readCall (hr : f.readCall t = .ok call) {x y z : Text}
    (hx : Splices d call.texture x) (hy : Splices d call.coordinates y)
    (hz : Splices d call.rest z) : ∃ b, Splices d t b := by
  cases hf : f.isVideo with
  | false =>
    obtain ⟨lead, gap, -, -, he, hlead, hgap, hapart, -⟩ := text_of_simpleCall hf hr
    have hrest := hgap.splices.append hz (hgap.apart _)
    have htexture := hx.append hrest hapart
    rw [he]
    exact ⟨_, hlead.splices.append htexture (hlead.apart _)⟩
  | true =>
    obtain ⟨lead, gap, close, he, hlead, hgap, hclose, hapart, hapart₂⟩ := text_of_videoCall hf hr
    have hrest := hclose.splices.append hz (hclose.apart _)
    have hcoordinates := hy.append hrest (hapart₂ _)
    have hcomma := hgap.splices.append hcoordinates (hgap.apart _)
    have htexture := hx.append hcomma (hapart _)
    rw [he]
    exact ⟨_, hlead.splices.append htexture (hlead.apart _)⟩

/-- **What lowering reads, splicing reads too.** -/
theorem Lowers.splices (hrg : d.rg = "rg" ∨ d.rg = "ra") (h : Lowers d t l)
    (ht : Uncommented t) : Splices d t l.text ∧ Called t := by
  induction h with
  | nil => exact ⟨.nil, called_nil⟩
  | other hc _ ih =>
    obtain ⟨hsplices, hcalled⟩ := ih (uncommented_cons.mp ht).2
    exact ⟨.other hc hsplices, (called_cons_of_not hc).mpr hcalled⟩
  | word hw ho _ ih =>
    obtain ⟨hsplices, hcalled⟩ := ih ht.of_append_right
    exact ⟨.word hw ho hsplices, (called_word_of_none hw ho).mpr hcalled⟩
  | @call w t f call texture coordinates behind hw ho hr _ _ _ ihtexture ihcoordinates ihbehind =>
    have hbehind := ht.of_append_right
    obtain ⟨htexture, hcoordinates, hrest⟩ := uncommented_of_readCall hbehind hr
    -- the parts are spliced one by one, so the text behind the token is spliced, and the call in
    -- its buffer is made of the spliced parts
    obtain ⟨hx, hcx⟩ := ihtexture htexture
    obtain ⟨hy, hcy⟩ := ihcoordinates hcoordinates
    obtain ⟨hz, hcz⟩ := ihbehind hrest
    have hcalled := (called_readCall_iff hr).mpr ⟨hcx, hcy, hcz⟩
    obtain ⟨b, hb⟩ := exists_splices_of_readCall hr hx hy hz
    obtain ⟨call', hr', hs⟩ := hb.exists_readCall hrg hbehind hcalled hr
    obtain ⟨inside, first, hopen, -, -⟩ := readCall_iff.mp hr
    refine ⟨?_, (called_word_of_some hw ho).mpr ⟨by rw [hopen]; rfl, hcalled⟩⟩
    rw [Lowered.ofCall, hx.unique hs.texture, hy.unique hs.coordinates, hz.unique hs.rest]
    exact .call hw ho hb hr'

/-- **What splicing reads, lowering reads too**, where every token is called. -/
theorem Splices.exists_lowers (hrg : d.rg = "rg" ∨ d.rg = "ra") (h : Splices d t b)
    (ht : Uncommented t) (hcalled : Called t) : ∃ n, Lowers d t ⟨b, n⟩ := by
  -- the rule for a call speaks of all that is behind the token, and not of the parts of the call,
  -- so the induction is on the length
  induction hn : t.length using Nat.strongRecOn generalizing t b with
  | ind n ih =>
    subst hn
    cases h with
    | nil => exact ⟨0, .nil⟩
    | @other c t b hc hb =>
      obtain ⟨k, hk⟩ := ih t.length (by simp) hb (uncommented_cons.mp ht).2
        ((called_cons_of_not hc).mp hcalled) rfl
      exact ⟨k, .other hc hk⟩
    | @word w t b hw ho hb =>
      have hpos : 0 < w.length := List.length_pos_iff.mpr hw.ne_nil
      obtain ⟨k, hk⟩ := ih t.length (by rw [List.length_append]; omega) hb ht.of_append_right
        ((called_word_of_none hw ho).mp hcalled) rfl
      exact ⟨k, .word hw ho hk⟩
    | @call w t b f call' hw ho hb hr' =>
      obtain ⟨hopen, hcalled⟩ := (called_word_of_some hw ho).mp hcalled
      have hbehind := ht.of_append_right
      obtain ⟨call, hr⟩ := hb.exists_readCall_of hrg hbehind hcalled hopen hr'
      obtain ⟨x, hx, hs⟩ := hb.exists_readCall hrg hbehind hcalled hr
      cases hr'.symm.trans hx
      have hlt := Call.length_lt hr
      rw [List.length_append] at ih
      obtain ⟨htexture, hcoordinates, hrest⟩ := uncommented_of_readCall hbehind hr
      obtain ⟨hcx, hcy, hcz⟩ := (called_readCall_iff hr).mp hcalled
      obtain ⟨i, hi⟩ := ih _ (by omega) hs.texture htexture hcx rfl
      obtain ⟨j, hj⟩ := ih _ (by omega) hs.coordinates hcoordinates hcy rfl
      obtain ⟨k, hk⟩ := ih _ (by omega) hs.rest hrest hcz rfl
      exact ⟨i + j + 1 + k, .call hw ho hr hi hj hk⟩

/-- **Both ways of lowering agree** on texts in which no comment begins: lowering succeeds exactly
when splicing does and every token is followed by blanks and a parenthesis, and then both give the
same text. -/
theorem lower_eq_ok_iff_spliceCalls (target : Target) {source : Text}
    (hline : ¬ ['/', '/'] <:+: source) (hblock : ¬ ['/', '*'] <:+: source) (lowered : Text) :
    (∃ n, lower target.dialect source = .ok ⟨lowered, n⟩) ↔
      spliceCalls target.dialect source = .ok lowered ∧ Called source := by
  have ht : Uncommented source := uncommented_iff.mpr ⟨hline, hblock⟩
  have hrg := target.rg_dialect
  constructor
  · rintro ⟨n, h⟩
    obtain ⟨hsplices, hcalled⟩ := (lowers_of_lower h).splices hrg ht
    exact ⟨hsplices.spliceCalls_eq, hcalled⟩
  · rintro ⟨h, hcalled⟩
    obtain ⟨n, hn⟩ := (splices_of_spliceCalls h).exists_lowers hrg ht hcalled
    exact ⟨n, hn.lower_eq⟩

/-- A call in the texture of a call, with white space around it. -/
theorem lower_eq_ok_iff_spliceCalls_nested :
    let target : Target := { api := .openGl, version := 330 }
    let source := "ngl_tex2d ( ngl_texvideo(a, b) , c)".toList
    let lowered := "ngli_tex2d((ngli_tex2d(a_sampler, b))_sampler, c)".toList
    ¬ ['/', '/'] <:+: source ∧ ¬ ['/', '*'] <:+: source ∧
      (∃ n, lower target.dialect source = .ok ⟨lowered, n⟩) ∧
        spliceCalls target.dialect source = .ok lowered ∧ Called source := by
  have ht : Uncommented "ngl_tex2d ( ngl_texvideo(a, b) , c)".toList := by decide
  obtain ⟨hline, hblock⟩ := uncommented_iff.mp ht
  have h : lower ({ api := .openGl, version := 330 } : Target).dialect
      "ngl_tex2d ( ngl_texvideo(a, b) , c)".toList =
        .ok ⟨"ngli_tex2d((ngli_tex2d(a_sampler, b))_sampler, c)".toList, 2⟩ := by
    decide +kernel
  exact ⟨hline, hblock, ⟨2, h⟩, (lower_eq_ok_iff_spliceCalls _ hline hblock _).mp ⟨2, h⟩⟩

/-- A token without a parenthesis of its own: splicing gives it that of the expression behind. -/
theorem not_lower_eq_ok_of_spliceCalls :
    let target : Target := { api := .openGlEs, version := 300 }
    let source := "ngl_tex2d ngl_texvideo(a, b)".toList
    (¬ ['/', '/'] <:+: source ∧ ¬ ['/', '*'] <:+: source) ∧
      spliceCalls target.dialect source =
        .ok "ngli_tex2d(ngli_tex2d(a_sampler, b)_sampler)".toList ∧
      lower target.dialect source = .error (.missingParenthesis .sample2D) := by
  have ht : Uncommented "ngl_tex2d ngl_texvideo(a, b)".toList := by decide
  refine ⟨uncommented_iff.mp ht, ?_, ?_⟩
  · decide +kernel
  · decide +kernel

end ShaderLoom
