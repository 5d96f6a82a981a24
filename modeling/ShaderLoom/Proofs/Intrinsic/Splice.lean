import ShaderLoom.Proofs.Intrinsic.Lowering

/-!
# Replacing calls from the last to the first

Another way to lower a text replaces one call at a time, in a buffer that begins as the text. The
call sites of the text are taken from the last to the first, so the offsets in front of a call still
hold in the buffer, and the arguments of a call hold no calls any more when its turn comes
(`spliceCalls`).

Seen from the front, this too follows the identifiers of the text. `Splices d t b` says by four
rules, those of `Lowers`, that the buffer `b` is what becomes of `t`; but where `Lowers` reads a
call from the text, `Splices` reads it from the buffer, in which everything behind has already been
replaced. `spliceCalls_eq_ok_iff` says that the rules derive nothing else.
-/

namespace ShaderLoom

open Text

variable {d : Dialect} {s t u b w : Text} {c : Char} {f : Intrinsic}

/-! ## Cutting at a byte -/

/-- The first `n` bytes of a text, and what follows them. A character that the cut goes through
counts to the first part. -/
def Text.cutAt (n : Nat) : Text → Text × Text
  | [] => ([], [])
  | c :: t =>
    if n = 0 then ([], c :: t)
    else (c :: (cutAt (n - c.utf8Size) t).1, (cutAt (n - c.utf8Size) t).2)

theorem Text.cutAt_zero (t : Text) : cutAt 0 t = ([], t) := by
  cases t with
  | nil => rfl
  | cons c t => rfl

theorem Text.cutAt_add (s t : Text) (n : Nat) :
    cutAt (byteSize s + n) (s ++ t) = (s ++ (cutAt n t).1, (cutAt n t).2) := by
  induction s with
  | nil => simp
  | cons c s ih =>
    have hpos := c.utf8Size_pos
    have hsub : byteSize (c :: s) + n - c.utf8Size = byteSize s + n := by
      rw [byteSize_cons]
      omega
    rw [List.cons_append, cutAt, if_neg (by rw [byteSize_cons]; omega), hsub, ih]
    rfl

theorem Text.cutAt_byteSize (s t : Text) : cutAt (byteSize s) (s ++ t) = (s, t) := by
  have h := cutAt_add s t 0
  rwa [cutAt_zero, List.append_nil] at h

/-! ## Splicing -/

/-- What stands behind the token of a call site. -/
def CallSite.behind (site : CallSite) (t : Text) : Text :=
  (cutAt (byteSize site.intrinsic.token.toList) (cutAt site.offset t).2).2

/-- Replace the call whose token stands in front of a text. -/
def Intrinsic.splice (d : Dialect) (f : Intrinsic) (t : Text) : Except CallFault Text :=
  (f.readCall t).map fun call =>
    renderPieces (f.pieces d.frames d.rg) call.texture call.coordinates ++ call.rest

/-- Replace the call that the buffer has at a site. -/
def spliceCall (d : Dialect) (site : CallSite) (buffer : Text) : Except CallFault Text :=
  (site.intrinsic.splice d (site.behind buffer)).map ((cutAt site.offset buffer).1 ++ ·)

/-- Replace the calls of a text, from the last to the first. -/
def spliceCalls (d : Dialect) (source : Text) : Except CallFault Text :=
  (callSites source).foldrM (spliceCall d) source

theorem Intrinsic.splice_eq_ok_iff :
    f.splice d t = .ok b ↔ ∃ call, f.readCall t = .ok call ∧
      b = renderPieces (f.pieces d.frames d.rg) call.texture call.coordinates ++ call.rest := by
  rw [Intrinsic.splice, map_eq_ok]
  constructor
  · rintro ⟨call, hr, rfl⟩
    exact ⟨call, hr, rfl⟩
  · rintro ⟨call, hr, rfl⟩
    exact ⟨call, hr, rfl⟩

theorem CallSite.behind_shift (site : CallSite) (s b : Text) :
    (site.shift (byteSize s)).behind (s ++ b) = site.behind b := by
  simp only [behind, shift, cutAt_add]

/-- Text in front of everything moves a site, and changes nothing else. -/
theorem spliceCall_shift (site : CallSite) (s b : Text) :
    spliceCall d (site.shift (byteSize s)) (s ++ b) = (spliceCall d site b).map (s ++ ·) := by
  have hcut :
      (cutAt (site.shift (byteSize s)).offset (s ++ b)).1 = s ++ (cutAt site.offset b).1 := by
    simp only [CallSite.shift, cutAt_add]
  rw [spliceCall, CallSite.behind_shift, hcut, spliceCall]
  change (site.intrinsic.splice d (site.behind b)).map _ = _
  cases site.intrinsic.splice d (site.behind b) with
  | error fault => rfl
  | ok r => exact congrArg Except.ok (List.append_assoc ..)

theorem foldrM_spliceCall_shift (sites : List CallSite) (s b : Text) :
    (sites.map (CallSite.shift (byteSize s))).foldrM (spliceCall d) (s ++ b) =
      (sites.foldrM (spliceCall d) b).map (s ++ ·) := by
  induction sites with
  | nil => rfl
  | cons site sites ih =>
    rw [List.map_cons, List.foldrM_cons, ih, List.foldrM_cons]
    cases sites.foldrM (spliceCall d) b with
    | error fault => rfl
    | ok r => exact spliceCall_shift site s r

/-- **Only what stands behind a text** decides how its calls are replaced. -/
theorem foldrM_spliceCall_from (s t : Text) :
    (callSitesFrom (byteSize s) t).foldrM (spliceCall d) (s ++ t) =
      (spliceCalls d t).map (s ++ ·) := by
  have hsites := callSitesFrom_add (byteSize s) 0 t
  rw [Nat.add_zero] at hsites
  rw [hsites, foldrM_spliceCall_shift]
  rfl

/-! ## Equations -/

theorem spliceCalls_nil : spliceCalls d [] = .ok [] := by
  rw [spliceCalls, callSites_eq, callSitesFrom_nil]
  rfl

theorem spliceCalls_cons_of_not (h : isIdentifier c = false) :
    spliceCalls d (c :: t) = (spliceCalls d t).map (c :: ·) := by
  rw [spliceCalls, callSites_eq, callSitesFrom_cons_of_not h]
  have hsize : 0 + c.utf8Size = byteSize [c] := by simp
  rw [hsize]
  exact foldrM_spliceCall_from [c] t

theorem spliceCalls_word_of_none (h : FirstWord w t) (hw : Intrinsic.ofToken? w = none) :
    spliceCalls d (w ++ t) = (spliceCalls d t).map (w ++ ·) := by
  rw [spliceCalls, callSites_eq, callSitesFrom_word_of_none h hw, Nat.zero_add]
  exact foldrM_spliceCall_from w t

theorem spliceCalls_word_of_some (h : FirstWord w t) (hw : Intrinsic.ofToken? w = some f) :
    spliceCalls d (w ++ t) = (do let b ← spliceCalls d t; f.splice d b) := by
  rw [spliceCalls, callSites_eq, callSitesFrom_word_of_some h hw, Nat.zero_add, List.foldrM_cons,
    foldrM_spliceCall_from]
  cases spliceCalls d t with
  | error fault => rfl
  | ok b =>
    have hbehind : (⟨f, 0⟩ : CallSite).behind (w ++ b) = b := by
      rw [CallSite.behind, cutAt_zero, eq_token_of_ofToken? hw, cutAt_byteSize]
    -- the token stands at the beginning of the buffer
    change spliceCall d ⟨f, 0⟩ (w ++ b) = f.splice d b
    rw [spliceCall, hbehind, cutAt_zero]
    change (f.splice d b).map ([] ++ ·) = _
    cases f.splice d b <;> rfl

/-! ## Rules -/

/-- The rules by which a text becomes a buffer without calls. -/
inductive Splices (d : Dialect) : Text → Text → Prop
  /-- nothing is left -/
  | nil : Splices d [] []
  /-- a character outside identifiers is kept -/
  | other {c : Char} {t b : Text} (hc : isIdentifier c = false) (ht : Splices d t b) :
    Splices d (c :: t) (c :: b)
  /-- an identifier that is no token is kept -/
  | word {w t b : Text} (hw : FirstWord w t) (ho : Intrinsic.ofToken? w = none)
    (ht : Splices d t b) :
    Splices d (w ++ t) (w ++ b)
  /-- a call is read from the buffer, and replaced -/
  | call {w t b : Text} {f : Intrinsic} {call : Call} (hw : FirstWord w t)
    (ho : Intrinsic.ofToken? w = some f) (ht : Splices d t b) (hr : f.readCall b = .ok call) :
    Splices d (w ++ t)
      (renderPieces (f.pieces d.frames d.rg) call.texture call.coordinates ++ call.rest)

theorem Splices.spliceCalls_eq (h : Splices d t b) : spliceCalls d t = .ok b := by
  induction h with
  | nil => exact spliceCalls_nil
  | other hc _ ih =>
    rw [spliceCalls_cons_of_not hc, ih]
    rfl
  | word hw ho _ ih =>
    rw [spliceCalls_word_of_none hw ho, ih]
    rfl
  | call hw ho _ hr ih =>
    rw [spliceCalls_word_of_some hw ho, ih]
    exact Intrinsic.splice_eq_ok_iff.mpr ⟨_, hr, rfl⟩

theorem splices_of_spliceCalls (h : spliceCalls d t = .ok b) : Splices d t b := by
  induction t using wordInduction generalizing b with
  | nil =>
    rw [spliceCalls_nil] at h
    cases h
    exact .nil
  | other c t hc ih =>
    rw [spliceCalls_cons_of_not hc, map_eq_ok] at h
    obtain ⟨b, hb, rfl⟩ := h
    exact .other hc (ih hb)
  | word w t hw ih =>
    cases ho : Intrinsic.ofToken? w with
    | none =>
      rw [spliceCalls_word_of_none hw ho, map_eq_ok] at h
      obtain ⟨b, hb, rfl⟩ := h
      exact .word hw ho (ih hb)
    | some f =>
      rw [spliceCalls_word_of_some hw ho, bind_eq_ok] at h
      obtain ⟨b, hb, hs⟩ := h
      obtain ⟨call, hr, rfl⟩ := Intrinsic.splice_eq_ok_iff.mp hs
      exact .call hw ho (ih hb) hr

/-- **Splicing is derived by the rules**, and by nothing else. -/
theorem spliceCalls_eq_ok_iff : spliceCalls d t = .ok b ↔ Splices d t b :=
  ⟨splices_of_spliceCalls, Splices.spliceCalls_eq⟩

/-- What a text becomes is settled by the text. -/
theorem Splices.unique (h : Splices d t b) {b' : Text} (h' : Splices d t b') : b = b' :=
  Except.ok.inj (h.spliceCalls_eq.symm.trans h'.spliceCalls_eq)

/-! ## The rules backwards -/

theorem splices_cons_iff (hc : isIdentifier c = false) :
    Splices d (c :: t) b ↔ ∃ b', Splices d t b' ∧ b = c :: b' := by
  rw [← spliceCalls_eq_ok_iff, spliceCalls_cons_of_not hc, map_eq_ok]
  exact exists_congr fun b' => and_congr spliceCalls_eq_ok_iff eq_comm

theorem splices_word_of_none_iff (hw : FirstWord w t) (ho : Intrinsic.ofToken? w = none) :
    Splices d (w ++ t) b ↔ ∃ b', Splices d t b' ∧ b = w ++ b' := by
  rw [← spliceCalls_eq_ok_iff, spliceCalls_word_of_none hw ho, map_eq_ok]
  exact exists_congr fun b' => and_congr spliceCalls_eq_ok_iff eq_comm

theorem splices_word_of_some_iff (hw : FirstWord w t) (ho : Intrinsic.ofToken? w = some f) :
    Splices d (w ++ t) b ↔ ∃ b' call, Splices d t b' ∧ f.readCall b' = .ok call ∧
      b = renderPieces (f.pieces d.frames d.rg) call.texture call.coordinates ++ call.rest := by
  simp only [← spliceCalls_eq_ok_iff, spliceCalls_word_of_some hw ho, bind_eq_ok,
    Intrinsic.splice_eq_ok_iff]
  constructor
  · rintro ⟨b', hb, call, hr, rfl⟩
    exact ⟨b', call, hb, hr, rfl⟩
  · rintro ⟨b', call, hb, hr, rfl⟩
    exact ⟨b', hb, call, hr, rfl⟩

/-! ## Every call site -/

/-- At every call site of the text, `P` holds of the intrinsic and of what stands behind its
token. -/
def EachCall (P : Intrinsic → Text → Prop) (t : Text) : Prop :=
  ∀ site ∈ callSites t, P site.intrinsic (site.behind t)

section

variable {P : Intrinsic → Text → Prop}

theorem forall_callSitesFrom_iff (s t : Text) :
    (∀ site ∈ callSitesFrom (byteSize s) t, P site.intrinsic (site.behind (s ++ t))) ↔
      EachCall P t := by
  have hsites := callSitesFrom_add (byteSize s) 0 t
  rw [Nat.add_zero] at hsites
  rw [hsites]
  simp only [List.forall_mem_map, CallSite.behind_shift]
  rfl

theorem eachCall_nil : EachCall P [] := by
  intro site hsite
  rw [callSites_eq, callSitesFrom_nil] at hsite
  cases hsite

theorem eachCall_cons_of_not (h : isIdentifier c = false) :
    EachCall P (c :: t) ↔ EachCall P t := by
  have hsize : 0 + c.utf8Size = byteSize [c] := by simp
  rw [EachCall, callSites_eq, callSitesFrom_cons_of_not h, hsize]
  exact forall_callSitesFrom_iff [c] t

theorem eachCall_word_of_none (h : FirstWord w t) (hw : Intrinsic.ofToken? w = none) :
    EachCall P (w ++ t) ↔ EachCall P t := by
  rw [EachCall, callSites_eq, callSitesFrom_word_of_none h hw, Nat.zero_add]
  exact forall_callSitesFrom_iff w t

theorem eachCall_word_of_some (h : FirstWord w t) (hw : Intrinsic.ofToken? w = some f) :
    EachCall P (w ++ t) ↔ P f t ∧ EachCall P t := by
  rw [EachCall, callSites_eq, callSitesFrom_word_of_some h hw, Nat.zero_add, List.forall_mem_cons,
    forall_callSitesFrom_iff]
  have hbehind : (⟨f, 0⟩ : CallSite).behind (w ++ t) = t := by
    rw [CallSite.behind, cutAt_zero, eq_token_of_ofToken? hw, cutAt_byteSize]
  rw [hbehind]

/-- Text without identifiers in front has no part in it. -/
theorem eachCall_append_of_all (h : ∀ c ∈ s, isIdentifier c = false) :
    EachCall P (s ++ t) ↔ EachCall P t := by
  induction s with
  | nil => rfl
  | cons c s ih =>
    rw [List.cons_append, eachCall_cons_of_not (h c (List.mem_cons_self ..))]
    exact ih fun e he => h e (List.mem_cons_of_mem c he)

theorem eachCall_dropWhile_iff : EachCall P (t.dropWhile isBlank) ↔ EachCall P t := by
  obtain ⟨blanks, ht, hblanks⟩ := exists_blanks t
  conv_rhs => rw [ht, eachCall_append_of_all fun c hc => isIdentifier_of_isBlank (hblanks c hc)]

end

/-! ## Called texts -/

/-- Every token of the text is followed by blanks and an opening parenthesis. -/
def Called (t : Text) : Prop :=
  ∀ site ∈ callSites t, ((site.behind t).dropWhile isBlank).head? = some '('

theorem called_nil : Called [] :=
  eachCall_nil (P := fun _ t => (t.dropWhile isBlank).head? = some '(')

theorem called_cons_of_not (h : isIdentifier c = false) : Called (c :: t) ↔ Called t :=
  eachCall_cons_of_not (P := fun _ t => (t.dropWhile isBlank).head? = some '(') h

theorem called_word_of_none (h : FirstWord w t) (hw : Intrinsic.ofToken? w = none) :
    Called (w ++ t) ↔ Called t :=
  eachCall_word_of_none (P := fun _ t => (t.dropWhile isBlank).head? = some '(') h hw

theorem called_word_of_some (h : FirstWord w t) (hw : Intrinsic.ofToken? w = some f) :
    Called (w ++ t) ↔ (t.dropWhile isBlank).head? = some '(' ∧ Called t :=
  eachCall_word_of_some (P := fun _ t => (t.dropWhile isBlank).head? = some '(') h hw

end ShaderLoom
