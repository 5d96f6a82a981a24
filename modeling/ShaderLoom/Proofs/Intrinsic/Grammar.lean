import ShaderLoom.Error
import ShaderLoom.Proofs.Intrinsic.Fields
import ShaderLoom.Proofs.Intrinsic.SpliceAgreement

/-!
# The grammar of calls

In a text without comments a call has a simple grammar (`Intrinsic.Admits`): blanks, and in
parentheses balanced arguments with commas between them, of which the first names a texture.

Lowering never looks at this grammar as a whole. It reads a nested call from a part that the outer
call has cut out of the text. **`exists_lower_iff_admits`**: all the same, lowering succeeds exactly
when every call site of the text is followed by what its intrinsic admits, read in the whole text.
The parts of a call are balanced, so what a site needs stands in its part
(`ReadsCalls.split`).
-/

namespace ShaderLoom

open Text

variable {d : Dialect} {s t u w gap : Text} {c : Char} {f : Intrinsic} {call : Call} {a : Argument}
  {n : Nat} {stop : Delimiter}

/-! ## Texts whose calls can be read -/

/-- A call can be read at every site of the text. -/
def ReadsCalls (t : Text) : Prop :=
  ∀ site ∈ callSites t, ∃ call, site.intrinsic.readCall (site.behind t) = .ok call

theorem readsCalls_nil : ReadsCalls [] :=
  eachCall_nil (P := fun f t => ∃ call, f.readCall t = .ok call)

theorem readsCalls_cons_of_not (h : isIdentifier c = false) : ReadsCalls (c :: t) ↔ ReadsCalls t :=
  eachCall_cons_of_not (P := fun f t => ∃ call, f.readCall t = .ok call) h

theorem readsCalls_word_of_none (h : FirstWord w t) (hw : Intrinsic.ofToken? w = none) :
    ReadsCalls (w ++ t) ↔ ReadsCalls t :=
  eachCall_word_of_none (P := fun f t => ∃ call, f.readCall t = .ok call) h hw

theorem readsCalls_word_of_some (h : FirstWord w t) (hw : Intrinsic.ofToken? w = some f) :
    ReadsCalls (w ++ t) ↔ (∃ call, f.readCall t = .ok call) ∧ ReadsCalls t :=
  eachCall_word_of_some (P := fun f t => ∃ call, f.readCall t = .ok call) h hw

theorem readsCalls_dropWhile_iff : ReadsCalls (t.dropWhile isBlank) ↔ ReadsCalls t :=
  eachCall_dropWhile_iff (P := fun f t => ∃ call, f.readCall t = .ok call)

/-- **A text that closes its parentheses reads its calls on its own**: neither an opening
parenthesis nor anything else that a call in it needs stands behind it. -/
theorem ReadsCalls.split (h : ReadsCalls (s ++ u)) (ht : Uncommented (s ++ u))
    (hd : depthAfter n s = some 0) (hu : beginsIdentifier u = false)
    (hopen : (u.dropWhile isBlank).head? ≠ some '(') : ReadsCalls s ∧ ReadsCalls u := by
  induction s using wordInduction generalizing n with
  | nil => exact ⟨readsCalls_nil, h⟩
  | other c s hc ih =>
    rw [List.cons_append] at h ht
    rw [depthAfter_cons, Option.bind_eq_some_iff] at hd
    obtain ⟨m, -, hd⟩ := hd
    rw [readsCalls_cons_of_not hc] at h ⊢
    exact ih h (uncommented_cons.mp ht).2 hd
  | word w s hw ih =>
    have hw' : FirstWord w (s ++ u) := hw.append (.inr hu)
    rw [List.append_assoc] at h ht
    rw [hw.balanced.depthAfter_append] at hd
    cases ho : Intrinsic.ofToken? w with
    | none =>
      rw [readsCalls_word_of_none hw' ho] at h
      rw [readsCalls_word_of_none hw ho]
      exact ih h ht.of_append_right hd
    | some f =>
      rw [readsCalls_word_of_some hw' ho] at h
      rw [readsCalls_word_of_some hw ho, and_assoc]
      obtain ⟨⟨call, hread⟩, h⟩ := h
      refine ⟨?_, ih h ht.of_append_right hd⟩
      -- the parenthesis stands in `s`, and `s` closes it
      obtain ⟨inside, first, hinside, -, -⟩ := readCall_iff.mp hread
      have hparen := head?_dropWhile_append (by rw [hinside]; rfl) hopen
      obtain ⟨inside', hinside'⟩ := List.head?_eq_some_iff.mp hparen
      obtain ⟨inner, hinner, -⟩ :=
        exists_readCall_of_append ht.of_append_right.of_append_left hd hinside' hread
      exact ⟨inner, hinner⟩

/-! ## The parts of a call -/

theorem ReadsCalls.argument (h : ReadsCalls t) (ht : Uncommented t)
    (harg : ShaderLoom.argument t = .ok a) : ReadsCalls a.text ∧ ReadsCalls a.remainder := by
  obtain ⟨-, hbalanced⟩ := (argument_iff ht).mp harg
  rw [eq_of_readArgument harg] at h ht
  exact h.split ht hbalanced a.stop.isIdentifier_char (a.stop.head?_dropWhile _)

theorem ReadsCalls.trimEnd (h : ReadsCalls t) (ht : Uncommented t) (hbalanced : Balanced t) :
    ReadsCalls (trimEnd t) := by
  obtain ⟨gap, he, hwhite⟩ := exists_trimEnd t
  rw [he] at h ht
  exact (h.split ht hbalanced.trimEnd (beginsIdentifier_of_white hwhite)
    (head?_dropWhile_of_white hwhite)).1

/-- **The parts of a call** can be read if the text behind the token can. -/
theorem ReadsCalls.readCall (h : ReadsCalls t) (ht : Uncommented t)
    (hread : f.readCall t = .ok call) :
    ReadsCalls call.texture ∧ ReadsCalls call.coordinates ∧ ReadsCalls call.rest := by
  obtain ⟨inside, first, hopen, harg, hc⟩ := readCall_iff.mp hread
  have huncommented := (ht.inside hopen).dropWhile
  have hinside : ReadsCalls (inside.dropWhile isBlank) := by
    rw [← readsCalls_dropWhile_iff, hopen, readsCalls_cons_of_not (by decide)] at h
    exact readsCalls_dropWhile_iff.mpr h
  obtain ⟨-, hbalanced⟩ := (argument_iff huncommented).mp harg
  obtain ⟨hfirst, hrest⟩ := hinside.argument huncommented harg
  have htexture := hfirst.trimEnd (huncommented.text harg) hbalanced
  cases hf : f.isVideo with
  | false =>
    obtain ⟨-, -, rfl⟩ := (simpleCall_iff hf).mp hc
    exact ⟨htexture, readsCalls_nil, hrest⟩
  | true =>
    obtain ⟨-, -, second, harg₂, -, rfl⟩ := (videoCall_iff hf).mp hc
    have huncommented₂ := (huncommented.rest harg).dropWhile
    obtain ⟨-, hbalanced₂⟩ := (argument_iff huncommented₂).mp harg₂
    rw [Argument.remainder, readsCalls_cons_of_not first.stop.isIdentifier_char,
      ← readsCalls_dropWhile_iff] at hrest
    obtain ⟨hsecond, hrest₂⟩ := hrest.argument huncommented₂ harg₂
    rw [Argument.remainder, readsCalls_cons_of_not second.stop.isIdentifier_char] at hrest₂
    exact ⟨htexture, hsecond.trimEnd (huncommented₂.text harg₂) hbalanced₂, hrest₂⟩

/-- **Where all calls can be read**, the text is lowered. -/
theorem ReadsCalls.exists_lowers (d : Dialect) (h : ReadsCalls t) (ht : Uncommented t) :
    ∃ l, Lowers d t l := by
  induction t using callInduction with
  | nil => exact ⟨_, .nil⟩
  | other c t hc ih =>
    obtain ⟨l, hl⟩ := ih ((readsCalls_cons_of_not hc).mp h) (uncommented_cons.mp ht).2
    exact ⟨_, .other hc hl⟩
  | word w t hw ho ih =>
    obtain ⟨l, hl⟩ := ih ((readsCalls_word_of_none hw ho).mp h) ht.of_append_right
    exact ⟨_, .word hw ho hl⟩
  | call w t f hw ho ih =>
    have hbehind := ht.of_append_right
    obtain ⟨⟨call, hread⟩, h⟩ := (readsCalls_word_of_some hw ho).mp h
    obtain ⟨ihtexture, ihcoordinates, ihrest⟩ := ih call hread
    obtain ⟨htexture, hcoordinates, hrest⟩ := h.readCall hbehind hread
    obtain ⟨hut, huc, hur⟩ := uncommented_of_readCall hbehind hread
    obtain ⟨texture, hx⟩ := ihtexture htexture hut
    obtain ⟨coordinates, hy⟩ := ihcoordinates hcoordinates huc
    obtain ⟨behind, hz⟩ := ihrest hrest hur
    exact ⟨_, .call hw ho hread hx hy hz⟩

/-- **A text is lowered** exactly when all its calls can be read. -/
theorem exists_lower_iff_readsCalls (hrg : d.rg = "rg" ∨ d.rg = "ra") (ht : Uncommented t) :
    (∃ l, lower d t = .ok l) ↔ ReadsCalls t := by
  constructor
  · rintro ⟨l, h⟩ site hsite
    obtain ⟨call, hread, -⟩ := (lowers_of_lower h).standsIn hrg site hsite
    exact ⟨call, hread⟩
  · intro h
    obtain ⟨l, hl⟩ := h.exists_lowers d ht
    exact ⟨l, hl.lower_eq⟩

/-! ## Argument lists -/

/-- Arguments in parentheses, with commas between them. -/
def argumentList (first : Text) (others : List Text) : Text :=
  '(' :: (first ++ (others.flatMap (',' :: ·) ++ [')']))

/-- What an intrinsic admits behind its token: blanks and an argument list, of which the first
argument is more than white space. A video call has two arguments. -/
def Intrinsic.Admits (f : Intrinsic) (t : Text) : Prop :=
  ∃ blanks first others rest, t = blanks ++ (argumentList first others ++ rest) ∧
    (∀ c ∈ blanks, isBlank c = true) ∧ (∀ x ∈ first :: others, Balanced x) ∧
    trimEnd (first.dropWhile isBlank) ≠ [] ∧ (f.isVideo = true → others.length = 1)

theorem argumentList_append (first : Text) (others : List Text) (rest : Text) :
    argumentList first others ++ rest =
      '(' :: (first ++ (others.flatMap (',' :: ·) ++ ')' :: rest)) := by
  simp only [argumentList, List.cons_append, List.append_assoc, List.nil_append]

/-- A delimiter stands behind every argument of a list. -/
theorem exists_delimiter (others : List Text) (rest : Text) :
    ∃ stop u, others.flatMap (',' :: ·) ++ ')' :: rest = Delimiter.char stop :: u := by
  cases others with
  | nil => exact ⟨.close, rest, rfl⟩
  | cons x others =>
    refine ⟨.comma, x ++ (others.flatMap (',' :: ·) ++ ')' :: rest), ?_⟩
    rw [List.flatMap_cons, List.cons_append, List.cons_append, List.append_assoc]
    rfl

theorem Delimiter.dropWhile_append (stop : Delimiter) (s u : Text) :
    (s ++ stop.char :: u).dropWhile isBlank = s.dropWhile isBlank ++ stop.char :: u := by
  have hstop : isBlank stop.char = false := by cases stop <;> decide
  rw [List.dropWhile_append]
  split
  · next h =>
    rw [List.dropWhile_cons_of_neg (by simp [hstop]), List.isEmpty_iff.mp h, List.nil_append]
  · rfl

/-- The argument behind blanks is the balanced text in front of the first stop, without its
blanks. -/
theorem argument_dropWhile_iff (ht : Uncommented t) :
    ShaderLoom.argument (t.dropWhile isBlank) = .ok a ↔
      ∃ x, t = x ++ a.stop.char :: a.rest ∧ Balanced x ∧ a.text = x.dropWhile isBlank := by
  rw [argument_iff ht.dropWhile]
  constructor
  · rintro ⟨he, hbalanced⟩
    obtain ⟨blanks, ht', hblanks⟩ := exists_blanks t
    have hx : t = (blanks ++ a.text) ++ a.stop.char :: a.rest := by
      rw [List.append_assoc, ← he]
      exact ht'
    refine ⟨blanks ++ a.text, hx, (balanced_of_blanks hblanks).append hbalanced, ?_⟩
    rw [hx, a.stop.dropWhile_append] at he
    exact (List.append_cancel_right he).symm
  · rintro ⟨x, rfl, hbalanced, htext⟩
    rw [a.stop.dropWhile_append, htext]
    refine ⟨rfl, ?_⟩
    rw [Text.Balanced, depthAfter_dropWhile_isBlank]
    exact hbalanced

/-- **An argument list ends** exactly when balanced arguments and a closing parenthesis follow. -/
theorem closeArguments_iff (ht : Uncommented t) :
    closeArguments stop t = .ok () ↔
      ∃ (others : List Text) (rest : Text),
        stop.char :: t = others.flatMap (',' :: ·) ++ ')' :: rest ∧ ∀ x ∈ others, Balanced x := by
  constructor
  · intro h
    induction hn : t.length using Nat.strongRecOn generalizing t stop with
    | ind n ih =>
      subst hn
      cases stop with
      | close => exact ⟨[], t, rfl, List.forall_mem_nil _⟩
      | comma =>
        obtain ⟨a, harg, hclose⟩ := closeArguments_comma_iff.mp h
        have hlt := length_of_argument harg
        obtain ⟨he, hbalanced⟩ := (argument_iff ht).mp harg
        obtain ⟨others, rest, hothers, hall⟩ :=
          ih a.rest.length (by omega) (ht.rest harg) hclose rfl
        refine ⟨a.text :: others, rest, ?_, List.forall_mem_cons.mpr ⟨hbalanced, hall⟩⟩
        rw [he, hothers, List.flatMap_cons, List.cons_append, List.cons_append, List.append_assoc]
        rfl
  · rintro ⟨others, rest, he, hall⟩
    induction others generalizing t stop with
    | nil =>
      cases stop with
      | close => exact closeArguments_close t
      | comma =>
        obtain ⟨hc, -⟩ := List.cons.inj he
        cases hc
    | cons x others ih =>
      rw [List.flatMap_cons, List.cons_append, List.cons_append, List.append_assoc] at he
      obtain ⟨hstop, rfl⟩ := List.cons.inj he
      obtain ⟨hx, hothers⟩ := List.forall_mem_cons.mp hall
      obtain ⟨stop', u, hu⟩ := exists_delimiter others rest
      rw [hu] at ht ⊢
      have harg := argument_balanced ht.of_append_left hx stop' u
      have hclose := ih (ht.rest harg) hu.symm hothers
      cases stop with
      | close => exact closeArguments_close _
      | comma => exact closeArguments_comma_iff.mpr ⟨_, harg, hclose⟩

/-! ## The grammar -/

/-- What a call that can be read stands in. -/
theorem admits_of_readCall (ht : Uncommented t) (h : f.readCall t = .ok call) : f.Admits t := by
  obtain ⟨inside, first, hopen, harg, hc⟩ := readCall_iff.mp h
  have hinside := ht.inside hopen
  obtain ⟨blanks, hblanks, hall⟩ := exists_blanks t
  obtain ⟨x, hx, hbalanced, htext⟩ := (argument_dropWhile_iff hinside).mp harg
  have hrest := hinside.dropWhile.rest harg
  cases hf : f.isVideo with
  | false =>
    obtain ⟨hne, hclose, -⟩ := (simpleCall_iff hf).mp hc
    obtain ⟨others, rest, hothers, hbalanced'⟩ := (closeArguments_iff hrest).mp hclose
    refine ⟨blanks, x, others, rest, ?_, hall, List.forall_mem_cons.mpr ⟨hbalanced, hbalanced'⟩,
      htext ▸ hne, fun hvideo => by simp [hf] at hvideo⟩
    rw [argumentList_append, ← hothers, ← hx, ← hopen]
    exact hblanks
  | true =>
    obtain ⟨hne, hstop, second, harg₂, hclose, -⟩ := (videoCall_iff hf).mp hc
    obtain ⟨y, hy, hbalanced', -⟩ := (argument_dropWhile_iff hrest).mp harg₂
    refine ⟨blanks, x, [y], second.rest, ?_, hall, ?_, htext ▸ hne, fun _ => rfl⟩
    · rw [hopen, hx, hstop, hy, hclose] at hblanks
      rw [argumentList_append, List.flatMap_singleton]
      exact hblanks
    · exact List.forall_mem_cons.mpr ⟨hbalanced, List.forall_mem_singleton.mpr hbalanced'⟩

/-- What an intrinsic admits can be read. -/
theorem exists_readCall_of_admits (ht : Uncommented t) (h : f.Admits t) :
    ∃ call, f.readCall t = .ok call := by
  obtain ⟨blanks, first, others, rest, he, hblanks, hbalanced, hne, hvideo⟩ := h
  obtain ⟨hfirst, hothers⟩ := List.forall_mem_cons.mp hbalanced
  obtain ⟨stop, u, hu⟩ := exists_delimiter others rest
  rw [argumentList_append, hu] at he
  have hopen : t.dropWhile isBlank = '(' :: (first ++ stop.char :: u) := by
    rw [he, List.dropWhile_append_of_pos hblanks]
    rfl
  have hinside := ht.inside hopen
  have harg : ShaderLoom.argument ((first ++ stop.char :: u).dropWhile isBlank) =
      .ok ⟨first.dropWhile isBlank, stop, u⟩ :=
    (argument_dropWhile_iff hinside).mpr ⟨first, rfl, hfirst, rfl⟩
  have hrest : Uncommented u := hinside.dropWhile.rest harg
  have hcomplete : ∃ call, f.completeCall ⟨first.dropWhile isBlank, stop, u⟩ = .ok call := by
    cases hf : f.isVideo with
    | false =>
      exact ⟨_, (simpleCall_iff hf).mpr
        ⟨hne, (closeArguments_iff hrest).mpr ⟨others, rest, hu.symm, hothers⟩, rfl⟩⟩
    | true =>
      obtain ⟨y, rfl⟩ := List.length_eq_one_iff.mp (hvideo hf)
      obtain ⟨hstop, rfl⟩ : stop = .comma ∧ u = y ++ ')' :: rest := by
        rw [List.flatMap_singleton, List.cons_append] at hu
        obtain ⟨hstop, rfl⟩ := List.cons.inj hu
        cases stop with
        | comma => exact ⟨rfl, rfl⟩
        | close => cases hstop
      have harg₂ : ShaderLoom.argument ((y ++ ')' :: rest).dropWhile isBlank) =
          .ok ⟨y.dropWhile isBlank, .close, rest⟩ :=
        (argument_dropWhile_iff hrest).mpr ⟨y, rfl, hothers y (List.mem_singleton_self y), rfl⟩
      exact ⟨_, (videoCall_iff hf).mpr ⟨hne, hstop, _, harg₂, rfl, rfl⟩⟩
  obtain ⟨call, hcall⟩ := hcomplete
  exact ⟨call, readCall_iff.mpr ⟨_, _, hopen, harg, hcall⟩⟩

/-- **A call can be read** exactly where the intrinsic admits what follows its token. -/
theorem exists_readCall_iff_admits (ht : Uncommented t) :
    (∃ call, f.readCall t = .ok call) ↔ f.Admits t :=
  ⟨fun ⟨_, h⟩ => admits_of_readCall ht h, exists_readCall_of_admits ht⟩

theorem Text.Uncommented.behind (ht : Uncommented t) {site : CallSite} (h : site ∈ callSites t) :
    Uncommented (site.behind t) := by
  obtain ⟨front, he, -⟩ := exists_token_of_mem_callSites h
  rw [he] at ht
  exact ht.of_append_right.of_append_right

/-- **Lowering accepts its grammar**, and rejects everything else as an invalid argument. -/
theorem exists_lower_iff_admits (target : Target) {source : Text}
    (hline : ¬ ['/', '/'] <:+: source) (hblock : ¬ ['/', '*'] <:+: source) :
    ((∃ l, lower target.dialect source = .ok l) ↔
        ∀ site ∈ callSites source, site.intrinsic.Admits (site.behind source)) ∧
      ((¬ ∀ site ∈ callSites source, site.intrinsic.Admits (site.behind source)) →
        ∃ fault, lower target.dialect source = .error fault ∧
          (Error.call fault).kind = .invalidArgument) := by
  have ht : Uncommented source := uncommented_iff.mpr ⟨hline, hblock⟩
  have hiff : (∃ l, lower target.dialect source = .ok l) ↔
      ∀ site ∈ callSites source, site.intrinsic.Admits (site.behind source) := by
    rw [exists_lower_iff_readsCalls target.rg_dialect ht]
    exact forall₂_congr fun site hsite => exists_readCall_iff_admits (ht.behind hsite)
  refine ⟨hiff, fun hnot => ?_⟩
  cases hl : lower target.dialect source with
  | ok l => exact absurd (hiff.mp ⟨l, hl⟩) hnot
  | error fault => exact ⟨fault, rfl, rfl⟩

/-- A call in the texture of a call, with a comma in nested parentheses, is admitted. A video call
without coordinates is not, wherever it stands. -/
theorem exists_lower_iff_admits_nested :
    let target : Target := { api := .openGl, version := 330 }
    let source := "ngl_tex2d(ngl_texvideo(a, b) , f(c, d))".toList
    let short := "ngl_tex2d(ngl_texvideo(a), f(b, c))".toList
    (¬ ['/', '/'] <:+: source ∧ ¬ ['/', '*'] <:+: source) ∧
      (∀ site ∈ callSites source, site.intrinsic.Admits (site.behind source)) ∧
      lower target.dialect short = .error (.missingCoordinates .sampleVideo) ∧
      ¬ ∀ site ∈ callSites short, site.intrinsic.Admits (site.behind short) := by
  have hsource : Uncommented "ngl_tex2d(ngl_texvideo(a, b) , f(c, d))".toList := by decide
  have hshort : Uncommented "ngl_tex2d(ngl_texvideo(a), f(b, c))".toList := by decide
  obtain ⟨hline, hblock⟩ := uncommented_iff.mp hsource
  obtain ⟨hline', hblock'⟩ := uncommented_iff.mp hshort
  have h : ∃ l, lower ({ api := .openGl, version := 330 } : Target).dialect
      "ngl_tex2d(ngl_texvideo(a, b) , f(c, d))".toList = .ok l :=
    ⟨⟨"ngli_tex2d((ngli_tex2d(a_sampler, b))_sampler, f(c, d))".toList, 2⟩, by decide +kernel⟩
  have h' : lower ({ api := .openGl, version := 330 } : Target).dialect
      "ngl_tex2d(ngl_texvideo(a), f(b, c))".toList =
        .error (.missingCoordinates .sampleVideo) := by
    decide +kernel
  refine ⟨⟨hline, hblock⟩, (exists_lower_iff_admits _ hline hblock).1.mp h, h', fun hadmits => ?_⟩
  obtain ⟨l, hl⟩ := (exists_lower_iff_admits _ hline' hblock').1.mpr hadmits
  exact absurd (h'.symm.trans hl) (by simp)

end ShaderLoom
