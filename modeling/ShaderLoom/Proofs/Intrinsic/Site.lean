import ShaderLoom.Intrinsic.Basic
import ShaderLoom.Proofs.Text.Identifier

/-!
# Call sites of joined texts

The call sites of a text are the identifiers that are tokens, so they follow the identifiers: a
text that is put together from parts that are apart has the call sites of its parts, moved to
where the parts stand.

A text is **call free** when it has no call site. Nothing is left to lower in such a text.
-/

namespace ShaderLoom

open Text

variable {s t w : Text} {c : Char} {offset : Nat} {f : Intrinsic}

theorem eq_token_of_ofToken? (h : Intrinsic.ofToken? w = some f) : w = f.token.toList := by
  have hf := List.find?_some h
  exact (of_decide_eq_true hf).symm

/-! ## Call sites from an offset on -/

/-- The call sites of a text that begins `offset` bytes into the whole. -/
def callSitesFrom (offset : Nat) (t : Text) : List CallSite :=
  (identifiersFrom offset t).filterMap fun i =>
    (Intrinsic.ofToken? i.word).map fun f => ⟨f, i.offset⟩

theorem callSites_eq (t : Text) : callSites t = callSitesFrom 0 t := rfl

@[simp] theorem callSitesFrom_nil : callSitesFrom offset [] = [] := by
  simp [callSitesFrom]

theorem callSitesFrom_cons_of_not (h : isIdentifier c = false) :
    callSitesFrom offset (c :: t) = callSitesFrom (offset + c.utf8Size) t := by
  rw [callSitesFrom, identifiersFrom_cons_of_not h, callSitesFrom]

theorem callSitesFrom_word_of_none (h : FirstWord w t) (hw : Intrinsic.ofToken? w = none) :
    callSitesFrom offset (w ++ t) = callSitesFrom (offset + byteSize w) t := by
  simp [callSitesFrom, identifiersFrom_word h, hw]

theorem callSitesFrom_word_of_some (h : FirstWord w t) (hw : Intrinsic.ofToken? w = some f) :
    callSitesFrom offset (w ++ t) = ⟨f, offset⟩ :: callSitesFrom (offset + byteSize w) t := by
  simp [callSitesFrom, identifiersFrom_word h, hw]

/-- **The call sites of texts that are apart** are those of the one and then those of the
other. -/
theorem callSitesFrom_append (h : Apart s t) :
    callSitesFrom offset (s ++ t) =
      callSitesFrom offset s ++ callSitesFrom (offset + byteSize s) t := by
  rw [callSitesFrom, identifiersFrom_append h, List.filterMap_append]
  rfl

/-- The same call, with `n` more bytes before it. -/
def CallSite.shift (n : Nat) (site : CallSite) : CallSite := { site with offset := n + site.offset }

theorem callSitesFrom_add (n offset : Nat) (t : Text) :
    callSitesFrom (n + offset) t = (callSitesFrom offset t).map (CallSite.shift n) := by
  induction t using wordInduction generalizing offset with
  | nil => simp
  | other c t hc ih =>
    rw [callSitesFrom_cons_of_not hc, callSitesFrom_cons_of_not hc, Nat.add_assoc, ih]
  | word w t hw ih =>
    cases ho : Intrinsic.ofToken? w with
    | none =>
      rw [callSitesFrom_word_of_none hw ho, callSitesFrom_word_of_none hw ho, Nat.add_assoc, ih]
    | some f =>
      rw [callSitesFrom_word_of_some hw ho, callSitesFrom_word_of_some hw ho, Nat.add_assoc, ih]
      rfl

/-- The number of call sites does not depend on where the text stands. -/
theorem length_callSitesFrom (offset : Nat) (t : Text) :
    (callSitesFrom offset t).length = (callSites t).length := by
  have h := callSitesFrom_add offset 0 t
  rw [Nat.add_zero] at h
  rw [h, List.length_map, callSites_eq]

/-! ## Texts without calls -/

/-- No identifier of the text is a token. -/
def CallFree (t : Text) : Prop := callSites t = []

instance (t : Text) : Decidable (CallFree t) := inferInstanceAs (Decidable (callSites t = []))

theorem callFree_iff (offset : Nat) (t : Text) : CallFree t ↔ callSitesFrom offset t = [] := by
  rw [CallFree, ← List.length_eq_zero_iff, ← length_callSitesFrom offset, List.length_eq_zero_iff]

theorem callFree_nil : CallFree [] := (callFree_iff 0 []).mpr callSitesFrom_nil

theorem callFree_cons_of_not (h : isIdentifier c = false) : CallFree (c :: t) ↔ CallFree t := by
  rw [callFree_iff 0, callSitesFrom_cons_of_not h, ← callFree_iff]

theorem callFree_word (h : FirstWord w t) :
    CallFree (w ++ t) ↔ Intrinsic.ofToken? w = none ∧ CallFree t := by
  cases ho : Intrinsic.ofToken? w with
  | none => rw [callFree_iff 0, callSitesFrom_word_of_none h ho, ← callFree_iff]; simp
  | some f => rw [callFree_iff 0, callSitesFrom_word_of_some h ho]; simp

theorem callFree_append (h : Apart s t) : CallFree (s ++ t) ↔ CallFree s ∧ CallFree t := by
  rw [callFree_iff 0, callSitesFrom_append h, List.append_eq_nil_iff, ← callFree_iff,
    ← callFree_iff]

/-- Characters outside identifiers hold no calls. -/
theorem callFree_of_all (h : ∀ c ∈ t, isIdentifier c = false) : CallFree t := by
  induction t with
  | nil => exact callFree_nil
  | cons c t ih =>
    rw [callFree_cons_of_not (h c (List.mem_cons_self ..))]
    exact ih fun d hd => h d (List.mem_cons_of_mem c hd)

theorem TextureField.isIdentifier_suffix (field : TextureField) :
    ∀ c ∈ '_' :: field.suffix.toList, isIdentifier c = true :=
  List.all_eq_true.mp (by cases field <;> decide)

/-- **The identifier of a texture field is no token**, nor is any identifier that ends like one:
no token ends in an underscore and the suffix of a field. -/
theorem CallFree.append_suffix (h : CallFree t) (field : TextureField) :
    CallFree (t ++ '_' :: field.suffix.toList) := by
  have htoken : ∀ w, Intrinsic.ofToken? (w ++ '_' :: field.suffix.toList) = none := by
    intro w
    simp only [Intrinsic.ofToken?, List.find?_eq_none, decide_eq_true_eq]
    intro f _ he
    have hs : ('_' :: field.suffix.toList) <:+ f.token.toList := ⟨w, he.symm⟩
    revert hs
    cases field <;> cases f <;> decide
  induction t using wordInduction with
  | nil =>
    have hw : FirstWord ('_' :: field.suffix.toList) [] := ⟨by simp, field.isIdentifier_suffix, rfl⟩
    have := callFree_word hw
    rw [List.append_nil] at this
    exact this.mpr ⟨htoken [], callFree_nil⟩
  | other c t hc ih =>
    rw [callFree_cons_of_not hc] at h
    rw [List.cons_append, callFree_cons_of_not hc]
    exact ih h
  | word w t hw ih =>
    rw [callFree_word hw] at h
    cases t with
    | nil =>
      -- the last identifier of the text grows by the suffix
      have hw' : FirstWord (w ++ '_' :: field.suffix.toList) [] := by
        refine ⟨by simp, fun c hc => ?_, rfl⟩
        rcases List.mem_append.mp hc with hc | hc
        · exact hw.all c hc
        · exact field.isIdentifier_suffix c hc
      have := callFree_word hw'
      rw [List.append_nil] at this
      rw [List.append_nil]
      exact this.mpr ⟨htoken w, callFree_nil⟩
    | cons d t =>
      rw [List.append_assoc, callFree_word (hw.congr (by simpa using hw.ends))]
      exact ⟨h.1, ih h.2⟩

end ShaderLoom
