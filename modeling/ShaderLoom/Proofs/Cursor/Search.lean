import ShaderLoom.Cursor.Search
import ShaderLoom.Proofs.Cursor.Step
import ShaderLoom.Proofs.Intrinsic.Site

/-!
# The search finds the tokens

The search does not go from identifier to identifier: it jumps to the first place where a token may
begin, wherever that is, and from there to the end of the identifier. What it jumps over holds no
token (`callFree_of_first`), so it finds the call sites of the text, and makes no misstep
(`searchFrom_eq`).

**`search_eq_tokens`**: what it finds are the maximal runs of identifier characters that are
tokens, from left to right.
-/

namespace ShaderLoom

open Text

variable {s t u v w : Text} {f : Intrinsic} {site : CallSite} {offset : Nat}

/-! ## Call sites as runs -/

/-- **A call site** is a maximal run of identifier characters that is a token. -/
theorem mem_callSitesFrom_iff :
    site ∈ callSitesFrom offset t ↔
      ∃ before after, t = before ++ (site.intrinsic.token.toList ++ after) ∧
        site.offset = offset + byteSize before ∧ endsIdentifier before = false ∧
          FirstWord site.intrinsic.token.toList after := by
  rw [callSitesFrom, List.mem_filterMap]
  constructor
  · rintro ⟨i, hi, hsite⟩
    obtain ⟨f, hf, rfl⟩ := Option.map_eq_some_iff.mp hsite
    rw [← eq_token_of_ofToken? hf]
    exact mem_identifiersFrom_iff.mp hi
  · intro hrun
    refine ⟨⟨site.intrinsic.token.toList, site.offset⟩, mem_identifiersFrom_iff.mpr hrun, ?_⟩
    rw [Intrinsic.ofToken?_token]
    rfl

/-- Call sites follow each other. -/
theorem pairwise_callSitesFrom (offset : Nat) (t : Text) :
    (callSitesFrom offset t).Pairwise fun x y => x.offset < y.offset := by
  refine (pairwise_identifiersFrom offset t).filterMap _ fun i j hij x hx y hy => ?_
  obtain ⟨f, -, rfl⟩ := Option.map_eq_some_iff.mp hx
  obtain ⟨g, -, rfl⟩ := Option.map_eq_some_iff.mp hy
  exact hij

namespace Cursor

/-! ## Nothing is jumped over -/

theorem leads_token (f : Intrinsic) : tokenLead <+: f.token.toList := by
  cases f <;> decide

theorem ofToken?_eq_none (h : ¬tokenLead <+: w) : Intrinsic.ofToken? w = none := by
  cases hw : Intrinsic.ofToken? w with
  | none => rfl
  | some f =>
    rw [eq_token_of_ofToken? hw] at h
    exact absurd (leads_token f) h

/-- **Where no token begins there is no call site**, even if the last identifier goes on. -/
theorem callFree_of_first (hfirst : ∀ a b, v = a ++ b → b ≠ [] → ¬tokenLead <+: b ++ w)
    (hw : ∀ c ∈ w, isIdentifier c = true) (hv : w = [] ∨ endsIdentifier v = true) :
    CallFree (v ++ w) := by
  induction v using wordInduction with
  | nil =>
    rw [hv.resolve_right (by decide)]
    exact callFree_nil
  | other c v hc ih =>
    rw [List.cons_append, callFree_cons_of_not hc]
    refine ih (fun a b hab => hfirst (c :: a) b (congrArg (c :: ·) hab)) (hv.imp_right fun h => ?_)
    cases v with
    | nil => rw [endsIdentifier_of_all (by simpa using hc)] at h; cases h
    | cons e v => rwa [← List.singleton_append, endsIdentifier_append_of_ne_nil (by simp)] at h
  | word x v hx ih =>
    cases v with
    | nil =>
      -- the last word goes on into `w`, and begins in front of it
      have hlead := hfirst [] x (by simp) hx.ne_nil
      have hword : FirstWord (x ++ w) [] := by
        refine ⟨List.append_ne_nil_of_left_ne_nil hx.ne_nil w, fun c hc => ?_, rfl⟩
        exact (List.mem_append.mp hc).elim (hx.all c) (hw c)
      have h := (callFree_word hword).mpr ⟨ofToken?_eq_none hlead, callFree_nil⟩
      rwa [List.append_nil] at h ⊢
    | cons e v =>
      have hlead := hfirst [] (x ++ e :: v) rfl (by simp)
      have hword : FirstWord x (e :: v ++ w) := hx.congr hx.ends
      rw [List.append_assoc, callFree_word hword]
      refine ⟨ofToken?_eq_none fun hpre => hlead ?_, ih (fun a b hab => ?_) (hv.imp_right ?_)⟩
      · rw [List.append_assoc]
        exact hpre.trans (List.prefix_append ..)
      · exact hfirst (x ++ a) b (by rw [hab, List.append_assoc])
      · exact fun h => by rwa [endsIdentifier_append_of_ne_nil (by simp)] at h

theorem callFree_of_not_lead (h : ∀ a b, v = a ++ b → b ≠ [] → ¬tokenLead <+: b) : CallFree v := by
  have hfree := callFree_of_first (w := []) (fun a b hab hb => by rw [List.append_nil]; exact h a b hab hb)
    (by simp) (.inl rfl)
  rwa [List.append_nil] at hfree

/-! ## The search -/

theorem takeWhile_of_firstWord (h : FirstWord w t) : (w ++ t).takeWhile isIdentifier = w := by
  rw [List.takeWhile_append_of_pos h.all, takeWhile_of_beginsIdentifier h.ends, List.append_nil]

/-- What begins behind the texts that are jumped over: the call site of the word, if it is not the
end of an identifier, and what stands behind the word. -/
theorem callSitesFrom_of_first (h : Apart s (v ++ (w ++ t)))
    (hfirst : ∀ a b, v = a ++ b → b ≠ [] → ¬tokenLead <+: b ++ (w ++ t)) (hw : FirstWord w t) :
    callSitesFrom offset (v ++ (w ++ t)) =
      (if endsIdentifier (s ++ v) = true then none
        else (Intrinsic.ofToken? w).map fun f => ⟨f, offset + byteSize v⟩).toList ++
          callSitesFrom (offset + byteSize v + byteSize w) t := by
  cases hends : endsIdentifier (s ++ v) with
  | true =>
    have hv : endsIdentifier v = true := by
      cases v with
      | nil =>
        -- the word in front would go on
        rw [List.append_nil] at hends
        have hbegins := h.resolve_left (by simp [hends])
        rw [List.nil_append, hw.beginsIdentifier_append] at hbegins
        cases hbegins
      | cons c v => rwa [endsIdentifier_append_of_ne_nil (by simp)] at hends
    have hfree : CallFree (v ++ w) := by
      refine callFree_of_first (fun a b hab hb hlead => hfirst a b hab hb ?_) hw.all (.inr hv)
      rw [← List.append_assoc]
      exact hlead.trans (List.prefix_append ..)
    rw [← List.append_assoc, callSitesFrom_append (.inr hw.ends), (callFree_iff _ _).mp hfree,
      byteSize_append, ← Nat.add_assoc]
    rfl
  | false =>
    have hv : endsIdentifier v = false := by
      cases v with
      | nil => rfl
      | cons c v => rwa [endsIdentifier_append_of_ne_nil (by simp)] at hends
    have hfree : CallFree v := callFree_of_not_lead fun a b hab hb hlead =>
      hfirst a b hab hb (hlead.trans (List.prefix_append ..))
    rw [callSitesFrom_append (.inl hv), (callFree_iff _ _).mp hfree, List.nil_append]
    cases ho : Intrinsic.ofToken? w with
    | none => exact callSitesFrom_word_of_none hw ho
    | some f => exact callSitesFrom_word_of_some hw ho

/-- The byte in front tells whether an identifier character stands in front. -/
theorem insideIdentifier_append (s t : Text) :
    insideIdentifier (s ++ t) (byteSize s) = .ok (endsIdentifier s) := by
  obtain rfl | ⟨s, c, rfl⟩ := s.eq_nil_or_concat
  · rfl
  · have hpos := Char.utf8Size_pos c
    obtain ⟨byte, hbyte, h⟩ := exists_byteAt (Nat.sub_lt hpos Nat.one_pos) s t
    have hsize : byteSize (s.concat c) = byteSize s + c.utf8Size := by
      rw [List.concat_eq_append, byteSize_append, byteSize_cons, byteSize_nil, Nat.add_zero]
    have hlast : endsIdentifier (s.concat c) = isIdentifier c := by simp [endsIdentifier]
    rw [insideIdentifier, if_neg (by omega), hsize, Nat.add_sub_assoc hpos, List.concat_append, h,
      hlast, ← onByte_of_mem (fun _ => isAscii_of_isIdentifier) hbyte]
    rfl

theorem siteAt?_append (s w t : Text) :
    siteAt? (s ++ (w ++ t)) (byteSize s) (byteSize s + byteSize w) =
      .ok (if endsIdentifier s = true then none
        else (Intrinsic.ofToken? w).map fun f => ⟨f, byteSize s⟩) := by
  rw [siteAt?, insideIdentifier_append, slice_append]
  cases endsIdentifier s <;> rfl

theorem exists_firstWord_of_tokenLead (u : Text) :
    ∃ w t, tokenLead ++ u = w ++ t ∧ FirstWord w t :=
  exists_firstWord (by decide)

/-- **The search finds the call sites** from the end of an identifier on, and makes no misstep. -/
theorem searchFrom_eq (h : Apart s t) :
    searchFrom (s ++ t) (byteSize s) = .ok (callSitesFrom (byteSize s) t) := by
  induction hn : t.length using Nat.strongRecOn generalizing s t with
  | ind n ih =>
    subst hn
    rw [searchFrom, behind_append]
    cases hfind : find? tokenLead t with
    | none =>
      have hfree : CallFree t := callFree_of_not_lead fun a b hab _ hlead =>
        find?_eq_none_iff.mp hfind (hab ▸ hlead.isInfix.trans (List.suffix_append a b).isInfix)
      rw [(callFree_iff _ t).mp hfree]
      simp only [bind, Except.bind, hfind, pure, Except.pure]
    | some found =>
      -- `v` is jumped over, and `w` are the identifier characters from there on
      obtain ⟨v, u, rfl, rfl, hfirst⟩ := exists_of_find?_eq_some hfind
      obtain ⟨w, r, hwr, hw⟩ := exists_firstWord_of_tokenLead u
      rw [hwr] at h hfirst ih hfind ⊢
      have hrun := bytesBehind_append (s ++ v) (w ++ r)
      have hstop : ((bytes (w ++ r)).takeWhile (onByte isIdentifier)).length = byteSize w := by
        rw [takeWhile_onByte fun _ => isAscii_of_isIdentifier, takeWhile_of_firstWord hw, length_bytes]
      have hsite := siteAt?_append (s ++ v) w r
      have hmoves := movesOn_append s r (List.append_ne_nil_of_right_ne_nil v hw.ne_nil)
      have hpos := List.length_pos_of_ne_nil hw.ne_nil
      have hlt : r.length < (v ++ (w ++ r)).length := by
        rw [List.length_append, List.length_append]
        omega
      have hrest := ih r.length hlt (s := s ++ (v ++ w)) (.inr hw.ends) rfl
      rw [callSitesFrom_of_first h hfirst hw]
      simp only [List.append_assoc, byteSize_append, ← Nat.add_assoc] at hrun hsite hmoves hrest
      simp only [bind, Except.bind, hfind, hrun, hstop, hsite, dif_pos hmoves, hrest, pure, Except.pure]

/-- **The search finds exactly the tokens**: it comes to an end without a misstep, and what it lists,
in strictly ascending order, are the maximal runs of identifier characters that are tokens. -/
theorem search_eq_tokens (t : Text) :
    search t = .ok (callSites t) ∧
      (callSites t).Pairwise (fun x y => x.offset < y.offset) ∧
      ∀ site, site ∈ callSites t ↔
        ∃ before word after, t = before ++ (word ++ after) ∧ site.offset = byteSize before ∧
          word = site.intrinsic.token.toList ∧ endsIdentifier before = false ∧
            FirstWord word after := by
  refine ⟨searchFrom_eq apart_nil_left, pairwise_callSitesFrom 0 t, fun site => ?_⟩
  rw [callSites_eq, mem_callSitesFrom_iff]
  constructor
  · rintro ⟨before, after, ht, hoffset, hbefore, hword⟩
    exact ⟨before, _, after, ht, hoffset.trans (Nat.zero_add _), rfl, hbefore, hword⟩
  · rintro ⟨before, word, after, ht, hoffset, rfl, hbefore, hword⟩
    exact ⟨before, after, ht, hoffset.trans (Nat.zero_add _).symm, hbefore, hword⟩

/-- Tokens inside longer identifiers are passed over, and offsets count bytes. -/
example : search "my_ngl_tex2d(ngl_tex2dx, é.ngl_tex2d)".toList = .ok [⟨.sample2D, 28⟩] := by cbv

end Cursor

end ShaderLoom
