import ShaderLoom.Proofs.Intrinsic.Completeness
import ShaderLoom.Proofs.Intrinsic.SpliceShape
import ShaderLoom.Proofs.Source.CallFree

/-!
# Lowering joined texts

Texts that are apart are lowered one by one: once a text can be lowered, what stands behind it is
lowered as if it stood alone, and fails as if it stood alone (**`Lowers.lower_append`**). No call of
the first text reaches into the second, since it stays the call it is when more text follows.

The preamble and the declarations of a stage end with their lines, so they are apart from the body.
Where they hold no calls, finishing a stage comes down to lowering the body.
-/

namespace ShaderLoom

open Text

variable {d : Dialect} {s t : Text} {l : Lowered}

/-! ## Joined texts -/

/-- A lowered text, and another one behind it. -/
def Lowered.append (l m : Lowered) : Lowered where
  text := l.text ++ m.text
  calls := l.calls + m.calls

theorem Lowered.append_prepend (lead : Text) (l m : Lowered) :
    (l.prepend lead).append m = (l.append m).prepend lead := by
  simp only [append, prepend, List.append_assoc]

theorem Lowered.append_ofCall (pieces : List Piece) (texture coordinates behind m : Lowered) :
    (ofCall pieces texture coordinates behind).append m =
      ofCall pieces texture coordinates (behind.append m) := by
  simp only [append, ofCall, List.append_assoc, Nat.add_assoc]

/-- What a call leaves is apart from what the text is apart from. -/
theorem Text.Apart.rest_of_readCall {f : Intrinsic} {call : Call} (h : Apart s t)
    (hread : f.readCall s = .ok call) : Apart call.rest t := by
  obtain ⟨front, he⟩ := exists_front_of_readCall hread
  by_cases hnil : call.rest = []
  · rw [hnil]
    exact apart_nil_left
  · rw [he] at h
    exact h.of_append_left hnil

/-- **Behind a lowered text** the next one is lowered on its own. -/
theorem Lowers.lower_append (h : Lowers d s l) (hapart : Apart s t) :
    lower d (s ++ t) = (lower d t).map l.append := by
  induction h with
  | nil =>
    rw [List.nil_append]
    cases lower d t with
    | error fault => rfl
    | ok m => simp [Except.map, Lowered.append]
  | other hc _ ih =>
    rw [List.cons_append, lower_cons_of_not hc, ih hapart.tail]
    cases lower d t with
    | error fault => rfl
    | ok m => simp only [Except.map, Lowered.append_prepend]
  | word hw ho _ ih =>
    rw [List.append_assoc, lower_word_of_none (hw.append hapart) ho, ih hapart.behind_word]
    cases lower d t with
    | error fault => rfl
    | ok m => simp only [Except.map, Lowered.append_prepend]
  | @call w s f call texture coordinates behind hw ho hread htexture hcoordinates _ _ _ ih =>
    rw [List.append_assoc, lower_word_of_some (hw.append hapart) ho, readCall_append hread t]
    change (do
      let texture ← lower d call.texture
      let coordinates ← lower d call.coordinates
      let behind ← lower d (call.rest ++ t)
      pure (Lowered.ofCall _ texture coordinates behind)) = _
    rw [htexture.lower_eq, hcoordinates.lower_eq, ih (hapart.behind_word.rest_of_readCall hread)]
    cases lower d t with
    | error fault => rfl
    | ok m => exact congrArg Except.ok (Lowered.append_ofCall ..).symm

/-! ## Bodies behind declarations -/

/-- **A stage whose declarations hold no calls** is finished by lowering its body. -/
theorem StageSource.finish_of_callFree {target : Target} {source : StageSource} {stage : Stage}
    {hasTextures : Bool} {colors : Nat}
    (hpreamble : source.preamble = target.dialect.preamble stage hasTextures colors)
    (hitems : ∀ item ∈ source.items, IsPrecision item.precision)
    (hfree : CallFree source.declarations.toList) :
    source.finish target.dialect =
      match lower target.dialect source.body.toList with
      | .error fault => .error (.call fault)
      | .ok lowered =>
        .ok (source.preamble ++ source.declarations ++ String.ofList lowered.text) := by
  obtain ⟨preamble, items, body⟩ := source
  dsimp only at hpreamble hitems
  subst hpreamble
  have hdeclarations :
      (mk (target.dialect.preamble stage hasTextures colors) items body).declarations.toList =
        unlines (items.flatMap Item.lines) :=
    toList_declarations hitems _
  rw [hdeclarations, callFree_unlines] at hfree
  rw [finish, lower_text hitems, lower_unlines hfree]
  cases lower target.dialect body.toList with
  | error fault => rfl
  | ok lowered =>
    refine congrArg Except.ok ?_
    rw [← String.toList_inj, String.toList_ofList, String.toList_append, String.toList_append,
      String.toList_ofList, hdeclarations, Dialect.toList_preamble, List.append_assoc]
    rfl

/-- **Lowering distributes over joined texts** that are apart: behind a text that can be lowered,
the other one is lowered, or fails, on its own, and its calls are counted on. So a stage without
calls in its declarations is its preamble and its declarations, unchanged, and its lowered body. -/
theorem lower_append_and_assembleStage (target : Target) :
    (∀ {s t : Text} {l : Lowered}, Apart s t → lower target.dialect s = .ok l →
      lower target.dialect (s ++ t) = (lower target.dialect t).map l.append ∧
        (callSites (s ++ t)).length = (callSites s).length + (callSites t).length) ∧
    ∀ {decls : Declarations} {textures : List ExpandedTexture} {stage : Stage} {colors : Nat}
      {body : String} {a : Allocator} {draft : Draft},
      draftStage target.dialect decls textures stage colors a = .ok draft →
      let source : StageSource :=
        ⟨target.dialect.preamble stage (!decls.textures.isEmpty) colors, draft.items, body⟩
      CallFree source.declarations.toList →
      assembleStage target.dialect decls textures stage colors body a =
        match lower target.dialect body.toList with
        | .error fault => .error (.call fault)
        | .ok lowered =>
          .ok ⟨source.preamble ++ source.declarations ++ String.ofList lowered.text, draft.items,
            draft.allocator⟩ := by
  constructor
  · intro s t l hapart hl
    exact ⟨(lowers_of_lower hl).lower_append hapart, length_callSites_append hapart⟩
  · intro decls textures stage colors body a draft hdraft source hfree
    have hfinish : source.finish target.dialect = _ :=
      StageSource.finish_of_callFree rfl (draftStage_isPrecision hdraft) hfree
    rw [assembleStage, hdraft]
    change (do
      let text ← source.finish target.dialect
      pure (FinishedStage.mk text draft.items draft.allocator)) = _
    rw [hfinish]
    cases lower target.dialect body.toList with
    | error fault => rfl
    | ok lowered => rfl

/-- Two calls, one behind the other, and a body with a call behind the declarations of a stage. -/
theorem lower_append_and_assembleStage_calls :
    let target : Target := { api := .vulkan, version := 0 }
    lower target.dialect ("ngl_tex2d(a, b)".toList ++ " + ngl_img2d(c)".toList) =
        .ok ⟨"ngli_tex2d(a_sampler, b) + ngli_img2d(c_sampler)".toList, 2⟩ ∧
      ∃ draft front, draftStage target.dialect mixedDeclarations [] .vertex 1 .start = .ok draft ∧
        assembleStage target.dialect mixedDeclarations [] .vertex 1 "ngl_tex2d(a, b)" .start =
          .ok ⟨front ++ "ngli_tex2d(a_sampler, b)", draft.items, draft.allocator⟩ := by
  obtain ⟨happend, hstage⟩ := lower_append_and_assembleStage { api := .vulkan, version := 0 }
  have hs : lower ({ api := .vulkan, version := 0 } : Target).dialect "ngl_tex2d(a, b)".toList =
      .ok ⟨"ngli_tex2d(a_sampler, b)".toList, 1⟩ := by
    decide +kernel
  have ht : lower ({ api := .vulkan, version := 0 } : Target).dialect " + ngl_img2d(c)".toList =
      .ok ⟨" + ngli_img2d(c_sampler)".toList, 1⟩ := by
    decide +kernel
  obtain ⟨draft, hdraft⟩ : ∃ draft, draftStage (Target.dialect { api := .vulkan, version := 0 })
    mixedDeclarations [] .vertex 1 .start = .ok draft := ⟨_, rfl⟩
  have hfree : CallFree (StageSource.mk (Dialect.preamble (Target.dialect
      { api := .vulkan, version := 0 }) .vertex false 1) draft.items
        "ngl_tex2d(a, b)").declarations.toList := by
    cases hdraft
    decide +kernel
  have hassemble :=
    @hstage mixedDeclarations [] .vertex 1 "ngl_tex2d(a, b)" .start draft hdraft hfree
  rw [hs] at hassemble
  dsimp only at hassemble
  rw [String.ofList_toList] at hassemble
  constructor
  · rw [(happend (.inr rfl) hs).1, ht]
    rfl
  · exact ⟨draft, _, hdraft, hassemble⟩

end ShaderLoom
