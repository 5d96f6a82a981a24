import Mathlib.Data.List.Nodup
import Mathlib.Data.List.Pairwise
import ShaderLoom.Expansion
import ShaderLoom.Proofs.Source.Draft

/-!
# Names of texture fields

The identifier of a field is the name of the texture, an underscore and a suffix, and some suffixes
go on from a word to the suffix of the default sampler: the luma plane `x_y_sampler` of a texture `x`
is called like the default sampler of a texture `x_y`. That is the only way in which two fields of
differently named textures can have one name (**`TextureField.identifier_eq_iff`**), so the fields of
a list of textures are told apart by their names exactly if no texture is called like another one and
such a word (**`fieldsAreNamed_iff`**).
-/

namespace ShaderLoom

open Text

variable {f g : TextureField} {s t : String} {frames : FrameShape} {graphics : Bool}
  {ts : List TextureDecl}

/-! ## Suffixes -/

namespace TextureField

/-- What stands in front of `_sampler` in the suffix of a field that only video frames need. -/
def frameWord? : TextureField → Option String
  | .externalSampler => some "external"
  | .lumaSampler => some "y"
  | .chromaSampler => some "uv"
  | .lumaRectSampler => some "y_rect"
  | .chromaRectSampler => some "uv_rect"
  | .samplingMode | .defaultSampler | .coordinateMatrix | .colorMatrix | .dimensions | .timestamp =>
    none

theorem suffix_injective (h : f.suffix = g.suffix) : f = g := by
  revert h
  cases f <;> cases g <;> decide

/-- **Only the suffix of the default sampler ends another suffix** behind an underscore, and then a
word stands in front of it. -/
theorem suffix_eq_append_iff {word : List Char} :
    f.suffix.toList = word ++ '_' :: g.suffix.toList ↔
      g = .defaultSampler ∧ f.frameWord?.map String.toList = some word := by
  constructor
  · intro h
    -- the word is what the suffix behind it leaves
    have hlength := congrArg List.length h
    rw [List.length_append] at hlength
    have hword : word.length = f.suffix.toList.length - ('_' :: g.suffix.toList).length := by omega
    have htake : f.suffix.toList.take word.length = word := by rw [h, List.take_left]
    have hdrop : f.suffix.toList.drop word.length = '_' :: g.suffix.toList := by
      rw [h, List.drop_left]
    rw [← htake]
    rw [hword] at hdrop ⊢
    revert hdrop
    clear h hlength hword htake
    cases f <;> cases g <;> decide
  · rintro ⟨rfl, h⟩
    cases f <;> cases h <;> rfl

theorem toList_joined (s word : String) :
    s!"{s}_{word}".toList = s.toList ++ '_' :: word.toList := by
  simp [toString_string]

theorem ne_joined (s word : String) : s ≠ s!"{s}_{word}" := by
  intro h
  have hlength := congrArg (fun t => t.toList.length) h
  rw [toList_joined, List.length_append, List.length_cons] at hlength
  omega

/-- A name that goes on behind another one, up to the suffix. -/
theorem of_append_eq {rest : List Char} (ht : t.toList = s.toList ++ rest)
    (h : '_' :: f.suffix.toList = rest ++ '_' :: g.suffix.toList) :
    f = g ∧ s = t ∨ g = .defaultSampler ∧ ∃ word ∈ f.frameWord?, t = s!"{s}_{word}" := by
  cases rest with
  | nil =>
    rw [List.append_nil] at ht
    exact .inl ⟨suffix_injective (String.toList_inj.mp (List.cons.inj h).2),
      (String.toList_inj.mp ht).symm⟩
  | cons c rest =>
    obtain ⟨rfl, hsuffix⟩ := List.cons.inj h
    obtain ⟨hg, hword⟩ := suffix_eq_append_iff.mp hsuffix
    obtain ⟨word, hf, rfl⟩ := Option.map_eq_some_iff.mp hword
    exact .inr ⟨hg, word, hf, String.toList_inj.mp (ht.trans (toList_joined s word).symm)⟩

/-- The name of a field for frames is that of a default sampler. -/
theorem identifier_joined {word : String} (h : f.frameWord? = some word) (s : String) :
    defaultSampler.identifier s!"{s}_{word}" = f.identifier s := by
  have hsuffix := suffix_eq_append_iff.mpr ⟨rfl, congrArg (Option.map String.toList) h⟩
  rw [← String.toList_inj, toList_identifier, toList_identifier, toList_joined, hsuffix,
    List.append_assoc, List.cons_append]

/-- **Two fields have one name** only if they are one field of textures with one name, or if one of
them is a default sampler and a word takes the name of its texture to the other field. -/
theorem identifier_eq_iff : f.identifier s = g.identifier t ↔
    f = g ∧ s = t ∨
      (g = .defaultSampler ∧ ∃ word ∈ f.frameWord?, t = s!"{s}_{word}") ∨
      f = .defaultSampler ∧ ∃ word ∈ g.frameWord?, s = s!"{t}_{word}" := by
  constructor
  · intro h
    have h := congrArg String.toList h
    rw [toList_identifier, toList_identifier, List.append_eq_append_iff] at h
    rcases h with ⟨rest, ht, h⟩ | ⟨rest, hs, h⟩
    · exact (of_append_eq ht h).imp_right .inl
    · rcases of_append_eq hs h with ⟨rfl, rfl⟩ | hframe
      · exact .inl ⟨rfl, rfl⟩
      · exact .inr (.inr hframe)
  · rintro (⟨rfl, rfl⟩ | ⟨rfl, word, hword, rfl⟩ | ⟨rfl, word, hword, rfl⟩)
    · rfl
    · exact (identifier_joined hword s).symm
    · exact identifier_joined hword t

end TextureField

/-! ## Lists of textures -/

/-- The words that the fields for frames of a shape put in front of `_sampler`. -/
def FrameShape.frameWords : FrameShape → List String
  | .direct => []
  | .external => ["external"]
  | .biplanar => ["y", "uv"]
  | .rectangle => ["y_rect", "uv_rect"]

/-- The names of all fields of some textures. -/
def fieldNames (frames : FrameShape) (graphics : Bool) (ts : List TextureDecl) : List String :=
  ts.flatMap fun t => (t.expand frames graphics).fields.map (·.name)

/-- The fields of some textures are told apart by their names. -/
structure FieldsAreNamed (frames : FrameShape) (graphics : Bool) (ts : List TextureDecl) : Prop where
  /-- no name is given twice -/
  nodup : (fieldNames frames graphics ts).Nodup
  /-- a name is that of a single field, of a single texture -/
  single : ∀ t ∈ ts, ∀ u ∈ ts, ∀ f ∈ (t.expand frames graphics).fields,
    ∀ g ∈ (u.expand frames graphics).fields, f.name = g.name → t = u ∧ f = g

section

variable {d e : TextureDecl} {x y : ExpandedField}

/-- The fields that a texture is expanded into. -/
theorem TextureDecl.mem_expand_iff : x ∈ (d.expand frames graphics).fields ↔
    ∃ f ty, (d.kind.fieldTypes frames).find? f = some ty ∧
      { kind := f, name := f.identifier d.name, ty, stage := d.fieldStage graphics f } = x := by
  rw [expand, List.mem_filterMap]
  constructor
  · rintro ⟨f, -, hx⟩
    obtain ⟨ty, hty, rfl⟩ := Option.map_eq_some_iff.mp hx
    exact ⟨f, ty, hty, rfl⟩
  · rintro ⟨f, ty, hty, rfl⟩
    exact ⟨f, f.mem_all, Option.map_eq_some_iff.mpr ⟨ty, hty, rfl⟩⟩

theorem TextureDecl.mem_map_name_iff {name : String} :
    name ∈ (d.expand frames graphics).fields.map (·.name) ↔
      ∃ f, ((d.kind.fieldTypes frames).find? f).isSome = true ∧ f.identifier d.name = name := by
  simp only [List.mem_map, mem_expand_iff, Option.isSome_iff_exists]
  constructor
  · rintro ⟨_, ⟨f, ty, hty, rfl⟩, rfl⟩
    exact ⟨f, ⟨ty, hty⟩, rfl⟩
  · rintro ⟨f, ⟨ty, hty⟩, rfl⟩
    exact ⟨_, ⟨f, ty, hty, rfl⟩, rfl⟩

/-- One texture gives each of its fields a name of its own. -/
theorem TextureField.identifier_inj : f.identifier s = g.identifier s ↔ f = g := by
  simp [identifier_eq_iff, ne_joined]

theorem TextureDecl.nodup_map_name : ((d.expand frames graphics).fields.map (·.name)).Nodup := by
  rw [expand, List.map_filterMap]
  refine List.Nodup.filterMap (fun f g name hf hg => ?_) (by decide)
  obtain ⟨x, hx, rfl⟩ := Option.map_eq_some_iff.mp hf
  obtain ⟨y, hy, hname⟩ := Option.map_eq_some_iff.mp hg
  obtain ⟨_, _, rfl⟩ := Option.map_eq_some_iff.mp hx
  obtain ⟨_, _, rfl⟩ := Option.map_eq_some_iff.mp hy
  exact (TextureField.identifier_inj.mp hname).symm

/-- Only a plane has fields for frames, and they have the words of the shape. -/
theorem TextureKind.mem_frameWords {kind : TextureKind} :
    ∀ word ∈ f.frameWord?, ((kind.fieldTypes frames).find? f).isSome = true →
      kind = .plane ∧ word ∈ frames.frameWords := by
  cases kind <;> cases frames <;> cases f <;> decide

/-- A plane has a field for every word of the shape. -/
theorem FrameShape.exists_frameWord {word : String} (h : word ∈ frames.frameWords) :
    ∃ f : TextureField, ((TextureKind.plane.fieldTypes frames).find? f).isSome = true ∧
      f.frameWord? = some word := by
  cases frames with
  | direct => cases h
  | external =>
    obtain rfl := List.mem_singleton.mp h
    exact ⟨.externalSampler, rfl, rfl⟩
  | biplanar =>
    rcases List.mem_pair.mp h with rfl | rfl
    · exact ⟨.lumaSampler, rfl, rfl⟩
    · exact ⟨.chromaSampler, rfl, rfl⟩
  | rectangle =>
    rcases List.mem_pair.mp h with rfl | rfl
    · exact ⟨.lumaRectSampler, rfl, rfl⟩
    · exact ⟨.chromaRectSampler, rfl, rfl⟩

/-- Fields of one texture that have one name are one field. -/
theorem TextureDecl.eq_of_name (hx : x ∈ (d.expand frames graphics).fields)
    (hy : y ∈ (d.expand frames graphics).fields) (h : x.name = y.name) : x = y := by
  obtain ⟨f, ty, hty, rfl⟩ := mem_expand_iff.mp hx
  obtain ⟨g, ty', hty', rfl⟩ := mem_expand_iff.mp hy
  obtain rfl := TextureField.identifier_inj.mp h
  obtain rfl := Option.some.inj (hty.symm.trans hty')
  rfl

/-- Every texture has a default sampler. -/
theorem TextureKind.isSome_defaultSampler (kind : TextureKind) (frames : FrameShape) :
    ((kind.fieldTypes frames).find? .defaultSampler).isSome = true := by
  cases kind <;> rfl

/-- A word for frames takes the name of a plane to that of another texture. -/
def TextureDecl.Joins (frames : FrameShape) (d e : TextureDecl) : Prop :=
  d.kind = .plane ∧ ∃ word ∈ frames.frameWords, e.name = s!"{d.name}_{word}"

/-- The plane has a field that is called like the default sampler of the other texture. -/
theorem TextureDecl.Joins.exists_name (h : d.Joins frames e) (graphics : Bool) :
    ∃ name ∈ (d.expand frames graphics).fields.map (·.name),
      name ∈ (e.expand frames graphics).fields.map (·.name) := by
  obtain ⟨hkind, word, hword, hname⟩ := h
  obtain ⟨f, hf, hfword⟩ := FrameShape.exists_frameWord hword
  refine ⟨f.identifier d.name, mem_map_name_iff.mpr ⟨f, hkind ▸ hf, rfl⟩,
    mem_map_name_iff.mpr ⟨.defaultSampler, e.kind.isSome_defaultSampler frames, ?_⟩⟩
  rw [hname, TextureField.identifier_joined hfword]

/-- **Textures of different names** have a field of one name only if one of them joins the other. -/
theorem TextureDecl.joins_of_name (hne : d.name ≠ e.name) {name : String}
    (hd : name ∈ (d.expand frames graphics).fields.map (·.name))
    (he : name ∈ (e.expand frames graphics).fields.map (·.name)) :
    d.Joins frames e ∨ e.Joins frames d := by
  obtain ⟨f, hf, rfl⟩ := mem_map_name_iff.mp hd
  obtain ⟨g, hg, hname⟩ := mem_map_name_iff.mp he
  rcases TextureField.identifier_eq_iff.mp hname.symm with
    ⟨-, hsame⟩ | ⟨-, word, hword, he⟩ | ⟨-, word, hword, hd⟩
  · exact absurd hsame hne
  · obtain ⟨hkind, hmem⟩ := TextureKind.mem_frameWords word hword hf
    exact .inl ⟨hkind, word, hmem, he⟩
  · obtain ⟨hkind, hmem⟩ := TextureKind.mem_frameWords word hword hg
    exact .inr ⟨hkind, word, hmem, hd⟩

/-- No name is given twice exactly if no texture joins another one. -/
theorem nodup_fieldNames_iff (hnames : (ts.map (·.name)).Nodup) :
    (fieldNames frames graphics ts).Nodup ↔ ∀ d ∈ ts, ∀ e ∈ ts, ¬d.Joins frames e := by
  have hdistinct : ts.Pairwise fun d e => d.name ≠ e.name := List.pairwise_map.mp hnames
  rw [fieldNames, List.nodup_flatMap]
  constructor
  · rintro ⟨-, hdisjoint⟩ d hd e he hjoins
    have hsymm : Std.Symm (Function.onFun List.Disjoint fun t : TextureDecl =>
        (t.expand frames graphics).fields.map (·.name)) := ⟨fun _ _ h _ hx hy => h hy hx⟩
    have hne : d ≠ e := by
      rintro rfl
      obtain ⟨-, word, -, hname⟩ := hjoins
      exact TextureField.ne_joined d.name word hname
    obtain ⟨name, hown, hother⟩ := hjoins.exists_name graphics
    exact hdisjoint.forall hd he hne hown hother
  · intro h
    refine ⟨fun d _ => TextureDecl.nodup_map_name, hdistinct.imp_of_mem fun {d e} hd he hne => ?_⟩
    refine List.disjoint_left.mpr fun name hown hother => ?_
    rcases TextureDecl.joins_of_name hne hown hother with hjoins | hjoins
    · exact h d hd e he hjoins
    · exact h e he d hd hjoins

end

/-- **Fields are told apart by their names** exactly if no texture is called like a plane and a word
that video frames put in front of `_sampler`. -/
theorem fieldsAreNamed_iff (frames : FrameShape) (graphics : Bool) (ts : List TextureDecl)
    (hnames : (ts.map (·.name)).Nodup) :
    FieldsAreNamed frames graphics ts ↔
      ∀ t ∈ ts, t.kind = .plane → ∀ word ∈ frames.frameWords, ∀ u ∈ ts,
        u.name ≠ s!"{t.name}_{word}" := by
  have hjoins : (∀ t ∈ ts, t.kind = .plane → ∀ word ∈ frames.frameWords, ∀ u ∈ ts,
      u.name ≠ s!"{t.name}_{word}") ↔ ∀ t ∈ ts, ∀ u ∈ ts, ¬t.Joins frames u := by
    constructor
    · rintro h t ht u hu ⟨hkind, word, hword, hname⟩
      exact h t ht hkind word hword u hu hname
    · intro h t ht hkind word hword u hu hname
      exact h t ht u hu ⟨hkind, word, hword, hname⟩
  rw [hjoins]
  refine ⟨fun h => (nodup_fieldNames_iff hnames).mp h.nodup, fun h => ?_⟩
  refine ⟨(nodup_fieldNames_iff hnames).mpr h, fun t ht u hu f hf g hg hname => ?_⟩
  have hsame : t.name = u.name := by
    by_contra hne
    rcases TextureDecl.joins_of_name hne (List.mem_map_of_mem hf)
      (hname ▸ List.mem_map_of_mem hg) with hjoins | hjoins
    · exact h t ht u hu hjoins
    · exact h u hu t ht hjoins
  obtain rfl := List.inj_on_of_nodup_map hnames ht hu hsame
  exact ⟨rfl, TextureDecl.eq_of_name hf hg hname⟩

/-- Textures whose names go on behind one another, with words of another shape. -/
theorem fieldsAreNamed_rectangle :
    let ts : List TextureDecl :=
      [{ name := "x", kind := .plane, stage := .fragment },
        { name := "x_y", kind := .plane, stage := .vertex },
        { name := "x_sampler", kind := .cube, stage := .fragment }]
    (ts.map (·.name)).Nodup ∧ FieldsAreNamed .rectangle true ts := by
  intro ts
  have hnames : (ts.map (·.name)).Nodup := by decide
  exact ⟨hnames, (fieldsAreNamed_iff .rectangle true ts hnames).mpr (by decide)⟩

/-- The luma plane of one texture is called like the default sampler of another one. -/
theorem not_nodup_fieldNames_biplanar :
    let ts : List TextureDecl :=
      [{ name := "x", kind := .plane, stage := .fragment },
        { name := "x_y", kind := .plane, stage := .fragment }]
    (ts.map (·.name)).Nodup ∧ ¬(fieldNames .biplanar true ts).Nodup ∧
      ¬FieldsAreNamed .biplanar true ts := by
  intro ts
  have hnames : (ts.map (·.name)).Nodup := by decide
  have hnodup : ¬(fieldNames .biplanar true ts).Nodup := by decide
  exact ⟨hnames, hnodup, fun h => hnodup h.nodup⟩

end ShaderLoom
