import ShaderLoom.Session

/-!
# How building ends

Building a session has six ends, and `Session.BuildEnds` lists them in the order in which building
comes upon them. Each says what is answered, what becomes of the session, and what becomes of the
context; the cache is asked in the last three, and once. What follows about every build follows from
**`Session.buildEnds`** by cases.
-/

namespace ShaderLoom

variable {s : Session} {c : Context} {bodies : ProgramBodies} {r : Resources} {p : Program}

namespace Session

/-- What a session assembles from its declarations and the bodies of a program. -/
def assembly (s : Session) (d : Dialect) (bodies : ProgramBodies) : Except Error Assembly :=
  assemble d s.declarations (s.expand d bodies.isGraphics).textures bodies

/-- The textures of a session in which none was expanded before. -/
theorem textures_expand (h : s.textures = []) (d : Dialect) (graphics : Bool) :
    (s.expand d graphics).textures = s.declarations.textures.map (·.expand d.frames graphics) := by
  rw [expand, h, List.nil_append]

/-- The context after a request for a program. -/
def requested (c : Context) (texts : StageTexts) : Context :=
  { c with cache := (c.cache.get texts).2 }

/-- May the declarations go with bodies of this kind? Attributes are for graphics programs. -/
def Suits (s : Session) (bodies : ProgramBodies) : Prop :=
  bodies.isGraphics = true ∨ s.declarations.attributes = []

/-- How building a session ends. -/
inductive BuildEnds (s : Session) (c : Context) (bodies : ProgramBodies) :
    Outcome Resources → Prop where
  /-- the session is not open -/
  | refused : s.isOpen = false → BuildEnds s c bodies (.error (.wrongState .build s.state), s, c)
  /-- the declarations do not go with the bodies -/
  | unsuited : s.isOpen = true → ¬ s.Suits bodies →
      BuildEnds s c bodies (.error .computeAttributes, s.fail, c)
  /-- the texts cannot be assembled -/
  | unassembled {e : Error} : s.isOpen = true → s.Suits bodies →
      s.assembly c.dialect bodies = .error e →
      BuildEnds s c bodies (.error e, (s.expand c.dialect bodies.isGraphics).fail, c)
  /-- the compiler refuses the texts -/
  | uncompiled {a : Assembly} {fault : CompileFault} : s.isOpen = true → s.Suits bodies →
      s.assembly c.dialect bodies = .ok a → (c.cache.get a.texts).1 = .error fault →
      BuildEnds s c bodies (.error (.compile fault),
        (s.expand c.dialect bodies.isGraphics).fail, requested c a.texts)
  /-- the program has no place for something declared -/
  | unresolved {a : Assembly} {p : Program} {e : Error} : s.isOpen = true → s.Suits bodies →
      s.assembly c.dialect bodies = .ok a → (c.cache.get a.texts).1 = .ok p →
      p.reflection.resolve (.ofItems a.items) = .error e →
      BuildEnds s c bodies (.error e,
        ((s.expand c.dialect bodies.isGraphics).adopt p a.items).fail, requested c a.texts)
  /-- everything declared is resolved -/
  | resolved {a : Assembly} {p : Program} {elements : Resolved} : s.isOpen = true →
      s.Suits bodies → s.assembly c.dialect bodies = .ok a → (c.cache.get a.texts).1 = .ok p →
      p.reflection.resolve (.ofItems a.items) = .ok elements →
      BuildEnds s c bodies (.ok ⟨p, elements, a.items.filterMap Item.uniformBlock?⟩,
        ((s.expand c.dialect bodies.isGraphics).adopt p a.items).settle elements,
        { requested c a.texts with cache := (requested c a.texts).cache.hold p })

/-- **Building ends** in one of six ways. -/
theorem buildEnds (s : Session) (c : Context) (bodies : ProgramBodies) :
    s.BuildEnds c bodies (s.build c bodies) := by
  have hsuits : (!bodies.isGraphics && !s.declarations.attributes.isEmpty) = false ↔
      s.Suits bodies := by
    rw [Suits]
    cases bodies.isGraphics <;> simp
  have hdeclared : ∀ (t : Session) (p : Program) (items : List Item),
      (t.adopt p items).declared = Declared.ofItems items := fun _ _ _ => rfl
  rw [build]
  split
  · next hclosed => exact .refused (by simpa using hclosed)
  · next hopen =>
    have hopen : s.isOpen = true := by simpa using hopen
    split
    · next hunsuited =>
      refine .unsuited hopen fun h => ?_
      rw [hsuits.mpr h] at hunsuited
      cases hunsuited
    · next hgraphics =>
      have hs : s.Suits bodies := hsuits.mp (Bool.eq_false_iff.mpr hgraphics)
      dsimp only
      split
      · next e ha => exact .unassembled hopen hs ha
      · next a ha =>
        have ha : s.assembly c.dialect bodies = .ok a := ha
        rw [compile]
        split
        · next fault cache hget =>
          have hend := BuildEnds.uncompiled hopen hs ha (congrArg Prod.fst hget)
          rwa [requested, hget] at hend
        · next p cache hget =>
          rw [resolve, hdeclared]
          split
          · next e hresolve =>
            have hend := BuildEnds.unresolved hopen hs ha (congrArg Prod.fst hget) hresolve
            rwa [requested, hget] at hend
          · next elements hresolve =>
            have hend := BuildEnds.resolved hopen hs ha (congrArg Prod.fst hget) hresolve
            rwa [requested, hget] at hend

/-- **A session that builds resources**, step by step: it assembles its texts, gets a program from
the cache, resolves what the texts declare, and takes a handle. -/
theorem build_eq {a : Assembly} {cache : Cache} {elements : Resolved} (hopen : s.isOpen = true)
    (hattributes : bodies.isGraphics = true ∨ s.declarations.attributes = [])
    (ha : s.assembly c.dialect bodies = .ok a) (hget : c.cache.get a.texts = (.ok p, cache))
    (hresolve : p.reflection.resolve (Declared.ofItems a.items) = .ok elements) :
    s.build c bodies =
      (.ok ⟨p, elements, a.items.filterMap Item.uniformBlock?⟩,
        ((s.expand c.dialect bodies.isGraphics).adopt p a.items).settle elements,
        { c with cache := cache.hold p }) := by
  have hend := s.buildEnds c bodies
  generalize s.build c bodies = outcome at hend
  cases hend with
  | refused hclosed => cases hopen.symm.trans hclosed
  | unsuited _ hunsuited => exact absurd hattributes hunsuited
  | unassembled _ _ ha' => cases ha.symm.trans ha'
  | uncompiled _ _ ha' hget' =>
    cases ha.symm.trans ha'
    rw [hget] at hget'
    cases hget'
  | unresolved _ _ ha' hget' hresolve' =>
    cases ha.symm.trans ha'
    rw [hget] at hget'
    cases hget'
    cases hresolve.symm.trans hresolve'
  | resolved _ _ ha' hget' hresolve' =>
    cases ha.symm.trans ha'
    rw [requested, hget] at *
    cases hget'
    cases hresolve.symm.trans hresolve'
    rfl

/-- **What is built**: the resources are what the declarations of an assembly resolve to, against a
program that the cache hands out for its texts. -/
theorem build_eq_ok_iff :
    (s.build c bodies).1 = .ok r ↔
      s.isOpen = true ∧ (bodies.isGraphics = true ∨ s.declarations.attributes = []) ∧
        ∃ a, s.assembly c.dialect bodies = .ok a ∧ (c.cache.get a.texts).1 = .ok r.program ∧
          r.program.reflection.resolve (Declared.ofItems a.items) = .ok r.elements ∧
            r.uniformBlocks = a.items.filterMap Item.uniformBlock? := by
  constructor
  · intro h
    have hend := s.buildEnds c bodies
    generalize s.build c bodies = outcome at hend h
    cases hend with
    | resolved hopen hsuits ha hget hresolve =>
      cases h
      exact ⟨hopen, hsuits, _, ha, hget, hresolve, rfl⟩
    | refused | unsuited | unassembled | uncompiled | unresolved => cases h
  · rintro ⟨hopen, hsuits, a, ha, hget, hresolve, hblocks⟩
    rw [build_eq hopen hsuits ha (Prod.ext hget rfl) hresolve, ← hblocks]

end Session

end ShaderLoom
