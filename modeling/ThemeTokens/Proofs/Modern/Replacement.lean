import ThemeTokens.Modern.Replacement
import ThemeTokens.Proofs.Reference.Usage
import ThemeTokens.Proofs.Stylesheet

/-! # References as custom properties

    Outside of literal mode each reference is written as a use of its custom
    property, nothing is removed, and a stylesheet is only written if the
    authority has a light value for every reference in it. -/

namespace ThemeTokens.Modern

/-- A use of a custom property, with the value that stands in where nothing
    declares it. -/
def useOf (property : String) : Option String → String
  | some fallback => "var(" ++ property ++ ", " ++ fallback ++ ")"
  | none => "var(" ++ property ++ ")"

section Written

variable (property : TokenPath → String) (fallback : TokenPath → Option String)

/-- A declaration with uses of custom properties for its references. -/
def written (d : Declaration) : Declaration :=
  match d.referring? with
  | some value => { d with value := value.written fun path => useOf (property path) (fallback path) }
  | none => d

/-- A rule without markers, with uses of custom properties for references. -/
def writtenRule (r : Rule) : Rule :=
  { r with
    selector := Selector.stripThemeRoot r.selector
    declarations := r.declarations.map (written property fallback) }

/-- A stylesheet without markers, with uses of custom properties for
    references. -/
def writtenSheet (sheet : Stylesheet) : Stylesheet :=
  sheet.map (writtenRule property fallback) (List.map (written property fallback))

end Written

namespace Replacement

/-- Where references are replaced every value that has to be read can be. -/
theorem readable_of_sheet {put : Replacement} {sheet out : Stylesheet}
    (h : put.sheet sheet = .ok out) : ∀ d ∈ sheet.declarations, d.Readable := by
  have hone : ∀ {d : Declaration} {replaced : Replaced}, put.declaration d = .ok replaced →
      d.Readable := by
    intro d replaced hd hm
    rw [declaration, if_pos hm, Outcome.located_eq_ok] at hd
    obtain ⟨value, hparse, -⟩ := Outcome.bind_eq_ok.mp hd
    exact ⟨value, hparse⟩
  have hall : ∀ ds out, put.declarations ds = .ok out → ∀ d ∈ ds, d.Readable := by
    intro ds
    induction ds with
    | nil => exact fun _ _ => List.forall_mem_nil _
    | cons d ds ih =>
        intro out hds
        obtain ⟨replaced, hd, hrest⟩ := Outcome.bind_eq_ok.mp hds
        refine List.forall_mem_cons.mpr ⟨hone hd, ?_⟩
        cases replaced with
        | kept kept =>
            obtain ⟨rest, hrest, -⟩ := Outcome.bind_eq_ok.mp hrest
            exact ih rest hrest
        | removed warning => exact ih out hrest
  refine Stylesheet.mapM_holds (fun r out hr => ?_) hall h
  obtain ⟨ds, hds, -⟩ := Outcome.bind_eq_ok.mp hr
  exact hall _ ds hds

/-- Every path the declaration refers to has a light value of the authority. -/
def Known (put : Replacement) (d : Declaration) : Prop :=
  ∀ value, d.referring? = some value → ∀ r ∈ value.references,
    (put.authority.light.value? r.path).isSome = true

variable {put : Replacement} (hliteral : put.literal = false)

include hliteral

/-- A reference with a value becomes a use of its custom property. -/
theorem resolve_of_isSome {r : Reference}
    (h : (put.authority.light.value? r.path).isSome = true) :
    put.resolve r = .ok (some (useOf (put.property r.path) (put.fallback? r.path))) := by
  rw [TokenMap.value?] at h
  rw [resolve, hliteral, if_neg Bool.false_ne_true]
  cases hl : put.authority.light.lookup r.path with
  | value text =>
      dsimp only
      rw [varText]
      cases put.fallback? r.path with
      | none => rfl
      | some value => rfl
  | group =>
      rw [hl] at h
      cases h
  | missing =>
      rw [hl] at h
      cases h

/-- What a reference resolves to is a use of its custom property. -/
theorem resolve_eq_ok {r : Reference} {found : Option String} (h : put.resolve r = .ok found) :
    found = some (useOf (put.property r.path) (put.fallback? r.path))
      ∧ (put.authority.light.value? r.path).isSome = true := by
  have hvalue : (put.authority.light.value? r.path).isSome = true := by
    rw [resolve, hliteral, if_neg Bool.false_ne_true] at h
    rw [TokenMap.value?]
    cases hl : put.authority.light.lookup r.path with
    | value text => rfl
    | group =>
        rw [hl] at h
        cases h
    | missing =>
        rw [hl] at h
        cases h
  exact ⟨Except.ok.inj (h.symm.trans (resolve_of_isSome hliteral hvalue)), hvalue⟩

/-- A declaration is kept, its references written as uses. -/
theorem declaration_eq_ok {d : Declaration} {out : Replaced} (h : put.declaration d = .ok out) :
    out = .kept (written put.property put.fallback? d) ∧ put.Known d := by
  rw [declaration] at h
  by_cases hm : mentionsTheme d.value = true
  · rw [if_pos hm, Outcome.located_eq_ok] at h
    obtain ⟨value, hparse, h⟩ := Outcome.bind_eq_ok.mp h
    by_cases hr : value.hasReferences = true
    · rw [if_pos hr] at h
      obtain ⟨outcome, hsub, h⟩ := Outcome.bind_eq_ok.mp h
      have hd := referring?_eq_some_iff.mpr ⟨hparse, hr⟩
      have htext : outcome.text? = value.spelled? fun path =>
          some (useOf (put.property path) (put.fallback? path)) :=
        substitute_text? (fun r found hf => (resolve_eq_ok hliteral hf).1) hsub
      -- Every path has a use, so the declaration is not dropped.
      rw [spelled?_some] at htext
      cases outcome with
      | dropped missing => cases htext
      | text text =>
          rw [← Except.ok.inj h, written, hd]
          refine ⟨?_, ?_⟩
          · rw [Option.some.inj htext]
          · intro other ho r hmem
            rw [hd] at ho
            rw [← Option.some.inj ho] at hmem
            obtain ⟨found, hf⟩ := resolved_of_fill (fill_of_substitute hsub) r hmem
            exact (resolve_eq_ok hliteral hf).2
    · rw [if_neg hr] at h
      have hnone := referring?_of_no_references hparse (Bool.eq_false_iff.mpr hr)
      rw [← Except.ok.inj h, written, hnone]
      refine ⟨rfl, fun other ho => ?_⟩
      rw [hnone] at ho
      cases ho
  · rw [if_neg hm] at h
    have hnone := referring?_of_not_mentions (Bool.eq_false_iff.mpr hm)
    rw [← Except.ok.inj h, written, hnone]
    refine ⟨rfl, fun other ho => ?_⟩
    rw [hnone] at ho
    cases ho

theorem declarations_eq_ok {ds out : List Declaration} (h : put.declarations ds = .ok out) :
    out = ds.map (written put.property put.fallback?) ∧ ∀ d ∈ ds, put.Known d := by
  induction ds generalizing out with
  | nil =>
      rw [← Except.ok.inj h]
      exact ⟨rfl, List.forall_mem_nil _⟩
  | cons d ds ih =>
      obtain ⟨replaced, hd, h⟩ := Outcome.bind_eq_ok.mp h
      obtain ⟨rfl, hknown⟩ := declaration_eq_ok hliteral hd
      obtain ⟨rest, hrest, h⟩ := Outcome.bind_eq_ok.mp h
      obtain ⟨hmap, hall⟩ := ih hrest
      rw [← Except.ok.inj h, hmap]
      exact ⟨rfl, List.forall_mem_cons.mpr ⟨hknown, hall⟩⟩

theorem rule_eq_ok {r out : Rule} (h : put.rule r = .ok out) :
    out = writtenRule put.property put.fallback? r ∧ ∀ d ∈ r.declarations, put.Known d := by
  obtain ⟨ds, hds, h⟩ := Outcome.bind_eq_ok.mp h
  obtain ⟨hmap, hall⟩ := declarations_eq_ok hliteral hds
  rw [← Except.ok.inj h, hmap]
  exact ⟨rfl, hall⟩

/-- **USES**: a stylesheet that is written has uses of custom properties in the
    places of its references, and knows them all. -/
theorem sheet_eq_ok {sheet out : Stylesheet} (h : put.sheet sheet = .ok out) :
    out = writtenSheet put.property put.fallback? sheet
      ∧ ∀ d ∈ sheet.declarations, put.Known d :=
  Stylesheet.mapM_eq_ok (fun _ _ hr => rule_eq_ok hliteral hr)
    (fun _ _ hds => declarations_eq_ok hliteral hds) h

end Replacement

end ThemeTokens.Modern
