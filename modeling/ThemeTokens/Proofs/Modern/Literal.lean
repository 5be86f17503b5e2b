import ThemeTokens.Proofs.Legacy.SingleTheme
import ThemeTokens.Proofs.Stylesheet

/-! # Values in place of custom properties

    In literal mode a reference without a value takes its whole declaration
    with it.  A declaration is removed if one of its references has no value
    (`Declaration.Lacks`), with a warning that names the first of them
    (`WarnsOf`), and all others are written with values (`valued`).

    `apply_warns` says that the output is what these make of the stylesheet,
    and that there is one warning for each declaration removed. -/

namespace ThemeTokens

/-- Some reference of the declaration has no value. -/
def Declaration.Lacks (tokens : TokenMap) (d : Declaration) : Prop :=
  ∃ value ∈ d.referring?, ∃ r ∈ value.references, tokens.value? r.path = none

instance (tokens : TokenMap) : DecidablePred (Declaration.Lacks tokens) :=
  fun d => inferInstanceAs
    (Decidable (∃ value ∈ d.referring?, ∃ r ∈ value.references, tokens.value? r.path = none))

/-- `missing` is the first reference of the declaration that has no value. -/
def Declaration.LacksFirst (tokens : TokenMap) (d : Declaration) (missing : Reference) : Prop :=
  ∃ value before after, d.referring? = some value
    ∧ value.references = before ++ missing :: after ∧ tokens.value? missing.path = none
    ∧ ∀ r ∈ before, (tokens.value? r.path).isSome = true

theorem Declaration.LacksFirst.lacks {tokens : TokenMap} {d : Declaration} {missing : Reference}
    (h : d.LacksFirst tokens missing) : d.Lacks tokens := by
  obtain ⟨value, before, after, hd, hrefs, hnone, -⟩ := h
  refine ⟨value, hd, missing, ?_, hnone⟩
  rw [hrefs]
  exact List.mem_append_right before List.mem_cons_self

namespace Modern

/-- The warning is about the declaration, and names the first of its references
    that has no value. -/
def WarnsOf (tokens : TokenMap) (d : Declaration) (warning : Warning) : Prop :=
  warning.location = some d.location
    ∧ ∃ missing, d.LacksFirst tokens missing
        ∧ warning.message = "Could not find key " ++ missing.path.text
            ++ " in theme configuration. Removing declaration."

section Valued

variable (tokens : TokenMap)

/-- A declaration with values in place of its references. -/
def valued (d : Declaration) : Declaration :=
  match d.referring? with
  | some value =>
      { d with value := value.written fun path => (tokens.value? path).getD "" }
  | none => d

/-- The declarations in which every reference has a value, with the values. -/
def valuedAll (ds : List Declaration) : List Declaration :=
  (ds.filter fun d => ¬ d.Lacks tokens).map (valued tokens)

/-- A rule without markers, with values in place of references. -/
def valuedRule (r : Rule) : Rule :=
  { r with
    selector := Selector.stripThemeRoot r.selector
    declarations := valuedAll tokens r.declarations }

/-- A stylesheet without markers, with values in place of references. -/
def valuedSheet (sheet : Stylesheet) : Stylesheet :=
  sheet.map (valuedRule tokens) (valuedAll tokens)

end Valued

namespace Replacement

variable {put : Replacement} {tokens : TokenMap}
  (hvalues : ∀ r, put.resolve r = .ok (tokens.value? r.path))

include hvalues

/-- With references a declaration is written with all the values, or removed
    for the first that is missing. -/
theorem substitute_eq_ok {d : Declaration} {value : ParsedValue} {outcome : Substituted}
    (hd : d.referring? = some value) (h : value.substitute put.resolve = .ok outcome) :
    (¬ d.Lacks tokens ∧ outcome = .text (valued tokens d).value)
      ∨ ∃ missing, d.LacksFirst tokens missing ∧ outcome = .dropped missing := by
  have hfill := fill_of_substitute h
  cases outcome with
  | text text =>
      have hall : ∀ r ∈ value.references, ∃ found, tokens.value? r.path = some found := by
        intro r hr
        obtain ⟨found, hfound⟩ := resolved_of_fill hfill r hr
        exact ⟨found, Except.ok.inj ((hvalues r).symm.trans hfound)⟩
      refine Or.inl ⟨?_, ?_⟩
      · rintro ⟨other, hother, r, hr, hnone⟩
        rw [← Option.some.inj (hd.symm.trans hother)] at hr
        obtain ⟨found, hfound⟩ := hall r hr
        cases hnone.symm.trans hfound
      · have hwritten : fill put.resolve value.segments
            = .ok (.text (value.written fun path => (tokens.value? path).getD "")) := by
          refine fill_eq_text fun r hr => ?_
          obtain ⟨found, hfound⟩ := hall r hr
          rw [hvalues r, hfound]
          rfl
        rw [valued, hd]
        exact Except.ok.inj (hfill.symm.trans hwritten)
  | dropped missing =>
      obtain ⟨before, after, hrefs, hnone, hbefore⟩ := dropped_of_fill hfill
      refine Or.inr ⟨missing, ⟨value, before, after, hd, hrefs, ?_, ?_⟩, rfl⟩
      · exact Except.ok.inj ((hvalues missing).symm.trans hnone)
      · intro r hr
        obtain ⟨found, hfound⟩ := hbefore r hr
        rw [Except.ok.inj ((hvalues r).symm.trans hfound)]
        rfl

/-- A declaration is removed exactly if one of its references has no value. -/
theorem declaration_literal {d : Declaration} {out : Replaced} (h : put.declaration d = .ok out) :
    (¬ d.Lacks tokens ∧ out = .kept (valued tokens d))
      ∨ ∃ missing, d.LacksFirst tokens missing ∧ out = .removed (removal d missing) := by
  have hplain : d.referring? = none → out = .kept d →
      ¬ d.Lacks tokens ∧ out = .kept (valued tokens d) := by
    intro hnone hout
    refine ⟨?_, ?_⟩
    · rintro ⟨value, hvalue, -⟩
      cases hnone.symm.trans hvalue
    · rw [valued, hnone]
      exact hout
  rw [declaration] at h
  by_cases hm : mentionsTheme d.value = true
  · rw [if_pos hm, Outcome.located_eq_ok] at h
    obtain ⟨value, hparse, h⟩ := Outcome.bind_eq_ok.mp h
    by_cases hr : value.hasReferences = true
    · rw [if_pos hr] at h
      obtain ⟨outcome, hsub, h⟩ := Outcome.bind_eq_ok.mp h
      have hd := referring?_eq_some_iff.mpr ⟨hparse, hr⟩
      rcases substitute_eq_ok hvalues hd hsub with ⟨hlacks, rfl⟩ | ⟨missing, hfirst, rfl⟩
      · refine Or.inl ⟨hlacks, ?_⟩
        rw [← Except.ok.inj h, valued, hd]
      · exact Or.inr ⟨missing, hfirst, (Except.ok.inj h).symm⟩
    · rw [if_neg hr] at h
      exact Or.inl (hplain (referring?_of_no_references hparse (Bool.eq_false_iff.mpr hr))
        (Except.ok.inj h).symm)
  · rw [if_neg hm] at h
    exact Or.inl (hplain (referring?_of_not_mentions (Bool.eq_false_iff.mpr hm))
      (Except.ok.inj h).symm)

/-- The declarations that are kept are those in which every reference has a
    value. -/
theorem declarations_literal {ds out : List Declaration} (h : put.declarations ds = .ok out) :
    out = valuedAll tokens ds ∧ ∀ d ∈ ds, ∃ replaced, put.declaration d = .ok replaced := by
  induction ds generalizing out with
  | nil =>
      rw [← Except.ok.inj h]
      exact ⟨rfl, List.forall_mem_nil _⟩
  | cons d ds ih =>
      obtain ⟨replaced, hd, h⟩ := Outcome.bind_eq_ok.mp h
      rw [valuedAll, List.filter_cons]
      rcases declaration_literal hvalues hd with ⟨hlacks, rfl⟩ | ⟨missing, hfirst, rfl⟩
      · obtain ⟨rest, hrest, h⟩ := Outcome.bind_eq_ok.mp h
        obtain ⟨rfl, hall⟩ := ih hrest
        rw [if_pos (decide_eq_true hlacks), ← Except.ok.inj h]
        exact ⟨rfl, List.forall_mem_cons.mpr ⟨⟨_, hd⟩, hall⟩⟩
      · obtain ⟨rfl, hall⟩ := ih h
        rw [if_neg (by simpa using hfirst.lacks)]
        exact ⟨rfl, List.forall_mem_cons.mpr ⟨⟨_, hd⟩, hall⟩⟩

/-- So they are in a rule, and the rule loses its markers. -/
theorem rule_literal {r out : Rule} (h : put.rule r = .ok out) :
    out = valuedRule tokens r
      ∧ ∀ d ∈ r.declarations, ∃ replaced, put.declaration d = .ok replaced := by
  obtain ⟨ds, hds, h⟩ := Outcome.bind_eq_ok.mp h
  obtain ⟨rfl, hall⟩ := declarations_literal hvalues hds
  exact ⟨(Except.ok.inj h).symm, hall⟩

/-- Where declarations are looked at one after the other there is one warning
    for each that is removed. -/
theorem warnings_literal {ds : List Declaration}
    (hall : ∀ d ∈ ds, ∃ replaced, put.declaration d = .ok replaced) :
    List.Forall₂ (WarnsOf tokens) (ds.filter fun d => d.Lacks tokens)
      (ds.filterMap put.warning?) := by
  induction ds with
  | nil => exact .nil
  | cons d ds ih =>
      obtain ⟨⟨replaced, hd⟩, hrest⟩ := List.forall_mem_cons.mp hall
      rw [List.filter_cons, List.filterMap_cons, warning?, hd]
      rcases declaration_literal hvalues hd with ⟨hlacks, rfl⟩ | ⟨missing, hfirst, rfl⟩
      · rw [if_neg (by simpa using hlacks)]
        exact ih hrest
      · rw [if_pos (decide_eq_true hfirst.lacks)]
        exact .cons ⟨rfl, missing, hfirst, rfl⟩ (ih hrest)

end Replacement

/-- **WARNINGS**: for a single theme without a dark mode, written with values,
    the output is the stylesheet with the values and without the declarations
    in which a reference has none.  Nothing is added to it.  There is a warning
    for each declaration that was removed, in their order, and no other. -/
theorem apply_warns {config : ResolvedConfig} {options : OutputOptions} {localizer : Localizer}
    {sheet out : Stylesheet} {warnings : List Warning} {name : String}
    (h : apply config options localizer sheet = .ok (out, warnings))
    (hsingle : options.singleTheme = some name) (hoptimize : options.optimize = true)
    (hdark : (completed config options name).hasDarkMode = false) :
    out = valuedSheet (completed config options name).light sheet
      ∧ List.Forall₂ (WarnsOf (completed config options name).light)
          (sheet.declarations.filter fun d => d.Lacks (completed config options name).light)
          warnings := by
  obtain ⟨usage, author, -, hauthor, rfl, rfl⟩ := apply_eq_ok.mp h
  have hvalues := resolve_eq_value hsingle hoptimize hdark localizer usage
  obtain ⟨rfl, hall⟩ := Stylesheet.mapM_eq_ok (fun _ _ hr => Replacement.rule_literal hvalues hr)
    (fun _ _ hds => Replacement.declarations_literal hvalues hds) hauthor
  refine ⟨?_, Replacement.warnings_literal hvalues hall⟩
  rw [blocks_eq_nil hsingle hoptimize hdark, Stylesheet.appendRules_nil]
  rfl

/-- References without a value beside others, and two of them in one
    declaration. -/
def sketched : Stylesheet := ⟨[
  .atRules ⟨"media", "print", ⟨1, 1⟩⟩ [
    .rule ⟨":theme-root .a", [
      ⟨"margin", "theme('gap') @theme sea theme('sand')", ⟨3, 5⟩⟩,
      ⟨"border", "theme('gap') solid theme('ink')", ⟨4, 5⟩⟩], ⟨2, 3⟩⟩],
  .atDeclarations ⟨"page", ":first", ⟨7, 1⟩⟩ [⟨"color", "@theme sand", ⟨8, 3⟩⟩]]⟩

theorem sketched_warns : ∃ out warnings,
    apply shore oceanOnly ⟨none, none, ""⟩ sketched = .ok (out, warnings)
      ∧ warnings.map Warning.text
        = ["Could not find key sea in theme configuration. Removing declaration. (3:5)",
            "Could not find key sand in theme configuration. Removing declaration. (8:3)"]
      ∧ out.declarations.map Declaration.value = ["1px solid navy"]
      ∧ out = valuedSheet (completed shore oceanOnly "ocean").light sketched
      ∧ List.Forall₂ (WarnsOf (completed shore oceanOnly "ocean").light)
          (sketched.declarations.filter fun d =>
            d.Lacks (completed shore oceanOnly "ocean").light) warnings := by
  have hvalue : (apply shore oceanOnly ⟨none, none, ""⟩ sketched).toOption.map
      (fun (out, warnings) =>
        (warnings.map Warning.text, out.declarations.map Declaration.value))
      = some (["Could not find key sea in theme configuration. Removing declaration. (3:5)",
          "Could not find key sand in theme configuration. Removing declaration. (8:3)"],
          ["1px solid navy"]) := by
    decide +kernel
  obtain ⟨⟨out, warnings⟩, happly, hshape⟩ := Outcome.exists_ok_of_map hvalue
  obtain ⟨htexts, hvalues⟩ := Prod.mk.inj hshape
  obtain ⟨hout, hwarnings⟩ := apply_warns happly rfl rfl (by decide +kernel)
  exact ⟨out, warnings, happly, htexts, hvalues, hout, hwarnings⟩

end Modern

end ThemeTokens
