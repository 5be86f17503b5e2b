import Mathlib.Data.List.Basic
import ThemeTokens.Legacy
import ThemeTokens.Proofs.Reference.Spelling

/-! # Overrides and their places

    Legacy output without a single theme, said once more and without the steps
    that lead to it: what each declaration becomes in a scheme of a theme
    (`keptFor?`), which rules get an override (`HasOverride`) and what is in
    it (`overrideFor`), and where overrides go (`Placed`): behind the nodes of
    the container that holds their rule, at whatever depth it is nested.

    `apply_placed` shows that the pass writes this and nothing else. -/

namespace ThemeTokens.Legacy

/-! ## What the output is to be -/

section Output

variable (config : ResolvedConfig) (options : OutputOptions)

/-- The text of a path in a scheme of a theme.  In a declaration with several
    references the authority's value in that scheme stands in where the theme
    has nothing. -/
def textOf (theme : LightDarkTheme) (scheme : ColorScheme) (several : Bool)
    (path : TokenPath) : Option String :=
  match (theme.scheme scheme).lookup path with
  | .value text => some text
  | .group => none
  | .missing =>
      if several then
        (config.get? options.defaultTheme).bind fun authority =>
          (authority.scheme scheme).value? path
      else none

/-- A declaration with references, kept for a scheme of a theme in which each
    of its paths has a text. -/
def keptFor? (theme : LightDarkTheme) (scheme : ColorScheme) (d : Declaration) :
    Option Declaration :=
  d.referring?.bind fun value =>
    (value.spelled? (textOf config options theme scheme
      (decide (1 < value.referenceCount)))).map fun text => { d with value := text }

/-- A declaration of the author's own rules: with the authority's light values
    in place of its references, if it has any. -/
def authored? (d : Declaration) : Option Declaration :=
  if d.referring?.isSome then
    (config.get? options.defaultTheme).bind fun authority =>
      keptFor? config options authority .light d
  else some d

/-- A rule of the author's own. -/
def authoredRule (r : Rule) : Rule :=
  { r with
    selector := Selector.stripThemeRoot r.selector
    declarations := r.declarations.filterMap (authored? config options) }

/-- Whether a rule gets an override for a scheme of a theme. -/
def HasOverride (r : Rule) (name : String) (theme : LightDarkTheme)
    (scheme : ColorScheme) : Prop :=
  (∃ d ∈ r.declarations, d.referring?.isSome = true)
    ∧ ¬ (name = options.defaultTheme ∧ scheme = .light)
    ∧ (theme.scheme scheme).isEmpty = false
    ∧ ((∃ d ∈ r.declarations, (keptFor? config options theme scheme d).isSome = true)
        ∨ options.emptySelectors = true)

instance (r : Rule) (name : String) (theme : LightDarkTheme) (scheme : ColorScheme) :
    Decidable (HasOverride config options r name theme scheme) :=
  inferInstanceAs (Decidable (_ ∧ _ ∧ _ ∧ _))

/-- The override of a rule for a scheme of a theme. -/
def overrideFor (r : Rule) (name : String) (theme : LightDarkTheme)
    (scheme : ColorScheme) : Rule :=
  { selector := Selector.scope r.selector
      ((Source.of config options).className name scheme)
    declarations := r.declarations.filterMap (keptFor? config options theme scheme)
    location := r.location }

/-- Every scheme of every theme: the themes as configured, light before dark. -/
def schemes : List (String × LightDarkTheme × ColorScheme) :=
  config.toList.flatMap fun (name, theme) =>
    [(name, theme, .light), (name, theme, .dark)]

/-- The overrides of a rule. -/
def ruleOverrides (r : Rule) : List Rule :=
  ((schemes config).filter fun (name, theme, scheme) =>
    HasOverride config options r name theme scheme).map fun (name, theme, scheme) =>
      overrideFor config options r name theme scheme

/-- The overrides of the rules that are directly in a container. -/
def containerOverrides : List Node → List Rule
  | [] => []
  | .rule r :: nodes => ruleOverrides config options r ++ containerOverrides nodes
  | _ :: nodes => containerOverrides nodes

/-- The overrides of a first node come before those of the rest. -/
theorem containerOverrides_cons (node : Node) (nodes : List Node) :
    containerOverrides config options (node :: nodes)
      = containerOverrides config options [node] ++ containerOverrides config options nodes := by
  cases node with
  | rule r =>
      rw [containerOverrides, containerOverrides, containerOverrides, List.append_nil]
  | atStatement head => rfl
  | atRules head inside => rfl
  | atDeclarations head ds => rfl

mutual

/-- An original node in the output. -/
inductive Authored : Node → Node → Prop where
  | rule (r : Rule) : Authored (.rule r) (.rule (authoredRule config options r))
  | atStatement (head : AtHead) : Authored (.atStatement head) (.atStatement head)
  | atRules (head : AtHead) {nodes out : List Node} (inside : Placed nodes out) :
      Authored (.atRules head nodes) (.atRules head out)
  | atDeclarations (head : AtHead) (ds : List Declaration) :
      Authored (.atDeclarations head ds)
        (.atDeclarations head (ds.filterMap (authored? config options)))

/-- The original nodes of a container in the output, in their order. -/
inductive AuthoredAll : List Node → List Node → Prop where
  | nil : AuthoredAll [] []
  | cons {node out : Node} {nodes outs : List Node} (first : Authored node out)
      (rest : AuthoredAll nodes outs) : AuthoredAll (node :: nodes) (out :: outs)

/-- A container in the output: the original nodes, and the overrides of its
    rules behind them. -/
inductive Placed : List Node → List Node → Prop where
  | container {nodes kept : List Node} (originals : AuthoredAll nodes kept) :
      Placed nodes (kept ++ (containerOverrides config options nodes).map .rule)

end

end Output

/-! ## Declarations -/

namespace Source

variable {config : ResolvedConfig} {options : OutputOptions} {name : String}
  {theme : LightDarkTheme} {scheme : ColorScheme} {d : Declaration}

/-- The declarations with references among others, as written and as read. -/
def allReferring (ds : List Declaration) : List Referring :=
  ds.filterMap fun d => d.referring?.map fun value => ⟨d, value⟩

/-- What a reference resolves to is the text of its path. -/
theorem resolve_eq_ok {several : Bool} {r : Reference} {found : Option String}
    (h : (of config options).resolve (some theme) name scheme several r = .ok found) :
    found = textOf config options theme scheme several r.path := by
  rw [resolve] at h
  rw [textOf]
  cases hl : (theme.scheme scheme).lookup r.path with
  | value text =>
      rw [hl] at h
      exact (Except.ok.inj h).symm
  | group =>
      rw [hl] at h
      cases h
  | missing =>
      rw [hl] at h
      cases several with
      | true => exact (Except.ok.inj h).symm
      | false => exact (Except.ok.inj h).symm

/-- What a declaration becomes for a scheme of a theme. -/
theorem substitute_eq_ok {value : ParsedValue} {found : Option Declaration}
    (hd : d.referring? = some value)
    (h : (of config options).substitute (some theme) name scheme ⟨d, value⟩ = .ok found) :
    found = keptFor? config options theme scheme d := by
  rw [substitute, Outcome.located_eq_ok] at h
  obtain ⟨outcome, hsub, h⟩ := Outcome.bind_eq_ok.mp h
  have htext := substitute_text? (fun r found hr => resolve_eq_ok hr) hsub
  rw [keptFor?, hd, Option.bind_some, ← htext]
  cases outcome with
  | text text => exact (Except.ok.inj h).symm
  | dropped missing => exact (Except.ok.inj h).symm

/-- Without a theme no declaration with references has values. -/
theorem substitute_none_ne_ok {value : ParsedValue} {found : Option Declaration}
    (hd : d.referring? = some value) :
    (of config options).substitute none name scheme ⟨d, value⟩ ≠ .ok found := by
  intro h
  rw [substitute, Outcome.located_eq_ok] at h
  obtain ⟨outcome, hsub, -⟩ := Outcome.bind_eq_ok.mp h
  have hrefs := (referring?_eq_some_iff.mp hd).2
  cases hr : value.references with
  | nil =>
      rw [ParsedValue.hasReferences, hr] at hrefs
      cases hrefs
  | cons r rs =>
      have hmem : r ∈ value.segments.filterMap Segment.reference? := by
        show r ∈ value.references
        rw [hr]
        exact List.mem_cons_self
      -- There is a first reference to be asked for, and that needs a theme.
      obtain ⟨first, found, hfirst⟩ := asked_of_fill (fill_of_substitute hsub) hmem
      cases hfirst

/-- Reading a declaration tells whether it has references. -/
theorem referring?_eq_ok {item : Option Referring}
    (h : Source.referring? d = .ok item) :
    item = d.referring?.map fun value => ⟨d, value⟩ := by
  rw [Source.referring?] at h
  by_cases hm : mentionsTheme d.value = true
  · rw [if_pos hm] at h
    obtain ⟨value, hparse, h⟩ := Outcome.bind_eq_ok.mp h
    rw [Outcome.located_eq_ok] at hparse
    rw [← Except.ok.inj h]
    by_cases hr : value.hasReferences = true
    · rw [if_pos hr, referring?_eq_some_iff.mpr ⟨hparse, hr⟩]
      rfl
    · have hnone := referring?_of_no_references hparse (Bool.eq_false_iff.mpr hr)
      rw [if_neg hr, hnone]
      rfl
  · rw [if_neg hm] at h
    rw [referring?_of_not_mentions (Bool.eq_false_iff.mpr hm), ← Except.ok.inj h]
    rfl

/-- The declarations of the author's own, and those with references as read. -/
theorem baseDeclarations_eq_ok {ds kept : List Declaration} {items : List Referring}
    (hsingle : options.singleTheme = none)
    (h : (of config options).baseDeclarations ds = .ok (kept, items)) :
    kept = ds.filterMap (authored? config options) ∧ items = allReferring ds := by
  have hbase : (of config options).base = config.get? options.defaultTheme := by
    simp only [of, hsingle, Option.bind_none]
  induction ds generalizing kept items with
  | nil =>
      have hp := Prod.mk.inj (Except.ok.inj h)
      exact ⟨hp.1.symm, hp.2.symm⟩
  | cons d ds ih =>
      obtain ⟨item, hitem, h⟩ := Outcome.bind_eq_ok.mp h
      have hread := referring?_eq_ok hitem
      rw [allReferring, List.filterMap_cons, List.filterMap_cons, authored?]
      cases hd : d.referring? with
      | none =>
          -- Nothing to put in: the declaration stays, and no override has it.
          rw [hd] at hread
          subst hread
          obtain ⟨⟨rest, more⟩, hrest, h⟩ := Outcome.bind_eq_ok.mp h
          obtain ⟨hkept, hitems⟩ := ih hrest
          have hp := Prod.mk.inj (Except.ok.inj h)
          rw [← hp.1, ← hp.2, hkept, hitems]
          exact ⟨rfl, rfl⟩
      | some value =>
          rw [hd] at hread
          subst hread
          obtain ⟨found, hfound, h⟩ := Outcome.bind_eq_ok.mp h
          obtain ⟨⟨rest, more⟩, hrest, h⟩ := Outcome.bind_eq_ok.mp h
          obtain ⟨hkept, hitems⟩ := ih hrest
          have hp := Prod.mk.inj (Except.ok.inj h)
          rw [hbase] at hfound
          -- The pass ended well, so there is an authority to take values from.
          cases hauth : config.get? options.defaultTheme with
          | none =>
              rw [hauth] at hfound
              exact absurd hfound (substitute_none_ne_ok hd)
          | some authority =>
              rw [hauth] at hfound
              rw [← hp.1, ← hp.2, hkept, hitems, substitute_eq_ok hd hfound,
                Option.isSome_some, if_pos rfl, Option.bind_some]
              refine ⟨?_, rfl⟩
              cases keptFor? config options authority .light d with
              | none => rfl
              | some kept => rfl

/-- The declarations of an override, for those of a rule that have references. -/
theorem overrideDeclarations_eq_ok {ds found : List Declaration}
    (h : (of config options).overrideDeclarations theme name scheme (allReferring ds)
      = .ok found) :
    found = ds.filterMap (keptFor? config options theme scheme) := by
  induction ds generalizing found with
  | nil => exact (Except.ok.inj h).symm
  | cons d ds ih =>
      rw [allReferring, List.filterMap_cons] at h
      rw [List.filterMap_cons]
      cases hd : d.referring? with
      | none =>
          have hnone : keptFor? config options theme scheme d = none := by
            rw [keptFor?, hd, Option.bind_none]
          rw [hd] at h
          rw [hnone]
          exact ih h
      | some value =>
          rw [hd] at h
          obtain ⟨first, hfirst, h⟩ := Outcome.bind_eq_ok.mp h
          obtain ⟨rest, hrest, h⟩ := Outcome.bind_eq_ok.mp h
          rw [← Except.ok.inj h, substitute_eq_ok hd hfirst, ih hrest]
          cases keptFor? config options theme scheme d with
          | none => rfl
          | some kept => rfl

/-! ## Rules -/

/-- The overrides written for some schemes of themes: those in which something
    is kept, and with empty ones asked for all of them. -/
theorem overrides_eq_ok {r : Rule} {found : List Rule}
    {variants : List (String × LightDarkTheme × ColorScheme)}
    (h : (of config options).overrides r.selector r.location
      (allReferring r.declarations) variants = .ok found) :
    found = (variants.filter fun (_, theme, scheme) =>
        !(r.declarations.filterMap (keptFor? config options theme scheme)).isEmpty
          || options.emptySelectors).map fun (name, theme, scheme) =>
      overrideFor config options r name theme scheme := by
  induction variants generalizing found with
  | nil => exact (Except.ok.inj h).symm
  | cons variant variants ih =>
      obtain ⟨name, theme, scheme⟩ := variant
      obtain ⟨declarations, hdecls, h⟩ := Outcome.bind_eq_ok.mp h
      obtain ⟨rules, hrules, h⟩ := Outcome.bind_eq_ok.mp h
      have hd := overrideDeclarations_eq_ok hdecls
      -- The pass skips what the condition on the right leaves out.
      have hcondition : (!(r.declarations.filterMap
            (keptFor? config options theme scheme)).isEmpty || options.emptySelectors)
          = !(declarations.isEmpty && !(of config options).options.emptySelectors) := by
        rw [← hd, Bool.not_and, Bool.not_not]
        rfl
      cases hskip : declarations.isEmpty && !(of config options).options.emptySelectors with
      | true =>
          rw [if_pos hskip] at h
          rw [hskip] at hcondition
          rw [← Except.ok.inj h, ih hrules, List.filter_cons_of_neg]
          exact fun hpass => Bool.false_ne_true (hcondition.symm.trans hpass)
      | false =>
          rw [if_neg (by rw [hskip]; exact Bool.false_ne_true)] at h
          rw [hskip] at hcondition
          rw [← Except.ok.inj h, ih hrules, List.filter_cons_of_pos, List.map_cons, hd]
          · rfl
          · exact hcondition

/-- The schemes that can get overrides, among all of them. -/
theorem variants_eq : (of config options).variants
    = (schemes config).filter fun (name, theme, scheme) =>
        !(name == options.defaultTheme && scheme == .light)
          && !(theme.scheme scheme).isEmpty := by
  rw [variants, schemes, List.filter_flatMap]
  refine List.flatMap_congr fun entry _ => ?_
  obtain ⟨name, theme⟩ := entry
  show List.map _ (List.filter _ ColorScheme.all)
    = List.filter _ (ColorScheme.all.map fun scheme => (name, theme, scheme))
  rw [List.filter_map]
  rfl

/-- Something is kept of a rule exactly when one of its declarations is. -/
theorem filterMap_isEmpty_eq_false_iff {α β : Type} {f : α → Option β} {l : List α} :
    (l.filterMap f).isEmpty = false ↔ ∃ a ∈ l, (f a).isSome = true := by
  rw [List.isEmpty_eq_false_iff_exists_mem]
  constructor
  · rintro ⟨b, hb⟩
    obtain ⟨a, ha, hab⟩ := List.mem_filterMap.mp hb
    exact ⟨a, ha, by rw [hab]; rfl⟩
  · rintro ⟨a, ha, hsome⟩
    obtain ⟨b, hab⟩ := Option.isSome_iff_exists.mp hsome
    exact ⟨b, List.mem_filterMap.mpr ⟨a, ha, hab⟩⟩

/-- Among the declarations with references there is one of the rule's. -/
theorem allReferring_isEmpty_eq_false_iff {ds : List Declaration} :
    (allReferring ds).isEmpty = false ↔ ∃ d ∈ ds, d.referring?.isSome = true := by
  rw [allReferring, filterMap_isEmpty_eq_false_iff]
  simp only [Option.isSome_map]

/-- What a rule becomes: the author's own, and its overrides. -/
theorem rule_eq_ok {r plain : Rule} {found : List Rule}
    (hsingle : options.singleTheme = none)
    (h : (of config options).rule r = .ok (plain, found)) :
    plain = authoredRule config options r ∧ found = ruleOverrides config options r := by
  obtain ⟨⟨kept, items⟩, hbase, h⟩ := Outcome.bind_eq_ok.mp h
  obtain ⟨hkept, hitems⟩ := baseDeclarations_eq_ok hsingle hbase
  have hnone : (of config options).options.singleTheme.isSome = false := by
    show options.singleTheme.isSome = false
    rw [hsingle]
    rfl
  subst hkept hitems
  simp only [hnone, Bool.false_or] at h
  cases hempty : (allReferring r.declarations).isEmpty with
  | true =>
      -- The pass stops early, at a rule that has no override to be written.
      rw [if_pos hempty] at h
      have hp := Prod.mk.inj (Except.ok.inj h)
      refine ⟨hp.1.symm, ?_⟩
      rw [← hp.2, ruleOverrides, List.filter_eq_nil_iff.mpr, List.map_nil]
      rintro ⟨name, theme, scheme⟩ - hover
      have hrefs := (of_decide_eq_true hover).1
      rw [← allReferring_isEmpty_eq_false_iff, hempty] at hrefs
      cases hrefs
  | false =>
      rw [if_neg (by rw [hempty]; exact Bool.false_ne_true)] at h
      obtain ⟨rules, hrules, h⟩ := Outcome.bind_eq_ok.mp h
      have hp := Prod.mk.inj (Except.ok.inj h)
      refine ⟨hp.1.symm, ?_⟩
      -- The pass first picks the schemes, then what it keeps; together these are
      -- the conditions of an override.
      rw [← hp.2, overrides_eq_ok hrules, variants_eq, List.filter_filter, ruleOverrides]
      congr 1
      refine List.filter_congr ?_
      rintro ⟨name, theme, scheme⟩ -
      have hrefs := allReferring_isEmpty_eq_false_iff.mp hempty
      have hlight : (!(name == options.defaultTheme && scheme == .light)) = true
          ↔ ¬ (name = options.defaultTheme ∧ scheme = .light) := by
        rw [Bool.not_eq_true', ← Bool.not_eq_true, Bool.and_eq_true, beq_iff_eq, beq_iff_eq]
      show ((!(r.declarations.filterMap (keptFor? config options theme scheme)).isEmpty
            || options.emptySelectors)
          && (!(name == options.defaultTheme && scheme == .light)
            && !(theme.scheme scheme).isEmpty))
        = decide (HasOverride config options r name theme scheme)
      rw [Bool.eq_iff_iff, decide_eq_true_iff, HasOverride, Bool.and_eq_true, Bool.and_eq_true,
        Bool.or_eq_true, hlight, Bool.not_eq_true', Bool.not_eq_true',
        filterMap_isEmpty_eq_false_iff]
      constructor
      · rintro ⟨hkept, hother, htokens⟩
        exact ⟨hrefs, hother, htokens, hkept⟩
      · rintro ⟨-, hother, htokens, hkept⟩
        exact ⟨hkept, hother, htokens⟩

/-! ## Containers -/

mutual

/-- A node becomes the author's own; only a rule has overrides that follow it. -/
theorem node_eq_ok {node out : Node} {found : List Rule}
    (hsingle : options.singleTheme = none)
    (h : (of config options).node node = .ok (out, found)) :
    Authored config options node out ∧ found = containerOverrides config options [node] := by
  cases node with
  | rule r =>
      obtain ⟨⟨plain, rules⟩, hrule, h⟩ := Outcome.bind_eq_ok.mp h
      obtain ⟨hplain, hrules⟩ := rule_eq_ok hsingle hrule
      have hp := Prod.mk.inj (Except.ok.inj h)
      rw [← hp.1, ← hp.2, hplain, hrules, containerOverrides, containerOverrides,
        List.append_nil]
      exact ⟨.rule r, rfl⟩
  | atStatement head =>
      have hp := Prod.mk.inj (Except.ok.inj h)
      rw [← hp.1, ← hp.2]
      exact ⟨.atStatement head, rfl⟩
  | atRules head nodes =>
      obtain ⟨⟨kept, rules⟩, hnodes, h⟩ := Outcome.bind_eq_ok.mp h
      obtain ⟨hkept, hrules⟩ := nodes_eq_ok hsingle hnodes
      have hp := Prod.mk.inj (Except.ok.inj h)
      -- The overrides found inside are placed inside, and none are handed on.
      rw [← hp.1, ← hp.2, hrules]
      exact ⟨.atRules head (.container hkept), rfl⟩
  | atDeclarations head ds =>
      obtain ⟨⟨kept, items⟩, hbase, h⟩ := Outcome.bind_eq_ok.mp h
      have hp := Prod.mk.inj (Except.ok.inj h)
      rw [← hp.1, ← hp.2, (baseDeclarations_eq_ok hsingle hbase).1]
      exact ⟨.atDeclarations head ds, rfl⟩

theorem nodes_eq_ok {nodes out : List Node} {found : List Rule}
    (hsingle : options.singleTheme = none)
    (h : (of config options).nodes nodes = .ok (out, found)) :
    AuthoredAll config options nodes out
      ∧ found = containerOverrides config options nodes := by
  cases nodes with
  | nil =>
      have hp := Prod.mk.inj (Except.ok.inj h)
      rw [← hp.1, ← hp.2]
      exact ⟨.nil, rfl⟩
  | cons node nodes =>
      obtain ⟨⟨kept, rules⟩, hnode, h⟩ := Outcome.bind_eq_ok.mp h
      obtain ⟨⟨rest, more⟩, hnodes, h⟩ := Outcome.bind_eq_ok.mp h
      obtain ⟨hkept, hrules⟩ := node_eq_ok hsingle hnode
      obtain ⟨hrest, hmore⟩ := nodes_eq_ok hsingle hnodes
      have hp := Prod.mk.inj (Except.ok.inj h)
      rw [← hp.1, ← hp.2, hrules, hmore]
      exact ⟨.cons hkept hrest, (containerOverrides_cons config options node nodes).symm⟩

end

end Source

/-- **PLACEMENT**: legacy output without a single theme is the stylesheet in
    the author's own terms, with the overrides of each container's rules behind
    the container's nodes; what follows at the end are rules without
    declarations, and only if they are asked for. -/
theorem apply_placed {config : ResolvedConfig} {options : OutputOptions}
    {sheet out : Stylesheet} (h : apply config options sheet = .ok out)
    (hsingle : options.singleTheme = none) :
    ∃ (placed : List Node) (bare : List Rule),
      Placed config options sheet.nodes placed
        ∧ out.nodes = placed ++ bare.map .rule
        ∧ (∀ r ∈ bare, r.declarations = [])
        ∧ (options.emptySelectors = false → bare = []) := by
  obtain ⟨⟨kept, found⟩, hnodes, h⟩ := Outcome.bind_eq_ok.mp h
  obtain ⟨hkept, hfound⟩ := Source.nodes_eq_ok hsingle hnodes
  refine ⟨kept ++ found.map .rule, (Source.of config options).emptyRules, ?_, ?_, ?_, ?_⟩
  · rw [hfound]
    exact .container hkept
  · rw [← Except.ok.inj h]
    rfl
  · intro r hr
    rw [Source.emptyRules] at hr
    by_cases hempty : (Source.of config options).options.emptySelectors = true
    · rw [if_pos hempty] at hr
      obtain ⟨name, -, rfl⟩ := List.mem_map.mp hr
      rfl
    · rw [if_neg hempty] at hr
      cases hr
  · intro hoff
    refine if_neg fun hon => ?_
    exact Bool.false_ne_true (hoff.symm.trans hon)

/-- An authority with a dark scheme, and a theme with only some of its tokens. -/
def shoreline : ResolvedConfig := .ofList
  [("default", ⟨(TokenMap.empty.insertText "ink" "black").insertText "gap" "1px",
      TokenMap.empty.insertText "ink" "white"⟩),
   ("ocean", ⟨TokenMap.empty.insertText "ink" "navy", .empty⟩)]

/-- A rule inside an at-rule, and a rule behind it. -/
def printed : Stylesheet := ⟨[
  .atRules ⟨"media", "print", .none⟩ [.rule { selector := ".a", declarations := [
    { property := "color", value := "@theme ink" },
    { property := "margin", value := "0" },
    { property := "border", value := "theme('gap') solid theme('ink')" }] }],
  .rule { selector := ".b", declarations := [{ property := "gap", value := "theme('gap')" }] }]⟩

/-- The rules of the output for it.  The border takes its width from the
    authority's light scheme, and is dropped in the dark one. -/
def printedRules : List Rule := [
  { selector := ".a", declarations := [
    { property := "color", value := "black" },
    { property := "margin", value := "0" },
    { property := "border", value := "1px solid black" }] },
  { selector := ".dark .a", declarations := [{ property := "color", value := "white" }] },
  { selector := ".ocean .a", declarations := [
    { property := "color", value := "navy" },
    { property := "border", value := "1px solid navy" }] },
  { selector := ".b", declarations := [{ property := "gap", value := "1px" }] }]

theorem printed_is_placed : ∃ out, apply shoreline {} printed = .ok out
    ∧ out.rules = printedRules
    ∧ ∃ (placed : List Node) (bare : List Rule),
        Placed shoreline {} printed.nodes placed ∧ out.nodes = placed ++ bare.map .rule
          ∧ (∀ r ∈ bare, r.declarations = []) ∧ bare = [] := by
  have hrules : (apply shoreline {} printed).toOption.map Stylesheet.rules = some printedRules := by
    decide +kernel
  obtain ⟨out, hout, hrules⟩ := Option.map_eq_some_iff.mp hrules
  have happly := Outcome.toOption_eq_some_iff.mp hout
  obtain ⟨placed, bare, hplaced, hnodes, hbare, hoff⟩ := apply_placed happly rfl
  exact ⟨out, happly, hrules, placed, bare, hplaced, hnodes, hbare, hoff rfl⟩

end ThemeTokens.Legacy
