import ThemeTokens.Legacy
import ThemeTokens.Proofs.Modern.Output
import ThemeTokens.Proofs.Modern.Replacement

/-! # A single theme in both kinds of output

    Where there is only one theme to write and it has no dark mode, the modern
    output can write values in place of custom properties, which is all that
    the legacy output ever does.  Each chooses its theme, walks the stylesheet
    and treats missing values in its own way.  `apply_agrees` says that the
    stylesheets are the same nevertheless.

    The comparison goes from the inside out: a reference resolves to the same
    (`resolve_agrees`), so a declaration is kept, dropped or rejected alike
    (`declaration_agrees`), and so are lists of them, rules and nodes. -/

namespace ThemeTokens

/-! ## The theme -/

/-- A theme completed with nothing is the theme. -/
theorem LightDarkTheme.mergedOver_empty (theme : LightDarkTheme) :
    theme.mergedOver .empty = theme :=
  LightDarkTheme.ext (TokenMap.empty_merge theme.light) (TokenMap.empty_merge theme.dark)

/-- The legacy output completes the theme only where there is an authority;
    completing it with nothing would change nothing. -/
theorem Legacy.base_eq_completed {config : ResolvedConfig} {options : OutputOptions}
    {name : String} (hsingle : options.singleTheme = some name)
    (hconfigured : (config.get? name).isSome = true
      ∨ (config.get? options.defaultTheme).isSome = true) :
    (Legacy.Source.of config options).base = some (completed config options name) := by
  rw [Legacy.Source.of, hsingle, completed, Modern.authorityOf]
  dsimp only [Option.bind_some]
  cases hget : config.get? name with
  | some theme =>
      cases config.get? options.defaultTheme with
      | some authority => rfl
      | none => exact congrArg some theme.mergedOver_empty.symm
  | none =>
      cases hauthority : config.get? options.defaultTheme with
      | some authority => rfl
      | none =>
          rw [hget, hauthority] at hconfigured
          rcases hconfigured with h | h
          · cases h
          · cases h

/-! ## Declarations -/

/-- The declaration that is left, if one is. -/
def Modern.Replaced.kept? : Modern.Replaced → Option Declaration
  | .kept d => some d
  | .removed _ => none

/-- What is left of a declaration in the author's rules. -/
def Legacy.Source.kept? (source : Legacy.Source) (d : Declaration) :
    Except ThemeError (Option Declaration) := do
  match ← Legacy.Source.referring? d with
  | none => return some d
  | some item => source.substitute source.base source.baseName .light item

/-- Both outputs resolve the references of a declaration to the same. -/
def ResolvedAlike (put : Modern.Replacement) (source : Legacy.Source) (d : Declaration) : Prop :=
  ∀ value, d.referring? = some value → ∀ r ∈ value.references,
    put.resolve r
      = source.resolve source.base source.baseName .light (decide (1 < value.referenceCount)) r

section Declarations

variable {put : Modern.Replacement} {source : Legacy.Source}

/-- Modern output keeps what is left of each declaration. -/
theorem Modern.Replacement.declarations_cons (d : Declaration) (ds : List Declaration) :
    put.declarations (d :: ds) = do
      let replaced ← put.declaration d
      let rest ← put.declarations ds
      return replaced.kept?.toList ++ rest := by
  rw [Modern.Replacement.declarations]
  cases put.declaration d with
  | error e => rfl
  | ok replaced =>
      cases replaced with
      | kept kept => rfl
      | removed warning =>
          cases put.declarations ds with
          | error e => rfl
          | ok rest => rfl

/-- So does legacy output in the rules of the author. -/
theorem Legacy.Source.map_fst_baseDeclarations_cons (d : Declaration) (ds : List Declaration) :
    Prod.fst <$> source.baseDeclarations (d :: ds) = do
      let kept ← source.kept? d
      let rest ← Prod.fst <$> source.baseDeclarations ds
      return kept.toList ++ rest := by
  rw [Legacy.Source.baseDeclarations, Legacy.Source.kept?]
  cases Legacy.Source.referring? d with
  | error e => rfl
  | ok item =>
      cases item with
      | none =>
          cases source.baseDeclarations ds with
          | error e => rfl
          | ok found => rfl
      | some item =>
          simp only [Outcome.ok_bind]
          cases source.substitute source.base source.baseName .light item with
          | error e => rfl
          | ok value =>
              cases source.baseDeclarations ds with
              | error e => rfl
              | ok found => rfl

/-- A declaration is kept, dropped or rejected alike. -/
theorem declaration_agrees {d : Declaration} (h : ResolvedAlike put source d) :
    Modern.Replaced.kept? <$> put.declaration d = source.kept? d := by
  rw [Modern.Replacement.declaration, Legacy.Source.kept?, Legacy.Source.referring?]
  by_cases hm : mentionsTheme d.value = true
  · rw [if_pos hm, if_pos hm]
    cases hparse : ParsedValue.parse d.value with
    | error e => rfl
    | ok value =>
        have hread : located d.location (Except.ok value) = .ok value := rfl
        rw [hread]
        by_cases hr : value.hasReferences = true
        · have hsub := substitute_congr (h value (referring?_eq_some_iff.mpr ⟨hparse, hr⟩))
          simp only [Outcome.ok_bind, if_pos hr, hsub]
          show _ = source.substitute source.base source.baseName .light ⟨d, value⟩
          rw [Legacy.Source.substitute]
          dsimp only
          -- What the value becomes is decided; both put it back in the same way.
          cases value.substitute (source.resolve source.base source.baseName .light
              (decide (1 < value.referenceCount))) with
          | error e => rfl
          | ok outcome =>
              cases outcome with
              | text text => rfl
              | dropped missing => rfl
        · simp only [Outcome.ok_bind, if_neg hr]
          rfl
  · rw [if_neg hm, if_neg hm]
    rfl

/-- Both keep the same declarations, or fail alike. -/
theorem declarations_agree {ds : List Declaration} (h : ∀ d ∈ ds, ResolvedAlike put source d) :
    put.declarations ds = Prod.fst <$> source.baseDeclarations ds := by
  induction ds with
  | nil => rfl
  | cons d ds ih =>
      obtain ⟨hd, hds⟩ := List.forall_mem_cons.mp h
      rw [Modern.Replacement.declarations_cons, Legacy.Source.map_fst_baseDeclarations_cons,
        ← declaration_agrees hd, ih hds]
      cases put.declaration d with
      | error e => rfl
      | ok replaced => rfl

/-- With a single theme no rule has overrides. -/
theorem rule_agrees (hsingle : source.options.singleTheme.isSome = true) {r : Rule}
    (h : ∀ d ∈ r.declarations, ResolvedAlike put source d) :
    source.rule r = (·, []) <$> put.rule r := by
  rw [Legacy.Source.rule, Modern.Replacement.rule, declarations_agree h]
  simp only [hsingle, Bool.true_or, if_true]
  cases source.baseDeclarations r.declarations with
  | error e => rfl
  | ok found => rfl

/-! ## Stylesheets -/

mutual

/-- Nodes come out alike at every depth, and legacy output has no overrides behind
    them. -/
theorem node_agrees (hsingle : source.options.singleTheme.isSome = true) {node : Node}
    (h : ∀ d ∈ node.declarations, ResolvedAlike put source d) :
    source.node node = (·, []) <$> node.mapM put.rule put.declarations := by
  cases node with
  | rule r =>
      rw [Legacy.Source.node, rule_agrees hsingle h, Node.mapM]
      cases put.rule r with
      | error e => rfl
      | ok plain => rfl
  | atStatement head => rfl
  | atRules head nodes =>
      rw [Legacy.Source.node, nodes_agree hsingle h, Node.mapM]
      cases Node.mapAllM put.rule put.declarations nodes with
      | error e => rfl
      | ok kept =>
          show Except.ok (Node.atRules head (kept ++ []), [])
            = Except.ok (Node.atRules head kept, [])
          rw [List.append_nil]
  | atDeclarations head ds =>
      have hds : put.declarations ds = Prod.fst <$> source.baseDeclarations ds :=
        declarations_agree h
      rw [Legacy.Source.node, Node.mapM, hds]
      cases source.baseDeclarations ds with
      | error e => rfl
      | ok found => rfl

theorem nodes_agree (hsingle : source.options.singleTheme.isSome = true) {nodes : List Node}
    (h : ∀ d ∈ Node.declarationsAll nodes, ResolvedAlike put source d) :
    source.nodes nodes = (·, []) <$> Node.mapAllM put.rule put.declarations nodes := by
  cases nodes with
  | nil => rfl
  | cons node nodes =>
      obtain ⟨hnode, hnodes⟩ := List.forall_mem_append.mp h
      rw [Legacy.Source.nodes, node_agrees hsingle hnode, nodes_agree hsingle hnodes, Node.mapAllM]
      cases node.mapM put.rule put.declarations with
      | error e => rfl
      | ok first =>
          cases Node.mapAllM put.rule put.declarations nodes with
          | error e => rfl
          | ok rest => rfl

end

end Declarations

/-! ## The output -/

section Output

variable {config : ResolvedConfig} {options : OutputOptions} {name : String}
  (hsingle : options.singleTheme = some name) (hoptimize : options.optimize = true)
  (hdark : (completed config options name).hasDarkMode = false)

include hsingle hoptimize hdark

/-- Without a dark mode the modern output writes values of the theme. -/
theorem Modern.resolve_eq_value (localizer : Localizer) (usage : VariableUsage) (r : Reference) :
    (Modern.replacement config options localizer usage).resolve r
      = .ok ((completed config options name).light.value? r.path) := by
  have hliteral : (Modern.replacement config options localizer usage).literal = true := by
    show (options.optimize && _) = true
    rw [Modern.singleTheme_eq_completed hsingle, hoptimize, Option.any_some, hdark]
    rfl
  rw [Modern.Replacement.resolve, if_pos hliteral, Modern.values_eq_completed hsingle]

/-- Then nothing has to be declared. -/
theorem Modern.blocks_eq_nil (localizer : Localizer) (usage : VariableUsage) :
    Modern.blocks config options localizer usage = [] := by
  rw [Modern.blocks_eq_single hsingle, Modern.BlockSource.single, hdark, hoptimize]
  rfl

/-- Legacy output writes the same values: where the theme has none the
    authority has none either. -/
theorem resolve_agrees {localizer : Localizer} {usage : VariableUsage} {several : Bool}
    {r : Reference}
    (hconfigured : (config.get? name).isSome = true
      ∨ (config.get? options.defaultTheme).isSome = true)
    (hgroup : (completed config options name).light.lookup r.path ≠ .group)
    (hvalue : (completed config options name).light.value? r.path = none →
      (Modern.authorityOf config options).light.value? r.path = none) :
    (Modern.replacement config options localizer usage).resolve r
      = (Legacy.Source.of config options).resolve (Legacy.Source.of config options).base
          (Legacy.Source.of config options).baseName .light several r := by
  rw [Modern.resolve_eq_value hsingle hoptimize hdark, Legacy.base_eq_completed hsingle hconfigured,
    Legacy.Source.resolve]
  dsimp only [LightDarkTheme.scheme]
  rw [TokenMap.value?] at hvalue ⊢
  cases hlookup : (completed config options name).light.lookup r.path with
  | value value => rfl
  | group => exact absurd hlookup hgroup
  | missing =>
      rw [hlookup] at hvalue
      have hnone := hvalue rfl
      have hauthority : ((Legacy.Source.of config options).authority.bind fun a =>
          a.light.value? r.path) = none := by
        show ((config.get? options.defaultTheme).bind fun a => a.light.value? r.path) = none
        rw [Modern.authorityOf] at hnone
        cases hget : config.get? options.defaultTheme with
        | none => rfl
        | some theme =>
            rw [hget] at hnone
            exact hnone
      dsimp only
      rw [hauthority, ite_self]
      rfl

/-- Legacy output is the stylesheet with its references replaced, whatever was
    counted for the modern one. -/
theorem Legacy.apply_eq_sheet {localizer : Localizer} {sheet : Stylesheet}
    (hconfigured : (config.get? name).isSome = true
      ∨ (config.get? options.defaultTheme).isSome = true)
    (hempty : options.emptySelectors = false)
    (hgroup : ∀ path, sheet.Referenced path →
      (completed config options name).light.lookup path ≠ .group)
    (hvalue : ∀ path, sheet.Referenced path →
      (completed config options name).light.value? path = none →
        (Modern.authorityOf config options).light.value? path = none)
    (usage : VariableUsage) :
    Legacy.apply config options sheet
      = (Modern.replacement config options localizer usage).sheet sheet := by
  have hone : (Legacy.Source.of config options).options.singleTheme.isSome = true := by
    show options.singleTheme.isSome = true
    rw [hsingle]
    rfl
  have hbare : (Legacy.Source.of config options).emptyRules = [] := by
    rw [Legacy.Source.emptyRules]
    exact if_neg (Bool.eq_false_iff.mp hempty)
  have halike : ∀ d ∈ sheet.declarations, ResolvedAlike
      (Modern.replacement config options localizer usage) (Legacy.Source.of config options) d := by
    intro d hd value hread r hr
    have hpath : sheet.Referenced r.path := ⟨d, hd, value, hread, r, hr, rfl⟩
    exact resolve_agrees hsingle hoptimize hdark hconfigured (hgroup _ hpath) (hvalue _ hpath)
  rw [Legacy.apply, Modern.Replacement.sheet, Stylesheet.mapM]
  dsimp only
  rw [hbare, nodes_agree hone halike]
  cases Node.mapAllM (Modern.replacement config options localizer usage).rule
      (Modern.replacement config options localizer usage).declarations sheet.nodes with
  | error e => rfl
  | ok kept =>
      show Except.ok (Stylesheet.mk ((kept ++ []) ++ [])) = Except.ok (Stylesheet.mk kept)
      rw [List.append_nil, List.append_nil]

end Output

/-- **BOTH OUTPUTS AGREE** for a single theme without a dark mode, where no
    reference leads to a group and none has a value in the authority only: one
    is written exactly when the other is, and the stylesheets are the same. -/
theorem apply_agrees {config : ResolvedConfig} {options : OutputOptions} {localizer : Localizer}
    {sheet : Stylesheet} {name : String} (hsingle : options.singleTheme = some name)
    (hconfigured : (config.get? name).isSome = true
      ∨ (config.get? options.defaultTheme).isSome = true)
    (hoptimize : options.optimize = true) (hempty : options.emptySelectors = false)
    (hdark : (completed config options name).hasDarkMode = false)
    (hgroup : ∀ path, sheet.Referenced path →
      (completed config options name).light.lookup path ≠ .group)
    (hvalue : ∀ path, sheet.Referenced path →
      (completed config options name).light.value? path = none →
        (Modern.authorityOf config options).light.value? path = none) :
    ((∃ out, Modern.apply config options localizer sheet = .ok out)
        ↔ ∃ out, Legacy.apply config options sheet = .ok out)
      ∧ ∀ out warnings other, Modern.apply config options localizer sheet = .ok (out, warnings) →
          Legacy.apply config options sheet = .ok other → out = other := by
  have hlegacy : ∀ usage, Legacy.apply config options sheet
      = (Modern.replacement config options localizer usage).sheet sheet :=
    Legacy.apply_eq_sheet hsingle hoptimize hdark hconfigured hempty hgroup hvalue
  have hforward : ∀ {out warnings},
      Modern.apply config options localizer sheet = .ok (out, warnings) →
        Legacy.apply config options sheet = .ok out := by
    intro out warnings h
    obtain ⟨usage, -, h⟩ := Outcome.bind_eq_ok.mp h
    obtain ⟨replaced, hsheet, h⟩ := Outcome.bind_eq_ok.mp h
    obtain ⟨hout, -⟩ := Prod.mk.inj (Except.ok.inj h)
    rw [Modern.blocks_eq_nil hsingle hoptimize hdark, Stylesheet.appendRules_nil] at hout
    rw [hlegacy usage, hsheet, hout]
  refine ⟨⟨?_, ?_⟩, ?_⟩
  · rintro ⟨⟨out, warnings⟩, h⟩
    exact ⟨out, hforward h⟩
  · rintro ⟨out, h⟩
    -- A stylesheet that was written could be read, so the references can be counted.
    have hreadable := Modern.Replacement.readable_of_sheet ((hlegacy .empty).symm.trans h)
    obtain ⟨usage, husage⟩ := VariableUsage.analyze_progress_iff.mpr hreadable
    have hsheet := (hlegacy usage).symm.trans h
    exact ⟨_, Outcome.bind_eq_ok.mpr
      ⟨usage, husage, Outcome.bind_eq_ok.mpr ⟨out, hsheet, rfl⟩⟩⟩
  · intro out warnings other hmodern hother
    exact Except.ok.inj ((hforward hmodern).symm.trans hother)

/-- An authority with one token more than the other theme has. -/
def shore : ResolvedConfig := .ofList
  [("default", ⟨(TokenMap.empty.insertText "ink" "black").insertText "gap" "1px", .empty⟩),
   ("ocean", ⟨TokenMap.empty.insertText "ink" "navy", .empty⟩)]

/-- One theme, and values in place of custom properties. -/
def oceanOnly : OutputOptions := { singleTheme := some "ocean", optimize := true }

/-- A rule inside an at-rule; its last declaration refers to what neither theme
    has. -/
def etched : Stylesheet := ⟨[.atRules ⟨"media", "print", .none⟩ [
  .rule { selector := ".a", declarations := [
    { property := "border", value := "theme('gap') solid theme('ink')" },
    { property := "margin", value := "theme('gap') @theme sea" }] }]]⟩

theorem etched_agrees : ∃ out warnings,
    Modern.apply shore oceanOnly ⟨none, none, ""⟩ etched = .ok (out, warnings)
      ∧ Legacy.apply shore oceanOnly etched = .ok out
      ∧ out.rules = [{ selector := ".a", declarations := [
          { property := "border", value := "1px solid navy" }] }] := by
  have hused : (VariableUsage.analyze etched).toOption.map VariableUsage.paths
      = some [⟨"gap"⟩, ⟨"ink"⟩, ⟨"sea"⟩] := by
    decide +kernel
  obtain ⟨usage, husage, hpaths⟩ := Option.map_eq_some_iff.mp hused
  have hreferenced : ∀ path, etched.Referenced path →
      path ∈ ([⟨"gap"⟩, ⟨"ink"⟩, ⟨"sea"⟩] : List TokenPath) := by
    intro path hpath
    rw [← hpaths]
    refine VariableUsage.mem_paths_of_isUsed ?_
    exact (VariableUsage.isUsed_iff (Outcome.toOption_eq_some_iff.mp husage)).mpr hpath
  have hgroup : ∀ path ∈ ([⟨"gap"⟩, ⟨"ink"⟩, ⟨"sea"⟩] : List TokenPath),
      (completed shore oceanOnly "ocean").light.lookup path ≠ .group := by
    decide +kernel
  have hvalue : ∀ path ∈ ([⟨"gap"⟩, ⟨"ink"⟩, ⟨"sea"⟩] : List TokenPath),
      (completed shore oceanOnly "ocean").light.value? path = none →
        (Modern.authorityOf shore oceanOnly).light.value? path = none := by
    decide +kernel
  have hagree : ((∃ out, Modern.apply shore oceanOnly ⟨none, none, ""⟩ etched = .ok out)
        ↔ ∃ out, Legacy.apply shore oceanOnly etched = .ok out)
      ∧ ∀ out warnings other,
          Modern.apply shore oceanOnly ⟨none, none, ""⟩ etched = .ok (out, warnings) →
          Legacy.apply shore oceanOnly etched = .ok other → out = other :=
    apply_agrees rfl (Or.inl (by decide +kernel)) rfl rfl (by decide +kernel)
      (fun path hpath => hgroup path (hreferenced path hpath))
      (fun path hpath => hvalue path (hreferenced path hpath))
  obtain ⟨hiff, hsame⟩ := hagree
  have hrules : (Legacy.apply shore oceanOnly etched).toOption.map Stylesheet.rules
      = some [{ selector := ".a", declarations := [
          { property := "border", value := "1px solid navy" }] }] := by
    decide +kernel
  obtain ⟨other, hother, hrules⟩ := Option.map_eq_some_iff.mp hrules
  have hlegacy := Outcome.toOption_eq_some_iff.mp hother
  obtain ⟨⟨out, warnings⟩, hmodern⟩ := hiff.mpr ⟨other, hlegacy⟩
  rw [hsame out warnings other hmodern hlegacy] at hmodern
  exact ⟨other, warnings, hmodern, hlegacy, hrules⟩

end ThemeTokens
