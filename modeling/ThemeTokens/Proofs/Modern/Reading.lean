import ThemeTokens.Modern.Apply
import ThemeTokens.Proofs.Modern.Plan
import ThemeTokens.Proofs.Modern.Replacement
import ThemeTokens.Proofs.Reference.Usage

/-! # Reading modern output

    A custom property is read from the block of a theme's own selector, in the
    dark scheme then from the block of the dark class, then from `:root`, and
    last from the fallback where it is used.  Usage counts, values given in
    place, what equals the authority's and merged blocks all leave something
    out; `apply_represents` shows that each time something else supplies it. -/

namespace ThemeTokens.Modern

/-! ## What is read and what is meant -/

/-- The custom property of a path. -/
def propertyOf (localizer : Localizer) (path : TokenPath) : String :=
  "--" ++ localizer.localize path.variableName

/-- The value that blocks declare for a property under a selector, if any. -/
def valueUnder (blocks : List Rule) (property selector : String) : Option String :=
  (declared blocks selector property).head?

section Reading

variable (options : OutputOptions) (authority theme : LightDarkTheme)

/-- The class of a scheme. -/
def schemeClass : ColorScheme → String
  | .light => options.lightClass
  | .dark => options.darkClass

/-- The selector of a theme, with the class of a scheme if the theme or the
    authority has a dark mode. -/
def selectorOf (name : String) (scheme : ColorScheme) : String :=
  if !theme.hasDarkMode && !authority.hasDarkMode then "." ++ name
  else "." ++ name ++ "." ++ schemeClass options scheme

/-- What a custom property is in a scheme of the theme that is selected by
    `own`, where its use has `fallback`. -/
def reading (blocks : List Rule) (fallback : Option String) (own : String)
    (scheme : ColorScheme) (property : String) : Option String :=
  match scheme with
  | .light => (valueUnder blocks property own).or
      ((valueUnder blocks property ":root").or fallback)
  | .dark => (valueUnder blocks property own).or
      ((valueUnder blocks property ("." ++ options.darkClass)).or
        ((valueUnder blocks property ":root").or fallback))

/-- What a path means in a scheme of a theme: its own value, or else the
    authority's, for which in the dark scheme the light value stands in. -/
def intended (scheme : ColorScheme) (path : TokenPath) : Option String :=
  match scheme with
  | .light => (theme.light.value? path).or (authority.light.value? path)
  | .dark => (theme.dark.value? path).or
      ((authority.dark.value? path).or (authority.light.value? path))

end Reading

section Schemes

variable {options : OutputOptions} {authority theme : LightDarkTheme} {name : String}
  (h : theme.hasDarkMode = true ∨ authority.hasDarkMode = true)

include h

/-- With a dark mode on one side the schemes are told apart. -/
theorem not_plain_of_hasDarkMode :
    ¬ (!theme.hasDarkMode && !authority.hasDarkMode) = true := by
  rw [Bool.and_eq_true, Bool.not_eq_true', Bool.not_eq_true']
  rintro ⟨htheme, hauthority⟩
  rcases h with hmode | hmode
  · cases (htheme.symm.trans hmode)
  · cases (hauthority.symm.trans hmode)

/-- Then the dark class is in the theme's selector for the dark scheme. -/
theorem selectorOf_dark :
    selectorOf options authority theme name .dark = "." ++ name ++ "." ++ options.darkClass := by
  rw [selectorOf, if_neg (not_plain_of_hasDarkMode h)]
  rfl

end Schemes

/-- What the authority has a light value for has a meaning in every theme. -/
theorem intended_isSome {authority : LightDarkTheme} {path : TokenPath}
    (theme : LightDarkTheme) (scheme : ColorScheme)
    (h : (authority.light.value? path).isSome = true) :
    (intended authority theme scheme path).isSome = true := by
  cases scheme with
  | light =>
      rw [intended, Option.isSome_or, h]
      exact Bool.or_true _
  | dark =>
      rw [intended, Option.isSome_or, Option.isSome_or, h, Bool.or_true]
      exact Bool.or_true _

/-! ## The blocks that are read -/

/-- A value is only left out where what is behind it is the same. -/
theorem filter_ne_or (own base : Option String) :
    (own.filter fun value => base != some value).or base = own.or base := by
  cases own with
  | none => rfl
  | some value =>
      by_cases h : base = some value
      · rw [h, Option.filter_some, bne_self_eq_false, if_neg Bool.false_ne_true]
        rfl
      · rw [Option.filter_some, if_pos (bne_iff_ne.mpr h)]

theorem filter_all {α : Type} (o : Option α) : (o.filter fun _ => true) = o := by
  cases o with
  | none => rfl
  | some a => rfl

theorem head?_toList {α : Type} (o : Option α) : o.toList.head? = o := by
  cases o with
  | none => rfl
  | some a => rfl

/-- What `:root` leaves out is given where it is used. -/
theorem filter_not_or (given : Bool) (value : Option String) :
    (value.filter fun _ => !given).or (if given then value else none) = value := by
  cases value with
  | none =>
      cases given with
      | true => rfl
      | false => rfl
  | some text =>
      cases given with
      | true => rfl
      | false => rfl

namespace BlockSource

variable {source : BlockSource} {name : String} {theme : LightDarkTheme}

theorem mem_allPlans (hget : source.config.get? name = some theme) {plan : Plan}
    (hplan : plan ∈ source.plans name theme) : plan ∈ source.allPlans :=
  List.mem_flatMap.mpr ⟨(name, theme), Entries.mem_toList_iff.mpr hget, hplan⟩

theorem root_mem_plans (source : BlockSource) :
    ⟨":root", source.authority.light, fun path _ => source.needsRoot path⟩
      ∈ source.plans source.defaultTheme source.authority := by
  rw [plans, if_pos rfl]
  exact List.mem_cons_self

theorem dark_mem_plans (source : BlockSource) :
    ⟨"." ++ source.darkClass, source.authority.dark, fun _ _ => true⟩
      ∈ source.plans source.defaultTheme source.authority := by
  rw [plans, if_pos rfl]
  exact List.mem_cons_of_mem _ List.mem_cons_self

/-- Whether a value differs from what is read behind it in a scheme. -/
def differs (source : BlockSource) : ColorScheme → TokenPath → String → Bool
  | .light => source.differsLight
  | .dark => source.differsDark

/-- In each scheme that is told apart, a theme plans a block for its selector. -/
theorem exists_plan (hother : name ≠ source.defaultTheme) {scheme : ColorScheme}
    (hdark : scheme = .dark → theme.hasDarkMode = true ∨ source.authority.hasDarkMode = true)
    {options : OutputOptions} (hlight : options.lightClass = source.lightClass)
    (hclass : options.darkClass = source.darkClass) :
    ⟨selectorOf options source.authority theme name scheme, theme.scheme scheme,
      source.differs scheme⟩ ∈ source.plans name theme := by
  rw [plans, if_neg hother, selectorOf]
  by_cases hplain : (!theme.hasDarkMode && !source.authority.hasDarkMode) = true
  · rw [if_pos hplain, if_pos hplain]
    cases scheme with
    | light => exact List.mem_singleton.mpr rfl
    | dark => exact absurd hplain (not_plain_of_hasDarkMode (hdark rfl))
  · rw [if_neg hplain, if_neg hplain]
    cases scheme with
    | light =>
        rw [schemeClass, hlight]
        exact List.mem_cons_self
    | dark =>
        rw [schemeClass, hclass]
        exact List.mem_cons_of_mem _ List.mem_cons_self

section Blocks

variable (hnames : NamesApart source.config source.lightClass source.darkClass)
  (hplain : ∀ plan ∈ source.allPlans, plan.tokens.PlainKeys) (hsep : source.Separate)

include hnames hplain hsep

/-- Under the selector of a planned block the value is read that it keeps. -/
theorem valueUnder_themes {selector : String} {tokens : TokenMap}
    {keep : TokenPath → String → Bool} (hplan : ⟨selector, tokens, keep⟩ ∈ source.allPlans)
    {path : TokenPath} (hused : source.usage.isUsed path = true) :
    valueUnder source.themes (source.property path) selector
      = (tokens.value? path).filter (keep path) := by
  rw [valueUnder, declared_themes hnames hplain hsep hplan hused, head?_toList]

/-- **READING**: what is read for a used path is what it means. -/
theorem reading_eq_intended {options : OutputOptions}
    (hlight : options.lightClass = source.lightClass)
    (hclass : options.darkClass = source.darkClass)
    (hauthority : source.config.get? source.defaultTheme = some source.authority)
    (hget : source.config.get? name = some theme) (hother : name ≠ source.defaultTheme)
    {scheme : ColorScheme}
    (hdark : scheme = .dark → theme.hasDarkMode = true ∨ source.authority.hasDarkMode = true)
    {path : TokenPath} (hused : source.usage.isUsed path = true) {fallback : Option String}
    (hfallback : fallback = if source.inline && source.usage.count path == 1
      then source.authority.light.value? path else none) :
    reading options source.themes fallback
        (selectorOf options source.authority theme name scheme) scheme (source.property path)
      = intended source.authority theme scheme path := by
  have hroot := valueUnder_themes hnames hplain hsep
    (mem_allPlans hauthority (root_mem_plans source)) hused
  have hdarkBlock := valueUnder_themes hnames hplain hsep
    (mem_allPlans hauthority (dark_mem_plans source)) hused
  have hown := valueUnder_themes hnames hplain hsep
    (mem_allPlans hget (exists_plan hother hdark hlight hclass)) hused
  -- Both schemes end at the authority's light value, in `:root` or in place.
  have hbehind : (valueUnder source.themes (source.property path) ":root").or fallback
      = source.authority.light.value? path := by
    rw [hroot, hfallback]
    exact filter_not_or _ _
  cases scheme with
  | light =>
      rw [reading, hown, hbehind]
      exact filter_ne_or _ _
  | dark =>
      rw [reading, hown, hbehind, hclass, hdarkBlock, filter_all]
      exact filter_ne_or _ _

end Blocks

end BlockSource

/-! ## Main result -/

/-- A path has a value in the authority's light tokens only if the authority is
    configured. -/
theorem get?_authority {config : ResolvedConfig} {options : OutputOptions} {path : TokenPath}
    (h : ((authorityOf config options).light.value? path).isSome = true) :
    config.get? options.defaultTheme = some (authorityOf config options) := by
  rw [authorityOf] at h ⊢
  cases hget : config.get? options.defaultTheme with
  | some authority => rfl
  | none =>
      have hnone : TokenMap.empty.value? path = none := by
        rw [TokenMap.value?, TokenMap.lookup]
        cases path.segments with
        | nil => rfl
        | cons name names => rfl
      rw [hget] at h
      cases ((congrArg Option.isSome hnone).symm.trans h)

/-- **FAITHFUL OUTPUT**: modern output without a single theme is the stylesheet
    with uses of custom properties for its references, and blocks behind it in
    which nothing is declared twice.  What is read there for a referenced path,
    in a scheme of a theme other than the authority, is what the path means. -/
theorem apply_represents {config : ResolvedConfig} {options : OutputOptions}
    {localizer : Localizer} {sheet out : Stylesheet} {warnings : List Warning}
    (h : apply config options localizer sheet = .ok (out, warnings))
    (hsingle : options.singleTheme = none)
    (hkeys : ∀ name theme, config.get? name = some theme → ∀ scheme,
      (theme.scheme scheme).PlainKeys)
    (hnames : NamesApart config options.lightClass options.darkClass)
    (hlocal : ∀ path other, sheet.Referenced path → sheet.Referenced other →
      propertyOf localizer path = propertyOf localizer other → path = other) :
    ∃ (blocks : List Rule) (fallback : TokenPath → Option String),
      out = (writtenSheet (propertyOf localizer) fallback sheet).appendRules blocks
        ∧ (∀ selector property, (declared blocks selector property).length ≤ 1)
        ∧ ∀ name theme, config.get? name = some theme → name ≠ options.defaultTheme →
            ∀ scheme, (scheme = .dark →
                theme.hasDarkMode = true ∨ (authorityOf config options).hasDarkMode = true) →
            ∀ path, sheet.Referenced path → ∃ value,
              intended (authorityOf config options) theme scheme path = some value
                ∧ reading options blocks (fallback path)
                    (selectorOf options (authorityOf config options) theme name scheme) scheme
                    (propertyOf localizer path) = some value := by
  obtain ⟨usage, husage, h⟩ := Outcome.bind_eq_ok.mp h
  obtain ⟨replaced, hreplaced, h⟩ := Outcome.bind_eq_ok.mp h
  have hout := (Prod.mk.inj (Except.ok.inj h)).1
  -- Without a single theme nothing is written literally, and blocks follow.
  have hnone : singleTheme config options (authorityOf config options) = none := by
    rw [singleTheme, hsingle]
    rfl
  have hliteral : (replacement config options localizer usage).literal = false := by
    show isLiteral options (singleTheme config options (authorityOf config options)) = false
    rw [hnone]
    exact Bool.and_false _
  have hvalues : (replacement config options localizer usage).values
      = authorityOf config options := by
    show (singleTheme config options (authorityOf config options)).getD _ = _
    rw [hnone]
    rfl
  have hblocks : blocks config options localizer usage
      = (blockSource config options localizer usage).themes := by
    have hsource : singleTheme config options
        (blockSource config options localizer usage).authority = none := hnone
    rw [blocks, hsource]
  obtain ⟨hsheet, hknown⟩ := Replacement.sheet_eq_ok hliteral hreplaced
  have hused : ∀ path, usage.isUsed path = true ↔ sheet.Referenced path :=
    fun path => VariableUsage.isUsed_iff husage
  -- Only referenced paths are used, and localization keeps those apart.
  have hsep : (blockSource config options localizer usage).Separate := by
    intro path other hpath hother heq
    exact hlocal path other ((hused path).mp hpath) ((hused other).mp hother) heq
  have hplain : ∀ plan ∈ (blockSource config options localizer usage).allPlans,
      plan.tokens.PlainKeys := by
    intro plan hplan
    obtain ⟨⟨name, theme⟩, hentry, hplan⟩ := List.mem_flatMap.mp hplan
    obtain ⟨scheme, htokens⟩ := (BlockSource.cases_of_mem_plans hplan).1
    rw [htokens]
    exact hkeys name theme (Entries.mem_toList_iff.mp hentry) scheme
  refine ⟨blocks config options localizer usage,
    (replacement config options localizer usage).fallback?, ?_, ?_, ?_⟩
  · rw [← hout, hsheet]
    rfl
  · rw [hblocks]
    exact BlockSource.length_declared_themes hnames hplain hsep
  · intro name theme hget hother scheme hdark path hpath
    -- A reference the authority has no light value for would have failed.
    have hlight : ((authorityOf config options).light.value? path).isSome = true := by
      obtain ⟨d, hd, value, hvalue, r, hr, rfl⟩ := hpath
      exact hknown d hd value hvalue r hr
    obtain ⟨value, hvalue⟩ := Option.isSome_iff_exists.mp
      (intended_isSome theme scheme hlight)
    refine ⟨value, hvalue, ?_⟩
    rw [hblocks, ← hvalue]
    refine BlockSource.reading_eq_intended hnames hplain hsep rfl rfl (get?_authority hlight)
      hget hother hdark ((hused path).mpr hpath) ?_
    rw [Replacement.fallback?, hvalues]
    rfl

/-- A theme with one token, and no dark scheme. -/
def ocean : LightDarkTheme := ⟨TokenMap.empty.insertText "ink" "navy", .empty⟩

/-- An authority with a dark scheme beside it. -/
def harbor : ResolvedConfig where
  toList := [("default", ⟨(TokenMap.empty.insertText "ink" "black").insertText "gap" "1px",
    TokenMap.empty.insertText "ink" "white"⟩), ("ocean", ocean)]
  nodup := by decide +kernel

/-- One path is referenced twice and one once. -/
def bordered : Stylesheet := ⟨[.rule { selector := ".a", declarations := [
  { property := "color", value := "@theme ink" },
  { property := "border", value := "theme('gap') solid theme('ink')" }] }]⟩

/-- The theme's own value, the authority's dark value, and the value in the
    place of its only use are all read. -/
theorem harbor_represented : ∃ out warnings blocks fallback,
    apply harbor {} ⟨none, none, ""⟩ bordered = .ok (out, warnings)
      ∧ out = (writtenSheet (propertyOf ⟨none, none, ""⟩) fallback bordered).appendRules blocks
      ∧ reading {} blocks (fallback ⟨"ink"⟩) ".ocean.light" .light "--ink" = some "navy"
      ∧ reading {} blocks (fallback ⟨"ink"⟩) ".ocean.dark" .dark "--ink" = some "white"
      ∧ reading {} blocks (fallback ⟨"gap"⟩) ".ocean.dark" .dark "--gap" = some "1px" := by
  have hok : (apply harbor {} ⟨none, none, ""⟩ bordered).toOption.isSome = true := by
    decide +kernel
  have hused : (VariableUsage.analyze bordered).toOption.map
      (fun usage => (usage.paths, usage.paths.all usage.isUsed))
      = some ([⟨"ink"⟩, ⟨"gap"⟩], true) := by
    decide +kernel
  obtain ⟨⟨out, warnings⟩, hout⟩ := Option.isSome_iff_exists.mp hok
  obtain ⟨usage, husage, hused⟩ := Option.map_eq_some_iff.mp hused
  obtain ⟨hpaths, hall⟩ := Prod.mk.inj hused
  -- The paths referenced are those counted.
  have happly := Outcome.toOption_eq_some_iff.mp hout
  have hreferenced : ∀ path, bordered.Referenced path ↔ path = ⟨"ink"⟩ ∨ path = ⟨"gap"⟩ := by
    intro path
    rw [← VariableUsage.isUsed_iff (Outcome.toOption_eq_some_iff.mp husage), ← List.mem_pair,
      ← hpaths]
    exact ⟨VariableUsage.mem_paths_of_isUsed, fun hmem => List.all_eq_true.mp hall path hmem⟩
  have hthemes : ∀ name theme, harbor.get? name = some theme →
      ∀ scheme, (theme.scheme scheme).PlainKeys := by
    intro name theme hget scheme
    have hink : ∀ text, (TokenMap.empty.insertText "ink" text).PlainKeys :=
      TokenMap.PlainKeys.empty.insertText (by decide)
    rcases List.mem_pair.mp (Entries.mem_toList_iff.mpr hget) with heq | heq
    · obtain ⟨-, rfl⟩ := Prod.mk.inj heq
      cases scheme with
      | light => exact (hink "black").insertText (by decide) "1px"
      | dark => exact hink "white"
    · obtain ⟨-, rfl⟩ := Prod.mk.inj heq
      cases scheme with
      | light => exact hink "navy"
      | dark => exact .empty
  have hlocal : ∀ path other, bordered.Referenced path → bordered.Referenced other →
      propertyOf ⟨none, none, ""⟩ path = propertyOf ⟨none, none, ""⟩ other → path = other := by
    intro path other hpath hother heq
    rcases (hreferenced path).mp hpath with rfl | rfl
    · rcases (hreferenced other).mp hother with rfl | rfl
      · rfl
      · exact absurd heq (by decide +kernel)
    · rcases (hreferenced other).mp hother with rfl | rfl
      · exact absurd heq (by decide +kernel)
      · rfl
  obtain ⟨blocks, fallback, hwritten, -, hread⟩ := apply_represents happly rfl hthemes
    ⟨by decide +kernel, by decide +kernel⟩ hlocal
  have hvalue : ∀ scheme path own value, bordered.Referenced path →
      selectorOf {} (authorityOf harbor {}) ocean "ocean" scheme = own →
      intended (authorityOf harbor {}) ocean scheme path = some value →
      reading {} blocks (fallback path) own scheme (propertyOf ⟨none, none, ""⟩ path)
        = some value := by
    intro scheme path own value hpath hown hmeant
    have hocean : harbor.get? "ocean" = some ocean :=
      Entries.mem_toList_iff.mp (List.mem_cons_of_mem _ List.mem_cons_self)
    obtain ⟨found, hfound, hr⟩ := hread "ocean" ocean hocean (by decide) scheme
      (fun _ => Or.inr (by decide +kernel)) path hpath
    rw [← hown, hr, ← hfound, hmeant]
  have hink := (hreferenced ⟨"ink"⟩).mpr (Or.inl rfl)
  have hgap := (hreferenced ⟨"gap"⟩).mpr (Or.inr rfl)
  refine ⟨out, warnings, blocks, fallback, happly, hwritten, ?_, ?_, ?_⟩
  · exact hvalue .light ⟨"ink"⟩ _ _ hink (by decide +kernel) (by decide +kernel)
  · exact hvalue .dark ⟨"ink"⟩ _ _ hink (by decide +kernel) (by decide +kernel)
  · exact hvalue .dark ⟨"gap"⟩ _ _ hgap (by decide +kernel) (by decide +kernel)

end ThemeTokens.Modern
