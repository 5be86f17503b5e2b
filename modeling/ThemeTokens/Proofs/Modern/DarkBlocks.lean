import ThemeTokens.Proofs.Modern.Supply

/-! # Where dark values are declared

    A theme declares the dark values in which it differs from the authority,
    under its own class together with the dark class.  Whether a dark scheme is
    told apart at all depends on the theme and on the authority: one of the two
    must have a dark mode, which takes tokens in both schemes.  Then no dark
    value that is referenced gets lost, neither by the filters nor by the
    merging of blocks (`apply_declares_dark`).  A theme with dark tokens alone,
    next to an authority without a dark mode, is written without them
    (`apply_declares_dark_fails`). -/

namespace ThemeTokens.Modern

/-- Some block has the selector in its list and declares the value for the
    property. -/
def DeclaredBy (blocks : List Rule) (selector property value : String) : Prop :=
  ∃ b ∈ blocks, Selector.Lists b.selector selector ∧ value ∈ valuesFor property b.declarations

/-- What a block declares it still declares when it was joined to another. -/
theorem Carried.declaredBy {block : Rule} {blocks : List Rule} (h : Carried block blocks)
    {property value : String} (hvalue : value ∈ valuesFor property block.declarations) :
    DeclaredBy blocks block.selector property value := by
  obtain ⟨b, hb, hlists, hsame⟩ := h
  rw [← valuesFor_of_same hsame] at hvalue
  exact ⟨b, hb, hlists, hvalue⟩

/-- What is referenced was read as a path. -/
theorem isPath_of_referenced {sheet : Stylesheet} {path : TokenPath}
    (h : sheet.Referenced path) : IsPath path.text.toList := by
  obtain ⟨d, -, value, hvalue, r, hr, rfl⟩ := h
  exact isPath_of_parse (referring?_eq_some_iff.mp hvalue).1 r hr

namespace BlockSource

variable {source : BlockSource} {path : TokenPath} {value : String}

/-- The values that a planned block keeps are declared under its selector. -/
theorem declaredBy_of_mem_allPlans {plan : Plan} (hplan : plan ∈ source.allPlans)
    (hmem : (path, value) ∈ plan.tokens.flatten) (hused : source.usage.isUsed path = true)
    (hkeep : plan.keep path value = true) :
    DeclaredBy source.themes plan.selector (source.property path) value := by
  obtain ⟨b, hb, hselector, hvalue⟩ := exists_block?_of_mem hmem hused hkeep
  have hbuilt : b ∈ source.allPlans.filterMap source.build? :=
    List.mem_filterMap.mpr ⟨plan, hplan, hb⟩
  rw [themes_eq, ← hselector]
  exact (carried_mergeIdentical hbuilt).declaredBy hvalue

/-- In each scheme that is told apart, a theme's own value for a used path is
    declared if it differs from what is read behind it. -/
theorem declaredBy_of_differs {name : String} {theme : LightDarkTheme}
    (hget : source.config.get? name = some theme) (hother : name ≠ source.defaultTheme)
    {scheme : ColorScheme}
    (hdark : scheme = .dark → theme.hasDarkMode = true ∨ source.authority.hasDarkMode = true)
    {options : OutputOptions} (hlight : options.lightClass = source.lightClass)
    (hclass : options.darkClass = source.darkClass) (hpath : IsPath path.text.toList)
    (hused : source.usage.isUsed path = true)
    (hvalue : (theme.scheme scheme).value? path = some value)
    (hdiffers : source.differs scheme path value = true) :
    DeclaredBy source.themes (selectorOf options source.authority theme name scheme)
      (source.property path) value :=
  declaredBy_of_mem_allPlans (mem_allPlans hget (exists_plan hother hdark hlight hclass))
    (TokenMap.mem_flatten_of_value? (segments_ne_empty hpath) hvalue) hused hdiffers

end BlockSource

/-! ## Main result -/

/-- **DARK VALUES**: without a single theme the output is the stylesheet with
    uses of custom properties for its references, and blocks behind it.  If a
    theme other than the authority or the authority itself has a dark mode, each
    dark value of the theme at a referenced path that differs from the
    authority's, for which its light value stands in, is declared under the
    theme's class and the dark class. -/
theorem apply_declares_dark {config : ResolvedConfig} {options : OutputOptions}
    {localizer : Localizer} {sheet out : Stylesheet} {warnings : List Warning}
    (h : apply config options localizer sheet = .ok (out, warnings))
    (hsingle : options.singleTheme = none) :
    ∃ (blocks : List Rule) (fallback : TokenPath → Option String),
      out = (writtenSheet (propertyOf localizer) fallback sheet).appendRules blocks
        ∧ ∀ name theme, config.get? name = some theme → name ≠ options.defaultTheme →
            theme.hasDarkMode = true ∨ (authorityOf config options).hasDarkMode = true →
            ∀ path, sheet.Referenced path → ∀ value, theme.dark.value? path = some value →
              ((authorityOf config options).dark.value? path).or
                  ((authorityOf config options).light.value? path) ≠ some value →
                DeclaredBy blocks ("." ++ name ++ "." ++ options.darkClass)
                  (propertyOf localizer path) value := by
  obtain ⟨usage, author, husage, hauthor, rfl, -⟩ := apply_eq_ok.mp h
  obtain ⟨rfl, -⟩ := Replacement.sheet_eq_ok (literal_eq_false hsingle localizer usage) hauthor
  refine ⟨blocks config options localizer usage,
    (replacement config options localizer usage).fallback?, rfl, ?_⟩
  intro name theme hget hother hdark path hpath value hvalue hdiffers
  have hdeclared : DeclaredBy (blockSource config options localizer usage).themes
      (selectorOf options (authorityOf config options) theme name .dark)
      (propertyOf localizer path) value :=
    BlockSource.declaredBy_of_differs hget hother (fun _ => hdark) rfl rfl
      (isPath_of_referenced hpath) ((VariableUsage.isUsed_iff husage).mpr hpath) hvalue
      (bne_iff_ne.mpr hdiffers)
  rw [selectorOf_dark hdark] at hdeclared
  rw [blocks_eq_themes hsingle]
  exact hdeclared

/-- Two themes with dark modes that agree in the dark scheme, and an authority
    without one. -/
def herbs : ResolvedConfig where
  toList := [("default", ⟨TokenMap.empty.insertText "ink" "black", .empty⟩),
    ("mint", ⟨TokenMap.empty.insertText "ink" "green", TokenMap.empty.insertText "ink" "teal"⟩),
    ("sage", ⟨TokenMap.empty.insertText "ink" "olive", TokenMap.empty.insertText "ink" "teal"⟩)]
  nodup := by decide +kernel

/-- One path is referenced. -/
def inked : Stylesheet := ⟨[.rule { selector := ".a", declarations := [
  { property := "color", value := "@theme ink" }] }]⟩

/-- The second theme's block was joined to the first one's, and still counts. -/
theorem herbs_declare_dark : ∃ out warnings blocks fallback,
    apply herbs {} ⟨none, none, ""⟩ inked = .ok (out, warnings)
      ∧ out = (writtenSheet (propertyOf ⟨none, none, ""⟩) fallback inked).appendRules blocks
      ∧ DeclaredBy blocks ".mint.dark" "--ink" "teal"
      ∧ DeclaredBy blocks ".sage.dark" "--ink" "teal" := by
  have hok : (apply herbs {} ⟨none, none, ""⟩ inked).toOption.isSome = true := by
    decide +kernel
  obtain ⟨⟨out, warnings⟩, happly⟩ := Outcome.exists_ok_of_isSome hok
  have hink : inked.Referenced ⟨"ink"⟩ := VariableUsage.referenced_of_counted (by decide +kernel)
  obtain ⟨blocks, fallback, hwritten, hdark⟩ := apply_declares_dark happly rfl
  refine ⟨out, warnings, blocks, fallback, happly, hwritten, ?_, ?_⟩
  · exact hdark "mint" _ rfl (by decide) (Or.inl (by decide +kernel)) ⟨"ink"⟩ hink "teal"
      (by decide +kernel) (by decide +kernel)
  · exact hdark "sage" _ rfl (by decide) (Or.inl (by decide +kernel)) ⟨"ink"⟩ hink "teal"
      (by decide +kernel) (by decide +kernel)

/-- A theme with dark tokens only. -/
def nightOnly : LightDarkTheme := ⟨.empty, TokenMap.empty.insertText "ink" "teal"⟩

/-- The theme next to an authority without a dark mode. -/
def dusk : ResolvedConfig where
  toList := [("default", ⟨TokenMap.empty.insertText "ink" "red", .empty⟩), ("mint", nightOnly)]
  nodup := by decide +kernel

/-- Dark tokens alone are no dark mode, and are not written under any of the
    theme's selectors. -/
theorem apply_declares_dark_fails :
    ¬ (∀ (config : ResolvedConfig) (options : OutputOptions) (localizer : Localizer)
        (sheet out : Stylesheet) (warnings : List Warning),
        apply config options localizer sheet = .ok (out, warnings) →
        options.singleTheme = none →
          ∃ (blocks : List Rule) (fallback : TokenPath → Option String),
            out = (writtenSheet (propertyOf localizer) fallback sheet).appendRules blocks
              ∧ ∀ name theme, config.get? name = some theme → name ≠ options.defaultTheme →
                  ∀ path, sheet.Referenced path → ∀ value, theme.dark.value? path = some value →
                    ((authorityOf config options).dark.value? path).or
                        ((authorityOf config options).light.value? path) ≠ some value →
                      ∃ selector ∈ ["." ++ name, "." ++ name ++ "." ++ options.lightClass,
                          "." ++ name ++ "." ++ options.darkClass],
                        DeclaredBy blocks selector (propertyOf localizer path) value) := by
  intro h
  have hok : (apply dusk {} ⟨none, none, ""⟩ inked).toOption.isSome = true := by
    decide +kernel
  obtain ⟨⟨out, warnings⟩, happly⟩ := Outcome.exists_ok_of_isSome hok
  obtain ⟨blocks, fallback, hwritten, hdark⟩ := h _ _ _ _ _ _ happly rfl
  have hink : inked.Referenced ⟨"ink"⟩ := VariableUsage.referenced_of_counted (by decide +kernel)
  obtain ⟨selector, -, b, hb, -⟩ := hdark "mint" nightOnly rfl (by decide) ⟨"ink"⟩ hink "teal"
    (by decide +kernel) (by decide +kernel)
  -- The output has the one rule of the stylesheet, so there is no block at all.
  have hlength : (apply dusk {} ⟨none, none, ""⟩ inked).toOption.map
      (fun result => result.1.nodes.length) = some 1 := by
    decide +kernel
  have hnodes : out.nodes.length = 1 := by
    rw [happly] at hlength
    exact Option.some.inj hlength
  rw [hwritten] at hnodes
  change (_ :: blocks.map Node.rule).length = 1 at hnodes
  rw [List.length_cons, List.length_map] at hnodes
  have hnone : blocks = [] := List.eq_nil_of_length_eq_zero (Nat.succ.inj hnodes)
  rw [hnone] at hb
  cases hb

end ThemeTokens.Modern
