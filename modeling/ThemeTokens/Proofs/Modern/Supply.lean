import ThemeTokens.Proofs.Modern.Output
import ThemeTokens.Proofs.Modern.Reading
import ThemeTokens.Proofs.Reference.Lossless
import ThemeTokens.Proofs.Token.Layers

/-! # Where the values of a single theme come from

    A reference must have a value in the authority, and what is written for it
    is looked up in the single theme merged over the authority.  The merge can
    take the value away: where the theme has a group and the authority a leaf,
    or the other way round, the theme wins and the path leads to no text any
    more.  That is the only way in which a use is left without a value
    (`apply_supplies_iff`); otherwise the value is written in the use or
    declared on `:root`. -/

namespace ThemeTokens.Modern

/-- The value is written where the path is used, or `:root` declares it for the
    custom property of the path. -/
def Supplied (localizer : Localizer) (fallback : TokenPath → Option String)
    (blocks : List Rule) (path : TokenPath) (value : String) : Prop :=
  fallback path = some value
    ∨ ∃ b ∈ blocks, b.selector = ":root"
        ∧ value ∈ valuesFor (propertyOf localizer path) b.declarations

/-! ## The merged theme -/

section Merged

variable {config : ResolvedConfig} {options : OutputOptions} {name : String} {path : TokenPath}

/-- A path leads to a text of merged tokens unless the upper ones are of
    another shape, provided it leads to one of the lower ones. -/
theorem isSome_value?_merge_iff {lower upper : TokenMap}
    (h : (lower.value? path).isSome = true) :
    (∃ value, (lower.merge upper).value? path = some value)
      ↔ ¬ upper.toValue.Obstructs path.segments := by
  obtain ⟨text, htext⟩ := Option.isSome_iff_exists.mp h
  rw [value?_eq_some_iff, TokenMap.lookup, follow_eq_value_iff] at htext
  refine Iff.trans (exists_congr fun value => ?_) (TokenValue.leads_onto_iff htext upper.distinct)
  rw [value?_eq_some_iff, TokenMap.lookup, follow_eq_value_iff]
  exact Iff.rfl

/-- A value of the authority is in the way of nothing but the theme's own
    tokens. -/
theorem isSome_completed_iff
    (h : ((authorityOf config options).light.value? path).isSome = true) :
    (∃ value, (completed config options name).light.value? path = some value)
      ↔ ∀ own, config.get? name = some own → ¬ own.light.toValue.Obstructs path.segments := by
  rw [completed]
  cases hget : config.get? name with
  | none =>
      refine iff_of_true (Option.isSome_iff_exists.mp h) ?_
      intro own hown
      cases hown
  | some theme =>
      refine (isSome_value?_merge_iff h).trans ⟨?_, fun hall => hall theme rfl⟩
      intro hfree own hown
      rw [← Option.some.inj hown]
      exact hfree

end Merged

/-! ## The block on the root -/

namespace BlockSource

variable {source : BlockSource} {theme : LightDarkTheme} {optimize : Bool}

/-- Where values are declared at all the light ones are declared on `:root`. -/
theorem mem_single_of_root {b : Rule} (hmode : theme.hasDarkMode = true ∨ optimize = false)
    (hb : source.block? ":root" theme.light (fun path _ => source.needsRoot path) = some b) :
    b ∈ source.single theme optimize := by
  rw [single]
  by_cases hdark : theme.hasDarkMode = true
  · rw [if_pos hdark]
    exact List.mem_filterMap.mpr ⟨some b, by rw [← hb]; exact List.mem_cons_self, rfl⟩
  · rw [if_neg hdark, hmode.resolve_left hdark, if_neg Bool.false_ne_true, hb]
    exact Option.mem_toList.mpr rfl

/-- A block declares the listed values that it keeps. -/
theorem exists_block?_of_mem {selector : String} {tokens : TokenMap}
    {keep : TokenPath → String → Bool} {path : TokenPath} {value : String}
    (hmem : (path, value) ∈ tokens.flatten) (hused : source.usage.isUsed path = true)
    (hkeep : keep path value = true) :
    ∃ b, source.block? selector tokens keep = some b ∧ b.selector = selector
      ∧ value ∈ valuesFor (source.property path) b.declarations := by
  have hdeclared : source.declare path value ∈ source.declarations tokens keep := by
    refine List.mem_map.mpr ⟨(path, value), List.mem_filter.mpr ⟨hmem, ?_⟩, rfl⟩
    exact Bool.and_eq_true_iff.mpr ⟨hused, hkeep⟩
  have hfull : ¬ (source.declarations tokens keep).isEmpty = true := by
    rw [List.isEmpty_iff]
    exact List.ne_nil_of_mem hdeclared
  refine ⟨_, if_neg hfull, rfl, ?_⟩
  exact List.mem_map.mpr ⟨_, List.mem_filter.mpr ⟨hdeclared, beq_self_eq_true _⟩, rfl⟩

end BlockSource

/-! ## Main result -/

/-- Names of a path that was read are not empty. -/
theorem segments_ne_empty {path : TokenPath} (h : IsPath path.text.toList) :
    ∀ n ∈ path.segments, n ≠ "" := by
  intro n hn hempty
  obtain ⟨piece, hpiece, rfl⟩ := List.mem_map.mp hn
  exact h.splitAt_ne_nil piece hpiece (String.ofList_eq_empty_iff.mp hempty)

/-- Outside of literal mode a value of the single theme reaches every use of its
    path. -/
theorem supplied_of_value? {config : ResolvedConfig} {options : OutputOptions}
    {localizer : Localizer} {usage : VariableUsage} {name : String}
    (hsingle : options.singleTheme = some name)
    (hliteral : isLiteral options (some (completed config options name)) = false)
    {path : TokenPath} (hpath : IsPath path.text.toList) (hused : usage.isUsed path = true)
    {value : String}
    (hvalue : (completed config options name).light.value? path = some value) :
    Supplied localizer (replacement config options localizer usage).fallback?
      (blocks config options localizer usage) path value := by
  by_cases hgiven : ((replacement config options localizer usage).inline
      && (replacement config options localizer usage).usage.count path == 1) = true
  · -- Used once, the value is written where it is used.
    refine Or.inl ?_
    rw [Replacement.fallback?, if_pos hgiven, values_eq_completed hsingle]
    exact hvalue
  · have hroot : (blockSource config options localizer usage).needsRoot path = true := by
      rw [BlockSource.needsRoot, Bool.not_eq_true']
      exact Bool.eq_false_iff.mpr hgiven
    have hmode : (completed config options name).hasDarkMode = true ∨ options.optimize = false := by
      rw [isLiteral, Option.any_some, Bool.and_eq_false_iff, Bool.not_eq_false'] at hliteral
      exact hliteral.symm
    have hmem := TokenMap.mem_flatten_of_value? (segments_ne_empty hpath) hvalue
    have hblock : ∃ b, (blockSource config options localizer usage).block? ":root"
          (completed config options name).light
          (fun path _ => (blockSource config options localizer usage).needsRoot path) = some b
        ∧ b.selector = ":root" ∧ value ∈ valuesFor (propertyOf localizer path) b.declarations :=
      BlockSource.exists_block?_of_mem hmem hused hroot
    obtain ⟨b, hb, hselector, hdeclared⟩ := hblock
    refine Or.inr ⟨b, ?_, hselector, hdeclared⟩
    rw [blocks_eq_single hsingle]
    exact BlockSource.mem_single_of_root hmode hb

/-- **SUPPLY**: outside of literal mode the output for a single theme is the
    stylesheet with uses of custom properties for its references, and blocks
    behind it.  A referenced path has a value in the merged theme, and that
    value is supplied, exactly where the theme's own tokens are of no other
    shape than a leaf at the end of the path. -/
theorem apply_supplies_iff {config : ResolvedConfig} {options : OutputOptions}
    {localizer : Localizer} {sheet out : Stylesheet} {warnings : List Warning} {name : String}
    (h : apply config options localizer sheet = .ok (out, warnings))
    (hsingle : options.singleTheme = some name)
    (hliteral : isLiteral options (singleTheme config options (authorityOf config options)) = false) :
    ∃ (blocks : List Rule) (fallback : TokenPath → Option String),
      out = (writtenSheet (propertyOf localizer) fallback sheet).appendRules blocks
        ∧ ∀ path, sheet.Referenced path →
            ((∃ value, (completed config options name).light.value? path = some value
                ∧ Supplied localizer fallback blocks path value)
              ↔ ∀ own, config.get? name = some own →
                  ¬ own.light.toValue.Obstructs path.segments) := by
  obtain ⟨usage, author, husage, hauthor, rfl, -⟩ := apply_eq_ok.mp h
  obtain ⟨rfl, hknown⟩ := Replacement.sheet_eq_ok hliteral hauthor
  rw [singleTheme_eq_completed hsingle] at hliteral
  refine ⟨blocks config options localizer usage,
    (replacement config options localizer usage).fallback?, rfl, ?_⟩
  intro path hpath
  have hused := (VariableUsage.isUsed_iff husage).mpr hpath
  obtain ⟨d, hd, read, hread, r, hr, rfl⟩ := hpath
  have hlight : ((authorityOf config options).light.value? r.path).isSome = true :=
    hknown d hd read hread r hr
  have hname := isPath_of_parse (referring?_eq_some_iff.mp hread).1 r hr
  rw [← isSome_completed_iff hlight]
  refine exists_congr fun value => and_iff_left_of_imp fun hvalue => ?_
  exact supplied_of_value? hsingle hliteral hname hused hvalue

/-- The theme's own value is declared, since it is used twice, and the value
    that only the authority has is written in its only use. -/
theorem harbor_supplied : ∃ out warnings blocks fallback,
    apply harbor { singleTheme := some "ocean" } ⟨none, none, ""⟩ bordered = .ok (out, warnings)
      ∧ out = (writtenSheet (propertyOf ⟨none, none, ""⟩) fallback bordered).appendRules blocks
      ∧ Supplied ⟨none, none, ""⟩ fallback blocks ⟨"ink"⟩ "navy"
      ∧ Supplied ⟨none, none, ""⟩ fallback blocks ⟨"gap"⟩ "1px" := by
  have hok : (apply harbor { singleTheme := some "ocean" } ⟨none, none, ""⟩ bordered
      ).toOption.isSome = true := by
    decide +kernel
  obtain ⟨⟨out, warnings⟩, happly⟩ := Outcome.exists_ok_of_isSome hok
  obtain ⟨blocks, fallback, hwritten, hsupply⟩ :=
    apply_supplies_iff happly rfl (by decide +kernel)
  have hvalue : ∀ path value, bordered.Referenced path →
      ((authorityOf harbor { singleTheme := some "ocean" }).light.value? path).isSome = true →
      (completed harbor { singleTheme := some "ocean" } "ocean").light.value? path = some value →
      Supplied ⟨none, none, ""⟩ fallback blocks path value := by
    intro path value hreferenced hlight hmeant
    -- Where the merge has a value nothing of the theme's own is in the way.
    have hown := (isSome_completed_iff hlight).mp ⟨value, hmeant⟩
    obtain ⟨found, hfound, hsupplied⟩ := (hsupply path hreferenced).mpr hown
    rw [Option.some.inj (hmeant.symm.trans hfound)]
    exact hsupplied
  refine ⟨out, warnings, blocks, fallback, happly, hwritten, ?_, ?_⟩
  · exact hvalue ⟨"ink"⟩ "navy" (VariableUsage.referenced_of_counted (by decide +kernel))
      (by decide +kernel) (by decide +kernel)
  · exact hvalue ⟨"gap"⟩ "1px" (VariableUsage.referenced_of_counted (by decide +kernel))
      (by decide +kernel) (by decide +kernel)

/-- A theme with a group where the authority has a leaf. -/
def reef : ResolvedConfig := .ofList
  [("default", ⟨(TokenMap.empty.insertText "ink" "black").insertText "gap" "1px", .empty⟩),
   ("ocean", ⟨TokenMap.empty.insertMap "ink" (TokenMap.empty.insertText "deep" "navy"), .empty⟩)]

/-- Success alone does not supply a value for every reference: the authority's
    leaf is known, and the theme's group takes its place. -/
theorem apply_supplies_fails :
    ¬ (∀ (config : ResolvedConfig) (options : OutputOptions) (localizer : Localizer)
        (sheet out : Stylesheet) (warnings : List Warning) (name : String),
        apply config options localizer sheet = .ok (out, warnings) →
        options.singleTheme = some name →
        isLiteral options (singleTheme config options (authorityOf config options)) = false →
          ∃ (blocks : List Rule) (fallback : TokenPath → Option String),
            out = (writtenSheet (propertyOf localizer) fallback sheet).appendRules blocks
              ∧ ∀ path, sheet.Referenced path →
                  ∃ value, (completed config options name).light.value? path = some value
                    ∧ Supplied localizer fallback blocks path value) := by
  intro h
  have hok : (apply reef { singleTheme := some "ocean" } ⟨none, none, ""⟩ bordered
      ).toOption.isSome = true := by
    decide +kernel
  obtain ⟨⟨out, warnings⟩, happly⟩ := Outcome.exists_ok_of_isSome hok
  obtain ⟨blocks, fallback, -, hsupply⟩ := h _ _ _ _ _ _ _ happly rfl (by decide +kernel)
  have hreferenced : bordered.Referenced ⟨"ink"⟩ :=
    VariableUsage.referenced_of_counted (by decide +kernel)
  obtain ⟨value, hvalue, -⟩ := hsupply ⟨"ink"⟩ hreferenced
  have hnone : (completed reef { singleTheme := some "ocean" } "ocean").light.value? ⟨"ink"⟩
      = none := by
    decide +kernel
  cases hnone.symm.trans hvalue

end ThemeTokens.Modern
