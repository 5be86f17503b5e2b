import Mathlib.Data.List.Forall2
import ThemeTokens.Proofs.Modern.Leftover
import ThemeTokens.Proofs.Modern.Reading

/-! # Custom properties of their own

    A custom property is named after the path of its token, with dashes for the
    dots.  So the names of two paths are the same exactly when the paths are
    alike but for dots and dashes (`variableName_eq_iff`), as `a.b` and `a-b`
    are.

    Outside of literal mode these names are all that tells references apart.
    Where the paths that a stylesheet refers to are not alike no block declares
    a custom property twice, as long as no two tokens have the same path
    (`apply_separates`).  With two paths that are alike the tokens share a
    property (`apply_separates_fails`). -/

namespace ThemeTokens

/-! ## Names -/

/-- Two characters of paths that are the same in a name. -/
def AlikeChar (c d : Char) : Prop :=
  c = d ∨ (c = '.' ∧ d = '-') ∨ (c = '-' ∧ d = '.')

/-- The same characters at the same places, but for dots and dashes. -/
def TokenPath.Alike (path other : TokenPath) : Prop :=
  List.Forall₂ AlikeChar path.text.toList other.text.toList

theorem alikeChar_iff {c d : Char} :
    (if c = '.' then '-' else c) = (if d = '.' then '-' else d) ↔ AlikeChar c d := by
  unfold AlikeChar
  by_cases hc : c = '.'
  · by_cases hd : d = '.'
    · rw [if_pos hc, if_pos hd]
      exact iff_of_true rfl (Or.inl (hc.trans hd.symm))
    · rw [if_pos hc, if_neg hd]
      constructor
      · intro h
        exact Or.inr (Or.inl ⟨hc, h.symm⟩)
      · rintro (h | ⟨-, h⟩ | ⟨-, h⟩)
        · exact absurd (h.symm.trans hc) hd
        · exact h.symm
        · exact absurd h hd
  · by_cases hd : d = '.'
    · rw [if_neg hc, if_pos hd]
      constructor
      · intro h
        exact Or.inr (Or.inr ⟨h, hd⟩)
      · rintro (h | ⟨h, -⟩ | ⟨h, -⟩)
        · exact absurd (h.trans hd) hc
        · exact absurd h hc
        · exact h
    · rw [if_neg hc, if_neg hd]
      constructor
      · exact Or.inl
      · rintro (h | ⟨h, -⟩ | ⟨-, h⟩)
        · exact h
        · exact absurd h hc
        · exact absurd h hd

/-- **NAMES**: two paths have the same name exactly when they are alike. -/
theorem variableName_eq_iff {path other : TokenPath} :
    path.variableName = other.variableName ↔ path.Alike other := by
  rw [TokenPath.variableName, TokenPath.variableName, String.ofList_inj,
    ← List.forall₂_eq_eq_eq, List.forall₂_map_left_iff, List.forall₂_map_right_iff]
  constructor
  · exact List.Forall₂.imp fun _ _ => alikeChar_iff.mp
  · exact List.Forall₂.imp fun _ _ => alikeChar_iff.mpr

instance (path other : TokenPath) : Decidable (path.Alike other) :=
  decidable_of_iff _ variableName_eq_iff

/-- No two different paths that the stylesheet refers to are alike. -/
def Stylesheet.PathsApart (sheet : Stylesheet) : Prop :=
  ∀ path other, sheet.Referenced path → sheet.Referenced other → path.Alike other → path = other

/-- The path is listed at most once among the leaves of the tokens. -/
def TokenMap.Once (tokens : TokenMap) (path : TokenPath) : Prop :=
  (tokens.flatten.map Prod.fst).count path ≤ 1

/-- A tree can give a path to two leaves only if there are dots in its names, or
    if some are empty. -/
theorem TokenMap.once_of_plainKeys {tokens : TokenMap} (h : tokens.PlainKeys)
    (path : TokenPath) : tokens.Once path :=
  List.nodup_iff_count_le_one.mp (TokenMap.nodup_flatten h) path

namespace Modern

/-- Where properties are not renamed they are told apart by the names of their
    paths. -/
theorem propertyOf_eq_iff {localizer : Localizer} (hnaming : localizer.naming = none)
    {path other : TokenPath} :
    propertyOf localizer path = propertyOf localizer other ↔ path.Alike other := by
  have hname : ∀ name, localizer.localize name = name := by
    intro name
    rw [Localizer.localize, hnaming]
  rw [propertyOf, propertyOf, hname, hname, String.append_right_inj, variableName_eq_iff]

/-! ## Blocks -/

/-- Declared are the properties of listed paths, all of which are used. -/
theorem BlockSource.exists_properties (source : BlockSource) (tokens : TokenMap)
    (keep : TokenPath → String → Bool) :
    ∃ paths : List TokenPath,
      (source.declarations tokens keep).map Declaration.property = paths.map source.property
        ∧ paths.Sublist (tokens.flatten.map Prod.fst)
        ∧ ∀ path ∈ paths, source.usage.isUsed path = true := by
  refine ⟨(tokens.flatten.filter fun leaf =>
    source.usage.isUsed leaf.1 && keep leaf.1 leaf.2).map Prod.fst, ?_,
    List.filter_sublist.map Prod.fst, ?_⟩
  · rw [declarations, List.map_map, List.map_map]
    rfl
  · intro path hpath
    obtain ⟨leaf, hleaf, rfl⟩ := List.mem_map.mp hpath
    exact (Bool.and_eq_true_iff.mp (List.mem_filter.mp hleaf).2).1

/-- Declarations give no property twice where the used paths have properties of
    their own and the tokens have each of them at most once. -/
theorem BlockSource.nodup_properties {source : BlockSource} {tokens : TokenMap}
    {keep : TokenPath → String → Bool} (hsep : source.Separate)
    (honce : ∀ path, source.usage.isUsed path = true → tokens.Once path) :
    ((source.declarations tokens keep).map Declaration.property).Nodup := by
  obtain ⟨paths, hproperties, hlisted, hused⟩ := source.exists_properties tokens keep
  rw [hproperties]
  refine List.Nodup.map_on (fun path hpath other hother => ?_) ?_
  · exact hsep path other (hused path hpath) (hused other hother)
  · rw [List.nodup_iff_count_le_one]
    intro path
    by_cases hpath : path ∈ paths
    · exact (hlisted.count_le path).trans (honce path (hused path hpath))
    · rw [List.count_eq_zero_of_not_mem hpath]
      exact Nat.zero_le 1

/-- The tokens that blocks are made from: those of a single theme as completed,
    or those of all themes. -/
def Written (config : ResolvedConfig) (options : OutputOptions) (tokens : TokenMap) : Prop :=
  match options.singleTheme with
  | none => ∃ name theme scheme, config.get? name = some theme ∧ tokens = theme.scheme scheme
  | some name => ∃ scheme, tokens = (completed config options name).scheme scheme

section Blocks

variable {config : ResolvedConfig} {options : OutputOptions}

/-- Every block is made from tokens that are written. -/
theorem exists_written_of_blocks {localizer : Localizer} {usage : VariableUsage} {b : Rule}
    (h : b ∈ blocks config options localizer usage) :
    ∃ tokens keep, Written config options tokens
      ∧ b.declarations = (blockSource config options localizer usage).declarations tokens keep := by
  unfold Written
  cases hsingle : options.singleTheme with
  | none =>
      rw [blocks_eq_themes hsingle] at h
      obtain ⟨name, theme, scheme, keep, hget, heq⟩ := BlockSource.exists_scheme_of_themes h
      exact ⟨theme.scheme scheme, keep, ⟨name, theme, scheme, hget, rfl⟩, heq⟩
  | some name =>
      rw [blocks_eq_single hsingle] at h
      obtain ⟨scheme, keep, heq⟩ := BlockSource.exists_scheme_of_single h
      exact ⟨_, keep, ⟨scheme, rfl⟩, heq⟩

variable (hkeys : ∀ name theme, config.get? name = some theme → ∀ scheme,
  (theme.scheme scheme).PlainKeys)

include hkeys

theorem plainKeys_authorityOf (scheme : ColorScheme) :
    ((authorityOf config options).scheme scheme).PlainKeys := by
  rw [authorityOf]
  cases hget : config.get? options.defaultTheme with
  | some authority => exact hkeys _ authority hget scheme
  | none =>
      cases scheme with
      | light => exact .empty
      | dark => exact .empty

theorem plainKeys_completed (name : String) (scheme : ColorScheme) :
    ((completed config options name).scheme scheme).PlainKeys := by
  rw [completed]
  cases hget : config.get? name with
  | none => exact plainKeys_authorityOf hkeys scheme
  | some theme =>
      dsimp only
      rw [LightDarkTheme.scheme_mergedOver]
      exact (plainKeys_authorityOf hkeys scheme).merge (hkeys name theme hget scheme)

/-- Where all names of tokens are plain no path is written twice. -/
theorem Written.once {tokens : TokenMap} (h : Written config options tokens) (path : TokenPath) :
    tokens.Once path := by
  refine TokenMap.once_of_plainKeys ?_ path
  unfold Written at h
  cases hsingle : options.singleTheme with
  | none =>
      rw [hsingle] at h
      obtain ⟨name, theme, scheme, hget, rfl⟩ := h
      exact hkeys name theme hget scheme
  | some name =>
      rw [hsingle] at h
      obtain ⟨scheme, rfl⟩ := h
      exact plainKeys_completed hkeys name scheme

end Blocks

/-! ## Main result -/

/-- **SEPARATION**: outside of literal mode, where properties are not renamed,
    two references are written with the same custom property exactly when their
    paths are alike.  If those of different paths never are, and among the
    tokens that are written each has its path to itself, no block declares a
    property twice. -/
theorem apply_separates {config : ResolvedConfig} {options : OutputOptions}
    {localizer : Localizer} {sheet out : Stylesheet} {warnings : List Warning}
    (h : apply config options localizer sheet = .ok (out, warnings))
    (hnaming : localizer.naming = none)
    (hliteral : isLiteral options (singleTheme config options (authorityOf config options)) = false) :
    ∃ (blocks : List Rule) (fallback : TokenPath → Option String),
      out = (writtenSheet (propertyOf localizer) fallback sheet).appendRules blocks
        ∧ (∀ path other, sheet.Referenced path → sheet.Referenced other →
            (propertyOf localizer path = propertyOf localizer other ↔ path.Alike other))
        ∧ (sheet.PathsApart →
            (∀ tokens, Written config options tokens → ∀ path, sheet.Referenced path →
              tokens.Once path) →
            ∀ b ∈ blocks, (b.declarations.map Declaration.property).Nodup) := by
  obtain ⟨usage, author, husage, hauthor, rfl, -⟩ := apply_eq_ok.mp h
  obtain ⟨rfl, -⟩ := Replacement.sheet_eq_ok hliteral hauthor
  refine ⟨blocks config options localizer usage,
    (replacement config options localizer usage).fallback?, rfl,
    fun path other _ _ => propertyOf_eq_iff hnaming, ?_⟩
  intro hapart honce b hb
  obtain ⟨tokens, keep, hwritten, heq⟩ := exists_written_of_blocks hb
  -- Only referenced paths are used, and those have properties of their own.
  have hsep : (blockSource config options localizer usage).Separate := by
    intro path other hpath hother hsame
    exact hapart path other ((VariableUsage.isUsed_iff husage).mp hpath)
      ((VariableUsage.isUsed_iff husage).mp hother) ((propertyOf_eq_iff hnaming).mp hsame)
  rw [heq]
  exact BlockSource.nodup_properties hsep fun path hpath =>
    honce tokens hwritten path ((VariableUsage.isUsed_iff husage).mp hpath)

/-- The properties are not renamed. -/
def unrenamed : Localizer := ⟨none, none, ""⟩

/-- An authority with a token in a group and one beside it, and a theme that
    changes the one in the group. -/
def palette : ResolvedConfig where
  toList := [("default", ⟨(TokenMap.empty.insertMap "colors"
      (TokenMap.empty.insertText "ink" "black")).insertText "colors-gap" "1px", .empty⟩),
    ("mint", ⟨TokenMap.empty.insertMap "colors" (TokenMap.empty.insertText "ink" "teal"), .empty⟩)]
  nodup := by decide +kernel

/-- Both tokens are referenced. -/
def framed : Stylesheet := ⟨[.rule { selector := ".a", declarations := [
  { property := "border", value := "@theme colors-gap solid @theme colors.ink" }] }]⟩

/-- The authority's names are not alike, and those of the merged tokens are no
    others. -/
theorem palette_separated : ∃ out warnings blocks fallback,
    apply palette { singleTheme := some "mint", inline := false } unrenamed framed
        = .ok (out, warnings)
      ∧ out = (writtenSheet (propertyOf unrenamed) fallback framed).appendRules blocks
      ∧ propertyOf unrenamed ⟨"colors.ink"⟩ ≠ propertyOf unrenamed ⟨"colors-gap"⟩
      ∧ ∀ b ∈ blocks, (b.declarations.map Declaration.property).Nodup := by
  have hok : (apply palette { singleTheme := some "mint", inline := false } unrenamed framed
      ).toOption.isSome = true := by
    decide +kernel
  obtain ⟨⟨out, warnings⟩, happly⟩ := Outcome.exists_ok_of_isSome hok
  have hpaths : ∀ path, framed.Referenced path → path ∈ [⟨"colors-gap"⟩, ⟨"colors.ink"⟩] := by
    intro path href
    exact VariableUsage.mem_paths_of_referenced (by decide +kernel) href
  have hapart : framed.PathsApart := by
    have hall : ∀ path ∈ [⟨"colors-gap"⟩, ⟨"colors.ink"⟩],
        ∀ other ∈ [(⟨"colors-gap"⟩ : TokenPath), ⟨"colors.ink"⟩],
          path.Alike other → path = other := by
      decide +kernel
    intro path other hpath hother
    exact hall path (hpaths path hpath) other (hpaths other hother)
  have hkeys : ∀ name theme, palette.get? name = some theme →
      ∀ scheme, (theme.scheme scheme).PlainKeys := by
    have hgroup : ∀ text, (TokenMap.empty.insertMap "colors"
        (TokenMap.empty.insertText "ink" text)).PlainKeys := by
      intro text
      exact TokenMap.PlainKeys.empty.insertMap (by decide) (.insertText .empty (by decide) text)
    intro name theme hget scheme
    rcases List.mem_pair.mp (Entries.mem_toList_iff.mpr hget) with heq | heq
    · obtain ⟨-, rfl⟩ := Prod.mk.inj heq
      cases scheme with
      | light => exact (hgroup "black").insertText (by decide) "1px"
      | dark => exact .empty
    · obtain ⟨-, rfl⟩ := Prod.mk.inj heq
      cases scheme with
      | light => exact hgroup "teal"
      | dark => exact .empty
  obtain ⟨blocks, fallback, hwritten, hnames, hnodup⟩ :=
    apply_separates happly rfl (by decide +kernel)
  refine ⟨out, warnings, blocks, fallback, happly, hwritten, ?_,
    hnodup hapart fun tokens htokens path _ => htokens.once hkeys path⟩
  rw [ne_eq, hnames _ _ (VariableUsage.referenced_of_counted (by decide +kernel))
    (VariableUsage.referenced_of_counted (by decide +kernel))]
  decide +kernel

/-- A token in a group, and one with a dash in its name. -/
def confusable : ResolvedConfig where
  toList := [("default", ⟨(TokenMap.empty.insertMap "a" (TokenMap.empty.insertText "b" "red")
    ).insertText "a-b" "teal", .empty⟩)]
  nodup := by decide +kernel

/-- Both are referenced. -/
def confused : Stylesheet := ⟨[.rule { selector := ".x", declarations := [
  { property := "color", value := "@theme a.b" },
  { property := "background", value := "@theme a-b" }] }]⟩

/-- Different paths do not suffice, since a dot is written as a dash. -/
theorem apply_separates_fails :
    ¬ (∀ (config : ResolvedConfig) (options : OutputOptions) (localizer : Localizer)
        (sheet out : Stylesheet) (warnings : List Warning),
        apply config options localizer sheet = .ok (out, warnings) →
        localizer.naming = none →
        isLiteral options (singleTheme config options (authorityOf config options)) = false →
          ∃ (blocks : List Rule) (fallback : TokenPath → Option String),
            out = (writtenSheet (propertyOf localizer) fallback sheet).appendRules blocks
              ∧ (∀ path other, sheet.Referenced path → sheet.Referenced other → path ≠ other →
                  propertyOf localizer path ≠ propertyOf localizer other)
              ∧ ∀ b ∈ blocks, (b.declarations.map Declaration.property).Nodup) := by
  intro h
  have hok : (apply confusable { inline := false } unrenamed confused).toOption.isSome = true := by
    decide +kernel
  obtain ⟨⟨out, warnings⟩, happly⟩ := Outcome.exists_ok_of_isSome hok
  obtain ⟨-, -, -, hnames, -⟩ := h _ _ _ _ _ _ happly rfl (by decide +kernel)
  have hdot : confused.Referenced ⟨"a.b"⟩ :=
    VariableUsage.referenced_of_counted (by decide +kernel)
  have hdash : confused.Referenced ⟨"a-b"⟩ :=
    VariableUsage.referenced_of_counted (by decide +kernel)
  exact hnames _ _ hdot hdash (by decide) (by decide +kernel)

/-- A token in a group, and one with a dot in its name. -/
def ambiguous : ResolvedConfig where
  toList := [("default", ⟨(TokenMap.empty.insertMap "a" (TokenMap.empty.insertText "b" "red")
    ).insertText "a.b" "teal", .empty⟩)]
  nodup := by decide +kernel

/-- There is only one path, and two tokens have it. -/
example : (VariableUsage.analyze ⟨[.rule { selector := ".x", declarations := [
      { property := "color", value := "@theme a.b" }] }]⟩).toOption.map (fun usage =>
        (blocks ambiguous { inline := false } unrenamed usage).map fun b =>
          b.declarations.map Declaration.property)
    = some [["--a-b", "--a-b"]] := by
  decide +kernel

end Modern

end ThemeTokens
