import ThemeTokens.Proofs.Modern.Output
import ThemeTokens.Proofs.Modern.Plan
import ThemeTokens.Proofs.Reference.Leftover
import ThemeTokens.Proofs.Stylesheet
import ThemeTokens.Proofs.Token.Layers

/-! # References left in modern output

    Values come to the output on three routes.  What is written for a reference
    is looked at once more, be it a value or a fallback, and what no reference
    is found in is kept as it is.  The third route goes past all checks: the
    blocks declare token texts as they are configured.  So no reference is left
    in the author's part, and one in the blocks is the text of a token
    (`apply_referenceFree`); nothing rules that out
    (`apply_referenceFree_fails`). -/

namespace ThemeTokens.Modern

/-! ## The author's part -/

namespace Replacement

variable {put : Replacement}

/-- A declaration that is kept has no reference, on either route. -/
theorem referenceFree_of_declaration {d out : Declaration}
    (h : put.declaration d = .ok (.kept out)) : ReferenceFree out.value := by
  rw [declaration] at h
  by_cases hm : mentionsTheme d.value = true
  · rw [if_pos hm, Outcome.located_eq_ok] at h
    obtain ⟨value, hparse, h⟩ := Outcome.bind_eq_ok.mp h
    by_cases hr : value.hasReferences = true
    · rw [if_pos hr] at h
      obtain ⟨outcome, hsub, h⟩ := Outcome.bind_eq_ok.mp h
      cases outcome with
      | text text =>
          rw [← Replaced.kept.inj (Except.ok.inj h)]
          exact referenceFree_of_substitute hsub
      | dropped missing => cases h
    · rw [if_neg hr] at h
      rw [← Replaced.kept.inj (Except.ok.inj h)]
      exact ⟨value, hparse, Bool.eq_false_iff.mpr hr⟩
  · rw [if_neg hm] at h
    rw [← Replaced.kept.inj (Except.ok.inj h)]
    exact referenceFree_of_not_mentions (Bool.eq_false_iff.mpr hm)

theorem referenceFree_of_declarations {ds out : List Declaration}
    (h : put.declarations ds = .ok out) : ∀ d ∈ out, ReferenceFree d.value := by
  induction ds generalizing out with
  | nil =>
      rw [← Except.ok.inj h]
      exact List.forall_mem_nil _
  | cons d ds ih =>
      obtain ⟨replaced, hd, h⟩ := Outcome.bind_eq_ok.mp h
      cases replaced with
      | kept kept =>
          obtain ⟨rest, hrest, h⟩ := Outcome.bind_eq_ok.mp h
          rw [← Except.ok.inj h]
          exact List.forall_mem_cons.mpr ⟨referenceFree_of_declaration hd, ih hrest⟩
      | removed warning => exact ih h

/-- No declaration of the author is left with a reference. -/
theorem referenceFree_of_sheet {sheet out : Stylesheet} (h : put.sheet sheet = .ok out) :
    ∀ d ∈ out.declarations, ReferenceFree d.value := by
  refine Stylesheet.mapM_leaves (fun r out hr => ?_)
    (fun _ _ hds => referenceFree_of_declarations hds) h
  obtain ⟨ds, hds, hr⟩ := Outcome.bind_eq_ok.mp hr
  rw [← Except.ok.inj hr]
  exact referenceFree_of_declarations hds

end Replacement

/-! ## The blocks -/

/-- The text of a token of some configured theme. -/
def IsTokenText (config : ResolvedConfig) (text : String) : Prop :=
  ∃ name theme scheme, config.get? name = some theme
    ∧ ∃ path, (path, text) ∈ (theme.scheme scheme).flatten

/-- A text of merged tokens is one of the tokens that were merged. -/
theorem exists_mem_flatten_merge {lower upper : TokenMap} {text : String}
    (h : ∃ path, (path, text) ∈ (lower.merge upper).flatten) :
    (∃ path, (path, text) ∈ upper.flatten) ∨ ∃ path, (path, text) ∈ lower.flatten := by
  rcases TokenValue.holds_mergeEntries _ ((TokenValue.exists_mem_leavesOf_iff _ "").mp h) with
    hupper | hlower
  · exact Or.inl ((TokenValue.exists_mem_leavesOf_iff _ "").mpr hupper)
  · exact Or.inr ((TokenValue.exists_mem_leavesOf_iff _ "").mpr hlower)

section Blocks

variable {config : ResolvedConfig} {options : OutputOptions} {localizer : Localizer}
  {usage : VariableUsage}

/-- The texts of the authority are texts of tokens. -/
theorem isTokenText_of_authority {scheme : ColorScheme} {text : String}
    (h : ∃ path, (path, text) ∈ ((authorityOf config options).scheme scheme).flatten) :
    IsTokenText config text := by
  rw [authorityOf] at h
  cases hget : config.get? options.defaultTheme with
  | some theme =>
      rw [hget] at h
      exact ⟨_, theme, scheme, hget, h⟩
  | none =>
      rw [hget] at h
      obtain ⟨path, hmem⟩ := h
      cases scheme with
      | light => cases hmem
      | dark => cases hmem

/-- Completing a theme adds no texts but the authority's. -/
theorem isTokenText_of_completed {name : String} {scheme : ColorScheme} {text : String}
    (h : ∃ path, (path, text) ∈ ((completed config options name).scheme scheme).flatten) :
    IsTokenText config text := by
  rw [completed] at h
  cases hget : config.get? name with
  | none =>
      rw [hget] at h
      exact isTokenText_of_authority h
  | some theme =>
      rw [hget] at h
      dsimp only at h
      rw [LightDarkTheme.scheme_mergedOver] at h
      rcases exists_mem_flatten_merge h with hown | hauthority
      · exact ⟨name, theme, scheme, hget, hown⟩
      · exact isTokenText_of_authority hauthority

namespace BlockSource

variable {source : BlockSource}

/-- A block declares texts of its tokens. -/
theorem mem_flatten_of_declarations {tokens : TokenMap} {keep : TokenPath → String → Bool} :
    ∀ d ∈ source.declarations tokens keep, ∃ path, (path, d.value) ∈ tokens.flatten := by
  intro d hd
  obtain ⟨⟨path, value⟩, hmem, rfl⟩ := List.mem_map.mp hd
  exact ⟨path, (List.mem_filter.mp hmem).1⟩

end BlockSource

/-- What the blocks declare are texts of configured tokens. -/
theorem isTokenText_of_blocks {b : Rule} (h : b ∈ blocks config options localizer usage) :
    ∀ d ∈ b.declarations, IsTokenText config d.value := by
  intro d hd
  cases hsingle : options.singleTheme with
  | none =>
      rw [blocks_eq_themes hsingle] at h
      obtain ⟨name, theme, scheme, keep, hget, heq⟩ := BlockSource.exists_scheme_of_themes h
      rw [heq] at hd
      exact ⟨name, theme, scheme, hget, BlockSource.mem_flatten_of_declarations d hd⟩
  | some name =>
      rw [blocks_eq_single hsingle] at h
      obtain ⟨scheme, keep, heq⟩ := BlockSource.exists_scheme_of_single h
      rw [heq] at hd
      exact isTokenText_of_completed (BlockSource.mem_flatten_of_declarations d hd)

end Blocks

/-! ## Main result -/

/-- **REFERENCES LEFT**: modern output has none in the author's part, and its
    blocks declare nothing but texts of configured tokens.  If there is no
    reference in those there is none in the output. -/
theorem apply_referenceFree {config : ResolvedConfig} {options : OutputOptions}
    {localizer : Localizer} {sheet out : Stylesheet} {warnings : List Warning}
    (h : apply config options localizer sheet = .ok (out, warnings)) :
    ∃ usage author, VariableUsage.analyze sheet = .ok usage
      ∧ (replacement config options localizer usage).sheet sheet = .ok author
      ∧ out = author.appendRules (blocks config options localizer usage)
      ∧ (∀ d ∈ author.declarations, ReferenceFree d.value)
      ∧ (∀ b ∈ blocks config options localizer usage, ∀ d ∈ b.declarations,
          IsTokenText config d.value)
      ∧ ((∀ text, IsTokenText config text → ReferenceFree text) →
          ∀ d ∈ out.declarations, ReferenceFree d.value) := by
  obtain ⟨usage, author, husage, hauthor, rfl, -⟩ := apply_eq_ok.mp h
  have hfree := Replacement.referenceFree_of_sheet hauthor
  have htexts : ∀ b ∈ blocks config options localizer usage, ∀ d ∈ b.declarations,
      IsTokenText config d.value := fun b hb => isTokenText_of_blocks hb
  refine ⟨usage, author, husage, hauthor, rfl, hfree, htexts, fun htokens d hd => ?_⟩
  rw [Stylesheet.declarations_appendRules] at hd
  rcases List.mem_append.mp hd with hd | hd
  · exact hfree d hd
  · obtain ⟨b, hb, hd⟩ := List.mem_flatMap.mp hd
    exact htokens d.value (htexts b hb d hd)

/-- One reference. -/
def tinted : Stylesheet := ⟨[.rule { selector := ".a", declarations := [
  { property := "color", value := "@theme color" }] }]⟩

/-- An authority and a theme with plain values. -/
def orchard : ResolvedConfig := .ofList
  [("default", ⟨(TokenMap.empty.insertText "color" "red").insertText "gap" "1px", .empty⟩),
   ("mint", ⟨TokenMap.empty.insertText "color" "teal", .empty⟩)]

/-- One theme, with its values in a block. -/
def mintOnly : OutputOptions := { singleTheme := some "mint", inline := false }

theorem orchard_referenceFree : ∃ out warnings,
    apply orchard mintOnly ⟨none, none, ""⟩ tinted = .ok (out, warnings)
      ∧ out.declarations.map Declaration.value = ["var(--color)", "teal"]
      ∧ ∀ d ∈ out.declarations, ReferenceFree d.value := by
  have hvalues : (apply orchard mintOnly ⟨none, none, ""⟩ tinted).toOption.map
      (fun result => result.1.declarations.map Declaration.value)
      = some ["var(--color)", "teal"] := by
    decide +kernel
  obtain ⟨⟨out, warnings⟩, happly, hvalues⟩ := Outcome.exists_ok_of_map hvalues
  have hplain : ∀ entry ∈ orchard.toList, ∀ scheme ∈ ColorScheme.all,
      ∀ leaf ∈ (entry.2.scheme scheme).flatten, mentionsTheme leaf.2 = false := by
    decide +kernel
  have htexts : ∀ text, IsTokenText orchard text → ReferenceFree text := by
    rintro text ⟨name, theme, scheme, hget, path, hmem⟩
    have hscheme : scheme ∈ ColorScheme.all := by
      cases scheme with
      | light => exact List.mem_cons_self
      | dark => exact List.mem_cons_of_mem _ List.mem_cons_self
    exact referenceFree_of_not_mentions
      (hplain _ (Entries.mem_toList_iff.mpr hget) scheme hscheme _ hmem)
  obtain ⟨usage, author, -, -, -, -, -, hfree⟩ := apply_referenceFree happly
  exact ⟨out, warnings, happly, hvalues, hfree htexts⟩

/-- An authority whose only token has the text of a reference. -/
def mirrored : ResolvedConfig := .ofList
  [("default", ⟨TokenMap.empty.insertText "color" "@theme ink", .empty⟩)]

/-- Success alone does not keep references out of the output: what is configured
    as `@theme ink` is declared as such. -/
theorem apply_referenceFree_fails :
    ¬ (∀ (config : ResolvedConfig) (options : OutputOptions) (localizer : Localizer)
        (sheet out : Stylesheet) (warnings : List Warning),
        apply config options localizer sheet = .ok (out, warnings) →
          ∀ d ∈ out.declarations, ReferenceFree d.value) := by
  intro h
  have hvalues : (apply mirrored { inline := false } ⟨none, none, ""⟩ tinted).toOption.map
      (fun result => result.1.declarations.map Declaration.value)
      = some ["var(--color)", "@theme ink"] := by
    decide +kernel
  obtain ⟨⟨out, warnings⟩, happly, hvalues⟩ := Outcome.exists_ok_of_map hvalues
  have hmem : "@theme ink" ∈ out.declarations.map Declaration.value := by
    rw [hvalues]
    exact List.mem_cons_of_mem _ List.mem_cons_self
  obtain ⟨d, hd, hvalue⟩ := List.mem_map.mp hmem
  have hfree := h _ _ _ _ _ _ happly d hd
  rw [hvalue] at hfree
  have hleft : hasLeftover "@theme ink" = true := by decide +kernel
  cases hleft.symm.trans (hasLeftover_eq_false_iff.mpr hfree)

end ThemeTokens.Modern
