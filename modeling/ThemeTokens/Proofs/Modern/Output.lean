import ThemeTokens.Modern.Apply
import ThemeTokens.Proofs.Outcome
import ThemeTokens.Proofs.Token.Merge

/-! # What modern output is made of

    Modern output has two parts, the author's rules with their references
    replaced and behind them the blocks (`apply_eq_ok`).  Both parts have their
    values from the same place.  With a single theme that is the theme completed
    with the authority's tokens; without one the references have theirs from the
    authority and every theme has blocks. -/

namespace ThemeTokens

theorem LightDarkTheme.mergedOver_self (theme : LightDarkTheme) :
    theme.mergedOver theme = theme :=
  LightDarkTheme.ext (TokenMap.merge_self theme.light) (TokenMap.merge_self theme.dark)

theorem LightDarkTheme.scheme_mergedOver (theme base : LightDarkTheme) (scheme : ColorScheme) :
    (theme.mergedOver base).scheme scheme = (base.scheme scheme).merge (theme.scheme scheme) := by
  cases scheme with
  | light => rfl
  | dark => rfl

/-- The named theme over the authority, or the authority itself where no theme
    of that name is configured. -/
def completed (config : ResolvedConfig) (options : OutputOptions) (name : String) :
    LightDarkTheme :=
  match config.get? name with
  | some theme => theme.mergedOver (Modern.authorityOf config options)
  | none => Modern.authorityOf config options

namespace Modern

section Single

variable {config : ResolvedConfig} {options : OutputOptions} {name : String}
  (hsingle : options.singleTheme = some name)

include hsingle

/-- The modern output does not merge the authority over itself; that would
    change nothing. -/
theorem singleTheme_eq_completed :
    singleTheme config options (authorityOf config options)
      = some (completed config options name) := by
  rw [singleTheme, hsingle, completed]
  cases hget : config.get? name with
  | none =>
      dsimp only [Option.map_some]
      rw [hget]
  | some theme =>
      dsimp only [Option.map_some]
      rw [hget]
      by_cases hname : name = options.defaultTheme
      · have hauthority : authorityOf config options = theme := by
          rw [authorityOf, ← hname, hget]
          rfl
        dsimp only
        rw [if_pos hname, hauthority, LightDarkTheme.mergedOver_self]
      · dsimp only
        rw [if_neg hname]

/-- What is written for references is the theme's. -/
theorem values_eq_completed (localizer : Localizer) (usage : VariableUsage) :
    (replacement config options localizer usage).values = completed config options name := by
  show (singleTheme config options (authorityOf config options)).getD _ = _
  rw [singleTheme_eq_completed hsingle]
  rfl

/-- Blocks are written for the theme only. -/
theorem blocks_eq_single (localizer : Localizer) (usage : VariableUsage) :
    blocks config options localizer usage
      = (blockSource config options localizer usage).single (completed config options name)
          options.optimize := by
  have hsource : singleTheme config options (blockSource config options localizer usage).authority
      = some (completed config options name) := singleTheme_eq_completed hsingle
  rw [blocks, hsource]

end Single

section All

variable {config : ResolvedConfig} {options : OutputOptions} (hsingle : options.singleTheme = none)

include hsingle

theorem singleTheme_eq_none (authority : LightDarkTheme) :
    singleTheme config options authority = none := by
  rw [singleTheme, hsingle]
  rfl

/-- Values are written in place of custom properties for a single theme only. -/
theorem literal_eq_false (localizer : Localizer) (usage : VariableUsage) :
    (replacement config options localizer usage).literal = false := by
  show isLiteral options (singleTheme config options (authorityOf config options)) = false
  rw [singleTheme_eq_none hsingle]
  exact Bool.and_false _

/-- Without a single theme blocks are written for all. -/
theorem blocks_eq_themes (localizer : Localizer) (usage : VariableUsage) :
    blocks config options localizer usage
      = (blockSource config options localizer usage).themes := by
  rw [blocks, singleTheme_eq_none hsingle]

end All

/-- **TWO PARTS**: a stylesheet is written when its references are counted and
    replaced, and then the blocks for what was counted follow. -/
theorem apply_eq_ok {config : ResolvedConfig} {options : OutputOptions} {localizer : Localizer}
    {sheet out : Stylesheet} {warnings : List Warning} :
    apply config options localizer sheet = .ok (out, warnings)
      ↔ ∃ usage author, VariableUsage.analyze sheet = .ok usage
          ∧ (replacement config options localizer usage).sheet sheet = .ok author
          ∧ out = author.appendRules (blocks config options localizer usage)
          ∧ warnings = (replacement config options localizer usage).warnings sheet := by
  constructor
  · intro h
    obtain ⟨usage, husage, h⟩ := Outcome.bind_eq_ok.mp h
    obtain ⟨author, hauthor, h⟩ := Outcome.bind_eq_ok.mp h
    obtain ⟨hout, hwarnings⟩ := Prod.mk.inj (Except.ok.inj h)
    exact ⟨usage, author, husage, hauthor, hout.symm, hwarnings.symm⟩
  · rintro ⟨usage, author, husage, hauthor, rfl, rfl⟩
    exact Outcome.bind_eq_ok.mpr ⟨usage, husage, Outcome.bind_eq_ok.mpr ⟨author, hauthor, rfl⟩⟩

end Modern

end ThemeTokens
