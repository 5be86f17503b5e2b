import ThemeTokens.Modern.Blocks
import ThemeTokens.Modern.Replacement

/-! # Modern output

    A stylesheet for targets that know custom properties: the references are
    replaced and the blocks of the themes follow the author's rules. -/

namespace ThemeTokens.Modern

/-- The theme with which a single theme is written: completed with the
    authority's tokens, or the authority itself if no other is configured. -/
def singleTheme (config : ResolvedConfig) (options : OutputOptions)
    (authority : LightDarkTheme) : Option LightDarkTheme :=
  options.singleTheme.map fun name =>
    match config.get? name with
    | some theme =>
        if name = options.defaultTheme then authority else theme.mergedOver authority
    | none => authority

/-- The authority theme; without tokens if it is not configured. -/
def authorityOf (config : ResolvedConfig) (options : OutputOptions) :
    LightDarkTheme :=
  (config.get? options.defaultTheme).getD .empty

/-- Whether values are written in place of custom properties. -/
def isLiteral (options : OutputOptions) (single : Option LightDarkTheme) : Bool :=
  options.optimize && single.any fun theme => !theme.hasDarkMode

/-- Whether values are written as fallbacks. -/
def isInline (options : OutputOptions) (single : Option LightDarkTheme) : Bool :=
  options.inline && !(single.isSome && options.optimize)

/-- What takes the place of the references of a stylesheet. -/
def replacement (config : ResolvedConfig) (options : OutputOptions)
    (localizer : Localizer) (usage : VariableUsage) : Replacement :=
  let authority := authorityOf config options
  let single := singleTheme config options authority
  { authority, values := single.getD authority, usage, localizer,
    literal := isLiteral options single, inline := isInline options single }

/-- What the blocks for a stylesheet are made from. -/
def blockSource (config : ResolvedConfig) (options : OutputOptions)
    (localizer : Localizer) (usage : VariableUsage) : BlockSource :=
  let authority := authorityOf config options
  let single := singleTheme config options authority
  { config, defaultTheme := options.defaultTheme, authority, usage, localizer,
    inline := isInline options single, lightClass := options.lightClass,
    darkClass := options.darkClass }

/-- The blocks that follow the author's rules. -/
def blocks (config : ResolvedConfig) (options : OutputOptions)
    (localizer : Localizer) (usage : VariableUsage) : List Rule :=
  let source := blockSource config options localizer usage
  match singleTheme config options source.authority with
  | some theme => source.single theme options.optimize
  | none => source.themes

/-- The stylesheet for modern targets, with the warnings. -/
def apply (config : ResolvedConfig) (options : OutputOptions) (localizer : Localizer)
    (sheet : Stylesheet) : Except ThemeError (Stylesheet × List Warning) := do
  let usage ← VariableUsage.analyze sheet
  let put := replacement config options localizer usage
  let replaced ← put.sheet sheet
  return (replaced.appendRules (blocks config options localizer usage),
    put.warnings sheet)

end ThemeTokens.Modern
