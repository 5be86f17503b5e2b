import ThemeTokens.Config.Theme
import ThemeTokens.Options
import ThemeTokens.ScopedName
import ThemeTokens.Token.Flatten
import ThemeTokens.Token.Lookup
import ThemeTokens.Reference.Usage

/-! # Blocks of custom properties

    The authority's values are declared on `:root`, and its dark ones under the
    dark class.  Every other theme declares what differs from the authority,
    under its own class; its two schemes are told apart by a second class as
    soon as the theme or the authority has a dark mode.  Only tokens that the
    stylesheet uses are declared, and blocks with the same declarations become
    one, at the place of the first. -/

namespace ThemeTokens.Modern

/-- What blocks are made from. -/
structure BlockSource where
  config : ResolvedConfig
  defaultTheme : String
  authority : LightDarkTheme
  usage : VariableUsage
  localizer : Localizer
  inline : Bool
  lightClass : String
  darkClass : String

/-- Whether two rules have the same properties with the same values. -/
def sameDeclarations : List Declaration → List Declaration → Bool
  | [], [] => true
  | d :: ds, e :: es =>
      d.property == e.property && d.value == e.value && sameDeclarations ds es
  | _, _ => false

/-- A block added to others: joined to the first with the same declarations,
    or put at the end. -/
def addBlock (block : Rule) : List Rule → List Rule
  | [] => [block]
  | b :: bs =>
      if sameDeclarations b.declarations block.declarations then
        { b with selector := b.selector ++ ", " ++ block.selector } :: bs
      else b :: addBlock block bs

/-- Blocks with the same declarations joined at the place of the first. -/
def mergeIdentical (blocks : List Rule) : List Rule :=
  blocks.foldl (fun merged block => addBlock block merged) []

namespace BlockSource

/-- Whether `:root` declares a token; one that is used once has its value
    where it is used. -/
def needsRoot (source : BlockSource) (path : TokenPath) : Bool :=
  !(source.inline && source.usage.count path == 1)

/-- The declaration of a token. -/
def declare (source : BlockSource) (path : TokenPath) (value : String) :
    Declaration :=
  { property := "--" ++ source.localizer.localize path.variableName, value }

/-- The declarations of the used tokens that `keep` lets pass. -/
def declarations (source : BlockSource) (tokens : TokenMap)
    (keep : TokenPath → String → Bool) : List Declaration :=
  (tokens.flatten.filter fun (path, value) =>
    source.usage.isUsed path && keep path value).map fun (path, value) =>
      source.declare path value

/-- A block, unless nothing is declared in it. -/
def block? (source : BlockSource) (selector : String) (tokens : TokenMap)
    (keep : TokenPath → String → Bool) : Option Rule :=
  let declarations := source.declarations tokens keep
  if declarations.isEmpty then none else some { selector, declarations }

/-- The blocks of the theme that others are compared with. -/
def rootBlocks (source : BlockSource) (theme : LightDarkTheme) :
    List (Option Rule) :=
  [source.block? ":root" theme.light fun path _ => source.needsRoot path,
   source.block? ("." ++ source.darkClass) theme.dark fun _ _ => true]

/-- Whether a light value differs from the authority's. -/
def differsLight (source : BlockSource) (path : TokenPath) (value : String) : Bool :=
  source.authority.light.value? path != some value

/-- Whether a dark value differs from the authority's, the light one standing
    in for a dark one that is missing. -/
def differsDark (source : BlockSource) (path : TokenPath) (value : String) : Bool :=
  ((source.authority.dark.value? path).or (source.authority.light.value? path))
    != some value

/-- The blocks of a theme that is not the authority. -/
def overrideBlocks (source : BlockSource) (name : String) (theme : LightDarkTheme) :
    List (Option Rule) :=
  if !theme.hasDarkMode && !source.authority.hasDarkMode then
    [source.block? ("." ++ name) theme.light source.differsLight]
  else
    [source.block? ("." ++ name ++ "." ++ source.lightClass) theme.light
      source.differsLight,
     source.block? ("." ++ name ++ "." ++ source.darkClass) theme.dark
      source.differsDark]

/-- The blocks of a configured theme. -/
def themeBlocks (source : BlockSource) (name : String) (theme : LightDarkTheme) :
    List Rule :=
  (if name = source.defaultTheme then source.rootBlocks theme
    else source.overrideBlocks name theme).filterMap id

/-- The blocks of all themes, in order. -/
def themes (source : BlockSource) : List Rule :=
  mergeIdentical
    (source.config.toList.flatMap fun (name, theme) => source.themeBlocks name theme)

/-- The blocks of a single theme that is merged over the authority. -/
def single (source : BlockSource) (theme : LightDarkTheme) (optimize : Bool) :
    List Rule :=
  if theme.hasDarkMode then (source.rootBlocks theme).filterMap id
  else if optimize then []
  else
    (source.block? ":root" theme.light fun path _ => source.needsRoot path).toList

end BlockSource

end ThemeTokens.Modern
