import ThemeTokens.Token.Merge
import ThemeTokens.Token.Same

/-! # Themes, stage by stage

    A configuration is read as `RawConfig`, one token map a theme.  Normalized
    it is a `ThemeConfig`: each theme has light and dark tokens, and a parent
    for the whole theme and for each scheme.  Resolved it is a
    `ResolvedConfig`: the parents are applied and each theme has the tokens
    that are in effect. -/

namespace ThemeTokens

/-- The two schemes of a theme. -/
inductive ColorScheme where
  | light
  | dark
  deriving DecidableEq, Inhabited, Repr

/-- Both schemes, light first. -/
def ColorScheme.all : List ColorScheme := [.light, .dark]

/-- Themes as written. -/
abbrev RawConfig := Entries TokenMap

/-- The tokens of one scheme, and the theme whose same scheme they extend. -/
@[ext] structure SchemeTokens where
  parent : Option String := none
  tokens : TokenMap := .empty

/-- A theme with its parents; the theme's own parent is one for both schemes. -/
@[ext] structure ThemeDefinition where
  parent : Option String := none
  light : SchemeTokens := {}
  dark : SchemeTokens := {}

namespace ThemeDefinition

/-- The tokens of a scheme. -/
def scheme (theme : ThemeDefinition) : ColorScheme → SchemeTokens
  | .light => theme.light
  | .dark => theme.dark

/-- The parent at the level of the theme, or of one of its schemes. -/
def parentAt (theme : ThemeDefinition) : Option ColorScheme → Option String
  | none => theme.parent
  | some s => (theme.scheme s).parent

/-- Whether two themes have the same parents and tokens, whatever the order. -/
def same (theme other : ThemeDefinition) : Bool :=
  theme.parent == other.parent && theme.light.parent == other.light.parent
    && theme.dark.parent == other.dark.parent
    && theme.light.tokens.same other.light.tokens
    && theme.dark.tokens.same other.dark.tokens

end ThemeDefinition

/-- Normalized themes. -/
abbrev ThemeConfig := Entries ThemeDefinition

/-- The tokens of a theme that are in effect in each scheme. -/
@[ext] structure LightDarkTheme where
  light : TokenMap
  dark : TokenMap

namespace LightDarkTheme

/-- The theme without tokens. -/
def empty : LightDarkTheme := ⟨.empty, .empty⟩

/-- The tokens of a scheme. -/
def scheme (theme : LightDarkTheme) : ColorScheme → TokenMap
  | .light => theme.light
  | .dark => theme.dark

/-- A theme has a dark mode when both its schemes have tokens. -/
def hasDarkMode (theme : LightDarkTheme) : Bool :=
  !theme.light.isEmpty && !theme.dark.isEmpty

/-- The theme merged over another, scheme by scheme. -/
def mergedOver (theme base : LightDarkTheme) : LightDarkTheme :=
  ⟨base.light.merge theme.light, base.dark.merge theme.dark⟩

end LightDarkTheme

/-- Themes with every parent applied. -/
abbrev ResolvedConfig := Entries LightDarkTheme

end ThemeTokens
