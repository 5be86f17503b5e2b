import ThemeTokens.Config.Theme
import ThemeTokens.Options
import ThemeTokens.Reference.Substitute
import ThemeTokens.Selector
import ThemeTokens.Stylesheet.Basic
import ThemeTokens.Token.Lookup

/-! # Legacy output

    A stylesheet for targets that do not know custom properties.  References
    become values of the base theme; every other theme and scheme gets a copy
    of each rule that holds only the declarations with references, under the
    theme's class.  The copies follow the rules of the same container. -/

namespace ThemeTokens.Legacy

/-- What the output is made from. -/
structure Source where
  config : ResolvedConfig
  options : OutputOptions
  /-- The authority, if it is configured. -/
  authority : Option LightDarkTheme
  /-- The theme whose values go into the author's rules. -/
  base : Option LightDarkTheme
  baseName : String

/-- A declaration with references, as written and as read. -/
structure Referring where
  declaration : Declaration
  value : ParsedValue

namespace Source

/-- The source for a configuration and options.  A single theme is completed
    with the authority's tokens. -/
def of (config : ResolvedConfig) (options : OutputOptions) : Source :=
  let authority := config.get? options.defaultTheme
  let single := options.singleTheme.bind fun name => config.get? name
  { config, options, authority
    base := match single, authority with
      | some theme, some authority => some (theme.mergedOver authority)
      | some theme, none => some theme
      | none, authority => authority
    baseName := match single with
      | some _ => options.singleTheme.getD options.defaultTheme
      | none => options.defaultTheme }

/-- The value for a reference in a scheme of a theme.  If it is missing and the
    declaration has several references, the authority's value stands in; if
    there is none the declaration is dropped. -/
def resolve (source : Source) (theme : Option LightDarkTheme) (name : String)
    (scheme : ColorScheme) (several : Bool) (r : Reference) :
    Except ThemeError (Option String) :=
  match theme with
  | none => .error (.missingThemeKey name r.path.text none)
  | some theme =>
      match (theme.scheme scheme).lookup r.path with
      | .value value => .ok (some value)
      | .group => .error (.notAValue r.path.text none)
      | .missing =>
          if several then
            .ok (source.authority.bind fun a => (a.scheme scheme).value? r.path)
          else .ok none

/-- A declaration with the values of a scheme of a theme, unless dropped. -/
def substitute (source : Source) (theme : Option LightDarkTheme) (name : String)
    (scheme : ColorScheme) (item : Referring) :
    Except ThemeError (Option Declaration) :=
  located item.declaration.location do
    let several := decide (1 < item.value.referenceCount)
    match ← item.value.substitute (source.resolve theme name scheme several) with
    | .text value => return some { item.declaration with value }
    | .dropped _ => return none

/-- A declaration read, if it has references. -/
def referring? (d : Declaration) : Except ThemeError (Option Referring) :=
  if mentionsTheme d.value then do
    let value ← located d.location (ParsedValue.parse d.value)
    return if value.hasReferences then some ⟨d, value⟩ else none
  else return none

/-- Declarations with the base theme's values, and those that had references
    as they were. -/
def baseDeclarations (source : Source) :
    List Declaration → Except ThemeError (List Declaration × List Referring)
  | [] => .ok ([], [])
  | d :: ds => do
      match ← referring? d with
      | none =>
          let (kept, referring) ← source.baseDeclarations ds
          return (d :: kept, referring)
      | some item =>
          let value ← source.substitute source.base source.baseName .light item
          let (kept, referring) ← source.baseDeclarations ds
          return (value.toList ++ kept, item :: referring)

/-- The class selector of a scheme of a theme. -/
def className (source : Source) (name : String) : ColorScheme → String
  | .light => "." ++ name
  | .dark =>
      if name = source.options.defaultTheme then "." ++ source.options.darkClass
      else "." ++ name ++ "." ++ source.options.darkClass

/-- The schemes of themes that get overrides, in order: all that have tokens,
    but for the authority's light one. -/
def variants (source : Source) : List (String × LightDarkTheme × ColorScheme) :=
  source.config.toList.flatMap fun (name, theme) =>
    (ColorScheme.all.filter fun scheme =>
      !(name == source.options.defaultTheme && scheme == .light)
        && !(theme.scheme scheme).isEmpty).map fun scheme => (name, theme, scheme)

/-- The declarations of an override that are not dropped. -/
def overrideDeclarations (source : Source) (theme : LightDarkTheme) (name : String)
    (scheme : ColorScheme) : List Referring → Except ThemeError (List Declaration)
  | [] => .ok []
  | item :: items => do
      let value ← source.substitute (some theme) name scheme item
      let rest ← source.overrideDeclarations theme name scheme items
      return value.toList ++ rest

/-- The overrides of a rule for the given schemes of themes. -/
def overrides (source : Source) (selector : String) (location : Location)
    (items : List Referring) :
    List (String × LightDarkTheme × ColorScheme) → Except ThemeError (List Rule)
  | [] => .ok []
  | (name, theme, scheme) :: rest => do
      let declarations ← source.overrideDeclarations theme name scheme items
      let rules ← source.overrides selector location items rest
      if declarations.isEmpty && !source.options.emptySelectors then return rules
      else
        return ⟨Selector.scope selector (source.className name scheme), declarations,
          location⟩ :: rules

/-- A rule with the base theme's values, and its overrides. -/
def rule (source : Source) (r : Rule) : Except ThemeError (Rule × List Rule) := do
  let (kept, referring) ← source.baseDeclarations r.declarations
  let plain : Rule :=
    { r with selector := Selector.stripThemeRoot r.selector, declarations := kept }
  if source.options.singleTheme.isSome || referring.isEmpty then return (plain, [])
  else
    return (plain,
      ← source.overrides r.selector r.location referring source.variants)

mutual

/-- A node with the base theme's values, and its overrides. -/
def node (source : Source) : Node → Except ThemeError (Node × List Rule)
  | .rule r => do
      let (plain, overrides) ← source.rule r
      return (.rule plain, overrides)
  | .atStatement head => return (.atStatement head, [])
  | .atRules head nodes => do
      let (kept, overrides) ← source.nodes nodes
      return (.atRules head (kept ++ overrides.map .rule), [])
  | .atDeclarations head ds => do
      let (kept, _) ← source.baseDeclarations ds
      return (.atDeclarations head kept, [])

/-- The nodes of a container, and the overrides that follow them there. -/
def nodes (source : Source) : List Node → Except ThemeError (List Node × List Rule)
  | [] => return ([], [])
  | n :: ns => do
      let (kept, overrides) ← source.node n
      let (rest, more) ← source.nodes ns
      return (kept :: rest, overrides ++ more)

end

/-- The classes for which empty rules are written, each once. -/
def classNames (source : Source) : List String :=
  (source.config.keys.flatMap fun name =>
    [name, source.options.lightClass, source.options.darkClass]).eraseDups

/-- The empty rules at the end of the stylesheet, if they are asked for. -/
def emptyRules (source : Source) : List Rule :=
  if source.options.emptySelectors then
    source.classNames.map fun name => { selector := "." ++ name }
  else []

end Source

/-- The stylesheet for legacy targets. -/
def apply (config : ResolvedConfig) (options : OutputOptions) (sheet : Stylesheet) :
    Except ThemeError Stylesheet := do
  let source := Source.of config options
  let (kept, overrides) ← source.nodes sheet.nodes
  return (Stylesheet.mk (kept ++ overrides.map .rule)).appendRules source.emptyRules

end ThemeTokens.Legacy
