import ThemeTokens.Config.Inherit
import ThemeTokens.Config.Load
import ThemeTokens.Legacy
import ThemeTokens.Modern.Apply
import ThemeTokens.Stylesheet.Parse
import ThemeTokens.Stylesheet.Print

/-! # Processing stylesheets

    A processor holds a configuration and options.  For each stylesheet it
    finds the themes of the component that the stylesheet belongs to, resolves
    them together with its own, and writes the output. -/

namespace ThemeTokens

/-- Themes that apply to a single stylesheet. -/
structure ComponentTheme where
  config : RawConfig
  /-- The file they were read from. -/
  source : Option String

/-- Finds the component theme for the stylesheet with this path. -/
abbrev ComponentLookup (m : Type → Type) :=
  String → ExceptT ThemeError m (Option ComponentTheme)

/-- The names under which a component theme is looked for. -/
def componentThemeNames : List String := ["theme.yaml", "theme.yml", "theme.json"]

section

variable {m : Type → Type} [Monad m] [FileAccess m]

/-- The first of these paths that leads to a file. -/
def firstFile : List String → m (Option String)
  | [] => return none
  | path :: paths => do
      if ← FileAccess.isFile path then return some path else firstFile paths

/-- Looks for one of these files beside the stylesheet. -/
def siblingTheme (names : List String) : ComponentLookup m := fun stylesheet =>
  match Path.parent? stylesheet with
  | none => return none
  | some directory => do
      match ← (firstFile (names.map (Path.join directory)) : m _) with
      | none => return none
      | some path => return some ⟨← RawConfig.load path, some path⟩

end

/-- The options of a processor. -/
structure ThemeOptions (m : Type → Type) extends OutputOptions where
  config : Option RawConfig := none
  /-- Component themes are looked for with this, if at all. -/
  componentThemes : Option (ComponentLookup m) := none
  naming : Option ScopedName := none
  target : Target := .modern

/-- A stylesheet that was processed. -/
structure ProcessOutput where
  stylesheet : Stylesheet
  warnings : List Warning
  /-- The files that the output depends on besides the stylesheet. -/
  dependencies : List String

/-- The text of the output. -/
def ProcessOutput.css (output : ProcessOutput) : String :=
  output.stylesheet.print

/-- The output for a stylesheet with resolved themes. -/
def writeTarget (target : Target) (config : ResolvedConfig) (options : OutputOptions)
    (localizer : Localizer) (sheet : Stylesheet) :
    Except ThemeError (Stylesheet × List Warning) :=
  match target with
  | .modern => Modern.apply config options localizer sheet
  | .legacy => (Legacy.apply config options sheet).map (·, [])

/-- Options with a configuration. -/
structure Processor (m : Type → Type) where
  options : ThemeOptions m
  config : RawConfig

namespace Processor

variable {m : Type → Type}

/-- A processor for options, which must name a configuration. -/
def of (options : ThemeOptions m) : Except ThemeError (Processor m) :=
  match options.config with
  | some config => .ok ⟨options, config⟩
  | none => .error .missingConfig

variable [Monad m]

/-- The component theme for a path; none without a path. -/
def component? (processor : Processor m) (path : Option String) :
    ExceptT ThemeError m (Option ComponentTheme) :=
  match path, processor.options.componentThemes with
  | some path, some lookup => lookup path
  | _, _ => return none

/-- The themes for the stylesheet with this path, and the files they were read
    from. -/
def resolve (processor : Processor m) (path : Option String) :
    ExceptT ThemeError m (ResolvedConfig × List String) := do
  let component ← processor.component? path
  let resolved ← processor.config.resolve (component.map (·.config))
  return (resolved, (component.bind (·.source)).toList)

/-- The output for a stylesheet. -/
def process (processor : Processor m) (css : String) (path : Option String) :
    ExceptT ThemeError m ProcessOutput := do
  let (config, dependencies) ← processor.resolve path
  let sheet ← Stylesheet.parse css
  let options := processor.options
  let (stylesheet, warnings) ← writeTarget options.target config options.toOutputOptions
    ⟨options.naming, path, css⟩ sheet
  return { stylesheet, warnings, dependencies }

end Processor

end ThemeTokens
