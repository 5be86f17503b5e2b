import ThemeTokens.Location

/-! # Options of the output

    What the two kinds of output need to know besides the themes. -/

namespace ThemeTokens

/-- Which kind of output is written. -/
inductive Target where
  /-- Custom properties, with a block for each theme. -/
  | modern
  /-- Literal values, with override rules for each theme. -/
  | legacy
  deriving DecidableEq, Inhabited, Repr

/-- The options of the output. -/
structure OutputOptions where
  /-- The authority: the theme in which every reference must have a value. -/
  defaultTheme : String := "default"
  /-- The only theme to write output for. -/
  singleTheme : Option String := none
  /-- Write values instead of custom properties for a single theme without a
      dark mode. -/
  optimize : Bool := false
  /-- Give the value of a token that is used once where it is used. -/
  inline : Bool := true
  /-- Write empty rules for all classes, and keep empty overrides. -/
  emptySelectors : Bool := false
  lightClass : String := "light"
  darkClass : String := "dark"
  deriving DecidableEq, Inhabited, Repr

/-- A problem that does not stop the work. -/
structure Warning where
  message : String
  location : Option Location
  deriving DecidableEq, Inhabited, Repr

/-- A warning as it is shown. -/
def Warning.text (warning : Warning) : String :=
  match warning.location with
  | some here => warning.message ++ " (" ++ here.text ++ ")"
  | none => warning.message

end ThemeTokens
