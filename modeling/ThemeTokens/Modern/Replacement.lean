import ThemeTokens.Config.Theme
import ThemeTokens.Options
import ThemeTokens.Reference.Substitute
import ThemeTokens.ScopedName
import ThemeTokens.Selector
import ThemeTokens.Token.Lookup
import ThemeTokens.Reference.Usage

/-! # References in modern output

    Each reference becomes a `var()` of its custom property, with its value as
    the fallback where it is used only once.  Every reference must have a value
    in the authority's light tokens.  In literal mode references become values
    instead, and a declaration without one is removed with a warning. -/

namespace ThemeTokens.Modern

/-- What takes the place of references. -/
structure Replacement where
  /-- Every reference must have a value in the light tokens of this theme. -/
  authority : LightDarkTheme
  /-- Where fallbacks and literal values come from. -/
  values : LightDarkTheme
  usage : VariableUsage
  localizer : Localizer
  /-- Write values instead of custom properties. -/
  literal : Bool
  /-- Write the value of a token used once as a fallback. -/
  inline : Bool

/-- What becomes of a declaration. -/
inductive Replaced where
  | kept (declaration : Declaration)
  | removed (warning : Warning)

namespace Replacement

/-- The custom property of a path, with its dashes. -/
def property (put : Replacement) (path : TokenPath) : String :=
  "--" ++ put.localizer.localize path.variableName

/-- The value written as a fallback, if one is. -/
def fallback? (put : Replacement) (path : TokenPath) : Option String :=
  if put.inline && put.usage.count path == 1 then put.values.light.value? path else none

/-- A use of a custom property. -/
def varText (put : Replacement) (path : TokenPath) : String :=
  match put.fallback? path with
  | some value => "var(" ++ put.property path ++ ", " ++ value ++ ")"
  | none => "var(" ++ put.property path ++ ")"

/-- What is written for a reference; none if it has no literal value. -/
def resolve (put : Replacement) (r : Reference) : Except ThemeError (Option String) :=
  if put.literal then .ok (put.values.light.value? r.path)
  else
    match put.authority.light.lookup r.path with
    | .value _ => .ok (some (put.varText r.path))
    | .group => .error (.notAValue r.path.text none)
    | .missing => .error (.unknownToken r.path.text none)

/-- The warning for a declaration that is removed. -/
def removal (d : Declaration) (missing : Reference) : Warning :=
  ⟨"Could not find key " ++ missing.path.text
    ++ " in theme configuration. Removing declaration.", some d.location⟩

/-- A declaration with its references replaced. -/
def declaration (put : Replacement) (d : Declaration) : Except ThemeError Replaced :=
  if mentionsTheme d.value then
    located d.location do
      let value ← ParsedValue.parse d.value
      if value.hasReferences then
        match ← value.substitute put.resolve with
        | .text text => return .kept { d with value := text }
        | .dropped missing => return .removed (removal d missing)
      else return .kept d
  else return .kept d

/-- The declarations that are kept, in order. -/
def declarations (put : Replacement) : List Declaration →
    Except ThemeError (List Declaration)
  | [] => .ok []
  | d :: ds => do
      match ← put.declaration d with
      | .kept d => return d :: (← put.declarations ds)
      | .removed _ => put.declarations ds

/-- A rule without markers, the references in it replaced. -/
def rule (put : Replacement) (r : Rule) : Except ThemeError Rule :=
  return { r with
    selector := Selector.stripThemeRoot r.selector
    declarations := ← put.declarations r.declarations }

/-- The warning for a declaration, if it is removed. -/
def warning? (put : Replacement) (d : Declaration) : Option Warning :=
  match put.declaration d with
  | .ok (.removed warning) => some warning
  | _ => none

/-- A stylesheet with its references replaced and its markers dropped. -/
def sheet (put : Replacement) (s : Stylesheet) : Except ThemeError Stylesheet :=
  s.mapM put.rule put.declarations

/-- The warnings for a stylesheet, in order. -/
def warnings (put : Replacement) (s : Stylesheet) : List Warning :=
  s.declarations.filterMap put.warning?

end Replacement

end ThemeTokens.Modern
