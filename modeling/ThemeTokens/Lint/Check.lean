import ThemeTokens.Config.Theme
import ThemeTokens.Lint.Distance
import ThemeTokens.Reference.Parse
import ThemeTokens.Stylesheet.Basic
import ThemeTokens.Token.Flatten
import ThemeTokens.Token.Lookup

/-! # Checking references

    Problems of references are reported without stopping at the first one:
    malformed references, dollar signs that are not needed, and paths without a
    value in the authority's light tokens, with the paths that come close. -/

namespace ThemeTokens

/-- What is wrong with a reference. -/
inductive LintKind where
  /-- `@theme` directly followed by the path. -/
  | spacing
  /-- `@theme $path`. -/
  | dollar
  /-- The path has no value in the authority theme. -/
  | variableNotFound
  /-- Any other malformed reference. -/
  | invalidUsage
  deriving DecidableEq, Inhabited, Repr

/-- The name of a kind of problem. -/
def LintKind.text : LintKind → String
  | .spacing => "spacing"
  | .dollar => "dollar"
  | .variableNotFound => "variable-not-found"
  | .invalidUsage => "invalid-usage"

/-- A problem with a declaration. -/
structure LintMessage where
  kind : LintKind
  message : String
  property : String
  location : Location
  deriving DecidableEq, Inhabited, Repr

/-- A problem as it is shown. -/
def LintMessage.text (m : LintMessage) : String :=
  m.location.text ++ " " ++ m.property ++ ": " ++ m.message

namespace Lint

/-- How many paths are suggested. -/
def suggestionLimit : Nat := 3

/-- The nearer path first; of equally near ones the smaller. -/
def closer (p q : Nat × String) : Bool :=
  p.1 < q.1 || (p.1 == q.1 && decide (p.2 ≤ q.2))

/-- The known paths that are close to a path: the distance is at most half of
    the longer one's size in UTF-8. -/
def candidates (path : TokenPath) (tokens : TokenMap) : List (Nat × String) :=
  (tokens.flatten.map fun (known, _) =>
    (distance path.text.toList known.text.toList, known.text)).filter
      fun (n, known) => n ≤ max path.text.utf8ByteSize known.utf8ByteSize / 2

/-- The known paths closest to a path. -/
def suggestions (path : TokenPath) (tokens : TokenMap) : List String :=
  (((candidates path tokens).mergeSort closer).take suggestionLimit).map (·.2)

/-- The message for a path without a value. -/
def notFoundMessage (path : TokenPath) (tokens : TokenMap) : String :=
  let found := suggestions path tokens
  "You used a variable with no base value: " ++ path.text
    ++ if found.isEmpty then "" else ". Did you mean: " ++ ", ".intercalate found

/-- The first problem with a value. -/
def checkValue (value : String) (tokens : TokenMap) : Option (LintKind × String) :=
  if mentionsTheme value then
    match ParsedValue.parse value with
    | .error (.malformedReference .missingSpace _ _) =>
        some (.spacing, "There needs to be some form of whitespace after @theme")
    | .error e => some (.invalidUsage, e.message)
    | .ok parsed =>
        if parsed.references.any (·.dollar) then
          some (.dollar, "The $ sign is not needed when pulling from a theme")
        else
          (parsed.references.find? fun r => !(tokens.lookup r.path).isValue).map
            fun r => (.variableNotFound, notFoundMessage r.path tokens)
  else none

/-- The problem with a declaration, if there is one. -/
def checkDeclaration (tokens : TokenMap) (d : Declaration) : Option LintMessage :=
  (checkValue d.value tokens).map fun (kind, message) =>
    ⟨kind, message, d.property, d.location⟩

/-- The light tokens of a theme; none if it is not configured. -/
def lightTokens (config : ResolvedConfig) (theme : String) : TokenMap :=
  ((config.get? theme).map (·.light)).getD .empty

/-- The problems of a stylesheet, checked against a theme's light tokens. -/
def checkSheet (sheet : Stylesheet) (config : ResolvedConfig) (theme : String) :
    List LintMessage :=
  sheet.declarations.filterMap (checkDeclaration (lightTokens config theme))

/-- Whether a path has a value in a theme's light tokens. -/
def hasToken (config : ResolvedConfig) (theme : String) (path : TokenPath) : Bool :=
  (config.get? theme).any fun t => (t.light.lookup path).isValue

end Lint

end ThemeTokens
