import ThemeTokens.Document.Themes
import ThemeTokens.File.Access
import ThemeTokens.Json.Document
import ThemeTokens.Path
import ThemeTokens.Yaml.Document

/-! # Loading configurations

    A configuration is a text in JSON or YAML, or a file whose extension says
    which of the two it holds. -/

namespace ThemeTokens

/-- What reading a text gives, with `path` as the place of a fault. -/
def ofText {α : Type} (path : Option String) (read : Except LoadFault α) :
    Except ThemeError α :=
  read.mapError (.config path)

namespace RawConfig

/-- The themes in a JSON text. -/
def ofJson (text : String) (path : Option String := none) :
    Except ThemeError RawConfig :=
  ofText path ((Json.document text).themes Json.dialect)

/-- The themes in a YAML text. -/
def ofYaml (text : String) (path : Option String := none) :
    Except ThemeError RawConfig :=
  ofText path ((Yaml.document text).themes Yaml.dialect)

/-- Whether a file holds JSON; all others hold YAML. -/
def isJsonFile (path : String) : Bool :=
  (Path.extension? path).any fun extension => extension.toList.map Char.toLower = "json".toList

/-- The themes in a file. -/
def load {m : Type → Type} [Monad m] [FileAccess m] (path : String) :
    ExceptT ThemeError m RawConfig := do
  match ← (FileAccess.read path : m _) with
  | .error fault => throw (.config (some path) (.unreadable fault))
  | .ok text =>
      ExceptT.mk (pure
        (if isJsonFile path then ofJson text (some path) else ofYaml text (some path)))

end RawConfig

/-- The tokens in a JSON text that is a single theme. -/
def TokenMap.ofJson (text : String) : Except ThemeError TokenMap :=
  ofText none ((Json.document text).tokens Json.dialect)

end ThemeTokens
