import ThemeTokens.Css.Token
import ThemeTokens.Location

/-! # Errors

    Everything that can stop the work, by cause.  Configuration errors come
    before any output; reference errors carry the place of the declaration they
    were found in once that is known.  The wording of every error is in
    `ThemeError.message`. -/

namespace ThemeTokens

/-- The ways a reference can be malformed. -/
inductive ReferenceFault where
  /-- No blank between `@theme` and the path. -/
  | missingSpace
  /-- A blank between `theme` and its parenthesis. -/
  | spaceBeforeParenthesis
  /-- Anything else that opens a reference and is none. -/
  | invalidUsage
  deriving DecidableEq, Inhabited, Repr

/-- The ways a stylesheet can fail to be rules and declarations. -/
inductive StylesheetFault where
  | unexpectedToken (token : Css.Token)
  | invalidAtRule (name : String)
  | endOfInput
  deriving DecidableEq, Repr

/-- The ways a file can be out of reach. -/
inductive FileFault where
  | notFound
  | isDirectory
  | notDirectory
  | alreadyExists
  /-- A path, or a name in it, is longer than any that is kept. -/
  | nameTooLong
  /-- A path with a zero character, which no name holds. -/
  | zeroInName
  /-- Any other way, in the words of whoever keeps the files. -/
  | other (text : String)
  deriving DecidableEq, Inhabited, Repr

/-- The ways a configuration can fail to load. -/
inductive LoadFault where
  | unreadable (fault : FileFault)
  /-- A value of the wrong kind: what was found and what was due. -/
  | wrongKind (found expected : String)
  /-- A text that is no document. -/
  | malformed
  deriving DecidableEq, Inhabited, Repr

/-- Everything that can stop the work. -/
inductive ThemeError where
  /-- The options name no configuration. -/
  | missingConfig
  /-- A configuration could not be loaded. -/
  | config (path : Option String) (fault : LoadFault)
  /-- A stylesheet could not be read. -/
  | parse (location : Option Location) (fault : StylesheetFault)
  /-- A theme names itself as a parent. -/
  | selfExtension (theme : String)
  /-- A theme names a parent that is not configured. -/
  | missingExtension (theme target : String)
  /-- The parents of a theme lead back to a theme already visited; the chain
      is in the order visited and ends with that theme. -/
  | circularExtension (chain : List String)
  /-- A reference leads nowhere. -/
  | unknownToken (key : String) (location : Option Location)
  /-- A reference leads to a group. -/
  | notAValue (key : String) (location : Option Location)
  /-- The theme needed for a value is not configured. -/
  | missingThemeKey (theme key : String) (location : Option Location)
  /-- A reference is malformed; the value it stands in is kept. -/
  | malformedReference (fault : ReferenceFault) (value : String)
      (location : Option Location)
  deriving DecidableEq, Repr

/-- What is said of a malformed reference. -/
def ReferenceFault.message : ReferenceFault → String
  | .missingSpace => "Missing space after @theme"
  | .spaceBeforeParenthesis => "No space allowed between theme and '('"
  | .invalidUsage => "Invalid theme usage"

/-- What is said of a stylesheet that cannot be parsed. -/
def StylesheetFault.message : StylesheetFault → String
  | .unexpectedToken token => "UnexpectedToken(" ++ token.describe ++ ")"
  | .invalidAtRule name => "AtRuleInvalid(" ++ Text.quoted name ++ ")"
  | .endOfInput => "EndOfInput"

/-- What the system says of the file. -/
def FileFault.message : FileFault → String
  | .notFound => "No such file or directory (os error 2)"
  | .isDirectory => "Is a directory (os error 21)"
  | .notDirectory => "Not a directory (os error 20)"
  | .alreadyExists => "File exists (os error 17)"
  | .nameTooLong => "File name too long (os error 36)"
  | .zeroInName => "file name contained an unexpected NUL byte"
  | .other text => text

/-- What is said of a configuration that cannot be loaded. -/
def LoadFault.message : LoadFault → String
  | .unreadable fault => fault.message
  | .wrongKind found expected =>
      "invalid type: " ++ found ++ ", expected " ++ expected
  | .malformed => "malformed document"

namespace ThemeError

/-- A place as the tail of a message. -/
def locationSuffix : Option Location → String
  | some location => " at " ++ location.text
  | none => ""

/-- A file as part of a message. -/
def pathSuffix : Option String → String
  | some path => " " ++ path
  | none => ""

/-- Names between quotes, an arrow between them. -/
def chainText (chain : List String) : String :=
  " => ".intercalate (chain.map fun name => "'" ++ name ++ "'")

/-- The text of an error. -/
def message : ThemeError → String
  | .missingConfig => "No config provided to themed"
  | .config path fault =>
      "Failed to load theme config" ++ pathSuffix path ++ ": " ++ fault.message
  | .parse location fault =>
      "Failed to parse stylesheet" ++ locationSuffix location ++ ": " ++ fault.message
  | .selfExtension theme =>
      "A theme cannot extend itself! '" ++ theme ++ "' extends '" ++ theme ++ "'"
  | .missingExtension _ target =>
      "Theme to extend from not found! '" ++ target ++ "'"
  | .circularExtension chain =>
      "Circular theme extension found! " ++ chainText chain
  | .unknownToken key location =>
      "Could not find key " ++ key ++ " in theme configuration"
        ++ locationSuffix location
  | .notAValue key location =>
      "Could not find key " ++ key
        ++ " in theme configuration: it names a group of tokens, not a value"
        ++ locationSuffix location
  | .missingThemeKey theme key location =>
      "Theme '" ++ theme ++ "' does not contain key '" ++ key ++ "'"
        ++ locationSuffix location
  | .malformedReference fault value location =>
      fault.message ++ ": '" ++ value ++ "'" ++ locationSuffix location

/-- The place of an error, if it has one. -/
def location? : ThemeError → Option Location
  | .parse location _ => location
  | .unknownToken _ location => location
  | .notAValue _ location => location
  | .missingThemeKey _ _ location => location
  | .malformedReference _ _ location => location
  | _ => none

/-- Gives the error a place if it can have one and has none. -/
def located (here : Location) : ThemeError → ThemeError
  | .parse none fault => .parse (some here) fault
  | .unknownToken key none => .unknownToken key (some here)
  | .notAValue key none => .notAValue key (some here)
  | .missingThemeKey theme key none => .missingThemeKey theme key (some here)
  | .malformedReference fault value none =>
      .malformedReference fault value (some here)
  | error => error

end ThemeError

/-- A failure gets the place `here` if it has none. -/
def located {α : Type} (here : Location) (result : Except ThemeError α) :
    Except ThemeError α :=
  result.mapError (·.located here)

end ThemeTokens
