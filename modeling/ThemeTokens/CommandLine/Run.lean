import ThemeTokens.CommandLine.Arguments
import ThemeTokens.Json.Print
import ThemeTokens.Lint.Check
import ThemeTokens.Processor

/-! # Commands

    A command reads files, and answers with what it has found or why it could
    not go on.  What is printed, and the code the program ends with, follow
    from the answer alone. -/

namespace ThemeTokens.CommandLine

/-- Why a command could not go on. -/
inductive Cause where
  | file (fault : FileFault)
  | theme (error : ThemeError)

/-- What a command could not do, and why. -/
structure Failure where
  attempt : String
  cause : Cause

def Cause.message : Cause → String
  | .file fault => fault.message
  | .theme error => error.message

/-- A failure as it is printed. -/
def Failure.text (failure : Failure) : String :=
  "error: " ++ failure.attempt ++ ": " ++ failure.cause.message ++ "\n"

/-- The problems of a stylesheet. -/
structure Report where
  file : String
  messages : List LintMessage

/-- The answer to a command. -/
inductive Outcome where
  /-- The arguments are not well formed. -/
  | rejected
  | version
  | failed (failure : Failure)
  /-- Output to be printed, unless it was written, and warnings. -/
  | built (input css : String) (warnings : List Warning)
  | linted (reports : List Report) (json : Bool)

section

variable {m : Type → Type} [Monad m] [FileAccess m]

/-- Names what is attempted in a failure. -/
def attempting {α : Type} (attempt : String) (action : ExceptT ThemeError m α) :
    ExceptT Failure m α :=
  ExceptT.mk do return (← action.run).mapError fun error => ⟨attempt, .theme error⟩

/-- Names what is attempted with a file in a failure. -/
def attemptingFile {α : Type} (attempt : String) (action : m (Except FileFault α)) :
    ExceptT Failure m α :=
  ExceptT.mk do return (← action).mapError fun fault => ⟨attempt, .file fault⟩

/-- The configuration in a file. -/
def loadConfig (path : String) : ExceptT Failure m RawConfig :=
  attempting ("Failed to load " ++ path) (RawConfig.load path)

/-- The stylesheet in a file. -/
def readSheet (path : String) : ExceptT Failure m String :=
  attemptingFile ("Failed to read " ++ path) (FileAccess.read path)

/-- The options of a processor for a build. -/
def BuildArguments.processor (arguments : BuildArguments) (config : RawConfig) :
    Processor m where
  config
  options := {
    arguments.options with
    config := some config
    componentThemes :=
      if arguments.componentThemes then some (siblingTheme componentThemeNames) else none
    naming := arguments.template.map .template
    target := arguments.target }

/-- Writes a file, and its directory first if the path names one. -/
def writeOutput (path text : String) : ExceptT Failure m Unit := do
  match Path.parent? path with
  | some directory =>
      if !directory.isEmpty then
        attemptingFile ("Failed to create " ++ directory)
          (FileAccess.createDirectory directory)
  | none => pure ()
  attemptingFile ("Failed to write " ++ path) (FileAccess.write path text)

/-- Processes a stylesheet. -/
def build (arguments : BuildArguments) : ExceptT Failure m Outcome := do
  let config ← loadConfig arguments.config
  let css ← readSheet arguments.input
  let output ← attempting ("Failed to process " ++ arguments.input)
    ((arguments.processor config).process css (some arguments.input))
  match arguments.output with
  | some path =>
      writeOutput path output.css
      return .built arguments.input "" output.warnings
  | none => return .built arguments.input output.css output.warnings

/-- The problems of the stylesheet in a file. -/
def lintFile (processor : Processor m) (defaultTheme file : String) :
    ExceptT Failure m Report := do
  let css ← readSheet file
  let (config, _) ← attempting ("Failed to resolve themes for " ++ file)
    (processor.resolve (some file))
  let sheet ← attempting ("Failed to parse " ++ file) (liftExcept (Stylesheet.parse css))
  return ⟨file, Lint.checkSheet sheet config defaultTheme⟩
where
  /-- A result that needs no files. -/
  liftExcept {α : Type} (result : Except ThemeError α) : ExceptT ThemeError m α :=
    ExceptT.mk (pure result)

/-- Checks stylesheets. -/
def lint (arguments : LintArguments) : ExceptT Failure m Outcome := do
  let config ← loadConfig arguments.config
  let processor : Processor m := {
    config
    options := {
      defaultTheme := arguments.defaultTheme, config := some config
      componentThemes := some (siblingTheme componentThemeNames) } }
  let reports ← arguments.inputs.mapM (lintFile processor arguments.defaultTheme)
  return .linted reports arguments.json

/-- The answer to the command in the arguments. -/
def run (arguments : List String) : m Outcome := do
  let answer : ExceptT Failure m Outcome :=
    match command? false arguments with
    | none => return .rejected
    | some .version => return .version
    | some (.build arguments) => build arguments
    | some (.lint arguments) => lint arguments
  match ← answer.run with
  | .ok outcome => return outcome
  | .error failure => return .failed failure

end

/-- The problems of a stylesheet, for reading. -/
def Report.text (report : Report) : String :=
  if report.messages.isEmpty then ""
  else
    report.file ++ "\n" ++ String.join (report.messages.map fun message =>
      "  " ++ message.location.text ++ "  " ++ message.property ++ "  "
        ++ message.message ++ "\n")

/-- A location, for programs. -/
def locationValue (here : Location) : Json.Value :=
  .object [("column", .number here.column), ("line", .number here.line)]

/-- A problem, for programs. -/
def messageValue (message : LintMessage) : Json.Value :=
  .object [("kind", .text message.kind.text),
    ("location", locationValue message.location),
    ("message", .text message.message), ("property", .text message.property)]

/-- The problems of a stylesheet, for programs. -/
def Report.value (report : Report) : Json.Value :=
  .object [("file", .text report.file),
    ("messages", .array (report.messages.map messageValue))]

/-- How arguments are written. -/
def usage : String :=
  "usage: themed [-v] build <INPUT> -c <CONFIG> [-o <OUTPUT>] [options]\n"
    ++ "       themed [-v] lint <INPUTS>... -c <CONFIG> [--json] [options]\n"

namespace Outcome

/-- The code that the program ends with: zero if all is well, one for
    problems that were found, and two for failures. -/
def exitCode : Outcome → Nat
  | .rejected => 2
  | .version => 0
  | .failed _ => 2
  | .built _ _ _ => 0
  | .linted reports _ => if reports.all (·.messages.isEmpty) then 0 else 1

/-- What is printed as output. -/
def output : Outcome → String
  | .rejected => ""
  | .version => "themed 0.1.0\n"
  | .failed _ => ""
  | .built _ css _ => css
  | .linted reports json =>
      if json then (Json.Value.array (reports.map Report.value)).print ++ "\n"
      else String.join (reports.map Report.text)

/-- What is printed beside the output. -/
def messages : Outcome → String
  | .rejected => usage
  | .version => ""
  | .failed failure => failure.text
  | .built input _ warnings =>
      String.join (warnings.map fun warning =>
        "warning: " ++ input ++ ": " ++ warning.text ++ "\n")
  | .linted _ _ => ""

end Outcome

end ThemeTokens.CommandLine
