import ThemeTokens.Options

/-! # Arguments of the command line

    A command has flags, options with a value, and arguments of its own.  A
    name is written after two dashes, with its value behind an equals sign or
    in the next argument; a letter is written after one dash, several flags in
    one argument, and a value may follow its letter at once.  Behind two dashes
    alone nothing is an option.  Anything given twice is refused. -/

namespace ThemeTokens.CommandLine

/-- What an option takes. -/
inductive OptionKind where
  | flag
  | text
  /-- A text that is not empty. -/
  | path
  deriving DecidableEq, Inhabited, Repr

/-- An option of a command. -/
structure OptionForm where
  name : String
  letter : Option Char
  kind : OptionKind

/-- What the arguments say. -/
structure Given where
  flags : List String
  values : List (String × String)
  /-- Arguments that belong to no option. -/
  free : List String

namespace Given

def empty : Given := ⟨[], [], []⟩

/-- Notes a flag, unless it is there. -/
def setFlag? (given : Given) (form : OptionForm) : Option Given :=
  if given.flags.contains form.name then none
  else some { given with flags := form.name :: given.flags }

/-- Notes the value of an option, unless it has one. -/
def setValue? (given : Given) (form : OptionForm) (value : String) : Option Given :=
  if (given.values.lookup form.name).isSome then none
  else if form.kind = .path ∧ value.isEmpty then none
  else some { given with values := (form.name, value) :: given.values }

/-- Whether the flag was given. -/
def hasFlag (given : Given) (name : String) : Bool :=
  given.flags.contains name

def value? (given : Given) (name : String) : Option String :=
  given.values.lookup name

end Given

/-- What was given, and the option whose value is the next argument. -/
abbrev Scanned := Given × Option OptionForm

/-- An option by its name, with what follows an equals sign. -/
def scanName? (forms : List OptionForm) (given : Given) (text : List Char) :
    Option Scanned := do
  let name := text.takeWhile (· ≠ '=')
  let attached := (text.drop name.length).tail?
  let form ← forms.find? fun form => form.name.toList = name
  match form.kind, attached with
  | .flag, none => return (← given.setFlag? form, none)
  | .flag, some _ => none
  | _, some value => return (← given.setValue? form (String.ofList value), none)
  | _, none => return (given, some form)

/-- Options by their letters. -/
def scanLetters? (forms : List OptionForm) : Given → List Char → Option Scanned
  | given, [] => some (given, none)
  | given, c :: cs => do
      let form ← forms.find? fun form => form.letter = some c
      match form.kind, cs with
      | .flag, _ => scanLetters? forms (← given.setFlag? form) cs
      | _, [] => return (given, some form)
      | _, '=' :: value => return (← given.setValue? form (String.ofList value), none)
      | _, value => return (← given.setValue? form (String.ofList value), none)

/-- Whether an argument is written as an option. -/
def isOption (argument : String) : Bool :=
  argument ≠ "-" && argument.toList.head? = some '-'

/-- What the arguments say; `pending` is an option that waits for its value. -/
def scan? (forms : List OptionForm) : (pending : Option OptionForm) →
    List String → Given → Option Given
  | none, [], given => some given
  | some _, [], _ => none
  | some form, argument :: rest, given =>
      if isOption argument then none
      else (given.setValue? form argument).bind (scan? forms none rest)
  | none, argument :: rest, given =>
      if argument = "--" then some { given with free := given.free ++ rest }
      else
        match argument.toList with
        | '-' :: '-' :: text =>
            (scanName? forms given text).bind
              fun (given, pending) => scan? forms pending rest given
        | '-' :: c :: cs =>
            (scanLetters? forms given (c :: cs)).bind
              fun (given, pending) => scan? forms pending rest given
        | _ => scan? forms none rest { given with free := given.free ++ [argument] }

/-- What to write output for, and where. -/
structure BuildArguments where
  input : String
  config : String
  /-- The file to write; without one the output is printed. -/
  output : Option String
  target : Target
  options : OutputOptions
  /-- A template for the names of custom properties. -/
  template : Option String
  /-- Look for themes beside the stylesheet. -/
  componentThemes : Bool

/-- What to check. -/
structure LintArguments where
  inputs : List String
  config : String
  defaultTheme : String
  /-- Print problems as JSON. -/
  json : Bool

/-- What is asked for. -/
inductive Command where
  | version
  | build (arguments : BuildArguments)
  | lint (arguments : LintArguments)

/-- More messages; every command knows this flag. -/
def verboseForm : OptionForm := ⟨"verbose", some 'v', .flag⟩

def configForm : OptionForm := ⟨"config", some 'c', .path⟩

def defaultThemeForm : OptionForm := ⟨"default-theme", none, .text⟩

/-- The options of `build`. -/
def buildForms : List OptionForm :=
  [verboseForm, configForm, ⟨"output", some 'o', .path⟩, ⟨"legacy", none, .flag⟩,
   defaultThemeForm, ⟨"single-theme", none, .text⟩, ⟨"optimize", none, .flag⟩,
   ⟨"no-inline", none, .flag⟩, ⟨"modules", none, .text⟩,
   ⟨"empty-theme-selectors", none, .flag⟩, ⟨"light-class", none, .text⟩,
   ⟨"dark-class", none, .text⟩, ⟨"no-component-themes", none, .flag⟩]

/-- The options of `lint`. -/
def lintForms : List OptionForm :=
  [verboseForm, configForm, defaultThemeForm, ⟨"json", none, .flag⟩]

/-- The arguments of `build`: one stylesheet and a configuration; `optimize`
    needs a single theme. -/
def build? (arguments : List String) : Option BuildArguments := do
  let given ← scan? buildForms none arguments .empty
  let config ← given.value? "config"
  let single := given.value? "single-theme"
  match given.free with
  | [input] =>
      if input.isEmpty || (given.hasFlag "optimize" && single.isNone) then none
      else
        let plain : OutputOptions := {}
        return {
          input, config
          output := given.value? "output"
          target := if given.hasFlag "legacy" then .legacy else .modern
          options := {
            defaultTheme := (given.value? "default-theme").getD plain.defaultTheme
            singleTheme := single
            optimize := given.hasFlag "optimize"
            inline := !given.hasFlag "no-inline"
            emptySelectors := given.hasFlag "empty-theme-selectors"
            lightClass := (given.value? "light-class").getD plain.lightClass
            darkClass := (given.value? "dark-class").getD plain.darkClass }
          template := given.value? "modules"
          componentThemes := !given.hasFlag "no-component-themes" }
  | _ => none

/-- The arguments of `lint`: stylesheets and a configuration. -/
def lint? (arguments : List String) : Option LintArguments := do
  let given ← scan? lintForms none arguments .empty
  let config ← given.value? "config"
  let plain : OutputOptions := {}
  if given.free.isEmpty || given.free.any (·.isEmpty) then none
  else
    return {
      inputs := given.free, config
      defaultTheme := (given.value? "default-theme").getD plain.defaultTheme
      json := given.hasFlag "json" }

/-- Letters in front of a command: whether the version is asked for, or if not,
    whether there have been more messages asked for. -/
def frontLetters? : (verbose : Bool) → List Char → Option (Option Bool)
  | verbose, [] => some (some verbose)
  | verbose, c :: cs =>
      if c = 'V' then some none
      else if c = 'v' ∧ !verbose then frontLetters? true cs
      else none

/-- What arguments ask for; none if they are not well formed. -/
def command? : (verbose : Bool) → List String → Option Command
  | _, [] => none
  | verbose, argument :: rest =>
      if argument = "build" then (build? rest).map .build
      else if argument = "lint" then (lint? rest).map .lint
      else if argument = "--version" then some .version
      else if argument = "--verbose" then
        if verbose then none else command? true rest
      else
        match argument.toList with
        | '-' :: c :: cs =>
            match frontLetters? verbose (c :: cs) with
            | some none => some .version
            | some (some verbose) => command? verbose rest
            | none => none
        | _ => none

end ThemeTokens.CommandLine
