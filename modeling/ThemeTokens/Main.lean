import ThemeTokens.CommandLine.Run

/-! # The program

    Runs a command on the files of the disk and prints its answer. -/

namespace ThemeTokens.Program

/-- A fault of the disk. -/
def fileFault : IO.Error → FileFault
  | .noFileOrDirectory _ _ _ => .notFound
  | .alreadyExists _ _ _ => .alreadyExists
  | .inappropriateType _ code text => byCode code text
  | .invalidArgument _ code text => byCode code text
  | .otherError code text => byCode code text
  | error => .other (toString error)
where
  /-- A fault by its number. -/
  byCode (code : UInt32) (text : String) : FileFault :=
    if code = 21 then .isDirectory
    else if code = 20 then .notDirectory
    else if code = 36 then .nameTooLong
    else .other (text ++ " (os error " ++ toString code.toNat ++ ")")

/-- An action on the disk, with its fault as a value. -/
def attempt {α : Type} (action : IO α) : BaseIO (Except FileFault α) :=
  return (← action.toBaseIO).mapError fileFault

instance : FileAccess BaseIO where
  read path := attempt (IO.FS.readFile path)
  isFile path := do
    match ← (System.mkFilePath [path]).metadata.toBaseIO with
    | .ok data => return data.type == .file
    | .error _ => return false
  createDirectory path := attempt (IO.FS.createDirAll path)
  write path text := attempt (IO.FS.writeFile path text)

end ThemeTokens.Program

/-- Runs the command in the arguments. -/
def main (arguments : List String) : IO UInt32 := do
  let outcome ← (ThemeTokens.CommandLine.run arguments : BaseIO _)
  IO.print outcome.output
  IO.eprint outcome.messages
  return UInt32.ofNat outcome.exitCode
