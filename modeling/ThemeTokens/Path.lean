import ThemeTokens.Text.Search

/-! # File paths

    A path is a text of components between slashes.  Empty components and `.`
    say nothing, except for a `.` at the very front.  A path keeps the spelling
    it was given; taking its parent cuts it after the last component left. -/

namespace ThemeTokens.Path

/-- Whether a path starts at the root. -/
def isRooted (path : String) : Bool :=
  path.toList.head? == some '/'

/-- The texts between slashes, behind the root if there is one. -/
def pieces (path : String) : List (List Char) :=
  Text.splitAt '/' (if isRooted path then path.toList.drop 1 else path.toList)

/-- Whether a piece is a component; `leading` is true of the first piece of a
    path that does not start at the root. -/
def isComponent (leading : Bool) (piece : List Char) : Bool :=
  if piece = ['.'] then leading else !piece.isEmpty

/-- The pieces, last first, each with whether it is a component. -/
def markedBackwards (path : String) : List (List Char × Bool) :=
  match pieces path with
  | [] => []
  | first :: rest =>
      ((first, isComponent (!isRooted path) first)
        :: rest.map fun p => (p, isComponent false p)).reverse

/-- The components of a path, in order. -/
def components (path : String) : List (List Char) :=
  ((markedBackwards path).filter (·.2)).reverse.map (·.1)

/-- What is left of a path without its last component. -/
def parent? (path : String) : Option String :=
  match (markedBackwards path).dropWhile (!·.2) with
  | [] => none
  | _ :: before =>
      let kept := (before.dropWhile (!·.2)).reverse.map (·.1)
      some (String.ofList
        ((if isRooted path then ['/'] else []) ++ Text.joinWith ['/'] kept))

/-- The last component, if it is a name. -/
def fileName? (path : String) : Option String :=
  match (components path).getLast? with
  | some name =>
      if name = ['.'] ∨ name = ['.', '.'] then none else some (String.ofList name)
  | none => none

/-- A name before and after its last dot; a dot at the front counts for
    nothing. -/
def splitName (name : List Char) : List Char × Option (List Char) :=
  let behind := (name.reverse.takeWhile (· ≠ '.')).reverse
  let before := name.take (name.length - behind.length - 1)
  if behind.length = name.length ∨ before.isEmpty then (name, none)
  else (before, some behind)

/-- The file name without its extension. -/
def stem? (path : String) : Option String :=
  (fileName? path).map fun name => String.ofList (splitName name.toList).1

/-- What follows the last dot of the file name. -/
def extension? (path : String) : Option String :=
  (fileName? path).bind fun name => (splitName name.toList).2.map String.ofList

/-- A name below a directory; a name that starts at the root stands alone. -/
def join (directory name : String) : String :=
  if isRooted name || directory.isEmpty then name
  else if directory.toList.getLast? = some '/' then directory ++ name
  else directory ++ "/" ++ name

end ThemeTokens.Path
