import ThemeTokens.File.Access
import ThemeTokens.Path

/-! # Files in memory

    A store holds the files and directories below one directory, which all
    paths start from.  Every piece of a path but the last must lead to a
    directory, and names and paths are of limited length; nothing is known about
    what is outside. -/

namespace ThemeTokens

/-- What a name stands for. -/
inductive StoreNode where
  | file (text : String)
  | directory
  deriving DecidableEq, Inhabited, Repr

/-- Files and directories, each named by the names on the way to it. -/
structure FileStore where
  nodes : List (List String × StoreNode)
  deriving Inhabited

namespace FileStore

/-- A store without any file. -/
def empty : FileStore := ⟨[]⟩

/-- What names lead to; no names lead to the directory that paths start from. -/
def get? (store : FileStore) (names : List String) : Option StoreNode :=
  if names.isEmpty then some .directory else store.nodes.lookup names

/-- Puts something where names lead to. -/
def insert (store : FileStore) (names : List String) (node : StoreNode) : FileStore :=
  ⟨(names, node) :: store.nodes.filter (·.1 != names)⟩

/-- Forgets what names lead to. -/
def erase (store : FileStore) (names : List String) : FileStore :=
  ⟨store.nodes.filter (·.1 != names)⟩

/-- How many octets a name can have. -/
def nameLimit : Nat := 255

/-- How many octets a path can have. -/
def pathLimit : Nat := 4095

/-- The pieces of a path; a path that does not start here leads nowhere. -/
def pieces (path : String) : Except FileFault (List String) :=
  if path.toList.contains '\x00' then .error .zeroInName
  else if pathLimit < path.utf8ByteSize then .error .nameTooLong
  else if path.isEmpty || Path.isRooted path then .error .notFound
  else .ok ((Text.splitAt '/' path.toList).map String.ofList)

/-- One piece on from a directory: itself, the one around it, or a name in
    it. -/
def follow (store : FileStore) (names : List String) (piece : String) :
    Except FileFault (List String) :=
  match store.get? names with
  | some .directory =>
      if piece = "" ∨ piece = "." then .ok names
      else if piece = ".." then
        if names.isEmpty then .error .notFound else .ok names.dropLast
      else if nameLimit < piece.utf8ByteSize then .error .nameTooLong
      else .ok (names ++ [piece])
  | some (.file _) => .error .notDirectory
  | none => .error .notFound

/-- The names that pieces lead to. -/
def walk (store : FileStore) (pieces : List String) : Except FileFault (List String) :=
  pieces.foldlM store.follow []

/-- The names that a path leads to. -/
def locate (store : FileStore) (path : String) : Except FileFault (List String) := do
  store.walk (← pieces path)

/-- The text of a file. -/
def read (store : FileStore) (path : String) : Except FileFault String := do
  match store.get? (← store.locate path) with
  | some (.file text) => .ok text
  | some .directory => .error .isDirectory
  | none => .error .notFound

/-- Whether a path leads to a file. -/
def isFile (store : FileStore) (path : String) : Bool :=
  (store.read path).isOk

/-- Whether a path leads to a directory. -/
def isDirectory (store : FileStore) (path : String) : Bool :=
  match store.locate path with
  | .ok names => store.get? names == some .directory
  | .error _ => false

/-- Pieces up to the last that is not empty, the last one apart, and whether
    empty ones follow it. -/
def splitLast (pieces : List String) : List String × Option String × Bool :=
  let kept := (pieces.reverse.dropWhile (·.isEmpty)).reverse
  (kept.dropLast, kept.getLast?, decide (kept.length < pieces.length))

/-- Makes a directory in a directory that exists. -/
def makeDirectory (store : FileStore) (path : String) : Except FileFault FileStore := do
  let (before, last, _) := splitLast (← pieces path)
  let names ← store.follow (← store.walk before) (last.getD ".")
  match store.get? names with
  | none => return store.insert names .directory
  | some _ => .error .alreadyExists

/-- Makes a directory unless it is one already. -/
def ensureDirectory (store : FileStore) (path : String) : Except FileFault FileStore :=
  if store.isDirectory path then .ok store else store.makeDirectory path

/-- Writes a file in a directory that exists. -/
def write (store : FileStore) (path text : String) : Except FileFault FileStore := do
  let (before, last, isOpen) := splitLast (← pieces path)
  let directory ← store.follow (← store.walk before) "."
  let name := last.getD "."
  if isOpen ∨ name = "." ∨ name = ".." then .error .isDirectory
  else
    let names ← store.follow directory name
    match store.get? names with
    | some .directory => .error .isDirectory
    | _ => return store.insert names (.file text)

/-- A change of the store; one that fails leaves the store as it was. -/
def change (f : FileStore → Except FileFault FileStore) :
    StateM FileStore (Except FileFault Unit) :=
  modifyGet fun store =>
    match f store with
    | .ok store => (.ok (), store)
    | .error fault => (.error fault, store)

/-- Makes sure of a directory.  If the way to it is missing, that is made first,
    and stays even if the directory cannot be made. -/
def createDirectory : (fuel : Nat) → String → StateM FileStore (Except FileFault Unit)
  | 0, _ => return .error .notFound
  | fuel + 1, path => do
      if path.isEmpty then return .ok ()
      match ← change (·.ensureDirectory path), Path.parent? path with
      | .error .notFound, some parent =>
          match ← createDirectory fuel parent with
          | .ok () => change (·.ensureDirectory path)
          | .error fault => return .error fault
      | result, _ => return result

/-- Makes sure of a directory and of all directories on the way to it. -/
def createAll (path : String) : StateM FileStore (Except FileFault Unit) :=
  createDirectory (path.length + 1) path

/-- Removes a file; none if there is no such file. -/
def remove? (store : FileStore) (path : String) : Option FileStore :=
  match store.locate path with
  | .ok names =>
      match store.get? names with
      | some (.file _) => some (store.erase names)
      | _ => none
  | .error _ => none

/-- Writes a file and makes its directory first; what cannot be written is
    left out. -/
def put (store : FileStore) (path text : String) : FileStore :=
  let made := match Path.parent? path with
    | some directory => ((createAll directory).run store).2
    | none => store
  (made.write path text).toOption.getD made

/-- A store with these files. -/
def ofList (files : List (String × String)) : FileStore :=
  files.foldl (fun store (path, text) => store.put path text) .empty

end FileStore

instance : FileAccess (StateM FileStore) where
  read path := return (← get).read path
  isFile path := return (← get).isFile path
  createDirectory path := FileStore.createAll path
  write path text := FileStore.change (·.write path text)

end ThemeTokens
