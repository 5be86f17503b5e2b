import ThemeTokens.Error

/-! # Access to files

    What the work needs from whoever keeps the files.  The same code runs over
    a store in memory and over a disk. -/

namespace ThemeTokens

/-- Reading and writing files named by their paths. -/
class FileAccess (m : Type → Type) where
  /-- The text of a file. -/
  read : String → m (Except FileFault String)
  /-- Whether a path leads to a file. -/
  isFile : String → m Bool
  /-- Makes sure of a directory and of all directories on the way to it. -/
  createDirectory : String → m (Except FileFault Unit)
  /-- Writes a file, over what it held before. -/
  write : (path text : String) → m (Except FileFault Unit)

end ThemeTokens
