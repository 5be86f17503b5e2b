/-! # Tokens of YAML

    The tokens of a YAML text.  Next to the marks that are written there are
    marks that indentation implies: where block collections start and end, and
    the mark in front of a key. -/

namespace ThemeTokens.Yaml

/-- A token. -/
inductive Token where
  | streamEnd
  | version (major minor : Nat)
  | tagHandle (handle lead : List Char)
  | documentStart
  | documentEnd
  | blockSequenceStart
  | blockMappingStart
  | blockEnd
  | flowSequenceStart
  | flowSequenceEnd
  | flowMappingStart
  | flowMappingEnd
  | blockEntry
  | flowEntry
  | key
  | value
  | alias (name : List Char)
  | anchor (name : List Char)
  | tag (handle suffix : List Char)
  /-- A scalar; a plain one is without quotes and without a block mark. -/
  | scalar (text : List Char) (plain : Bool)
  deriving DecidableEq, Inhabited, Repr

end ThemeTokens.Yaml
