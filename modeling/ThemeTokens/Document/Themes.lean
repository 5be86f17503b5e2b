import ThemeTokens.Config.Theme
import ThemeTokens.Document.Basic
import ThemeTokens.Error

/-! # Themes from documents

    A configuration is a mapping of theme names to token maps, and a token is a
    scalar or a mapping.  The first value of the wrong kind, in the order of the
    text, is reported; a fault of the text is reported if reading gets to it. -/

namespace ThemeTokens

/-- Reading with a number of repetitions left. -/
abbrev ReadM := StateT Nat (Except LoadFault)

/-- A token with distinct names. -/
abbrev DistinctToken := { t : TokenValue // t.Distinct }

namespace Source

variable (source : Source) (dialect : Dialect)

/-- A fault of the text. -/
def malformed {α : Type} : ReadM α := throw .malformed

/-- A value of the wrong kind. -/
def wrongKind {α : Type} (found expected : String) : ReadM α :=
  throw (.wrongKind found expected)

/-- The value that a repetition stands for. -/
def dereference : Document → ReadM Document
  | .alias number => do
      let left ← get
      match left, source.anchors.lookup number with
      | left + 1, some value => do
          set left
          return value
      | _, _ => malformed
  | value => return value

/-- The text of a key. -/
def key (value : Document) : ReadM String := do
  match ← source.dereference value with
  | .scalar text _ _ _ => return text
  | .sequence _ => wrongKind "sequence" "a string"
  | .mapping _ _ => wrongKind "map" "a string"
  | _ => malformed

/-- The entries of a mapping put into a map one after the other. -/
def collect {α β : Type} (read : Document → ReadM α)
    (insert : β → String → α → β) : β → List (Document × Document) → ReadM β
  | map, [] => return map
  | map, (k, v) :: rest => do
      let name ← source.key k
      let x ← read v
      collect read insert (insert map name x) rest

/-- What a token may be, for messages. -/
def tokenExpected : String := "a token value or a map of tokens"

/-- A scalar as a token. -/
def scalarToken (denotes : Scalar) : ReadM DistinctToken :=
  let leaf (text : String) : ReadM DistinctToken :=
    return ⟨.value text, .value text⟩
  match denotes with
  | .null => return ⟨.group [], .nil⟩
  | .boolean b => leaf (toString b)
  | .integer n => leaf (toString n)
  | .wide n => wrongKind (Scalar.describe dialect (.wide n)) tokenExpected
  | .decimal x => leaf (Decimal.Layout.token.write (.ofFloat x))
  | .text s => leaf s
  | .mismatch => malformed

/-- A token, with the number of mappings that may be nested in it. -/
def token : (depth : Nat) → Document → ReadM DistinctToken
  | depth, value => do
      match ← source.dereference value with
      | .scalar _ denotes _ named =>
          if named then wrongKind "enum" tokenExpected
          else scalarToken dialect denotes
      | .sequence named =>
          if named then wrongKind "enum" tokenExpected
          else if depth = 0 then malformed
          else wrongKind "sequence" tokenExpected
      | .mapping entries named =>
          if named then wrongKind "enum" tokenExpected
          else
            match depth with
            | 0 => malformed
            | depth + 1 => do
                let tokens ← source.collect (token depth)
                  (fun (map : TokenMap) name t => map.insert name t.1 t.2) .empty entries
                return ⟨tokens.toValue, tokens.distinct⟩
      | _ => malformed

/-- What is due where entries are read, for messages. -/
def mapExpected : String := "a map"

/-- A mapping put into a map, with the number of mappings that may be nested
    from here on; a blank scalar is an empty mapping. -/
def mapOf {α β : Type} (read : Nat → Document → ReadM α)
    (insert : β → String → α → β) (empty : β) (depth : Nat) (value : Document) :
    ReadM β := do
  match ← source.dereference value with
  | .scalar _ denotes blank _ =>
      if blank then return empty
      else
        match denotes with
        | .mismatch => malformed
        | _ => wrongKind (denotes.describe dialect) mapExpected
  | .sequence _ => wrongKind "sequence" mapExpected
  | .mapping entries _ =>
      match depth with
      | 0 => malformed
      | depth + 1 => source.collect (read depth) insert empty entries
  | _ => malformed

/-- The tokens of a theme. -/
def tokenMap (depth : Nat) (value : Document) : ReadM TokenMap :=
  source.mapOf dialect (source.token dialect)
    (fun map name t => map.insert name t.1 t.2) .empty depth value

/-- A whole document read as `read` says. -/
def whole {α : Type} (read : Nat → Document → ReadM α) : Except LoadFault α := do
  let (x, _) ← (read dialect.depth source.root).run source.repetitions
  if source.sound then return x else throw .malformed

/-- The themes of a configuration. -/
def themes : Except LoadFault RawConfig :=
  source.whole dialect
    (source.mapOf dialect (source.tokenMap dialect) Entries.insert .empty)

/-- The tokens of a document that is a single theme. -/
def tokens : Except LoadFault TokenMap :=
  source.whole dialect (source.tokenMap dialect)

end Source

end ThemeTokens
