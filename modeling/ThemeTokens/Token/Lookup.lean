import ThemeTokens.Token.Basic

/-! # Looking tokens up

    A dotted path is followed one name at a time.  It ends at a leaf, at an
    inner node, or nowhere; a leaf met before the last name leads nowhere. -/

namespace ThemeTokens

/-- What a path leads to. -/
inductive Lookup where
  | value (text : String)
  | group
  | missing
  deriving DecidableEq, Inhabited, Repr

/-- The text found, if a leaf was. -/
def Lookup.value? : Lookup → Option String
  | .value text => some text
  | _ => none

/-- Whether a leaf was found. -/
def Lookup.isValue (found : Lookup) : Bool :=
  found.value?.isSome

namespace TokenMap

/-- Follows `names` from the group `entries`. -/
def follow (entries : List (String × TokenValue)) : List String → Lookup
  | [] => .missing
  | name :: names =>
      match Pairs.get? name entries, names with
      | none, _ => .missing
      | some (.value text), [] => .value text
      | some (.value _), _ :: _ => .missing
      | some (.group _), [] => .group
      | some (.group inner), _ :: _ => follow inner names

/-- What `path` leads to in `tokens`. -/
def lookup (tokens : TokenMap) (path : TokenPath) : Lookup :=
  follow tokens.entries path.segments

/-- The text `path` leads to, if it leads to a leaf. -/
def value? (tokens : TokenMap) (path : TokenPath) : Option String :=
  (tokens.lookup path).value?

end TokenMap

end ThemeTokens
