import ThemeTokens.Token.Basic

/-! # Listing leaves

    Every leaf of a tree with its dotted path, depth first, in the order
    written.  An empty prefix puts no dot in front, so leaves below a group
    named by the empty text are listed under their own names. -/

namespace ThemeTokens

/-- A path extended by one name. -/
def TokenPath.extend (stem name : String) : String :=
  if stem.isEmpty then name else stem ++ "." ++ name

mutual

/-- The leaves of a token found under the path `stem`. -/
def TokenValue.leaves (stem : String) : TokenValue → List (TokenPath × String)
  | .value text => [(⟨stem⟩, text)]
  | .group entries => TokenValue.leavesOf stem entries

/-- The leaves of entries found under the path `stem`. -/
def TokenValue.leavesOf (stem : String) :
    List (String × TokenValue) → List (TokenPath × String)
  | [] => []
  | (name, t) :: rest =>
      t.leaves (TokenPath.extend stem name) ++ TokenValue.leavesOf stem rest

end

/-- Every leaf with its dotted path, depth first. -/
def TokenMap.flatten (tokens : TokenMap) : List (TokenPath × String) :=
  TokenValue.leavesOf "" tokens.entries

end ThemeTokens
