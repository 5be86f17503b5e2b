import ThemeTokens.Token.Basic

/-! # Sameness of token trees

    Two trees are the same when they hold the same tokens under the same names,
    whatever the order. -/

namespace ThemeTokens

mutual

/-- Whether two tokens are the same up to order. -/
def TokenValue.same : TokenValue → TokenValue → Bool
  | .value text, .value other => text == other
  | .group entries, .group others =>
      entries.length == others.length && TokenValue.sameAll entries others
  | _, _ => false

/-- Whether each of the entries is among the others, up to order. -/
def TokenValue.sameAll :
    List (String × TokenValue) → List (String × TokenValue) → Bool
  | [], _ => true
  | (key, t) :: rest, others =>
      (match Pairs.get? key others with
        | some other => t.same other
        | none => false) && TokenValue.sameAll rest others

end

/-- Whether two maps hold the same tokens, whatever the order. -/
def TokenMap.same (tokens others : TokenMap) : Bool :=
  tokens.toValue.same others.toValue

end ThemeTokens
