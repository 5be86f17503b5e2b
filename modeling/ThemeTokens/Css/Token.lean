import ThemeTokens.Decimal.Layout
import ThemeTokens.Text.Quoted

/-! # Tokens of a stylesheet

    The tokens of CSS Syntax Level 3.  Names and strings hold their text with
    escapes resolved; numbers keep the digits as written and are computed only
    where a message shows them. -/

namespace ThemeTokens.Css

/-- A number as written. -/
structure Numeral where
  /-- The sign, if there is one. -/
  sign : Option Char
  whole : List Char
  /-- The digits behind the point, if there is one. -/
  fraction : Option (List Char)
  /-- The sign and digits of the exponent, if there is one. -/
  exponent : Option (Bool × List Char)
  deriving DecidableEq, Repr

/-- A token; brackets and functions open a block. -/
inductive Token where
  | ident (name : String)
  | atKeyword (name : String)
  | hash (name : String)
  | idHash (name : String)
  | quotedString (text : String)
  | badString (text : String)
  | unquotedUrl (text : String)
  | badUrl (text : String)
  | delim (c : Char)
  | number (n : Numeral)
  | percentage (n : Numeral)
  | dimension (n : Numeral) (unit : String)
  | whiteSpace (text : String)
  | comment (text : String)
  | colon
  | semicolon
  | comma
  | includeMatch
  | dashMatch
  | prefixMatch
  | suffixMatch
  | substringMatch
  | commentOpen
  | commentClose
  | function (name : String)
  | openParenthesis
  | openSquare
  | openCurly
  | closeParenthesis
  | closeSquare
  | closeCurly
  deriving DecidableEq, Repr

namespace Numeral

/-- The value of a decimal digit. -/
def digit (c : Char) : Float :=
  (c.toNat - 48).toFloat

/-- Digits added up in binary, most significant first. -/
def sum (digits : List Char) : Float :=
  digits.foldl (fun n c => n * 10.0 + digit c) 0.0

/-- Digits behind the point added up in binary, each with its own weight. -/
def fractionSum (digits : List Char) : Float :=
  (digits.foldl
    (fun (total, weight) c => (total + digit c * weight, weight * 0.1))
    ((0.0 : Float), (0.1 : Float))).1

/-- The value in 64 bits. -/
def value (n : Numeral) : Float :=
  let unsigned := sum n.whole + fractionSum (n.fraction.getD [])
  let signed := (if n.sign = some '-' then -1.0 else 1.0) * unsigned
  match n.exponent with
  | none => signed
  | some (negative, digits) =>
      signed * Float.pow 10.0 ((if negative then -1.0 else 1.0) * sum digits)

/-- The value as a 32-bit integer, of a number without point and exponent;
    numbers out of range go to the nearer end. -/
def integer? (n : Numeral) : Option Int :=
  if n.fraction.isSome || n.exponent.isSome then none
  else
    let size : Nat := n.whole.foldl (fun k c => k * 10 + (c.toNat - 48)) 0
    some <| if n.sign = some '-' then max (-2147483648) (-(size : Int))
      else min 2147483647 size

/-- A number in 32 bits as messages show it. -/
def decimal (x : Float) : String :=
  Decimal.Layout.debug.write (.ofFloat32 x.toFloat32)

/-- The sign and value fields of a numeric token, the value named `field`. -/
def describe (n : Numeral) (field : String) (x : Float) : String :=
  "has_sign: " ++ (if n.sign.isSome then "true" else "false")
    ++ ", " ++ field ++ ": " ++ decimal x ++ ", int_value: "
    ++ match n.integer? with
      | some k => "Some(" ++ toString k ++ ")"
      | none => "None"

end Numeral

namespace Token

/-- A token as messages show it. -/
def describe : Token → String
  | .ident name => named "Ident" name
  | .atKeyword name => named "AtKeyword" name
  | .hash name => named "Hash" name
  | .idHash name => named "IDHash" name
  | .quotedString text => named "QuotedString" text
  | .badString text => named "BadString" text
  | .unquotedUrl text => named "UnquotedUrl" text
  | .badUrl text => named "BadUrl" text
  | .delim c => "Delim(" ++ Text.quotedChar c ++ ")"
  | .number n => fields "Number" (n.describe "value" n.value)
  | .percentage n => fields "Percentage" (n.describe "unit_value" (n.value / 100.0))
  | .dimension n unit =>
      fields "Dimension" (n.describe "value" n.value ++ ", unit: " ++ Text.quoted unit)
  | .whiteSpace text => named "WhiteSpace" text
  | .comment text => named "Comment" text
  | .colon => "Colon"
  | .semicolon => "Semicolon"
  | .comma => "Comma"
  | .includeMatch => "IncludeMatch"
  | .dashMatch => "DashMatch"
  | .prefixMatch => "PrefixMatch"
  | .suffixMatch => "SuffixMatch"
  | .substringMatch => "SubstringMatch"
  | .commentOpen => "CDO"
  | .commentClose => "CDC"
  | .function name => named "Function" name
  | .openParenthesis => "ParenthesisBlock"
  | .openSquare => "SquareBracketBlock"
  | .openCurly => "CurlyBracketBlock"
  | .closeParenthesis => "CloseParenthesis"
  | .closeSquare => "CloseSquareBracket"
  | .closeCurly => "CloseCurlyBracket"
where
  /-- A kind of token with its text. -/
  named (kind text : String) : String :=
    kind ++ "(" ++ Text.quoted text ++ ")"
  /-- A kind of token with its fields. -/
  fields (kind inner : String) : String :=
    kind ++ " \x7b " ++ inner ++ " \x7d"

/-- The token that closes the block this one opens. -/
def closer? : Token → Option Token
  | .function _ => some .closeParenthesis
  | .openParenthesis => some .closeParenthesis
  | .openSquare => some .closeSquare
  | .openCurly => some .closeCurly
  | _ => none

/-- White space and comments, which separate tokens. -/
def isBlank : Token → Bool
  | .whiteSpace _ => true
  | .comment _ => true
  | _ => false

end Token

end ThemeTokens.Css
