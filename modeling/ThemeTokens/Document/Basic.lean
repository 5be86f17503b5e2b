import ThemeTokens.Decimal.Layout
import ThemeTokens.Text.Quoted

/-! # Documents

    What the readers of configuration texts hand over: the values of a document
    in the order written, as far as the text could be read.  A fault of the text
    is a value itself, `broken`, at the place where reading stopped, so that a
    value of the wrong kind in front of it is reported first. -/

namespace ThemeTokens

/-- What a scalar denotes. -/
inductive Scalar where
  | null
  | boolean (b : Bool)
  | integer (n : Int)
  /-- An integer that takes more than 64 bits. -/
  | wide (n : Int)
  | decimal (x : Float)
  | text (s : String)
  /-- A scalar that is not of the type it claims to be. -/
  | mismatch

/-- A value of a document.  `named` values carry a type name of their own, and a
    `blank` scalar is one of which nothing is written. -/
inductive Document where
  /-- A scalar with its text. -/
  | scalar (text : String) (denotes : Scalar) (blank named : Bool)
  /-- A sequence; no configuration holds one, so its items are not kept. -/
  | sequence (named : Bool)
  | mapping (entries : List (Document × Document)) (named : Bool)
  /-- A repetition of the value with this number. -/
  | alias (number : Nat)
  /-- The text stops being a document here. -/
  | broken
  deriving Inhabited

/-- A document with the values that can be repeated in it. -/
structure Source where
  root : Document
  /-- The numbered values. -/
  anchors : List (Nat × Document)
  /-- How many repetitions are allowed. -/
  repetitions : Nat
  /-- Nothing is wrong behind the document. -/
  sound : Bool

/-- What sets one document language apart from another. -/
structure Dialect where
  /-- The name of the absent value in messages. -/
  nullName : String
  /-- A decimal number in messages. -/
  decimalText : Float → String
  /-- How many mappings may be nested. -/
  depth : Nat

/-- A scalar as messages show it. -/
def Scalar.describe (dialect : Dialect) : Scalar → String
  | .null => dialect.nullName
  | .boolean b => "boolean `" ++ toString b ++ "`"
  | .integer n => "integer `" ++ toString n ++ "`"
  | .wide n =>
      "integer `" ++ toString n ++ "` as " ++ if n < 0 then "i128" else "u128"
  | .decimal x => "floating point `" ++ dialect.decimalText x ++ "`"
  | .text s => "string " ++ Text.quoted s
  | .mismatch => ""

end ThemeTokens
