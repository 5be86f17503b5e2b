import ThemeTokens.Decimal.Shortest

/-! # Laying out decimals

    The digits of a number say what it is; a `Layout` says how it is written:
    for which magnitudes positionally, whether a whole number keeps a zero
    behind its point, and which of two equally near decimals is taken.  Outside
    the positional range a number is written with one digit before its point and
    an exponent. -/

namespace ThemeTokens.Decimal

/-- The decisions of one way to write numbers. -/
structure Layout where
  /-- Positions of the point that are written positionally. -/
  positional : Int → Bool
  /-- A whole number is written with `.0`. -/
  wholePoint : Bool
  /-- An exponent that is not negative has a sign. -/
  plusSign : Bool
  tie : Tie

namespace Layout

/-- Token texts: always positional, whole numbers without a point. -/
def token : Layout where
  positional _ := true
  wholePoint := false
  plusSign := false
  tie := .upper

/-- Numbers in messages about a document: always positional, with a point. -/
def message : Layout where
  positional _ := true
  wholePoint := true
  plusSign := false
  tie := .upper

/-- Numbers from 0.0001 up to 10^16 positionally, with a point. -/
def debug : Layout where
  positional p := -3 ≤ p && p ≤ 16
  wholePoint := true
  plusSign := false
  tie := .upper

/-- Numbers from 0.00001 up to 10^16 positionally, with a point; an even last
    digit settles a tie. -/
def compact : Layout where
  positional p := -5 < p && p ≤ 16
  wholePoint := true
  plusSign := true
  tie := .even

/-- The characters of decimal digits. -/
def text (digits : List Nat) : String :=
  String.ofList (digits.map fun d => Char.ofNat (48 + d))

/-- Zeros. -/
def zeros (n : Nat) : String :=
  String.ofList (List.replicate n '0')

/-- Digits with the point put in, zeros added where needed. -/
def fixed (layout : Layout) (d : Digits) : String :=
  let n : Int := d.digits.length
  if d.point ≤ 0 then
    "0." ++ zeros (-d.point).toNat ++ text d.digits
  else if d.point < n then
    text (d.digits.take d.point.toNat) ++ "." ++ text (d.digits.drop d.point.toNat)
  else
    text d.digits ++ zeros (d.point - n).toNat
      ++ if layout.wholePoint then ".0" else ""

/-- One digit before the point and an exponent. -/
def scientific (layout : Layout) (d : Digits) : String :=
  let lead := text (d.digits.take 1)
  let tail := d.digits.drop 1
  let sign := if layout.plusSign && 0 < d.point then "+" else ""
  lead ++ (if tail.isEmpty then "" else "." ++ text tail)
    ++ "e" ++ sign ++ toString (d.point - 1)

/-- A number as it is written. -/
def write (layout : Layout) : Reading → String
  | .nan => "NaN"
  | .infinite negative => (if negative then "-" else "") ++ "inf"
  | .zero negative =>
      (if negative then "-" else "") ++ if layout.wholePoint then "0.0" else "0"
  | .finite negative number =>
      let d := number.shortest layout.tie
      (if negative then "-" else "")
        ++ if layout.positional d.point then layout.fixed d else layout.scientific d

end Layout

end ThemeTokens.Decimal
