import ThemeTokens.Document.Basic

/-! # Numbers in JSON

    Whole numbers within 64 bits are kept exactly.  Every other number is read
    in binary: its digits make up a 64-bit significand, as many as fit, which
    is then multiplied or divided by a power of ten.  A number too large for
    that is a fault. -/

namespace ThemeTokens.Json

/-- Leading digits and the rest. -/
def digits (cs : List Char) : List Char × List Char :=
  (cs.takeWhile Char.isDigit, cs.dropWhile Char.isDigit)

/-- The value of a digit. -/
def digitValue (c : Char) : Nat := c.toNat - 48

/-- One past the largest significand. -/
def significandLimit : Nat := Nat.pow 2 64

/-- Appends digits to a significand while it fits, and counts them. -/
def accumulate (significand : Nat) : List Char → Nat × Nat
  | [] => (significand, 0)
  | c :: cs =>
      let next := significand * 10 + digitValue c
      if next < significandLimit then
        let (total, count) := accumulate next cs
        (total, count + 1)
      else (significand, 0)

/-- A power of ten, for exponents up to 308. -/
def powerOfTen (n : Nat) : Float := Float.ofScientific 1 false n

/-- A number divided by a large power of ten, 308 places at a time. -/
def divideByPower (x : Float) : (rounds n : Nat) → Float
  | 0, _ => 0.0
  | rounds + 1, n =>
      if n ≤ 308 then x / powerOfTen n
      else if x == 0.0 then x
      else divideByPower (x / powerOfTen 308) rounds (n - 308)

/-- `significand * 10 ^ exponent` in binary, none if it is too large. -/
def scale (significand : Nat) (exponent : Int) : Option Float :=
  let x := Float.ofNat significand
  if 0 ≤ exponent then
    if exponent ≤ 308 then
      let y := x * powerOfTen exponent.toNat
      if y.isInf then none else some y
    else if significand = 0 then some x
    else none
  else some (divideByPower x 4 (-exponent).toNat)

/-- The largest exponent that is told apart from larger ones. -/
def exponentLimit : Nat := 2147483647

/-- The exponent at the front of a text, with the rest; none if a sign or the
    letter is not followed by a digit. -/
def exponent? (cs : List Char) : Option (Option (Bool × Nat) × List Char) :=
  match cs with
  | e :: tail =>
      if e = 'e' ∨ e = 'E' then
        let negative := tail.head? == some '-'
        let signed := negative || tail.head? == some '+'
        let (ds, rest) := digits (if signed then tail.drop 1 else tail)
        if ds.isEmpty then none
        else some (some (negative, ds.foldl (fun n c => n * 10 + digitValue c) 0), rest)
      else some (none, cs)
  | [] => some (none, [])

/-- The digits behind the point at the front of a text, with the rest; none if
    the point is not followed by a digit. -/
def fraction? (cs : List Char) : Option (Option (List Char) × List Char) :=
  match cs with
  | '.' :: tail =>
      let (ds, rest) := digits tail
      if ds.isEmpty then none else some (some ds, rest)
  | _ => some (none, cs)

/-- The whole part at the front of a text; no other digit follows a zero. -/
def whole? (cs : List Char) : Option (List Char × List Char) :=
  match digits cs with
  | ([], _) => none
  | ('0' :: _ :: _, _) => none
  | split => some split

/-- The value in binary of a number without sign. -/
def binaryValue (whole : List Char) (fraction : Option (List Char))
    (exponent : Option (Bool × Nat)) : Option Float :=
  let (head, count) := accumulate 0 whole
  let dropped : Int := whole.length - count
  let (significand, places) := accumulate head (fraction.getD [])
  let start : Int := dropped - places
  match exponent with
  | none => scale significand start
  | some (negative, n) =>
      if exponentLimit < n then
        if significand ≠ 0 ∧ negative = false then none else some 0.0
      else
        let bound : Int := exponentLimit
        let total := if negative then max (-bound - 1) (start - n) else min bound (start + n)
        scale significand total

/-- What a number denotes, given its sign and its parts. -/
def numberValue (negative : Bool) (whole : List Char)
    (fraction : Option (List Char)) (exponent : Option (Bool × Nat)) :
    Option Scalar :=
  let n := whole.foldl (fun n c => n * 10 + digitValue c) 0
  let isWhole := fraction.isNone && exponent.isNone
  if isWhole && !negative && decide (n < Nat.pow 2 64) then some (.integer n)
  else if isWhole && negative && decide (0 < n ∧ n ≤ Nat.pow 2 63) then
    some (.integer (-(n : Int)))
  else
    (binaryValue whole fraction exponent).map fun x =>
      .decimal (if negative then -x else x)

/-- The number at the front of a text, with the rest. -/
def number? (cs : List Char) : Option (Scalar × List Char) := do
  let negative := cs.head? == some '-'
  let (whole, rest) ← whole? (if negative then cs.drop 1 else cs)
  let (fraction, rest) ← fraction? rest
  let (exponent, rest) ← exponent? rest
  let value ← numberValue negative whole fraction exponent
  return (value, rest)

end ThemeTokens.Json
