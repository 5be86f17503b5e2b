import ThemeTokens.Document.Basic
import ThemeTokens.Text.Digit
import ThemeTokens.Text.Search

/-! # What YAML scalars denote

    A plain scalar without a tag is a null, a boolean, a number or else a text,
    by its spelling.  A tag of the standard asks for one of those types; a tag
    of the author's own leaves the spelling to decide, and names the value if
    the tag is a text. -/

namespace ThemeTokens.Yaml

/-- More than one digit, the first of them a zero; such a scalar is no
    number. -/
def isPadded (cs : List Char) : Bool :=
  match cs with
  | '0' :: c :: rest => (c :: rest).all Char.isDigit
  | _ => false

/-- A scalar without its sign. -/
def withoutSign (cs : List Char) : List Char :=
  match cs with
  | '-' :: rest => rest
  | '+' :: rest => rest
  | _ => cs

/-- A number without sign, in the base that its first two characters say. -/
def basedNatural? (cs : List Char) : Option Nat :=
  match cs with
  | '0' :: 'x' :: digits => Text.natural? 16 digits
  | '0' :: 'o' :: digits => Text.natural? 8 digits
  | '0' :: 'b' :: digits => Text.natural? 2 digits
  | _ => if isPadded cs then none else Text.natural? 10 cs

/-- A whole number, as a scalar says it. -/
def whole? (cs : List Char) : Option Int :=
  match cs with
  | '-' :: rest => (basedNatural? rest).map fun n => -(n : Int)
  | _ => (basedNatural? (withoutSign cs)).map Int.ofNat

/-- A whole number of up to 128 bits. -/
def integer? (cs : List Char) : Option Scalar := do
  let n ← whole? cs
  if -Int.pow 2 63 ≤ n ∧ n < Int.pow 2 64 then some (.integer n)
  else if -Int.pow 2 127 ≤ n ∧ n < Int.pow 2 128 then some (.wide n)
  else none

/-- Digits around at most one point, with at least one digit: the number
    without the point, and how many digits follow the point. -/
def mantissa? (cs : List Char) : Option (Nat × Nat) :=
  let whole := cs.takeWhile Char.isDigit
  let digits? : Option (List Char × Nat) :=
    match cs.drop whole.length with
    | [] => some (whole, 0)
    | '.' :: fraction => some (whole ++ fraction, fraction.length)
    | _ => none
  digits?.bind fun (digits, places) => (Text.natural? 10 digits).map (·, places)

/-- The power of ten behind an `e`. -/
def power? (cs : List Char) : Option Int :=
  match cs with
  | '-' :: rest => (Text.natural? 10 rest).map fun n => -(n : Int)
  | '+' :: rest => (Text.natural? 10 rest).map Int.ofNat
  | _ => (Text.natural? 10 cs).map Int.ofNat

/-- `mantissa * 10 ^ power` in binary, rounded once; none if it is too large.
    Powers far beyond what can be told apart are not worked out. -/
def binary? (mantissa : Nat) (power : Int) : Option Float :=
  let size : Int := (Nat.toDigits 10 mantissa).length
  if mantissa = 0 ∨ power + size < -400 then some 0.0
  else if 400 < power + size then none
  else
    let x := Float.ofScientific mantissa (decide (power < 0)) power.natAbs
    if x.isInf then none else some x

/-- A finite decimal number without sign. -/
def unsignedDecimal? (cs : List Char) : Option Float := do
  let digits := cs.takeWhile fun c => c != 'e' && c != 'E'
  let (mantissa, places) ← mantissa? digits
  let power ← match cs.drop digits.length with
    | [] => some 0
    | _ :: power => power? power
  binary? mantissa (power - places)

/-- A decimal number, infinities and the undefined number included. -/
def decimal? (cs : List Char) : Option Float :=
  let spells (forms : List String) (cs : List Char) : Bool :=
    forms.any fun form => form.toList = cs
  let infinity := [".inf", ".Inf", ".INF"]
  if spells infinity cs then some (1.0 / 0.0)
  else if spells [".nan", ".NaN", ".NAN"] cs then some (0.0 / 0.0)
  else
    match cs with
    | '-' :: rest =>
        if spells infinity rest then some (-1.0 / 0.0)
        else (unsignedDecimal? rest).map fun x => -x
    | '+' :: rest =>
        if spells infinity rest then some (1.0 / 0.0) else unsignedDecimal? rest
    | _ => unsignedDecimal? cs

/-- A spelling of the absent value. -/
def isNull (text : String) : Bool :=
  ["null", "Null", "NULL", "~"].contains text

/-- A spelling of a truth value. -/
def boolean? (text : String) : Option Bool :=
  if ["true", "True", "TRUE"].contains text then some true
  else if ["false", "False", "FALSE"].contains text then some false
  else none

/-- What a plain scalar denotes by its spelling. -/
def denoted (text : String) : Scalar :=
  let cs := text.toList
  if text.isEmpty || isNull text then .null
  else
    match boolean? text, integer? cs with
    | some b, _ => .boolean b
    | none, some n => n
    | none, none =>
        if isPadded (withoutSign cs) then .text text
        else
          match decimal? cs with
          | some x => .decimal x
          | none => .text text

/-- What the tags of the standard begin with. -/
def standardLead : List Char := "tag:yaml.org,2002:".toList

/-- Whether a tag is the author's own. -/
def isOwnTag (tag : List Char) : Bool :=
  tag.head? == some '!'

/-- Whether octets, one in each character, are a text in UTF-8. -/
def isEncoded (octets : List Char) : Bool :=
  (ByteArray.mk (octets.map (·.toUInt8)).toArray).validateUTF8

/-- Whether a tag names a value: it is the author's own, and a text. -/
def isTypeName (tag : List Char) : Bool :=
  isOwnTag tag && isEncoded tag

/-- What a scalar with a tag of the standard denotes; none for a tag that asks
    for no particular type. -/
def denotedAs? (type : List Char) (text : String) : Option Scalar :=
  if type = "bool".toList then some ((boolean? text).elim .mismatch .boolean)
  else if type = "int".toList then some ((integer? text.toList).getD .mismatch)
  else if type = "float".toList then some ((decimal? text.toList).elim .mismatch .decimal)
  else if type = "null".toList then some (if isNull text then .null else .mismatch)
  else none

/-- What a scalar denotes. -/
def scalarValue (tag : Option (List Char)) (text : String) (plain : Bool) : Scalar :=
  match tag with
  | none => if plain then denoted text else .text text
  | some tag =>
      match (Text.after? standardLead tag).bind (denotedAs? · text) with
      | some scalar => scalar
      | none => if plain && isOwnTag tag then denoted text else .text text

end ThemeTokens.Yaml
