/-! # Shortest decimals

    A binary number is written with the fewest decimal digits that still read
    back as the same number.  The number is a mantissa times a power of two;
    around it lies the interval of reals that round to it.  On the decimal grid
    with one digit, then two, and so on, the two neighbours of the number are
    tried until one falls into the interval. -/

namespace ThemeTokens.Decimal

/-- A positive binary number `mantissa * 2 ^ exponent` with the width of the
    interval that rounds to it. -/
structure Binary where
  mantissa : Nat
  exponent : Int
  /-- The number is a power of two whose lower neighbour lies half as far
      away as the upper one. -/
  narrowBelow : Bool
  deriving Repr

/-- What a floating point word stands for. -/
inductive Reading where
  | nan
  | infinite (negative : Bool)
  | zero (negative : Bool)
  | finite (negative : Bool) (number : Binary)
  deriving Repr

/-- Reads a word with the given number of fraction bits and exponent bits. -/
def Reading.ofBits (fractionBits exponentBits word : Nat) : Reading :=
  let fraction := word % Nat.pow 2 fractionBits
  let power := word / Nat.pow 2 fractionBits % Nat.pow 2 exponentBits
  let negative := word / Nat.pow 2 (fractionBits + exponentBits) % 2 == 1
  let bias : Int := Int.pow 2 (exponentBits - 1) - 1 + fractionBits
  if power == Nat.pow 2 exponentBits - 1 then
    if fraction == 0 then .infinite negative else .nan
  else if power == 0 then
    if fraction == 0 then .zero negative
    else .finite negative ⟨fraction, 1 - bias, false⟩
  else
    .finite negative
      ⟨fraction + Nat.pow 2 fractionBits, power - bias, fraction == 0 && power > 1⟩

/-- A number in 64 bits. -/
def Reading.ofFloat (x : Float) : Reading :=
  .ofBits 52 11 x.toBits.toNat

/-- A number in 32 bits. -/
def Reading.ofFloat32 (x : Float32) : Reading :=
  .ofBits 23 8 x.toBits.toNat

/-- Which of two equally near decimals is taken. -/
inductive Tie where
  | upper
  /-- The one with an even last digit. -/
  | even
  deriving DecidableEq, Repr

/-- Decimal digits `d₁ d₂ …` standing for `0.d₁d₂… * 10 ^ point`. -/
structure Digits where
  digits : List Nat
  point : Int
  deriving DecidableEq, Repr

namespace Binary

/-- The powers of ten and two that turn `x * 10 ^ e` and `y * 2 ^ q` into
    integers over a common denominator. -/
def scales (e q : Int) : Nat × Nat :=
  (Nat.pow 10 e.toNat * Nat.pow 2 (-q).toNat, Nat.pow 2 q.toNat * Nat.pow 10 (-e).toNat)

/-- Whether `candidate * 10 ^ e` rounds to the number.  The ends of the
    interval belong to it when the mantissa is even. -/
def roundsFrom (b : Binary) (candidate : Nat) (e : Int) : Bool :=
  let (ten, two) := scales e (b.exponent - 2)
  let value := candidate * ten
  let low := (4 * b.mantissa - if b.narrowBelow then 1 else 2) * two
  let high := (4 * b.mantissa + 2) * two
  if b.mantissa % 2 == 0 then low ≤ value && value ≤ high
  else low < value && value < high

/-- The least `k` in reach of the guess with the number below `10 ^ k`. -/
def magnitude (b : Binary) : Int :=
  let bits : Int := b.mantissa.log2 + b.exponent
  let guess := bits * 30103 / 100000 - 1
  let below (k : Int) : Bool :=
    let (ten, two) := scales k b.exponent
    b.mantissa * two < ten
  if below guess then guess
  else if below (guess + 1) then guess + 1
  else if below (guess + 2) then guess + 2
  else guess + 3

/-- The neighbour on the grid of step `10 ^ e` that reads back, the nearer one
    if both do; of two equally near ones `tie` says which. -/
def onGrid? (b : Binary) (tie : Tie) (e : Int) : Option Nat :=
  let (ten, two) := scales e b.exponent
  let value := b.mantissa * two
  let down := value / ten
  let up := down + 1
  let doubled := 2 * (value - down * ten)
  let upNearer :=
    decide (ten < doubled) || (doubled == ten && (tie == .upper || down % 2 == 1))
  match b.roundsFrom down e, b.roundsFrom up e with
  | true, true => some (if upNearer then up else down)
  | true, false => some down
  | false, true => some up
  | false, false => none

/-- Tries grids of `count`, `count + 1`, … digits. -/
def search (b : Binary) (tie : Tie) (k : Int) : (fuel count : Nat) → Nat × Int
  | 0, count => (0, k - count)
  | fuel + 1, count =>
      match b.onGrid? tie (k - count) with
      | some n => (n, k - count)
      | none => search b tie k fuel (count + 1)

/-- The decimal digits of a natural number. -/
def digitsOf (n : Nat) : List Nat :=
  (Nat.toDigits 10 n).map fun c => c.toNat - 48

/-- The fewest digits that read back as the number; 17 suffice for the widest
    format in use. -/
def shortest (b : Binary) (tie : Tie) : Digits :=
  let (n, e) := b.search tie b.magnitude 18 1
  let ds := digitsOf n
  ⟨(ds.reverse.dropWhile (· == 0)).reverse, ds.length + e⟩

end Binary

end ThemeTokens.Decimal
