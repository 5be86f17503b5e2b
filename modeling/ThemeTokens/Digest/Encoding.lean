/-! # Digests as text

    A digest is written in hexadecimal, or in Base64 with the alphabet that is
    safe in addresses and without padding. -/

namespace ThemeTokens.Digest

/-- The digit with this value in lower case hexadecimal. -/
def hexDigit (n : Nat) : Char :=
  if n < 10 then Char.ofNat (48 + n) else Char.ofNat (87 + n)

/-- Two hexadecimal digits for each octet. -/
def hexText (bytes : List UInt8) : List Char :=
  bytes.flatMap fun b => [hexDigit (b.toNat / 16), hexDigit (b.toNat % 16)]

/-- The digit with this value in Base64. -/
def base64Digit (n : Nat) : Char :=
  if n < 26 then Char.ofNat (65 + n)
  else if n < 52 then Char.ofNat (71 + n)
  else if n < 62 then Char.ofNat (n - 4)
  else if n = 62 then '-' else '_'

/-- Four digits for each three octets, two or three digits for what is left. -/
def base64Text : List UInt8 → List Char
  | p :: q :: r :: rest =>
      let n := p.toNat * 65536 + q.toNat * 256 + r.toNat
      [base64Digit (n / 262144), base64Digit (n / 4096 % 64),
        base64Digit (n / 64 % 64), base64Digit (n % 64)] ++ base64Text rest
  | [p, q] =>
      let n := p.toNat * 1024 + q.toNat * 4
      [base64Digit (n / 4096), base64Digit (n / 64 % 64), base64Digit (n % 64)]
  | [p] => [base64Digit (p.toNat / 4), base64Digit (p.toNat * 16 % 64)]
  | [] => []

end ThemeTokens.Digest
