/-! # MD5 digests

    The digest that names are hashed with.  The message is padded to whole
    blocks of 64 octets; each block is mixed into four words in 64 steps, each
    with its own shift and its own constant. -/

namespace ThemeTokens.Digest

/-- The state: four words. -/
structure Words where
  a : UInt32
  b : UInt32
  c : UInt32
  d : UInt32

/-- The state before the first block. -/
def Words.initial : Words := ⟨0x67452301, 0xEFCDAB89, 0x98BADCFE, 0x10325476⟩

/-- The shifts of the four rounds. -/
def shifts : List (List UInt32) :=
  [[7, 12, 17, 22], [5, 9, 14, 20], [4, 11, 16, 23], [6, 10, 15, 21]]

/-- The constant of each step, the integer part of `2 ^ 32 * |sin (i + 1)|`. -/
def constants : List UInt32 :=
  [
   0xD76AA478, 0xE8C7B756, 0x242070DB, 0xC1BDCEEE, 0xF57C0FAF, 0x4787C62A,
   0xA8304613, 0xFD469501, 0x698098D8, 0x8B44F7AF, 0xFFFF5BB1, 0x895CD7BE,
   0x6B901122, 0xFD987193, 0xA679438E, 0x49B40821, 0xF61E2562, 0xC040B340,
   0x265E5A51, 0xE9B6C7AA, 0xD62F105D, 0x02441453, 0xD8A1E681, 0xE7D3FBC8,
   0x21E1CDE6, 0xC33707D6, 0xF4D50D87, 0x455A14ED, 0xA9E3E905, 0xFCEFA3F8,
   0x676F02D9, 0x8D2A4C8A, 0xFFFA3942, 0x8771F681, 0x6D9D6122, 0xFDE5380C,
   0xA4BEEA44, 0x4BDECFA9, 0xF6BB4B60, 0xBEBFBC70, 0x289B7EC6, 0xEAA127FA,
   0xD4EF3085, 0x04881D05, 0xD9D4D039, 0xE6DB99E5, 0x1FA27CF8, 0xC4AC5665,
   0xF4292244, 0x432AFF97, 0xAB9423A7, 0xFC93A039, 0x655B59C3, 0x8F0CCC92,
   0xFFEFF47D, 0x85845DD1, 0x6FA87E4F, 0xFE2CE6E0, 0xA3014314, 0x4E0811A1,
   0xF7537E82, 0xBD3AF235, 0x2AD7D2BB, 0xEB86D391]

/-- A word rotated to the left. -/
def rotate (x n : UInt32) : UInt32 :=
  (x <<< n) ||| (x >>> (32 - n))

/-- The mixing function of a step and the word of the block it takes. -/
def mix (step : Nat) (w : Words) : UInt32 × Nat :=
  match step / 16 with
  | 0 => ((w.b &&& w.c) ||| (~~~w.b &&& w.d), step)
  | 1 => ((w.d &&& w.b) ||| (~~~w.d &&& w.c), (5 * step + 1) % 16)
  | 2 => (w.b ^^^ w.c ^^^ w.d, (3 * step + 5) % 16)
  | _ => (w.c ^^^ (w.b ||| ~~~w.d), (7 * step) % 16)

/-- One step. -/
def advance (block : List UInt32) (w : Words) (step : Nat) (constant : UInt32) :
    Words :=
  let (mixed, index) := mix step w
  let sum := mixed + w.a + constant + block.getD index 0
  let shift := (shifts.getD (step / 16) []).getD (step % 4) 0
  ⟨w.d, w.b + rotate sum shift, w.b, w.c⟩

/-- A block mixed into the state. -/
def compress (block : List UInt32) (w : Words) : Words :=
  let (out, _) := constants.foldl
    (fun (w, step) constant => (advance block w step constant, step + 1)) (w, 0)
  ⟨w.a + out.a, w.b + out.b, w.c + out.c, w.d + out.d⟩

/-- The octets of a number, lowest first. -/
def octets : (count n : Nat) → List UInt8
  | 0, _ => []
  | count + 1, n => UInt8.ofNat n :: octets count (n / 256)

/-- A message with its padding and its length in bits. -/
def padded (message : List UInt8) : List UInt8 :=
  let n := message.length
  message ++ 0x80 :: List.replicate ((119 - n % 64) % 64) 0 ++ octets 8 (8 * n)

/-- The words of octets, lowest octet first. -/
def wordsOf : List UInt8 → List UInt32
  | p :: q :: r :: s :: rest =>
      (p.toUInt32 ||| (q.toUInt32 <<< 8) ||| (r.toUInt32 <<< 16)
        ||| (s.toUInt32 <<< 24)) :: wordsOf rest
  | _ => []

/-- Words mixed in block by block. -/
def compressAll : (fuel : Nat) → List UInt32 → Words → Words
  | 0, _, w => w
  | fuel + 1, words, w =>
      if words.isEmpty then w
      else compressAll fuel (words.drop 16) (compress (words.take 16) w)

/-- The digest of a message, 16 octets. -/
def md5 (message : List UInt8) : List UInt8 :=
  let words := wordsOf (padded message)
  let w := compressAll words.length words .initial
  [w.a, w.b, w.c, w.d].flatMap fun x => octets 4 x.toNat

/-- The digest of a text in UTF-8. -/
def md5Text (text : String) : List UInt8 :=
  md5 text.toUTF8.toList

end ThemeTokens.Digest
