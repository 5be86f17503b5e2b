import ThemeTokens.Json.Number
import ThemeTokens.Text.Digit

/-! # Reading JSON

    A text is read up to its first fault, which becomes a broken value in the
    place where it stands.  Reading also stops at an array, which no
    configuration holds. -/

namespace ThemeTokens.Json

/-- Blanks between the parts of a document. -/
def isBlank (c : Char) : Bool :=
  c == ' ' || c == '\n' || c == '\t' || c == '\r'

def skipBlanks (cs : List Char) : List Char :=
  cs.dropWhile isBlank

/-- Four hexadecimal digits. -/
def hexFour? : List Char → Option (Nat × List Char)
  | a :: b :: c :: d :: rest => do
      let n ← Text.natural? 16 [a, b, c, d]
      return (n, rest)
  | _ => none

/-- The character behind `\u`; a pair of surrogates makes one, a surrogate
    alone is a fault. -/
def unicode? (cs : List Char) : Option (Char × List Char) := do
  let (n, rest) ← hexFour? cs
  if 0xD800 ≤ n ∧ n ≤ 0xDBFF then
    match rest with
    | '\\' :: 'u' :: low => do
        let (m, rest) ← hexFour? low
        if 0xDC00 ≤ m ∧ m ≤ 0xDFFF then
          return (Char.ofNat (0x10000 + (n - 0xD800) * 1024 + (m - 0xDC00)), rest)
        else none
    | _ => none
  else if 0xDC00 ≤ n ∧ n ≤ 0xDFFF then none
  else return (Char.ofNat n, rest)

/-- The character that a letter behind a backslash stands for. -/
def escaped? (c : Char) : Option Char :=
  match c with
  | '"' => some '"'
  | '\\' => some '\\'
  | '/' => some '/'
  | 'b' => some '\x08'
  | 'f' => some '\x0c'
  | 'n' => some '\n'
  | 'r' => some '\r'
  | 't' => some '\t'
  | _ => none

/-- A string up to its closing quote, with the rest. -/
def string? : (fuel : Nat) → List Char → Option (List Char × List Char)
  | 0, _ => none
  | _ + 1, [] => none
  | fuel + 1, c :: cs =>
      if c = '"' then some ([], cs)
      else if c.toNat < 0x20 then none
      else if c = '\\' then
        match cs with
        | 'u' :: digits => do
            let (x, rest) ← unicode? digits
            let (text, rest) ← string? fuel rest
            return (x :: text, rest)
        | e :: rest => do
            let x ← escaped? e
            let (text, rest) ← string? fuel rest
            return (x :: text, rest)
        | [] => none
      else do
        let (text, rest) ← string? fuel cs
        return (c :: text, rest)

/-- A value, and the rest of the text unless reading stopped. -/
abbrev Outcome (α : Type) := α × Option (List Char)

/-- Reading stopped at a fault. -/
def stopped : Outcome Document := (.broken, none)

/-- A value that is no collection; none is blank or carries a type name. -/
def leaf (text : String) (denotes : Scalar) : Document :=
  .scalar text denotes false false

/-- A text value. -/
def textValue (text : List Char) : Document :=
  let s := String.ofList text
  leaf s (.text s)

mutual

/-- The value at the front of a text. -/
def value : (fuel : Nat) → List Char → Outcome Document
  | 0, _ => stopped
  | fuel + 1, cs =>
      match skipBlanks cs with
      | 'n' :: 'u' :: 'l' :: 'l' :: rest => (leaf "null" .null, some rest)
      | 't' :: 'r' :: 'u' :: 'e' :: rest =>
          (leaf "true" (.boolean true), some rest)
      | 'f' :: 'a' :: 'l' :: 's' :: 'e' :: rest =>
          (leaf "false" (.boolean false), some rest)
      | '"' :: tail =>
          match string? (tail.length + 1) tail with
          | some (text, rest) => (textValue text, some rest)
          | none => stopped
      | '[' :: _ => (.sequence false, none)
      | '{' :: tail =>
          let (entries, rest) := members fuel true tail
          (.mapping entries false, rest)
      | rest =>
          match number? rest with
          | some (n, rest) => (leaf "" n, some rest)
          | none => stopped

/-- The members of an object up to its closing bracket. -/
def members : (fuel : Nat) → (first : Bool) → List Char →
    Outcome (List (Document × Document))
  | 0, _, _ => ([(.broken, .broken)], none)
  | fuel + 1, first, cs =>
      let broken : Outcome (List (Document × Document)) := ([(.broken, .broken)], none)
      let member (tail : List Char) : Outcome (List (Document × Document)) :=
        match skipBlanks tail with
        | '"' :: text =>
            match string? (text.length + 1) text with
            | none => broken
            | some (name, rest) =>
                match skipBlanks rest with
                | ':' :: rest =>
                    match value fuel rest with
                    | (v, some rest) =>
                        let (more, rest) := members fuel false rest
                        ((textValue name, v) :: more, rest)
                    | (v, none) => ([(textValue name, v)], none)
                | _ => ([(textValue name, .broken)], none)
        | _ => broken
      match skipBlanks cs with
      | '}' :: rest => ([], some rest)
      | ',' :: rest => if first then broken else member rest
      | rest => if first then member rest else broken

end

/-- The numbers and names of JSON in messages; 127 objects may be nested. -/
def dialect : Dialect where
  nullName := "null"
  decimalText x := Decimal.Layout.compact.write (.ofFloat x)
  depth := 127

/-- The document in a text; only blanks may follow it. -/
def document (text : String) : Source :=
  let cs := text.toList
  let (root, rest) := value (cs.length + 1) cs
  { root, anchors := [], repetitions := 0
    sound := match rest with
      | some rest => (skipBlanks rest).isEmpty
      | none => false }

end ThemeTokens.Json
