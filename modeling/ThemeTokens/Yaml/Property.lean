import ThemeTokens.Yaml.Scalar
import ThemeTokens.Yaml.Token

/-! # Names, tags and directives in YAML

    Names refer to repeated values, tags name the type of a value, and
    directives at the front of a document say how its tags are to be read.
    Tags are kept as octets: each character of one stands for an octet.  An octet
    that is zero ends a tag, whatever follows it. -/

namespace ThemeTokens.Yaml

/-- A name behind its sign. -/
def name? (here : Cursor) : Option (List Char × Cursor) :=
  let (name, behind) := here.span isWord
  let ends := behind.atSpaceOrEnd || behind.next fun c => "?:,]\x7d%@\x60".toList.contains c
  if name.isEmpty || !ends then none else some (name, behind)

/-- A tag handle: an exclamation mark, and perhaps a word with another one. -/
def handle? (here : Cursor) : Option (List Char × Cursor) :=
  if here.isAt '!' then
    let (word, behind) := (here.past 1).span isWord
    if behind.isAt '!' then some ('!' :: word ++ ['!'], behind.past 1)
    else some ('!' :: word, behind)
  else none

/-- What a tag may be written with; `wide` allows brackets and the comma. -/
def isTagChar (wide : Bool) (c : Char) : Bool :=
  isWord c || ";/?:@&=+$.!~*'()".toList.contains c
    || (wide && ",[]".toList.contains c)

/-- How many octets the character has that starts with `octet`. -/
def octetCount? (octet : Nat) : Option Nat :=
  if octet < 0x80 then some 1
  else if 0xC0 ≤ octet ∧ octet < 0xE0 then some 2
  else if 0xE0 ≤ octet ∧ octet < 0xF0 then some 3
  else if 0xF0 ≤ octet ∧ octet < 0xF8 then some 4
  else none

/-- An octet written as a percent sign and two digits. -/
def octet? : List Char → Option (Nat × List Char)
  | '%' :: rest => (hexNumber? 2 rest).map (·, rest.drop 2)
  | _ => none

/-- `n` octets that go on with a character. -/
def octets? : (n : Nat) → List Char → Option (List Char × List Char)
  | 0, cs => some ([], cs)
  | n + 1, cs => do
      let (octet, rest) ← octet? cs
      if 0x80 ≤ octet ∧ octet < 0xC0 then
        let (more, rest) ← octets? n rest
        return (Char.ofNat octet :: more, rest)
      else none

/-- The octets of a tag at the front of a text, and what follows. -/
def tagText? (wide : Bool) : (fuel : Nat) → List Char →
    Option (List Char × List Char)
  | 0, cs => some ([], cs)
  | fuel + 1, cs =>
      match cs with
      | [] => some ([], [])
      | c :: rest =>
          if c = '%' then do
            let (octet, rest) ← octet? cs
            let (more, rest) ← octets? ((← octetCount? octet) - 1) rest
            let (text, rest) ← tagText? wide fuel rest
            return (Char.ofNat octet :: more ++ text, rest)
          else if isTagChar wide c then
            (tagText? wide fuel rest).map fun (text, rest) => (c :: text, rest)
          else some ([], cs)

/-- The octets of a tag, and the place behind them. -/
def tagOctets? (wide : Bool) (here : Cursor) : Option (List Char × Cursor) := do
  let (text, rest) ← tagText? wide here.rest.length here.rest
  return (text, here.past (here.rest.length - rest.length))

/-- What counts of a tag, or of what its handle stands for. -/
def untilZero (octets : List Char) : List Char :=
  octets.takeWhile (· ≠ '\x00')

/-- A tag: an address in angle brackets, a suffix with a handle, or a lone
    exclamation mark, which comes as a suffix without handle. -/
def tag? (inFlow : Bool) (here : Cursor) : Option (Token × Cursor) := do
  let (tag, behind) ←
    if (here.past 1).isAt '<' then do
      let (suffix, behind) ← tagOctets? true (here.past 2)
      if suffix.isEmpty || !behind.isAt '>' then none
      else some (Token.tag [] (untilZero suffix), behind.past 1)
    else do
      let (handle, behind) ← handle? here
      let (suffix, behind) ← tagOctets? false behind
      if 2 ≤ handle.length ∧ handle.getLast? = some '!' then
        if suffix.isEmpty then none
        else some (Token.tag handle (untilZero suffix), behind)
      else
        match untilZero (handle.drop 1 ++ suffix) with
        | [] => some (Token.tag [] ['!'], behind)
        | suffix => some (Token.tag ['!'] suffix, behind)
  if behind.atSpaceOrEnd || (inFlow && behind.isAt ',') then some (tag, behind) else none

/-- A number of up to nine digits. -/
def shortNumber? (here : Cursor) : Option (Nat × Cursor) :=
  let (digits, behind) := here.span Char.isDigit
  if 9 < digits.length then none else (Text.natural? 10 digits).map (·, behind)

/-- The version that a directive asks for. -/
def version? (here : Cursor) : Option (Token × Cursor) := do
  let (major, behind) ← shortNumber? (here.skip isBlank)
  if behind.isAt '.' then
    let (minor, behind) ← shortNumber? (behind.past 1)
    return (.version major minor, behind)
  else none

/-- The handle that a directive introduces, with what it stands for. -/
def tagHandle? (here : Cursor) : Option (Token × Cursor) := do
  let (handle, behind) ← handle? (here.skip isBlank)
  if handle.getLast? = some '!' ∧ behind.next isBlank then
    let (lead, behind) ← tagOctets? true (behind.skip isBlank)
    if lead.isEmpty || !behind.atSpaceOrEnd then none
    else return (.tagHandle handle (untilZero lead), behind)
  else none

/-- A directive behind its sign, with the line it stands on. -/
def directive? (here : Cursor) : Option (Token × Cursor) := do
  let (name, behind) := here.span isWord
  if behind.atSpaceOrEnd then
    let (directive, behind) ←
      if name = "YAML".toList then version? behind
      else if name = "TAG".toList then tagHandle? behind
      else none
    return (directive, ← behind.pastLineTail?)
  else none

end ThemeTokens.Yaml
