/-! # Writing JSON

    A value is written with one member or item a line, two blanks further in
    than what it belongs to.  Only quotes, backslashes and controls are
    escaped. -/

namespace ThemeTokens.Json

/-- A value to be written. -/
inductive Value where
  | number (n : Nat)
  | text (s : String)
  | array (items : List Value)
  | object (members : List (String × Value))
  deriving Inhabited

/-- A digit below sixteen. -/
def hexCharacter (n : Nat) : Char := Nat.digitChar n

/-- A character between quotes. -/
def escapeChar (c : Char) : List Char :=
  if c = '"' then ['\\', '"']
  else if c = '\\' then ['\\', '\\']
  else if c = '\x08' then ['\\', 'b']
  else if c = '\x0c' then ['\\', 'f']
  else if c = '\n' then ['\\', 'n']
  else if c = '\r' then ['\\', 'r']
  else if c = '\t' then ['\\', 't']
  else if c.toNat < 0x20 then
    ['\\', 'u', '0', '0', hexCharacter (c.toNat / 16), hexCharacter (c.toNat % 16)]
  else [c]

/-- A text between quotes. -/
def quote (text : String) : List Char :=
  ['"'] ++ text.toList.flatMap escapeChar ++ ['"']

/-- The front of a line that is `depth` levels in. -/
def margin (depth : Nat) : List Char :=
  '\n' :: List.replicate (2 * depth) ' '

namespace Value

mutual

/-- A value that is `depth` levels in. -/
def write (depth : Nat) : Value → List Char
  | .number n => (toString n).toList
  | .text s => quote s
  | .array [] => ['[', ']']
  | .array (item :: items) =>
      ['['] ++ margin (depth + 1) ++ item.write (depth + 1)
        ++ writeItems (depth + 1) items ++ margin depth ++ [']']
  | .object [] => ['\x7b', '\x7d']
  | .object ((name, value) :: members) =>
      ['\x7b'] ++ margin (depth + 1) ++ quote name ++ [':', ' ']
        ++ value.write (depth + 1) ++ writeMembers (depth + 1) members
        ++ margin depth ++ ['\x7d']

/-- The items behind the first one. -/
def writeItems (depth : Nat) : List Value → List Char
  | [] => []
  | item :: items =>
      [','] ++ margin depth ++ item.write depth ++ writeItems depth items

/-- The members behind the first one. -/
def writeMembers (depth : Nat) : List (String × Value) → List Char
  | [] => []
  | (name, value) :: members =>
      [','] ++ margin depth ++ quote name ++ [':', ' '] ++ value.write depth
        ++ writeMembers depth members

end

/-- A value as a text. -/
def print (value : Value) : String :=
  String.ofList (value.write 0)

end Value

end ThemeTokens.Json
