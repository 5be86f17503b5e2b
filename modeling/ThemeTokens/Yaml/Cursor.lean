/-! # Places in a YAML text

    Indentation is structure in YAML, so a reader knows its column at any time.
    A cursor is the text still to be read, with its place: how many octets are
    behind it, and the line and column, counted from zero. -/

namespace ThemeTokens.Yaml

/-- Characters that end a line. -/
def isBreak (c : Char) : Bool :=
  c == '\n' || c == '\r' || c == '\x85' || c == '\u2028' || c == '\u2029'

/-- Space and tab. -/
def isBlank (c : Char) : Bool :=
  c == ' ' || c == '\t'

/-- Blanks and line ends. -/
def isSpace (c : Char) : Bool :=
  isBlank c || isBreak c

/-- What names, handles and directives are written with. -/
def isWord (c : Char) : Bool :=
  c.isAlphanum || c == '_' || c == '-'

/-- Characters that may stand in a text at all. -/
def isAllowed (c : Char) : Bool :=
  let n := c.toNat
  n == 0x09 || n == 0x0A || n == 0x0D || (0x20 ≤ n && n ≤ 0x7E) || n == 0x85
    || (0xA0 ≤ n && n ≤ 0xD7FF) || (0xE000 ≤ n && n ≤ 0xFFFD) || 0x10000 ≤ n

/-- Whether a text is at its end or starts with a space. -/
def startsSpace (cs : List Char) : Bool :=
  cs.head?.all isSpace

/-- How many octets a text takes in UTF-8. -/
def octetCount (cs : List Char) : Nat :=
  cs.foldl (fun count c => count + c.utf8Size) 0

/-- A text still to be read, and where it starts. -/
structure Cursor where
  rest : List Char
  /-- How many octets are behind. -/
  index : Nat
  line : Nat
  column : Nat
  deriving Inhabited

namespace Cursor

/-- The front of a text. -/
def start (cs : List Char) : Cursor := ⟨cs, 0, 0, 0⟩

/-- Whether the next character is as `p` says; false at the end. -/
def next (p : Char → Bool) (here : Cursor) : Bool :=
  here.rest.head?.any p

/-- Whether the next character is `c`. -/
def isAt (c : Char) (here : Cursor) : Bool :=
  here.next (· == c)

/-- At the end of the text, or in front of a blank or the end of a line. -/
def atSpaceOrEnd (here : Cursor) : Bool :=
  startsSpace here.rest

/-- Past `n` characters of a line. -/
def past (here : Cursor) (n : Nat) : Cursor :=
  { here with
    rest := here.rest.drop n
    index := here.index + octetCount (here.rest.take n)
    column := here.column + n }

/-- Past the end of a line; a carriage return and line feed are one. -/
def pastBreak (here : Cursor) : Cursor :=
  let width := match here.rest with
    | '\r' :: '\n' :: _ => 2
    | _ => 1
  { rest := here.rest.drop width
    index := here.index + octetCount (here.rest.take width)
    line := here.line + 1
    column := 0 }

/-- The characters up to the first that is not as `p` says, and the place
    behind them; `p` holds of no line end. -/
def span (p : Char → Bool) (here : Cursor) : List Char × Cursor :=
  let read := here.rest.takeWhile p
  (read, here.past read.length)

/-- Past the characters that are as `p` says. -/
def skip (p : Char → Bool) (here : Cursor) : Cursor :=
  (here.span p).2

/-- Past a comment, if one starts here. -/
def skipComment (here : Cursor) : Cursor :=
  if here.isAt '#' then here.skip (!isBreak ·) else here

/-- Past the mark that tells the order of octets, which may start a line. -/
def pastOrderMark (here : Cursor) : Cursor :=
  if here.column == 0 && here.isAt '\uFEFF' then here.past 1 else here

/-- What a line end contributes to a scalar; only the separators of Unicode
    stay what they are. -/
def breakText (here : Cursor) : List Char :=
  match here.rest with
  | c :: _ => if c = '\u2028' ∨ c = '\u2029' then [c] else if isBreak c then ['\n'] else []
  | [] => []

/-- In front of `mark` alone at the front of a line. -/
def atMark (mark : String) (here : Cursor) : Bool :=
  here.column == 0 && here.rest.take 3 == mark.toList && startsSpace (here.rest.drop 3)

/-- In front of a line that starts or ends a document. -/
def atDocumentMark (here : Cursor) : Bool :=
  here.atMark "---" || here.atMark "..."

/-- Past the rest of a line on which nothing but a comment may follow. -/
def pastLineTail? (here : Cursor) : Option Cursor :=
  let tail := (here.skip isBlank).skipComment
  if tail.rest.isEmpty then some tail
  else if tail.next isBreak then some tail.pastBreak
  else none

end Cursor

end ThemeTokens.Yaml
