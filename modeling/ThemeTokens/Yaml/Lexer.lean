import ThemeTokens.Yaml.Property

/-! # From YAML text to tokens

    A colon makes a key of what stands in front of it, so what may turn out to
    be a key is remembered, with its place among the tokens; if the colon comes,
    the mark of a key is put in front of it.  Tokens are handed on once nothing
    in front of them can become a key.  What stands further right than the block
    around it opens a new one; what stands further left closes blocks. -/

namespace ThemeTokens.Yaml

/-- What may turn out to be a key. -/
structure Candidate where
  /-- How many tokens are in front of it. -/
  number : Nat
  index : Nat
  line : Nat
  column : Nat
  /-- Only a key may stand in its place. -/
  isRequired : Bool

/-- Tokens in the making. -/
structure Lexer where
  here : Cursor
  /-- Tokens read but not handed on. -/
  waiting : List Token
  /-- How many tokens have been handed on. -/
  handed : Nat
  /-- One more than the column of the innermost block; zero outside. -/
  indent : Nat
  /-- The same for the blocks around it. -/
  outer : List Nat
  /-- A key may start here. -/
  keyAllowed : Bool
  /-- The candidate of the innermost flow collection, or outside of them. -/
  candidate : Option Candidate
  /-- The candidates around it, one for each flow collection. -/
  around : List (Option Candidate)
  /-- The whole text is read. -/
  isDone : Bool
  /-- The text goes on behind its end, where it cannot be read. -/
  isCut : Bool

namespace Lexer

/-- At the front of a text, which may be cut. -/
def start (text : List Char) (isCut : Bool) : Lexer where
  here := .start text
  waiting := []
  handed := 0
  indent := 0
  outer := []
  keyAllowed := true
  candidate := none
  around := []
  isDone := false
  isCut

/-- Inside of a flow collection. -/
def inFlow (lexer : Lexer) : Bool :=
  !lexer.around.isEmpty

/-- A token behind all others. -/
def put (lexer : Lexer) (token : Token) : Lexer :=
  { lexer with waiting := lexer.waiting ++ [token] }

/-- A token put where a candidate stands. -/
def putAt (lexer : Lexer) (number : Nat) (token : Token) : Lexer :=
  { lexer with waiting := lexer.waiting.insertIdx (number - lexer.handed) token }

/-- A token of `width` characters. -/
def putMark (lexer : Lexer) (width : Nat) (token : Token) : Lexer :=
  { lexer.put token with here := lexer.here.past width }

/-- A token, and the place behind it. -/
def putRead (lexer : Lexer) (read : Token × Cursor) : Lexer :=
  { lexer.put read.1 with here := read.2 }

/-- Whether a candidate can no longer be a key: a key ends on its line, and
    within 1024 octets. -/
def isStale (here : Cursor) (candidate : Candidate) : Bool :=
  candidate.line < here.line || candidate.index + 1024 < here.index

/-- A candidate unless it is stale; a key that was required must not be. -/
def refresh? (here : Cursor) : Option Candidate → Option (Option Candidate)
  | none => some none
  | some candidate =>
      if isStale here candidate then
        if candidate.isRequired then none else some none
      else some (some candidate)

/-- Drops the candidates that are stale. -/
def dropStale? (lexer : Lexer) : Option Lexer := do
  let around ← lexer.around.mapM (refresh? lexer.here)
  let candidate ← refresh? lexer.here lexer.candidate
  return { lexer with candidate, around }

/-- Gives up the innermost candidate; a key that was required must not be. -/
def dropCandidate? (lexer : Lexer) : Option Lexer :=
  if lexer.candidate.any (·.isRequired) then none
  else some { lexer with candidate := none }

/-- Remembers that a key may start here. -/
def markCandidate? (lexer : Lexer) : Option Lexer :=
  if lexer.keyAllowed then do
    let here := lexer.here
    let lexer ← lexer.dropCandidate?
    return { lexer with
      candidate := some {
        number := lexer.handed + lexer.waiting.length
        index := here.index, line := here.line, column := here.column
        isRequired := !lexer.inFlow && lexer.indent == here.column + 1 } }
  else some lexer

/-- Closes the blocks that are indented by `indent` columns or more. -/
def closeBlocks (lexer : Lexer) (indent : Nat) : Lexer :=
  if lexer.inFlow then lexer
  else close lexer.indent lexer.outer lexer
where
  /-- Closes blocks from the innermost on. -/
  close (innermost : Nat) : List Nat → Lexer → Lexer
    | [], lexer => { lexer with indent := innermost, outer := [] }
    | next :: outer, lexer =>
        if indent < innermost then close next outer (lexer.put .blockEnd)
        else { lexer with indent := innermost, outer := next :: outer }

/-- Opens a block in a column if that is further right than the block around
    it; `number` is the place among the tokens, if not the end. -/
def openBlock (lexer : Lexer) (column : Nat) (number : Option Nat) (token : Token) :
    Lexer :=
  if lexer.inFlow || column < lexer.indent then lexer
  else
    let inside :=
      { lexer with indent := column + 1, outer := lexer.indent :: lexer.outer }
    match number with
    | some number => inside.putAt number token
    | none => inside.put token

/-- Past blanks, comments and line ends, and past a mark at the front of each
    line. -/
def skipSpace : (fuel : Nat) → Lexer → Lexer
  | 0, lexer => lexer
  | fuel + 1, lexer =>
      let tabs := lexer.inFlow || !lexer.keyAllowed
      let here := lexer.here.pastOrderMark
      let here := here.skip fun c => c == ' ' || (tabs && c == '\t')
      let here := here.skipComment
      if here.next isBreak then
        skipSpace fuel { lexer with
          here := here.pastBreak, keyAllowed := lexer.keyAllowed || !lexer.inFlow }
      else { lexer with here }

/-- The end of the text. -/
def finish? (lexer : Lexer) : Option Lexer := do
  let here := lexer.here
  let line := if here.column = 0 then here.line else here.line + 1
  let lexer := { lexer with here := { here with column := 0, line } }
  let lexer ← (lexer.closeBlocks 0).dropCandidate?
  return { lexer.put .streamEnd with keyAllowed := false, isDone := true }

/-- A directive. -/
def directive? (lexer : Lexer) : Option Lexer := do
  let lexer ← (lexer.closeBlocks 0).dropCandidate?
  let read ← Yaml.directive? (lexer.here.past 1)
  return { lexer with keyAllowed := false }.putRead read

/-- A line that starts or ends a document. -/
def documentMark? (lexer : Lexer) (token : Token) : Option Lexer := do
  let lexer ← (lexer.closeBlocks 0).dropCandidate?
  return { lexer with keyAllowed := false }.putMark 3 token

/-- An opening bracket. -/
def openFlow? (lexer : Lexer) (token : Token) : Option Lexer := do
  let lexer ← lexer.markCandidate?
  return { lexer with
    candidate := none, around := lexer.candidate :: lexer.around
    keyAllowed := true }.putMark 1 token

/-- A closing bracket. -/
def closeFlow? (lexer : Lexer) (token : Token) : Option Lexer := do
  let lexer ← lexer.dropCandidate?
  let outside := match lexer.around with
    | [] => lexer
    | candidate :: around => { lexer with candidate, around }
  return { outside with keyAllowed := false }.putMark 1 token

/-- A comma in a flow collection. -/
def flowEntry? (lexer : Lexer) : Option Lexer := do
  let lexer ← lexer.dropCandidate?
  return { lexer with keyAllowed := true }.putMark 1 .flowEntry

/-- The dash of a sequence. -/
def blockEntry? (lexer : Lexer) : Option Lexer := do
  if lexer.inFlow || lexer.keyAllowed then
    let opened := lexer.openBlock lexer.here.column none .blockSequenceStart
    let lexer ← opened.dropCandidate?
    return { lexer with keyAllowed := true }.putMark 1 .blockEntry
  else none

/-- The question mark in front of a key. -/
def key? (lexer : Lexer) : Option Lexer := do
  if lexer.inFlow || lexer.keyAllowed then
    let opened := lexer.openBlock lexer.here.column none .blockMappingStart
    let lexer ← opened.dropCandidate?
    return { lexer with keyAllowed := !lexer.inFlow }.putMark 1 .key
  else none

/-- The colon behind a key. -/
def value? (lexer : Lexer) : Option Lexer :=
  match lexer.candidate with
  | some candidate =>
      let marked := lexer.putAt candidate.number .key
      let opened := marked.openBlock candidate.column candidate.number .blockMappingStart
      some ({ opened with candidate := none, keyAllowed := false }.putMark 1 .value)
  | none =>
      if lexer.inFlow || lexer.keyAllowed then
        let opened := lexer.openBlock lexer.here.column none .blockMappingStart
        some ({ opened with keyAllowed := !lexer.inFlow }.putMark 1 .value)
      else none

/-- What can be a key, or stand in front of one. -/
def item? (lexer : Lexer) (read? : Cursor → Option (Token × Cursor)) :
    Option Lexer := do
  let lexer ← lexer.markCandidate?
  return { lexer with keyAllowed := false }.putRead (← read? lexer.here)

/-- A scalar in quotes. -/
def quoted? (lexer : Lexer) (quote : Char) : Option Lexer :=
  lexer.item? fun here => do
    let (text, behind) ← Yaml.quoted? quote (here.rest.length + 1) (here.past 1)
    return (.scalar text false, behind)

/-- A plain scalar; if a line ends behind it, a key may follow. -/
def plain? (lexer : Lexer) : Option Lexer := do
  let lexer ← lexer.markCandidate?
  let here := lexer.here
  let read ← Yaml.plain? lexer.inFlow lexer.indent (here.rest.length + 1) [] .empty here
  return { lexer with keyAllowed := read.endsLine }.putRead
    (.scalar read.text true, read.after)

/-- A scalar in a block. -/
def block? (lexer : Lexer) (literal : Bool) : Option Lexer := do
  let lexer ← lexer.dropCandidate?
  let (text, behind) ← Yaml.block? literal lexer.indent (lexer.here.past 1)
  return { lexer with keyAllowed := true }.putRead (.scalar text false, behind)

/-- Characters that cannot start a plain scalar, spaces apart. -/
def isIndicator (c : Char) : Bool :=
  "-?:,[]\x7b\x7d#&*!|>'\"%@\x60".toList.contains c

/-- Whether a plain scalar starts at the front of a text. -/
def startsPlain (inFlow : Bool) : List Char → Bool
  | [] => false
  | c :: cs =>
      !(isSpace c || isIndicator c)
        || (c == '-' && !cs.head?.any isBlank)
        || (!inFlow && (c == '?' || c == ':') && !startsSpace cs)

/-- The token, or tokens, at the front of a line or behind a blank. -/
def token? (lexer : Lexer) : Option Lexer :=
  match lexer.here.rest with
  | [] => lexer.finish?
  | c :: cs =>
      let isFree := lexer.inFlow || startsSpace cs
      if lexer.here.column = 0 ∧ c = '%' then lexer.directive?
      else if lexer.here.atMark "---" then lexer.documentMark? .documentStart
      else if lexer.here.atMark "..." then lexer.documentMark? .documentEnd
      else if c = '[' then lexer.openFlow? .flowSequenceStart
      else if c = '\x7b' then lexer.openFlow? .flowMappingStart
      else if c = ']' then lexer.closeFlow? .flowSequenceEnd
      else if c = '\x7d' then lexer.closeFlow? .flowMappingEnd
      else if c = ',' then lexer.flowEntry?
      else if c = '-' ∧ startsSpace cs then lexer.blockEntry?
      else if c = '?' ∧ isFree then lexer.key?
      else if c = ':' ∧ isFree then lexer.value?
      else if c = '*' then
        lexer.item? fun here => do
          let (name, behind) ← name? (here.past 1)
          return (.alias name, behind)
      else if c = '&' then
        lexer.item? fun here => do
          let (name, behind) ← name? (here.past 1)
          return (.anchor name, behind)
      else if c = '!' then lexer.item? (tag? lexer.inFlow)
      else if c = '|' ∧ !lexer.inFlow then lexer.block? true
      else if c = '>' ∧ !lexer.inFlow then lexer.block? false
      else if c = '\'' ∨ c = '"' then lexer.quoted? c
      else if startsPlain lexer.inFlow lexer.here.rest then lexer.plain?
      else none

/-- Whether the next `n` characters can be read; at the end of a text that is
    not cut there is nothing more to read. -/
def canRead (lexer : Lexer) (n : Nat) : Bool :=
  !lexer.isCut || !(lexer.here.rest.drop (n - 1)).isEmpty

/-- Reads on by one step.  A mark of up to three characters is told by the four
    at its front, and a scalar ends where the next character is seen. -/
def step? (lexer : Lexer) : Option Lexer := do
  let lexer := lexer.skipSpace (lexer.here.rest.length + 1)
  if !lexer.canRead 4 then none
  else
    let lexer ← lexer.dropStale?
    let lexer ← (lexer.closeBlocks (lexer.here.column + 1)).token?
    if lexer.canRead 1 then some lexer else none

/-- Whether a candidate stands in front of all waiting tokens. -/
def isOpen (lexer : Lexer) : Bool :=
  (lexer.candidate :: lexer.around).any
    (·.any fun candidate => candidate.number == lexer.handed)

/-- Reads until the first waiting token is certain. -/
def settle? : (fuel : Nat) → Lexer → Option Lexer
  | 0, _ => none
  | fuel + 1, lexer =>
      if lexer.waiting.isEmpty then
        if lexer.isDone then none else lexer.step?.bind (settle? fuel)
      else do
        let lexer ← lexer.dropStale?
        if lexer.isOpen then lexer.step?.bind (settle? fuel) else return lexer

/-- The tokens handed on; they end with the end of the text, or in front of the
    first fault. -/
def tokens : (fuel : Nat) → Lexer → List Token
  | 0, _ => []
  | fuel + 1, lexer =>
      match settle? (lexer.here.rest.length + 3) lexer with
      | none => []
      | some settled =>
          match settled.waiting with
          | [] => []
          | token :: waiting =>
              token :: tokens fuel { settled with waiting, handed := settled.handed + 1 }

end Lexer

/-- How many octets of a text are taken at a time. -/
def pieceSize : Nat := 16384

/-- What can be read of a text: a text is taken in pieces, and the first piece
    with a character that may not stand in it ends it. -/
def readable : (size : Nat) → (piece : List Char) → List Char → List Char
  | _, piece, [] => piece.reverse
  | size, piece, c :: cs =>
      if pieceSize < size + c.utf8Size then
        piece.reverse ++ if isAllowed c then readable c.utf8Size [c] cs else []
      else if isAllowed c then readable (size + c.utf8Size) (c :: piece) cs
      else []

/-- The tokens of a text up to its first fault. -/
def tokens (text : List Char) : List Token :=
  let front := readable 0 [] text
  (Lexer.start front (front.length < text.length)).tokens (4 * front.length + 8)

end ThemeTokens.Yaml
