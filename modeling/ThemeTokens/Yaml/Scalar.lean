import ThemeTokens.Text.Digit
import ThemeTokens.Yaml.Cursor

/-! # Scalars in YAML

    Scalars are plain, quoted or in a block.  In the first two a run of blanks
    and line ends between words folds: one line end becomes a space, more of
    them are kept but for the first.  A scalar is none if it is not well
    formed. -/

namespace ThemeTokens.Yaml

/-- Blanks and line ends between two words of a scalar. -/
structure Gap where
  /-- The blanks in front of the first line end. -/
  blanks : List Char
  /-- Whether a line ends in it. -/
  isBroken : Bool
  /-- The first line end. -/
  first : List Char
  /-- All further line ends. -/
  later : List Char

namespace Gap

def empty : Gap := ⟨[], false, [], []⟩

/-- A gap that starts behind a line end that counts for nothing. -/
def joined : Gap := ⟨[], true, [], []⟩

/-- What a gap contributes to a scalar. -/
def text (gap : Gap) : List Char :=
  if gap.isBroken then
    if gap.first = ['\n'] then
      if gap.later.isEmpty then [' '] else gap.later
    else gap.first ++ gap.later
  else gap.blanks

/-- The gap up to the next word.  On a new line no tab may stand left of
    column `margin`. -/
def read? (margin : Nat) : (fuel : Nat) → Gap → Cursor → Option (Gap × Cursor)
  | 0, gap, here => some (gap, here)
  | fuel + 1, gap, here =>
      match here.rest with
      | c :: _ =>
          if isBlank c then
            if gap.isBroken then
              if c = '\t' ∧ here.column < margin then none
              else read? margin fuel gap (here.past 1)
            else read? margin fuel { gap with blanks := gap.blanks ++ [c] } (here.past 1)
          else if isBreak c then
            let gap :=
              if gap.isBroken then { gap with later := gap.later ++ here.breakText }
              else { gap with blanks := [], isBroken := true, first := here.breakText }
            read? margin fuel gap here.pastBreak
          else some (gap, here)
      | [] => some (gap, here)

end Gap

/-! ## Plain scalars -/

/-- Brackets and the comma, which end a plain scalar in a flow collection. -/
def isFlowMark (c : Char) : Bool :=
  ",[]\x7b\x7d".toList.contains c

/-- The characters of a plain scalar up to a blank or its end. -/
def plainWord? (inFlow : Bool) : List Char → Option (List Char)
  | [] => some []
  | c :: cs =>
      if isSpace c then some []
      else if inFlow && c == ':' && cs.head?.any (fun d => isFlowMark d || d == '?') then none
      else if c == ':' && startsSpace cs then some []
      else if inFlow && isFlowMark c then some []
      else (plainWord? inFlow cs).map (c :: ·)

/-- A scalar that was read. -/
structure ScalarText where
  text : List Char
  /-- A line ended behind the last word. -/
  endsLine : Bool
  after : Cursor

/-- A plain scalar, given what of it was read and the gap behind that.  Outside
    of flow collections it ends left of column `margin`. -/
def plain? (inFlow : Bool) (margin : Nat) :
    (fuel : Nat) → List Char → Gap → Cursor → Option ScalarText
  | 0, _, _, _ => none
  | fuel + 1, text, gap, here =>
      if here.atDocumentMark || here.isAt '#' then some ⟨text, gap.isBroken, here⟩
      else do
        let word ← plainWord? inFlow here.rest
        let text := if word.isEmpty then text else text ++ gap.text ++ word
        let gap := if word.isEmpty then gap else .empty
        let behind := here.past word.length
        if behind.next isSpace then
          let (gap, behind) ← Gap.read? margin (behind.rest.length + 1) gap behind
          if !inFlow && behind.column < margin then
            return ⟨text, gap.isBroken, behind⟩
          else plain? inFlow margin fuel text gap behind
        else return ⟨text, gap.isBroken, behind⟩

/-! ## Quoted scalars -/

/-- The number in the first `n` characters. -/
def hexNumber? (n : Nat) (cs : List Char) : Option Nat :=
  if cs.length < n then none else Text.natural? 16 (cs.take n)

/-- What the letter behind a backslash stands for. -/
def escapeLetter? (c : Char) : Option Char :=
  match c with
  | '0' => some '\x00'
  | 'a' => some '\x07'
  | 'b' => some '\x08'
  | 't' => some '\t'
  | '\t' => some '\t'
  | 'n' => some '\n'
  | 'v' => some '\x0b'
  | 'f' => some '\x0c'
  | 'r' => some '\r'
  | 'e' => some '\x1b'
  | ' ' => some ' '
  | '"' => some '"'
  | '/' => some '/'
  | '\\' => some '\\'
  | 'N' => some '\x85'
  | '_' => some '\xa0'
  | 'L' => some '\u2028'
  | 'P' => some '\u2029'
  | _ => none

/-- How many hexadecimal digits follow a letter behind a backslash. -/
def escapeDigits? (c : Char) : Option Nat :=
  match c with
  | 'x' => some 2
  | 'u' => some 4
  | 'U' => some 8
  | _ => none

/-- The character that the text behind a backslash stands for, and how long
    that text is. -/
def escape? : List Char → Option (Char × Nat)
  | [] => none
  | c :: cs =>
      match escapeDigits? c with
      | some digits => do
          let n ← hexNumber? digits cs
          if n.isValidChar then return (Char.ofNat n, digits + 1) else none
      | none => (escapeLetter? c).map (·, 1)

/-- Characters of a quoted scalar without white space between them. -/
structure QuotedWord where
  text : List Char
  after : Cursor
  /-- The line goes on behind an escaped line end. -/
  isJoined : Bool

/-- The characters of a quoted scalar up to a blank, a line end or the quote. -/
def quotedWord? (quote : Char) : (fuel : Nat) → Cursor → Option QuotedWord
  | 0, _ => none
  | fuel + 1, here =>
      let put (c : Char) (width : Nat) : Option QuotedWord :=
        (quotedWord? quote fuel (here.past width)).map
          fun word => { word with text := c :: word.text }
      match here.rest with
      | [] => some ⟨[], here, false⟩
      | c :: cs =>
          if isSpace c then some ⟨[], here, false⟩
          else if c = quote then
            if c = '\'' ∧ cs.head? = some '\'' then put c 2 else some ⟨[], here, false⟩
          else if quote = '"' ∧ c = '\\' then
            if cs.head?.any isBreak then some ⟨[], (here.past 1).pastBreak, true⟩
            else do
              let (x, width) ← escape? cs
              put x (width + 1)
          else put c 1

/-- A quoted scalar behind its opening quote. -/
def quoted? (quote : Char) : (fuel : Nat) → Cursor → Option (List Char × Cursor)
  | 0, _ => none
  | fuel + 1, here =>
      if here.atDocumentMark || here.rest.isEmpty then none
      else do
        let word ← quotedWord? quote (here.rest.length + 1) here
        if word.after.isAt quote then return (word.text, word.after.past 1)
        else
          let start := if word.isJoined then Gap.joined else .empty
          let (gap, behind) ← Gap.read? 0 (word.after.rest.length + 1) start word.after
          let (text, behind) ← quoted? quote fuel behind
          return (word.text ++ gap.text ++ text, behind)

/-! ## Block scalars -/

/-- What becomes of the line ends at the end of a block scalar. -/
inductive Chomping where
  | strip
  | clip
  | keep
  deriving DecidableEq, Inhabited, Repr

/-- The line ends and the indentation in front of a line, and where that line
    starts.  An `indent` of zero is still unknown: then every space counts as
    indentation, and the widest one is handed over. -/
structure BlockMargin where
  breaks : List Char
  widest : Nat
  after : Cursor

/-- Reads what is in front of a line of a block scalar; no tab may stand in the
    indentation. -/
def blockMargin? (indent : Nat) : (fuel : Nat) → BlockMargin → Option BlockMargin
  | 0, _ => none
  | fuel + 1, margin =>
      let here := margin.after
      let spaces := (here.rest.takeWhile (· == ' ')).length
      let width := if indent = 0 then spaces else min spaces (indent - here.column)
      let inside := here.past width
      let widest := max margin.widest inside.column
      if (indent = 0 ∨ inside.column < indent) ∧ inside.isAt '\t' then none
      else if inside.next isBreak then
        blockMargin? indent fuel
          ⟨margin.breaks ++ inside.breakText, widest, inside.pastBreak⟩
      else some ⟨margin.breaks, widest, inside⟩

/-- The marks behind the sign of a block scalar, in either order: how the end
    is chomped, and by how much the text is indented. -/
def blockHeader? (here : Cursor) : Option (Chomping × Nat × Cursor) :=
  let chomping (here : Cursor) : Chomping × Cursor :=
    if here.isAt '+' then (.keep, here.past 1)
    else if here.isAt '-' then (.strip, here.past 1)
    else (.clip, here)
  let digit? (here : Cursor) : Option (Nat × Cursor) :=
    match here.rest with
    | c :: _ =>
        if c = '0' then none
        else if c.isDigit then some (c.toNat - 48, here.past 1)
        else some (0, here)
    | [] => some (0, here)
  if here.isAt '+' || here.isAt '-' then do
    let (ends, here) := chomping here
    let (increment, here) ← digit? here
    return (ends, increment, here)
  else do
    let (increment, here) ← digit? here
    if increment = 0 then return (.clip, 0, here)
    else
      let (ends, here) := chomping here
      return (ends, increment, here)

/-- Lines of a block scalar in the making. -/
structure BlockText where
  text : List Char
  /-- The line end behind the last line. -/
  lineEnd : List Char
  /-- The empty lines behind it. -/
  breaks : List Char
  /-- The last line starts with a blank, so it does not fold. -/
  isIndented : Bool

/-- The lines of a block scalar from a place on.  Unless it is literal, single
    line ends between lines that start without a blank fold. -/
def blockLines? (literal : Bool) (indent : Nat) :
    (fuel : Nat) → BlockText → Cursor → Option (BlockText × Cursor)
  | 0, _, _ => none
  | fuel + 1, done, here =>
      if here.column ≠ indent ∨ here.rest.isEmpty then some (done, here)
      else do
        let isIndented := here.next isBlank
        let folds := !literal && done.lineEnd == ['\n'] && !done.isIndented && !isIndented
        let between :=
          if folds then if done.breaks.isEmpty then [' '] else done.breaks
          else done.lineEnd ++ done.breaks
        let (line, behind) := here.span (!isBreak ·)
        let lineEnd := behind.breakText
        let behind := if behind.rest.isEmpty then behind else behind.pastBreak
        let margin ← blockMargin? indent (behind.rest.length + 1) ⟨[], 0, behind⟩
        blockLines? literal indent fuel
          ⟨done.text ++ between ++ line, lineEnd, margin.breaks, isIndented⟩ margin.after

/-- A block scalar behind its sign, within a block that is indented by `outer`
    columns less one. -/
def block? (literal : Bool) (outer : Nat) (here : Cursor) :
    Option (List Char × Cursor) := do
  let (ends, increment, here) ← blockHeader? here
  let here ← here.pastLineTail?
  let given := if increment = 0 then 0 else outer - 1 + increment
  let margin ← blockMargin? given (here.rest.length + 1) ⟨[], 0, here⟩
  let indent := if given = 0 then max (max margin.widest outer) 1 else given
  let (block, behind) ← blockLines? literal indent (margin.after.rest.length + 1)
    ⟨[], [], margin.breaks, false⟩ margin.after
  let tail := match ends with
    | .strip => []
    | .clip => block.lineEnd
    | .keep => block.lineEnd ++ block.breaks
  return (block.text ++ tail, behind)

end ThemeTokens.Yaml
