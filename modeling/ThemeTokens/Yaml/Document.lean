import ThemeTokens.Decimal.Layout
import ThemeTokens.Yaml.Lexer
import ThemeTokens.Yaml.Value

/-! # From YAML tokens to a document

    The first document of a text, as far as its tokens make one.  Reading stops
    at a fault; what was read up to there stays.  Names of values get numbers: a
    name that is new counts all names before it, and of the values with one
    number the one that starts last is meant.  A sequence is read for the names
    in it only. -/

namespace ThemeTokens.Yaml

/-- What reading has come to. -/
structure Reading where
  /-- The tokens still to be read; none are left behind a fault. -/
  tokens : List Token
  /-- Handles of tags, with what they stand for. -/
  handles : List (List Char × List Char)
  /-- Names of values, with their numbers. -/
  names : List (List Char × Nat)
  /-- Numbers, with which of all named values is meant. -/
  meant : List (Nat × Nat)
  /-- How many values have been given a name. -/
  named : Nat
  /-- Named values that are complete. -/
  values : List (Nat × Document)
  /-- How many scalars, repetitions, and starts and ends of collections have
      been read. -/
  events : Nat

/-- Reading tokens. -/
abbrev Reader := StateM Reading

namespace Reader

/-- The next token. -/
def next? : Reader (Option Token) :=
  return (← get).tokens.head?

/-- Whether the next token is one of these. -/
def isNext (tokens : List Token) : Reader Bool :=
  return (← next?).any tokens.contains

/-- Past a token. -/
def advance : Reader Unit :=
  modify fun reading => { reading with tokens := reading.tokens.drop 1 }

/-- Past a token of this kind, if it is next. -/
def accept (token : Token) : Reader Bool := do
  if ← isNext [token] then
    advance
    return true
  else return false

/-- Counts `n` events. -/
def count (n : Nat) : Reader Unit :=
  modify fun reading => { reading with events := reading.events + n }

/-- Past a token of this kind that ends a collection, if it is next. -/
def acceptEnd (token : Token) : Reader Bool := do
  let ends ← accept token
  if ends then count 1
  return ends

/-- The text ends here. -/
def stop {α : Type} (value : α) : Reader α := do
  modify fun reading => { reading with tokens := [] }
  return value

/-- Gives a name to the value that starts here; the answer says which of all
    named values it is. -/
def introduce (name : List Char) : Reader Nat :=
  modifyGet fun reading =>
    let number := (reading.names.map (·.1)).eraseDups.length
    (reading.named,
      { reading with
        names := (name, number) :: reading.names
        meant := (number, reading.named) :: reading.meant
        named := reading.named + 1 })

/-- Keeps a named value that is complete. -/
def keep (which : Option Nat) (value : Document) : Reader Document := do
  match which with
  | some which =>
      modify fun reading => { reading with values := (which, value) :: reading.values }
  | none => pure ()
  return value

/-- A repetition of a value. -/
def repeated (name : List Char) : Reader Document := do
  advance
  match (← get).names.lookup name with
  | some number =>
      count 1
      return .alias number
  | none => stop .broken

/-- The name in front of a value, if one is next. -/
def anchor? : Reader (Option (List Char)) := do
  match ← next? with
  | some (.anchor name) =>
      advance
      return some name
  | _ => return none

/-- The handle and suffix of a tag, if one is next. -/
def tag? : Reader (Option (List Char × List Char)) := do
  match ← next? with
  | some (.tag handle suffix) =>
      advance
      return some (handle, suffix)
  | _ => return none

/-- A tag with what its handle stands for; none if that is not known. -/
def resolve (tag : List Char × List Char) : Reader (Option (List Char)) := do
  if tag.1.isEmpty then return some tag.2
  else return ((← get).handles.lookup tag.1).map (· ++ tag.2)

/-- A scalar. -/
def scalar (tag : Option (List Char)) (text : List Char) (plain : Bool) :
    Reader Document := do
  count 1
  let text := String.ofList text
  return .scalar text (scalarValue tag text plain) (plain && text.isEmpty)
    (tag.any isTypeName)

/-- A value of which nothing is written. -/
def blank : Reader Document :=
  scalar none [] true

/-- A sequence with the items that are read next. -/
def sequence (tag : Option (List Char)) (items : Reader Unit) : Reader Document := do
  count 1
  items
  return .sequence (tag.any isTypeName)

/-- A mapping with the entries that are read next. -/
def mapping (tag : Option (List Char)) (entries : Reader (List (Document × Document))) :
    Reader Document := do
  count 1
  return .mapping (← entries) (tag.any isTypeName)

/-- The text ends where an entry is due. -/
def brokenEntry : List (Document × Document) := [(.broken, .broken)]

/-- Where a value stands, which decides what it can be. -/
inductive Position where
  /-- At the root of a document, or behind the dash of a sequence. -/
  | root
  /-- In a block mapping, where a sequence needs no indentation. -/
  | block
  /-- In brackets. -/
  | flow
  deriving DecidableEq

/-- Whether reading has stopped. -/
def isStopped : Reader Bool :=
  return (← get).tokens.isEmpty

/-- A value of which only the name or tag is written, if it has one. -/
def bare (name tag : Option (List Char)) : Reader Document := do
  if name.isSome || tag.isSome then
    let which ← name.mapM introduce
    keep which (← scalar tag [] true)
  else stop .broken

mutual

/-- The value that comes next. -/
def value : (fuel : Nat) → Position → Reader Document
  | 0, _ => stop .broken
  | fuel + 1, position => do
      match ← next? with
      | some (.alias name) => repeated name
      | _ =>
          let early ← anchor?
          let written ← tag?
          let late ← if early.isNone then anchor? else pure none
          let tag ← written.mapM resolve
          if tag = some none then stop .broken
          else content fuel position (early.or late) tag.join

/-- A value behind its name and tag. -/
def content (fuel : Nat) (position : Position) (name tag : Option (List Char)) :
    Reader Document := do
  let named (read : Reader Document) : Reader Document := do
    let which ← name.mapM introduce
    keep which (← read)
  let inBlock := decide (position ≠ .flow)
  match ← next? with
  | some (.scalar text plain) =>
      advance
      named (scalar tag text plain)
  | some .blockEntry =>
      if position = .block then named (sequence tag (dashedItems fuel))
      else bare name tag
  | some .flowSequenceStart =>
      advance
      named (sequence tag (flowItems fuel true))
  | some .blockSequenceStart =>
      if inBlock then
        advance
        named (sequence tag (blockItems fuel))
      else bare name tag
  | some .flowMappingStart =>
      advance
      named (mapping tag (flowEntries fuel true))
  | some .blockMappingStart =>
      if inBlock then
        advance
        named (mapping tag (blockEntries fuel))
      else bare name tag
  | some _ => bare name tag
  | none => stop .broken

/-- The items of a block sequence up to its end. -/
def blockItems : (fuel : Nat) → Reader Unit
  | 0 => stop ()
  | fuel + 1 => do
      if ← accept .blockEntry then
        let isBlank ← isNext [.blockEntry, .blockEnd]
        let _ ← if isBlank then blank else value fuel .root
        blockItems fuel
      else if ← acceptEnd .blockEnd then return
      else stop ()

/-- The items of a sequence that is not indented; it ends where no dash
    follows. -/
def dashedItems : (fuel : Nat) → Reader Unit
  | 0 => stop ()
  | fuel + 1 => do
      if ← accept .blockEntry then
        let isBlank ← isNext [.blockEntry, .key, .value, .blockEnd]
        let _ ← if isBlank then blank else value fuel .root
        dashedItems fuel
      else if !(← isStopped) then count 1

/-- The items of a sequence in brackets up to its end. -/
def flowItems : (fuel : Nat) → (first : Bool) → Reader Unit
  | 0, _ => stop ()
  | fuel + 1, first => do
      if ← acceptEnd .flowSequenceEnd then return
      if !first then
        if !(← accept .flowEntry) then return ← stop ()
      if ← acceptEnd .flowSequenceEnd then return
      if ← accept .key then flowPair fuel
      else
        let _ ← value fuel .flow
      flowItems fuel false

/-- A mapping of one entry that stands in a sequence without brackets of its
    own, behind the mark of its key.  Where the key is blank, the token that
    says so counts for nothing more. -/
def flowPair (fuel : Nat) : Reader Unit := do
  count 1
  if ← isNext [.value, .flowEntry, .flowSequenceEnd] then
    advance
    let _ ← blank
  else
    let _ ← value fuel .flow
  if ← isStopped then return
  let hasValue ← accept .value
  let isBlank ← isNext [.flowEntry, .flowSequenceEnd]
  let _ ← if hasValue && !isBlank then value fuel .flow else blank
  if !(← isStopped) then count 1

/-- The entries of a block mapping up to its end. -/
def blockEntries : (fuel : Nat) → Reader (List (Document × Document))
  | 0 => stop brokenEntry
  | fuel + 1 => do
      let part : Reader Document := do
        if ← isNext [.key, .value, .blockEnd] then blank else value fuel .block
      if ← accept .key then
        let k ← part
        if ← isStopped then return [(k, .broken)]
        let v ← if ← accept .value then part else blank
        if ← isStopped then return (k, v) :: brokenEntry
        return (k, v) :: (← blockEntries fuel)
      else if ← acceptEnd .blockEnd then return []
      else stop brokenEntry

/-- The entries of a mapping in brackets up to its end. -/
def flowEntries : (fuel : Nat) → (first : Bool) → Reader (List (Document × Document))
  | 0, _ => stop brokenEntry
  | fuel + 1, first => do
      if ← acceptEnd .flowMappingEnd then return []
      if !first then
        if !(← accept .flowEntry) then return ← stop brokenEntry
      if ← acceptEnd .flowMappingEnd then return []
      let hasMark ← accept .key
      let isBlank ← isNext [.value, .flowEntry, .flowMappingEnd]
      let k ← if hasMark && isBlank then blank else value fuel .flow
      if ← isStopped then return [(k, .broken)]
      let hasValue ← if hasMark then accept .value else pure false
      let isBlank ← isNext [.flowEntry, .flowMappingEnd]
      let v ← if hasValue && !isBlank then value fuel .flow else blank
      if ← isStopped then return (k, v) :: brokenEntry
      return (k, v) :: (← flowEntries fuel false)

end

/-- Directives in front of a document; of the versions only the first is
    allowed, and it must be known, and a handle is introduced once. -/
def directives : (fuel : Nat) → (hasVersion : Bool) → Reader Bool
  | 0, _ => return false
  | fuel + 1, hasVersion => do
      match ← next? with
      | some (.version major minor) =>
          if hasVersion || major != 1 || !(minor == 1 || minor == 2) then return false
          advance
          directives fuel true
      | some (.tagHandle handle lead) =>
          if ((← get).handles.lookup handle).isSome then return false
          advance
          modify fun reading =>
            { reading with handles := reading.handles ++ [(handle, lead)] }
          directives fuel hasVersion
      | _ => return true

/-- Handles that need no introduction. -/
def knownHandles : List (List Char × List Char) :=
  [(['!'], ['!']), (['!', '!'], standardLead)]

/-- Whether the next token is a mark or directive around a document. -/
def isAtBoundary : Reader Bool := do
  match ← next? with
  | some (.version _ _) => return true
  | some (.tagHandle _ _) => return true
  | some .documentStart => return true
  | some .documentEnd => return true
  | some .streamEnd => return true
  | _ => return false

/-- The root of the first document; nothing at all is like a blank value. -/
def root (fuel : Nat) : Reader Document := do
  if ← isNext [.streamEnd] then return .scalar "" .null true false
  let isBare := !(← isAtBoundary) || (← isNext [.documentEnd])
  if !isBare && !(← directives fuel false) then return ← stop .broken
  modify fun reading => { reading with handles := reading.handles ++ knownHandles }
  if isBare then value fuel .root
  else if ← accept .documentStart then
    if ← isAtBoundary then blank else value fuel .root
  else stop .broken

/-- Whether the text ends behind the document. -/
def isAtEnd : Reader Bool := do
  let behind := (← get).tokens.dropWhile (· == .documentEnd)
  return behind.head? == some .streamEnd

end Reader

/-- The first document of a text; it must be the only one. -/
def document (text : String) : Source :=
  let tokens := tokens text.toList
  let read : Reader (Document × Bool) :=
    return (← Reader.root (2 * tokens.length + 4), ← Reader.isAtEnd)
  let ((root, sound), reading) := read.run
    { tokens, handles := [], names := [], meant := [], named := 0, values := [], events := 0 }
  { root, sound, repetitions := reading.events * 100
    anchors := reading.meant.filterMap fun (number, which) =>
      (reading.values.lookup which).map (number, ·) }

/-- The numbers and names of YAML in messages; 128 mappings may be nested. -/
def dialect : Dialect where
  nullName := "unit value"
  decimalText x := Decimal.Layout.message.write (.ofFloat x)
  depth := 128

end ThemeTokens.Yaml
