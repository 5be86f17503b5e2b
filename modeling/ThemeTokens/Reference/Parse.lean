import ThemeTokens.Reference.Basic
import ThemeTokens.Text.Blank
import ThemeTokens.Text.Search

/-! # Finding references in a value

    Outside quoted strings, `@theme` and a free-standing `theme(` open a
    reference, and an opener that does not lead to a well-formed reference is
    an error.  The value is first marked, one mark for each character and each
    reference; runs of characters are then gathered into literals. -/

namespace ThemeTokens

/-- A character of a value, or a reference read from it. -/
inductive Mark where
  | char (c : Char)
  | reference (reference : Reference)

/-- Letters, digits, dashes and underscores make up names in a path. -/
def isPathChar (c : Char) : Bool :=
  c.isAlphanum || c == '-' || c == '_'

/-- Characters that make a following `theme` part of a longer word. -/
def isWordChar (c : Char) : Bool :=
  isPathChar c || 0x80 ≤ c.toNat

/-- The rest of a quoted string: its characters up to and with the closing
    quote, and what follows.  A backslash takes the next character along. -/
def stringRest (quote : Char) : List Char → List Char × List Char
  | [] => ([], [])
  | ['\\'] => (['\\'], [])
  | '\\' :: c :: cs =>
      let (inside, rest) := stringRest quote cs
      ('\\' :: c :: inside, rest)
  | c :: cs =>
      if c = quote then ([c], cs)
      else
        let (inside, rest) := stringRest quote cs
        (c :: inside, rest)

/-- Further names of a path, each after a dot; a dot without a name after it
    is not part of the path. -/
def moreNames : (fuel : Nat) → List Char → List Char × List Char
  | 0, cs => ([], cs)
  | fuel + 1, cs =>
      match cs with
      | '.' :: tail =>
          let name := tail.takeWhile isPathChar
          if name.isEmpty then ([], cs)
          else
            let (names, rest) := moreNames fuel (tail.dropWhile isPathChar)
            ('.' :: name ++ names, rest)
      | _ => ([], cs)

/-- The path at the front of a text, and what follows; no path is empty. -/
def path? (cs : List Char) : Option (List Char × List Char) :=
  let name := cs.takeWhile isPathChar
  if name.isEmpty then none
  else
    let tail := cs.dropWhile isPathChar
    let (names, rest) := moreNames tail.length tail
    some (name ++ names, rest)

/-- The reference behind `@theme`, and what follows it. -/
def atReference (cs : List Char) : Except ReferenceFault (Reference × List Char) :=
  match cs with
  | [] => .error .invalidUsage
  | c :: _ =>
      if Text.isAsciiBlank c then
        let spelled := cs.dropWhile Text.isAsciiBlank
        let dollar := spelled.head? == some '$'
        match path? (if dollar then spelled.drop 1 else spelled) with
        | some (path, rest) => .ok (⟨⟨String.ofList path⟩, .atRule, dollar⟩, rest)
        | none => .error .invalidUsage
      else .error .missingSpace

/-- The reference behind `theme(`, and what follows it. -/
def functionReference (cs : List Char) :
    Except ReferenceFault (Reference × List Char) :=
  match cs.dropWhile Text.isAsciiBlank with
  | quote :: spelled =>
      if quote = '\'' ∨ quote = '"' then
        match path? spelled with
        | some (path, close :: rest) =>
            if close = quote then
              match rest.dropWhile Text.isAsciiBlank with
              | ')' :: rest => .ok (⟨⟨String.ofList path⟩, .function, false⟩, rest)
              | _ => .error .invalidUsage
            else .error .invalidUsage
        | _ => .error .invalidUsage
      else .error .invalidUsage
  | [] => .error .invalidUsage

/-- The reference that opens at the front of a text, if one does.  `before` is
    the character in front of the text. -/
def opener? (before : Option Char) (cs : List Char) :
    Except ReferenceFault (Option (Reference × List Char)) :=
  match cs with
  | '@' :: 't' :: 'h' :: 'e' :: 'm' :: 'e' :: rest => some <$> atReference rest
  | 't' :: 'h' :: 'e' :: 'm' :: 'e' :: rest =>
      if before.any isWordChar then .ok none
      else
        match rest with
        | '(' :: inside => some <$> functionReference inside
        | c :: _ =>
            if Text.isAsciiBlank c
                && (rest.dropWhile Text.isAsciiBlank).head? == some '(' then
              .error .spaceBeforeParenthesis
            else .ok none
        | [] => .ok none
  | _ => .ok none

/-! ## The rest gets shorter -/

/-- What follows a string is no longer than the text the string was read from. -/
theorem length_stringRest (quote : Char) (cs : List Char) :
    (stringRest quote cs).2.length ≤ cs.length := by
  fun_induction stringRest quote cs with
  | case1 => exact Nat.le_refl 0
  | case2 => exact Nat.zero_le _
  | case3 c cs inside rest heq ih =>
      -- The backslash takes a second character along.
      rw [heq] at ih
      exact Nat.le_succ_of_le (Nat.le_succ_of_le ih)
  | case4 cs => exact Nat.le_succ cs.length
  | case5 c cs _ _ _ inside rest heq ih =>
      rw [heq] at ih
      exact Nat.le_succ_of_le ih

theorem length_moreNames (fuel : Nat) (cs : List Char) :
    (moreNames fuel cs).2.length ≤ cs.length := by
  fun_induction moreNames fuel cs with
  | case1 => simp
  | case2 => simp
  | case3 fuel tail name h names rest heq ih =>
      rw [heq] at ih
      have := (List.dropWhile_sublist (l := tail) isPathChar).length_le
      simp only [List.length_cons] at *
      omega
  | case4 => simp

/-- What follows a path is no longer than the text. -/
theorem length_path? {cs path rest : List Char} (h : path? cs = some (path, rest)) :
    rest.length ≤ cs.length := by
  simp only [path?] at h
  split at h
  · simp at h
  · simp only [Option.some.injEq, Prod.mk.injEq] at h
    have h₁ := length_moreNames (cs.dropWhile isPathChar).length
      (cs.dropWhile isPathChar)
    have h₂ := (List.dropWhile_sublist (l := cs) isPathChar).length_le
    rw [← h.2]
    omega

/-- Nor is what follows the reference behind `@theme`. -/
theorem length_atReference {cs rest : List Char} {r : Reference}
    (h : atReference cs = .ok (r, rest)) : rest.length ≤ cs.length := by
  unfold atReference at h
  split at h
  · simp at h
  · rename_i c tail
    split at h
    · dsimp only at h
      split at h
      · rename_i path rest' hp
        simp only [Except.ok.injEq, Prod.mk.injEq] at h
        have h₁ := length_path? hp
        have h₂ := (List.dropWhile_sublist (l := c :: tail) Text.isAsciiBlank).length_le
        rw [← h.2]
        split at h₁
        · simp only [List.length_drop] at h₁
          omega
        · omega
      · simp at h
    · simp at h

/-- Nor is what follows the reference behind `theme(`. -/
theorem length_functionReference {cs rest : List Char} {r : Reference}
    (h : functionReference cs = .ok (r, rest)) : rest.length ≤ cs.length := by
  have hle : ∀ l : List Char, (l.dropWhile Text.isAsciiBlank).length ≤ l.length :=
    fun l => (List.dropWhile_sublist (l := l) Text.isAsciiBlank).length_le
  unfold functionReference at h
  split at h
  · rename_i quote spelled hd
    have h₀ := hle cs
    rw [hd] at h₀
    split at h
    · split at h
      · rename_i path close rest' hp
        have h₁ := length_path? hp
        split at h
        · split at h
          · rename_i rest'' hd'
            have h₂ := hle rest'
            rw [hd'] at h₂
            simp only [Except.ok.injEq, Prod.mk.injEq] at h
            rw [← h.2]
            simp only [List.length_cons] at *
            omega
          · simp at h
        · simp at h
      · simp at h
    · simp at h
  · simp at h

/-- An opener is read, so what follows its reference is shorter. -/
theorem length_opener? {before : Option Char} {cs rest : List Char} {r : Reference}
    (h : opener? before cs = .ok (some (r, rest))) : rest.length < cs.length := by
  unfold opener? at h
  split at h
  · rename_i tail
    cases ha : atReference tail with
    | error e => simp [ha, Functor.map, Except.map] at h
    | ok p =>
        obtain ⟨r', rest'⟩ := p
        simp only [ha, Functor.map, Except.map, Except.ok.injEq, Option.some.injEq,
          Prod.mk.injEq] at h
        have := length_atReference ha
        rw [← h.2]
        simp only [List.length_cons]
        omega
  · rename_i tail
    split at h
    · simp at h
    · split at h
      · rename_i inside
        cases ha : functionReference inside with
        | error e => simp [ha, Functor.map, Except.map] at h
        | ok p =>
            obtain ⟨r', rest'⟩ := p
            simp only [ha, Functor.map, Except.map, Except.ok.injEq,
              Option.some.injEq, Prod.mk.injEq] at h
            have := length_functionReference ha
            rw [← h.2]
            simp only [List.length_cons]
            omega
      · split at h <;> simp at h
      · simp at h
  · simp at h

/-! ## Marking and gathering -/

/-- The marks of a text; `before` is the character in front of it, unless a
    string or a reference ends there, which no word runs on from. -/
def marks (before : Option Char) (cs : List Char) :
    Except ReferenceFault (List Mark) :=
  match cs with
  | [] => .ok []
  | c :: tail =>
      if c = '\'' ∨ c = '"' then
        ((c :: (stringRest c tail).1).map .char ++ ·)
          <$> marks none (stringRest c tail).2
      else
        match _h : opener? before (c :: tail) with
        | .error fault => .error fault
        | .ok (some (r, rest)) => (.reference r :: ·) <$> marks none rest
        | .ok none => (.char c :: ·) <$> marks (some c) tail
termination_by cs.length
decreasing_by
  · have := length_stringRest c tail
    simp only [List.length_cons]
    omega
  · exact length_opener? _h
  · simp

/-- Puts a character in front of segments. -/
def prependChar (c : Char) : List Segment → List Segment
  | .literal text :: rest => .literal (String.singleton c ++ text) :: rest
  | segments => .literal (String.singleton c) :: segments

/-- Gathers runs of characters into literals. -/
def gather : List Mark → List Segment
  | [] => []
  | .char c :: ms => prependChar c (gather ms)
  | .reference r :: ms => .reference r :: gather ms

/-- Splits a value into literals and references. -/
def ParsedValue.parse (value : String) : Except ThemeError ParsedValue :=
  match marks none value.toList with
  | .ok ms => .ok ⟨gather ms⟩
  | .error fault => .error (.malformedReference fault value none)

/-- Whether the word that every reference begins with occurs at all. -/
def mentionsTheme (value : String) : Bool :=
  Text.occurs "theme".toList value.toList

end ThemeTokens
