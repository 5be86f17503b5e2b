/-! # Names and escapes

    Names, strings and unquoted addresses share one escape rule: a backslash
    and up to six hexadecimal digits, with one blank swallowed, or a backslash
    and any other character.  What is read comes as a `Piece`: the text it
    means, the characters it was written with, and the rest.  The characters
    and the rest always make up what was given. -/

namespace ThemeTokens.Css

/-- Something read off the front of a text. -/
structure Piece where
  /-- What it means, escapes resolved. -/
  text : List Char
  /-- How it was written. -/
  raw : List Char
  rest : List Char

namespace Piece

/-- Nothing read. -/
def none (cs : List Char) : Piece := ⟨[], [], cs⟩

/-- A piece with `raw` in front, standing for `text`. -/
def cons (text raw : List Char) (p : Piece) : Piece :=
  ⟨text ++ p.text, raw ++ p.raw, p.rest⟩

/-- The piece was read off the front of `cs`. -/
def Splits (p : Piece) (cs : List Char) : Prop :=
  cs = p.raw ++ p.rest

theorem Splits.none (cs : List Char) : (Piece.none cs).Splits cs := rfl

/-- What is put in front of a piece is put in front of what it was read from. -/
theorem Splits.cons {p : Piece} {cs : List Char} (h : p.Splits cs)
    (text raw : List Char) : (p.cons text raw).Splits (raw ++ cs) := by
  unfold Splits at *
  simp [Piece.cons, h]

/-- Two pieces read one after the other, `lead` in front. -/
theorem Splits.trans {e p : Piece} {cs : List Char} (he : e.Splits cs)
    (hp : p.Splits e.rest) (text lead : List Char) :
    (p.cons text (lead ++ e.raw)).Splits (lead ++ cs) := by
  unfold Splits at *
  simp only [Piece.cons, List.append_assoc, ← hp, ← he]

/-- What is left of a text is no longer than the text. -/
theorem Splits.length_rest {p : Piece} {cs : List Char} (h : p.Splits cs) :
    p.rest.length ≤ cs.length := by
  unfold Splits at h
  rw [h, List.length_append]
  omega

end Piece

/-- What stands for a character that cannot be written. -/
def replacement : Char := '\uFFFD'

/-- Line feed, form feed and carriage return. -/
def isNewline (c : Char) : Bool :=
  c == '\n' || c == '\x0c' || c == '\r'

/-- Blanks and newlines. -/
def isSpace (c : Char) : Bool :=
  c == ' ' || c == '\t' || isNewline c

/-- Digits and the letters that go on after nine. -/
def isHexDigit (c : Char) : Bool :=
  c.isDigit || ('a' ≤ c && c ≤ 'f') || ('A' ≤ c && c ≤ 'F')

/-- The value of a hexadecimal digit. -/
def hexValue (c : Char) : Nat :=
  if c.isDigit then c.toNat - 48
  else if 'a' ≤ c then c.toNat - 87
  else c.toNat - 55

/-- Letters, the underscore, NUL and all that is not ASCII begin names. -/
def isNameStart (c : Char) : Bool :=
  c.isAlpha || c == '_' || c == '\x00' || 0x80 ≤ c.toNat

/-- What continues a name without an escape. -/
def isNameChar (c : Char) : Bool :=
  c.isAlphanum || c == '_' || c == '-' || 0x80 ≤ c.toNat

/-- One newline, two characters if a carriage return and line feed make it. -/
def newline : List Char → Piece
  | '\r' :: '\n' :: rest => ⟨[], ['\r', '\n'], rest⟩
  | c :: rest => if isNewline c then ⟨[], [c], rest⟩ else .none (c :: rest)
  | [] => .none []

/-- A newline, or one blank. -/
def oneSpace (cs : List Char) : Piece :=
  match cs with
  | c :: rest => if c = ' ' ∨ c = '\t' then ⟨[], [c], rest⟩ else newline cs
  | [] => .none []

/-- The character with this code, if there is one and it may be written. -/
def character (code : Nat) : Char :=
  if h : code ≠ 0 ∧ code.isValidChar then Char.ofNatAux code h.2 else replacement

/-- Up to `n` hexadecimal digits. -/
def hexDigits : Nat → List Char → Piece
  | 0, cs => .none cs
  | _ + 1, [] => .none []
  | n + 1, c :: cs =>
      if isHexDigit c then (hexDigits n cs).cons [c] [c] else .none (c :: cs)

/-- What follows a backslash; nothing at all stands for the replacement. -/
def escape : List Char → Piece
  | [] => ⟨[replacement], [], []⟩
  | c :: cs =>
      if isHexDigit c then
        let digits := hexDigits 6 (c :: cs)
        let blank := oneSpace digits.rest
        let code := digits.text.foldl (fun n d => n * 16 + hexValue d) 0
        ⟨[character code], digits.raw ++ blank.raw, blank.rest⟩
      else
        ⟨[if c = '\x00' then replacement else c], [c], cs⟩

/-- A newline is read off the front. -/
theorem splits_newline (cs : List Char) : (newline cs).Splits cs := by
  unfold newline Piece.Splits
  split
  · rfl
  · split <;> rfl
  · rfl

theorem splits_oneSpace (cs : List Char) : (oneSpace cs).Splits cs := by
  unfold oneSpace
  split
  · split
    · rfl
    · exact splits_newline _
  · rfl

theorem splits_hexDigits (n : Nat) (cs : List Char) :
    (hexDigits n cs).Splits cs := by
  induction n generalizing cs with
  | zero => exact .none cs
  | succ n ih =>
      cases cs with
      | nil => exact .none []
      | cons c cs =>
          unfold hexDigits
          split
          · exact (ih cs).cons [c] [c]
          · exact .none _

/-- An escape is read off the front, with the blank that ends its code. -/
theorem splits_escape (cs : List Char) : (escape cs).Splits cs := by
  unfold escape
  split
  · rfl
  · rename_i c cs
    split
    · have h₁ := splits_hexDigits 6 (c :: cs)
      have h₂ := splits_oneSpace (hexDigits 6 (c :: cs)).rest
      unfold Piece.Splits at *
      simp only [List.append_assoc, ← h₂, ← h₁]
    · rfl

/-- Whether a newline is the next character. -/
def startsNewline : List Char → Bool
  | [] => false
  | c :: _ => isNewline c

/-- The longest name, possibly empty.  A backslash before a newline ends it. -/
def name : List Char → Piece
  | [] => .none []
  | c :: cs =>
      if isNameChar c then (name cs).cons [c] [c]
      else if c = '\x00' then (name cs).cons [replacement] [c]
      else if c = '\\' ∧ startsNewline cs = false then
        let e := escape cs
        (name e.rest).cons e.text ('\\' :: e.raw)
      else .none (c :: cs)
termination_by cs => cs.length
decreasing_by
  all_goals simp_wf
  have := (splits_escape cs).length_rest
  omega

/-- A name is read off the front, with its escapes. -/
theorem splits_name (cs : List Char) : (name cs).Splits cs := by
  fun_induction name cs with
  | case1 => exact .none []
  | case2 c cs _ ih => exact ih.cons [c] [c]
  | case3 cs _ ih => exact ih.cons _ ['\x00']
  | case4 c cs _ _ h e ih =>
      obtain ⟨rfl, _⟩ := h
      exact (splits_escape cs).trans ih e.text ['\\']
  | case5 c cs => exact .none (c :: cs)

/-- Whether a name can begin here. -/
def startsName : List Char → Bool
  | [] => false
  | '-' :: c :: _ => c == '-' || c == '\\' || isNameStart c
  | '-' :: [] => false
  | '\\' :: cs => !startsNewline cs
  | c :: _ => isNameStart c

/-- All but a dash and a backslash show alone whether they begin a name. -/
theorem startsName_cons {c : Char} (hdash : c ≠ '-') (hslash : c ≠ '\\') (cs : List Char) :
    startsName (c :: cs) = isNameStart c := by
  unfold startsName
  split
  · rename_i h
    cases h
  · rename_i h
    exact absurd (List.cons.inj h).1 hdash
  · rename_i h
    exact absurd (List.cons.inj h).1 hdash
  · rename_i h
    exact absurd (List.cons.inj h).1 hslash
  · rename_i h
    rw [(List.cons.inj h).1]

end ThemeTokens.Css
