import ThemeTokens.Css.Escape
import ThemeTokens.Css.Token
import ThemeTokens.Location

/-! # Cutting a stylesheet into tokens

    The longest token is read off the front of the text until nothing is left;
    every text has exactly one such sequence of tokens, and the characters of
    the tokens put together are the text (`flatMap_raw_lexemes`). -/

namespace ThemeTokens.Css

/-- A token read off the front of a text. -/
structure Lexed where
  token : Token
  /-- How it was written. -/
  raw : List Char
  rest : List Char

/-- A token with the places where it starts and ends. -/
structure Lexeme where
  token : Token
  /-- How it was written. -/
  raw : List Char
  start : Location
  stop : Location

/-- The text of a comment up to and with its end, if it has one. -/
def commentText : List Char → Piece
  | [] => .none []
  | '*' :: '/' :: rest => ⟨[], ['*', '/'], rest⟩
  | c :: cs => (commentText cs).cons [c] [c]

/-- A string up to and with its closing quote.  The first part says whether
    it ended properly; an unescaped newline cuts it off, the end of the text
    does not spoil it. -/
def stringText (quote : Char) : List Char → Bool × Piece
  | [] => (true, .none [])
  | c :: cs =>
      if c = quote then (true, ⟨[], [c], cs⟩)
      else if isNewline c then (false, .none (c :: cs))
      else if c = '\\' then
        if startsNewline cs then
          let n := newline cs
          let (proper, tail) := stringText quote n.rest
          (proper, tail.cons [] (c :: n.raw))
        else if cs.isEmpty then (true, ⟨[], [c], []⟩)
        else
          let e := escape cs
          let (proper, tail) := stringText quote e.rest
          (proper, tail.cons e.text (c :: e.raw))
      else
        let (proper, tail) := stringText quote cs
        (proper, tail.cons [if c = '\x00' then replacement else c] [c])
termination_by cs => cs.length
decreasing_by
  all_goals simp_wf
  · have := (splits_newline cs).length_rest
    omega
  · have := (splits_escape cs).length_rest
    omega

/-- An unquoted address up to and with its closing parenthesis.  The text of
    a bad one is what was written. -/
structure Address where
  bad : Bool
  piece : Piece

/-- Control characters that no address holds. -/
def isUnprintable (c : Char) : Bool :=
  (1 ≤ c.toNat && c.toNat ≤ 8) || c.toNat == 0x0B
    || (0x0E ≤ c.toNat && c.toNat ≤ 0x1F) || c.toNat == 0x7F

/-- What is left of a bad address: all up to the next parenthesis that no
    backslash precedes. -/
def badAddress : List Char → Piece
  | [] => .none []
  | ')' :: rest => ⟨[], [')'], rest⟩
  | '\\' :: ')' :: cs => (badAddress cs).cons ['\\', ')'] ['\\', ')']
  | '\\' :: '\\' :: cs => (badAddress cs).cons ['\\', '\\'] ['\\', '\\']
  | c :: cs => (badAddress cs).cons [c] [c]

/-- What may follow the blanks behind an address. -/
def addressEnd (blanks : List Char) : List Char → Address
  | [] => ⟨false, ⟨[], blanks, []⟩⟩
  | ')' :: rest => ⟨false, ⟨[], blanks ++ [')'], rest⟩⟩
  | c :: cs => ⟨true, (badAddress cs).cons (blanks ++ [c]) (blanks ++ [c])⟩

/-- An unquoted address, blanks in front already read. -/
def addressText : List Char → Address
  | [] => ⟨false, .none []⟩
  | c :: cs =>
      if isSpace c then
        addressEnd ((c :: cs).takeWhile isSpace) ((c :: cs).dropWhile isSpace)
      else if c = ')' then ⟨false, ⟨[], [c], cs⟩⟩
      else if isUnprintable c ∨ c = '"' ∨ c = '\'' ∨ c = '('
          ∨ (c = '\\' ∧ startsNewline cs = true) then
        ⟨true, (badAddress cs).cons [c] [c]⟩
      else if c = '\\' then
        let e := escape cs
        let a := addressText e.rest
        ⟨a.bad, a.piece.cons (if a.bad then c :: e.raw else e.text) (c :: e.raw)⟩
      else
        let a := addressText cs
        ⟨a.bad, a.piece.cons
          [if c = '\x00' ∧ a.bad = false then replacement else c] [c]⟩
termination_by cs => cs.length
decreasing_by
  all_goals simp_wf
  have := (splits_escape cs).length_rest
  omega

/-- What follows `url(`, unless it is a quoted string. -/
def address? (cs : List Char) : Option Lexed :=
  let blanks := cs.takeWhile isSpace
  match cs.dropWhile isSpace with
  | '"' :: _ => none
  | '\'' :: _ => none
  | rest =>
      let a := addressText rest
      let text := String.ofList a.piece.text
      some ⟨if a.bad then .badUrl text else .unquotedUrl text,
        blanks ++ a.piece.raw, a.piece.rest⟩

/-- A name that begins here, with what it begins: an address, a function or
    just the name. -/
def identLike (cs : List Char) : Lexed :=
  let n := name cs
  let text := String.ofList n.text
  match n.rest with
  | '(' :: rest =>
      let plain : Lexed := ⟨.function text, n.raw ++ ['('], rest⟩
      if n.text.map Char.toLower = "url".toList then
        match address? rest with
        | some a => ⟨a.token, n.raw ++ '(' :: a.raw, a.rest⟩
        | none => plain
      else plain
  | rest => ⟨.ident text, n.raw, rest⟩

/-- The digits of an exponent, if one begins here: its raw text, its sign and
    its digits. -/
def exponent? : List Char → Option (List Char × Bool × List Char)
  | e :: s :: d :: cs =>
      if e = 'e' ∨ e = 'E' then
        if s.isDigit then
          let digits := (s :: d :: cs).takeWhile Char.isDigit
          some (e :: digits, false, digits)
        else if (s = '+' ∨ s = '-') ∧ d.isDigit then
          let digits := (d :: cs).takeWhile Char.isDigit
          some (e :: s :: digits, s == '-', digits)
        else none
      else none
  | [e, d] =>
      if (e = 'e' ∨ e = 'E') ∧ d.isDigit then some ([e, d], false, [d]) else none
  | _ => none

/-- The digits of a fraction, if a point and a digit begin here. -/
def fraction? : List Char → Option (List Char)
  | '.' :: d :: cs =>
      if d.isDigit then some ((d :: cs).takeWhile Char.isDigit) else none
  | _ => none

/-- The sign, if one begins here. -/
def sign? : List Char → Option Char
  | c :: _ => if c = '+' ∨ c = '-' then some c else none
  | [] => none

/-- A number that begins here: it, how it was written, and the rest. -/
def numeral (cs : List Char) : Numeral × List Char × List Char :=
  let sign := sign? cs
  let unsigned := cs.drop sign.toList.length
  let whole := unsigned.takeWhile Char.isDigit
  let afterWhole := unsigned.drop whole.length
  let fraction := fraction? afterWhole
  let fractionRaw := match fraction with
    | some digits => '.' :: digits
    | none => []
  let afterFraction := afterWhole.drop fractionRaw.length
  let exponent := exponent? afterFraction
  let exponentRaw := match exponent with
    | some (raw, _) => raw
    | none => []
  let size := sign.toList.length + whole.length + fractionRaw.length
    + exponentRaw.length
  (⟨sign, whole, fraction, exponent.map Prod.snd⟩, cs.take size, cs.drop size)

/-- A number with its unit. -/
def numeric (cs : List Char) : Lexed :=
  match numeral cs with
  | (n, raw, '%' :: rest) => ⟨.percentage n, raw ++ ['%'], rest⟩
  | (n, raw, rest) =>
      if startsName rest then
        let unit := name rest
        ⟨.dimension n (String.ofList unit.text), raw ++ unit.raw, unit.rest⟩
      else ⟨.number n, raw, rest⟩

/-- Whether a number begins with a sign or point and then `cs`. -/
def startsDigits : List Char → Bool
  | '.' :: d :: _ => d.isDigit
  | d :: _ => d.isDigit
  | [] => false

/-- A string and how it ended. -/
def string (quote : Char) (cs : List Char) : Lexed :=
  let (proper, p) := stringText quote cs
  let text := String.ofList p.text
  ⟨if proper then .quotedString text else .badString text, quote :: p.raw, p.rest⟩

/-- A token of a single character. -/
def single (token : Token) (c : Char) (cs : List Char) : Lexed :=
  ⟨token, [c], cs⟩

/-- A matching operator such as `~=`, or its first character alone. -/
def operator (token : Token) (c : Char) : List Char → Lexed
  | '=' :: rest => ⟨token, [c, '='], rest⟩
  | cs => single (.delim c) c cs

/-- The token that begins with `c`. -/
def lex (c : Char) (cs : List Char) : Lexed :=
  if isSpace c then
    let blanks := cs.takeWhile isSpace
    ⟨.whiteSpace (String.ofList (c :: blanks)), c :: blanks, cs.dropWhile isSpace⟩
  else if isNameStart c then identLike (c :: cs)
  else if c.isDigit then numeric (c :: cs)
  else
    match c with
    | '"' => string '"' cs
    | '\'' => string '\'' cs
    | '#' =>
        if startsName cs then
          let n := name cs
          ⟨.idHash (String.ofList n.text), c :: n.raw, n.rest⟩
        else if (cs.head?.map fun d => d.isDigit || d == '-') = some true then
          let n := name cs
          ⟨.hash (String.ofList n.text), c :: n.raw, n.rest⟩
        else single (.delim c) c cs
    | '$' => operator .suffixMatch c cs
    | '*' => operator .substringMatch c cs
    | '^' => operator .prefixMatch c cs
    | '|' => operator .dashMatch c cs
    | '~' => operator .includeMatch c cs
    | '(' => single .openParenthesis c cs
    | ')' => single .closeParenthesis c cs
    | '[' => single .openSquare c cs
    | ']' => single .closeSquare c cs
    | '{' => single .openCurly c cs
    | '}' => single .closeCurly c cs
    | ',' => single .comma c cs
    | ':' => single .colon c cs
    | ';' => single .semicolon c cs
    | '+' => if startsDigits cs then numeric (c :: cs) else single (.delim c) c cs
    | '.' =>
        if (cs.head?.map Char.isDigit) = some true then numeric (c :: cs)
        else single (.delim c) c cs
    | '-' =>
        if startsDigits cs then numeric (c :: cs)
        else
          match cs with
          | '-' :: '>' :: rest => ⟨.commentClose, [c, '-', '>'], rest⟩
          | _ =>
              if startsName (c :: cs) then identLike (c :: cs)
              else single (.delim c) c cs
    | '/' =>
        match cs with
        | '*' :: rest =>
            let p := commentText rest
            ⟨.comment (String.ofList p.text), c :: '*' :: p.raw, p.rest⟩
        | _ => single (.delim c) c cs
    | '<' =>
        match cs with
        | '!' :: '-' :: '-' :: rest => ⟨.commentOpen, [c, '!', '-', '-'], rest⟩
        | _ => single (.delim c) c cs
    | '@' =>
        if startsName cs then
          let n := name cs
          ⟨.atKeyword (String.ofList n.text), c :: n.raw, n.rest⟩
        else single (.delim c) c cs
    | '\\' =>
        if startsNewline cs then single (.delim c) c cs else identLike (c :: cs)
    | _ => single (.delim c) c cs

/-! ## Nothing is lost -/

/-- The token was read off the front of `cs`. -/
def Lexed.Splits (l : Lexed) (cs : List Char) : Prop :=
  cs = l.raw ++ l.rest ∧ l.raw ≠ []

/-- No token is empty, so what is left gets shorter. -/
theorem Lexed.Splits.length_rest {l : Lexed} {cs : List Char} (h : l.Splits cs) :
    l.rest.length < cs.length := by
  obtain ⟨h, hne⟩ := h
  have : 0 < l.raw.length := List.length_pos_iff.mpr hne
  rw [h, List.length_append]
  omega

/-- A comment is read off the front. -/
theorem splits_commentText (cs : List Char) : (commentText cs).Splits cs := by
  fun_induction commentText cs with
  | case1 => exact .none []
  | case2 => rfl
  | case3 c cs _ ih => exact ih.cons [c] [c]

/-- A string is read off the front, with its escapes. -/
theorem splits_stringText (quote : Char) (cs : List Char) :
    (stringText quote cs).2.Splits cs := by
  fun_induction stringText quote cs with
  | case1 => exact .none []
  | case2 => rfl
  | case3 => exact .none _
  | case4 cs _ n _ _ heq _ _ ih =>
      rw [heq] at ih
      exact (splits_newline cs).trans ih [] ['\\']
  | case5 cs _ h =>
      simp only [List.isEmpty_iff] at h
      subst h
      rfl
  | case6 cs _ _ e _ _ heq _ _ ih =>
      rw [heq] at ih
      exact (splits_escape cs).trans ih e.text ['\\']
  | case7 c cs _ _ _ _ _ heq ih =>
      rw [heq] at ih
      exact Piece.Splits.cons ih _ [c]

theorem splits_badAddress (cs : List Char) : (badAddress cs).Splits cs := by
  fun_induction badAddress cs with
  | case1 => exact .none []
  | case2 => rfl
  | case3 cs ih => exact ih.cons _ ['\\', ')']
  | case4 cs ih => exact ih.cons _ ['\\', '\\']
  | case5 c cs _ _ _ ih => exact ih.cons [c] [c]

theorem splits_addressEnd (blanks cs : List Char) :
    (addressEnd blanks cs).piece.Splits (blanks ++ cs) := by
  unfold addressEnd
  split
  · simp [Piece.Splits]
  · simp [Piece.Splits]
  · rename_i c cs _
    have := (splits_badAddress cs).cons (blanks ++ [c]) (blanks ++ [c])
    simpa using this

/-- An address is read off the front, be it a bad one. -/
theorem splits_addressText (cs : List Char) :
    (addressText cs).piece.Splits cs := by
  fun_induction addressText cs with
  | case1 => exact .none []
  | case2 c cs _ =>
      have := splits_addressEnd ((c :: cs).takeWhile isSpace)
        ((c :: cs).dropWhile isSpace)
      rwa [List.takeWhile_append_dropWhile] at this
  | case3 => rfl
  | case4 c cs => exact (splits_badAddress cs).cons [c] [c]
  | case5 cs e a _ _ _ ih => exact (splits_escape cs).trans ih _ ['\\']
  | case6 c cs _ _ _ _ a ih => exact ih.cons _ [c]

/-- What follows `url(` is read with the blanks in front. -/
theorem splits_address? {cs : List Char} {l : Lexed} (h : address? cs = some l) :
    cs = l.raw ++ l.rest := by
  unfold address? at h
  split at h
  · simp at h
  · simp at h
  · simp only [Option.some.injEq] at h
    subst h
    have hs := splits_addressText (cs.dropWhile isSpace)
    unfold Piece.Splits at hs
    simp only [List.append_assoc, ← hs, List.takeWhile_append_dropWhile]

/-- A name that begins is not empty. -/
theorem raw_name_ne_nil {cs : List Char} (h : startsName cs = true) :
    (name cs).raw ≠ [] := by
  unfold startsName at h
  split at h
  · simp at h
  · unfold name
    simp [isNameChar, Piece.cons]
  · simp at h
  · unfold name
    simp only [Bool.not_eq_true'] at h
    simp [isNameChar, Piece.cons, h]
  · rename_i c cs _ _
    unfold name
    unfold isNameStart at h
    simp only [Bool.or_eq_true, beq_iff_eq] at h
    split
    · simp [Piece.cons]
    · rename_i hc
      simp only [isNameChar, Char.isAlphanum, Bool.or_eq_true, not_or] at hc
      split
      · simp [Piece.cons]
      · rename_i hz
        rcases h with ((h | h) | h) | h
        · exact absurd h hc.1.1.1.1
        · exact absurd (by simpa using h) hc.1.1.2
        · exact absurd h hz
        · exact absurd (by simpa using h) hc.2

/-- A name that begins is a token with what it begins. -/
theorem splits_identLike {cs : List Char} (h : startsName cs = true) :
    (identLike cs).Splits cs := by
  have hn := splits_name cs
  have hne := raw_name_ne_nil h
  unfold Piece.Splits at hn
  simp only [identLike]
  split
  · rename_i rest heq
    rw [heq] at hn
    split
    · split
      · rename_i a ha
        refine ⟨?_, by simp⟩
        rw [splits_address? ha] at hn
        simpa using hn
      · exact ⟨by simpa using hn, by simp⟩
    · exact ⟨by simpa using hn, by simp⟩
  · exact ⟨hn, hne⟩

/-- A number takes as many characters as its parts have. -/
theorem splits_numeral (cs : List Char) :
    cs = (numeral cs).2.1 ++ (numeral cs).2.2 :=
  (List.take_append_drop _ cs).symm

/-- Digits, with or without a sign or point, are not read as nothing. -/
theorem raw_numeral_ne_nil {c : Char} {cs : List Char}
    (h : c.isDigit = true ∨ c = '+' ∨ c = '-'
      ∨ (c = '.' ∧ (cs.head?.map Char.isDigit) = some true)) :
    (numeral (c :: cs)).2.1 ≠ [] := by
  simp only [numeral]
  rcases h with h | h | h | ⟨h, hd⟩
  · by_cases hs : c = '+' ∨ c = '-'
    · simp [sign?, hs]
    · simp [sign?, hs, h]
  · simp [sign?, h]
  · simp [sign?, h]
  · subst h
    cases cs with
    | nil => simp at hd
    | cons d cs =>
        simp only [List.head?_cons, Option.map_some, Option.some.injEq] at hd
        simp [sign?, fraction?, hd]

/-- A number that begins is a token with its unit. -/
theorem splits_numeric {c : Char} {cs : List Char}
    (h : c.isDigit = true ∨ c = '+' ∨ c = '-'
      ∨ (c = '.' ∧ (cs.head?.map Char.isDigit) = some true)) :
    (numeric (c :: cs)).Splits (c :: cs) := by
  have hs := splits_numeral (c :: cs)
  have hne := raw_numeral_ne_nil h
  unfold numeric
  split
  · rename_i n raw rest heq
    rw [heq] at hs hne
    exact ⟨by simpa using hs, by simp⟩
  · rename_i n raw rest _ heq
    rw [heq] at hs hne
    split
    · have hn := splits_name rest
      unfold Piece.Splits at hn
      refine ⟨?_, by simp only [ne_eq, List.append_eq_nil_iff]; exact fun h => hne h.1⟩
      simpa [← hn] using hs
    · exact ⟨hs, hne⟩

theorem splits_string (quote : Char) (cs : List Char) :
    (string quote cs).Splits (quote :: cs) := by
  have := splits_stringText quote cs
  unfold Piece.Splits at this
  exact ⟨by simp [string, ← this], by simp [string]⟩

theorem splits_single (token : Token) (c : Char) (cs : List Char) :
    (single token c cs).Splits (c :: cs) :=
  ⟨rfl, by simp [single]⟩

theorem splits_operator (token : Token) (c : Char) (cs : List Char) :
    (operator token c cs).Splits (c :: cs) := by
  unfold operator
  split
  · exact ⟨rfl, by simp⟩
  · exact splits_single _ c _

/-- A token made of `c` and a name. -/
theorem splits_named (token : Token) (c : Char) (cs : List Char) :
    Lexed.Splits ⟨token, c :: (name cs).raw, (name cs).rest⟩ (c :: cs) := by
  have := splits_name cs
  unfold Piece.Splits at this
  exact ⟨by simp [← this], by simp⟩

/-- Every token is a part of the text, and not an empty one. -/
theorem splits_lex (c : Char) (cs : List Char) : (lex c cs).Splits (c :: cs) := by
  unfold lex
  split
  · exact ⟨by simp [List.takeWhile_append_dropWhile], by simp⟩
  · split
    · rename_i h
      refine splits_identLike ?_
      have hdash : c ≠ '-' := by
        rintro rfl
        exact absurd h (by decide)
      have hslash : c ≠ '\\' := by
        rintro rfl
        exact absurd h (by decide)
      rw [startsName_cons hdash hslash]
      exact h
    · split
      · rename_i h
        exact splits_numeric (Or.inl h)
      · split
        · exact splits_string _ cs
        · exact splits_string _ cs
        · split
          · exact splits_named _ _ cs
          · split
            · exact splits_named _ _ cs
            · exact splits_single _ _ cs
        · exact splits_operator _ _ cs
        · exact splits_operator _ _ cs
        · exact splits_operator _ _ cs
        · exact splits_operator _ _ cs
        · exact splits_operator _ _ cs
        · exact splits_single _ _ cs
        · exact splits_single _ _ cs
        · exact splits_single _ _ cs
        · exact splits_single _ _ cs
        · exact splits_single _ _ cs
        · exact splits_single _ _ cs
        · exact splits_single _ _ cs
        · exact splits_single _ _ cs
        · exact splits_single _ _ cs
        · split
          · exact splits_numeric (by simp)
          · exact splits_single _ _ cs
        · split
          · rename_i h
            exact splits_numeric (by simp [h])
          · exact splits_single _ _ cs
        · split
          · exact splits_numeric (by simp)
          · split
            · exact ⟨rfl, by simp⟩
            · split
              · rename_i h
                exact splits_identLike h
              · exact splits_single _ _ _
        · split
          · rename_i rest
            have := splits_commentText rest
            unfold Piece.Splits at this
            exact ⟨by simp [← this], by simp⟩
          · exact splits_single _ _ _
        · split
          · exact ⟨rfl, by simp⟩
          · exact splits_single _ _ _
        · split
          · exact splits_named _ _ cs
          · exact splits_single _ _ cs
        · split
          · exact splits_single _ _ cs
          · rename_i h
            refine splits_identLike ?_
            simpa [startsName] using h
        · exact splits_single _ _ cs

/-- All tokens of a text that starts at `here`. -/
def lexemes (here : Location) : List Char → List Lexeme
  | [] => []
  | c :: cs =>
      let l := lex c cs
      let stop := here.advance l.raw
      ⟨l.token, l.raw, here, stop⟩ :: lexemes stop l.rest
termination_by cs => cs.length
decreasing_by exact (splits_lex c cs).length_rest

/-- **LOSSLESS**: the tokens put together are the text. -/
theorem flatMap_raw_lexemes (here : Location) (cs : List Char) :
    (lexemes here cs).flatMap Lexeme.raw = cs := by
  fun_induction lexemes here cs with
  | case1 => rfl
  | case2 here c cs l stop ih =>
      rw [List.flatMap_cons, ih]
      exact (splits_lex c cs).1.symm

end ThemeTokens.Css
