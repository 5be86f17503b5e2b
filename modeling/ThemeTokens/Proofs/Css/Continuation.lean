import ThemeTokens.Proofs.Css.Enclosed
import ThemeTokens.Proofs.Css.Numeral

/-! # What follows a token

    Put a semicolon behind a text, and see which tokens leave it alone: they are
    read just so in front of every ending (`resumes_lex`). -/

namespace ThemeTokens.Css

section Continuations

variable {w : List Char}

/-! ## Names and what they begin -/

namespace Lexed

/-- The token with `w` in the place of the semicolon at the end. -/
def resume (l : Lexed) (w : List Char) : Lexed :=
  ⟨l.token, l.raw, l.rest.dropLast ++ w⟩

/-- `k` is `l` with `w` in the place of the semicolon at the end, where a token
    that ended there may have taken in white space. -/
def Resumes (l k : Lexed) (w : List Char) : Prop :=
  ∃ sp w', w = sp ++ w' ∧ (∀ c ∈ sp, isSpace c = true) ∧ (sp = [] ∨ l.rest = [';'])
    ∧ k = ⟨l.token, l.raw ++ sp, l.rest.dropLast ++ w'⟩

theorem resumes_resume (l : Lexed) (w : List Char) : l.Resumes (l.resume w) w :=
  ⟨[], w, rfl, List.forall_mem_nil _, Or.inl rfl, by rw [List.append_nil]; rfl⟩

/-- A token that is over in front of `u` is over there whatever follows `u`. -/
theorem resumes_append (token : Token) (raw u w : List Char) :
    (Lexed.mk token raw (u ++ [';'])).Resumes ⟨token, raw, u ++ w⟩ w := by
  have h := resumes_resume ⟨token, raw, u ++ [';']⟩ w
  rwa [resume, List.dropLast_concat] at h

end Lexed

/-- A token made of some piece goes on as the piece does. -/
theorem Piece.Resumes.lexed {p q : Piece} (h : p.Resumes q w) (token : List Char → Token)
    (lead : List Char) :
    (Lexed.mk (token p.text) (lead ++ p.raw) p.rest).Resumes
      ⟨token q.text, lead ++ q.raw, q.rest⟩ w := by
  obtain ⟨sp, w', hw, hsp, hend, rfl⟩ := h
  exact ⟨sp, w', hw, hsp, hend, by rw [List.append_assoc]⟩

/-- The token an unquoted address makes, blanks in front already read. -/
def Address.lexed (blanks : List Char) (a : Address) : Lexed :=
  ⟨if a.bad then .badUrl (String.ofList a.piece.text)
    else .unquotedUrl (String.ofList a.piece.text),
    blanks ++ a.piece.raw, a.piece.rest⟩

/-- Behind the blanks stands an address, unless a quotation mark begins a string
    there. -/
theorem address?_eq (cs : List Char) :
    address? cs
      = if (cs.dropWhile isSpace).head? = some '"' ∨ (cs.dropWhile isSpace).head? = some '\''
        then none
        else some ((addressText (cs.dropWhile isSpace)).lexed (cs.takeWhile isSpace)) := by
  rw [address?]
  dsimp only
  split
  · rename_i heq
    rw [heq]
    rfl
  · rename_i heq
    rw [heq]
    rfl
  · rename_i rest hdouble hsingle
    refine Eq.trans rfl (if_neg ?_).symm
    · rintro (h | h)
      · obtain ⟨rest, h⟩ := List.head?_eq_some_iff.mp h
        exact hdouble rest h
      · obtain ⟨rest, h⟩ := List.head?_eq_some_iff.mp h
        exact hsingle rest h

/-- An address that leaves the semicolon alone is closed in front of it, and is
    closed there in front of every ending. -/
theorem address?_resume (hw : Ends w) {u : List Char}
    (h : ∀ l, address? (u ++ [';']) = some l → l.rest ≠ []) :
    address? (u ++ w) = (address? (u ++ [';'])).map fun l => l.resume w := by
  by_cases hu : u.dropWhile isSpace = []
  · -- Blanks and the semicolon: that would be in the address.
    have hsome : address? (u ++ [';'])
        = some ((addressText [';']).lexed ((u ++ [';']).takeWhile isSpace)) := by
      rw [address?_eq, dropWhile_semicolon hu, if_neg (by decide)]
    exact absurd rest_addressText_semicolon (h _ hsome)
  · obtain ⟨htake, hdrop⟩ := spaces_append hu [';']
    obtain ⟨htake', hdrop'⟩ := spaces_append hu w
    have hhead : ∀ v, (u.dropWhile isSpace ++ v).head? = (u.dropWhile isSpace).head? := by
      intro v
      obtain ⟨c, x, hx⟩ := List.exists_cons_of_ne_nil hu
      rw [hx]
      rfl
    rw [address?_eq, htake, hdrop, hhead] at h
    rw [address?_eq, address?_eq, htake, hdrop, htake', hdrop', hhead, hhead]
    split
    · rfl
    · rename_i hquote
      rw [if_neg hquote] at h
      rw [addressText_resume hw (h _ rfl)]
      rfl

/-- The token that a name and an opening parenthesis make. -/
def opened (text raw rest : List Char) : Lexed :=
  ((if text.map Char.toLower = "url".toList then
      (address? rest).map fun a => ⟨a.token, raw ++ '(' :: a.raw, a.rest⟩
    else none).getD ⟨.function (String.ofList text), raw ++ ['('], rest⟩)

/-- A name with a parenthesis behind it opens an address or a function. -/
theorem identLike_of_paren {cs rest : List Char} (h : (name cs).rest = '(' :: rest) :
    identLike cs = opened (name cs).text (name cs).raw rest := by
  rw [identLike, opened]
  dsimp only
  split
  · rename_i rest' heq
    obtain rfl : rest = rest' := by
      rw [h] at heq
      exact (List.cons.inj heq).2
    split
    · cases address? rest with
      | none => rfl
      | some a => rfl
    · rfl
  · rename_i hparen
    exact absurd h (hparen rest)

/-- Without the parenthesis a name is an identifier. -/
theorem identLike_of_not_paren {cs : List Char} (h : (name cs).rest.head? ≠ some '(') :
    identLike cs = ⟨.ident (String.ofList (name cs).text), (name cs).raw, (name cs).rest⟩ := by
  rw [identLike]
  dsimp only
  split
  · rename_i rest hrest
    rw [hrest] at h
    exact absurd rfl h
  · rfl

/-- What a parenthesis opens goes on: an address is closed, and of a function only
    the parenthesis has been read. -/
theorem resumes_opened (hw : Ends w) {text raw u : List Char}
    (h : (opened text raw (u ++ [';'])).rest ≠ []) :
    (opened text raw (u ++ [';'])).Resumes (opened text raw (u ++ w)) w := by
  rw [opened] at h ⊢
  rw [opened]
  -- The name alone decides whether an address may follow.
  split
  · rename_i hurl
    rw [if_pos hurl] at h
    have haddress := address?_resume hw (u := u) fun l hl => by
      rw [hl] at h
      exact h
    rw [haddress]
    cases address? (u ++ [';']) with
    | none => exact Lexed.resumes_append _ _ u w
    | some a => exact Lexed.resumes_resume _ w
  · exact Lexed.resumes_append _ _ u w

/-- A name goes on with what it begins, be it an address, a function or nothing
    more. -/
theorem resumes_identLike (hw : Ends w) {u : List Char} (h : (identLike (u ++ [';'])).rest ≠ []) :
    (identLike (u ++ [';'])).Resumes (identLike (u ++ w)) w := by
  have hname : (name (u ++ [';'])).rest ≠ [] := by
    intro hnil
    rw [identLike_of_not_paren (by rw [hnil]; exact nofun)] at h
    exact h hnil
  have hresumes := resumes_name hw hname
  obtain ⟨x, hx, -⟩ := exists_eq_concat (splits_name (u ++ [';'])) hname
  by_cases hparen : (name (u ++ [';'])).rest.head? = some '('
  · -- Behind the name is more than the semicolon.
    obtain ⟨rest, hrest⟩ := List.head?_eq_some_iff.mp hparen
    obtain ⟨y, rfl, rfl⟩ : ∃ y, x = '(' :: y ∧ rest = y ++ [';'] := by
      obtain ⟨hc, -, -⟩ | ⟨y, hy, hrest⟩ := eq_semicolon_or (hx.symm.trans hrest)
      · cases hc
      · exact ⟨y, hy, hrest⟩
    have hname' := hresumes.eq_resume (by rw [hx]; simp)
    have hrest' : (name (u ++ w)).rest = '(' :: (y ++ w) := by
      rw [hname', Piece.resume, hx, List.dropLast_concat]
      rfl
    rw [identLike_of_paren hrest] at h ⊢
    rw [identLike_of_paren hrest', hname']
    exact resumes_opened hw h
  · have hident := hresumes.lexed (fun text => .ident (String.ofList text)) []
    have hparen' : (name (u ++ w)).rest.head? ≠ some '(' := by
      obtain ⟨sp, w', rfl, hsp, -, hname'⟩ := hresumes
      have hends : Ends w' := (Ends.append_iff hsp).mp hw
      rw [hname', hx, List.dropLast_concat]
      refine hends.breaks.head?_append_ne (by decide) fun hc => hparen ?_
      rw [hx, List.head?_append, hc]
      rfl
    rw [identLike_of_not_paren hparen, identLike_of_not_paren hparen']
    exact hident

/-! ## Numbers with their units -/

/-- A number is told by what stands behind it: a percent sign, a unit or neither. -/
theorem numeric_eq (cs : List Char) :
    numeric cs
      = if (numeral cs).2.2.head? = some '%' then
          ⟨.percentage (numeral cs).1, (numeral cs).2.1 ++ ['%'], (numeral cs).2.2.tail⟩
        else if startsName (numeral cs).2.2 then
          ⟨.dimension (numeral cs).1 (String.ofList (name (numeral cs).2.2).text),
            (numeral cs).2.1 ++ (name (numeral cs).2.2).raw, (name (numeral cs).2.2).rest⟩
        else ⟨.number (numeral cs).1, (numeral cs).2.1, (numeral cs).2.2⟩ := by
  rw [numeric]
  split
  · rename_i n raw rest h
    rw [h]
    rfl
  · rename_i n raw rest hpercent h
    have hhead : rest.head? ≠ some '%' := by
      intro hc
      obtain ⟨tail, rfl⟩ := List.head?_eq_some_iff.mp hc
      exact hpercent tail rfl
    rw [h]
    exact (if_neg hhead).symm

/-- A number goes on as its unit does, and ends where it ended if it has none. -/
theorem resumes_numeric (hw : Ends w) {u : List Char} (h : (numeric (u ++ [';'])).rest ≠ []) :
    (numeric (u ++ [';'])).Resumes (numeric (u ++ w)) w := by
  have hsemi := numeral_append (Ends.semicolon []).breaks u
  have hends := numeral_append hw.breaks u
  rw [numeric_eq, hsemi] at h ⊢
  rw [numeric_eq, hends]
  -- The digits are the same in front of both; only what they leave is looked at again.
  generalize (numeral u).2.2 = rest at h ⊢
  dsimp only at h ⊢
  by_cases hc : rest.head? = some '%'
  · obtain ⟨rest, rfl⟩ := List.head?_eq_some_iff.mp hc
    exact Lexed.resumes_append _ _ rest w
  · have hpercent : ∀ v, Ends v → (rest ++ v).head? ≠ some '%' :=
      fun v hv => hv.breaks.head?_append_ne (by decide) hc
    rw [if_neg (hpercent _ (.semicolon []))] at h ⊢
    rw [if_neg (hpercent w hw)]
    by_cases hslash : rest = ['\\']
    · rw [hslash] at h
      exact absurd rfl (ne_slash_of_name h)
    · rw [startsName_append hw.breaks hslash]
      by_cases hname : startsName (rest ++ [';']) = true
      · rw [if_pos hname] at h ⊢
        rw [if_pos hname]
        exact (resumes_name hw h).lexed (fun text => .dimension _ (String.ofList text)) _
      · rw [if_neg hname, if_neg hname]
        exact Lexed.resumes_append _ _ rest w

/-! ## All tokens -/

theorem string_eq (quote : Char) (cs : List Char) :
    string quote cs
      = ⟨if (stringText quote cs).1 then .quotedString (String.ofList (stringText quote cs).2.text)
          else .badString (String.ofList (stringText quote cs).2.text),
        [quote] ++ (stringText quote cs).2.raw, (stringText quote cs).2.rest⟩ := rfl

/-- A string goes on, whether it is closed or broken off. -/
theorem resumes_string (hw : Ends w) {quote : Char} {u : List Char}
    (h : (string quote (u ++ [';'])).rest ≠ []) :
    (string quote (u ++ [';'])).Resumes (string quote (u ++ w)) w := by
  rw [string_eq, string_eq, stringText_resume hw h]
  exact Lexed.resumes_resume _ w

/-- Without an equals sign behind it the character stands for itself. -/
theorem operator_of_ne {token : Token} {c : Char} {cs : List Char} (h : cs.head? ≠ some '=') :
    operator token c cs = single (.delim c) c cs := by
  unfold operator
  split
  · exact absurd rfl h
  · rfl

/-- No ending begins with the equals sign that would make an operator. -/
theorem resumes_operator (hw : Ends w) (token : Token) (c : Char) (u : List Char) :
    (operator token c (u ++ [';'])).Resumes (operator token c (u ++ w)) w := by
  by_cases hu : u.head? = some '='
  · obtain ⟨u, rfl⟩ := List.head?_eq_some_iff.mp hu
    exact Lexed.resumes_append token [c, '='] u w
  · have hends : ∀ v, Ends v → (u ++ v).head? ≠ some '=' :=
      fun v hv => hv.breaks.head?_append_ne (by decide) hu
    rw [operator_of_ne (hends _ (.semicolon [])), operator_of_ne (hends w hw)]
    exact Lexed.resumes_append (.delim c) [c] u w

/-- Only behind a point does it take a second character to see that a number
    begins. -/
theorem startsDigits_cons {c : Char} (hc : c ≠ '.') (cs : List Char) :
    startsDigits (c :: cs) = c.isDigit := by
  rw [startsDigits]
  intro d rest h
  exact absurd h hc

/-- Behind a sign, whether a number begins is decided in front of a breaker. -/
theorem startsDigits_append (hw : Breaks w) (u : List Char) :
    startsDigits (u ++ w) = startsDigits (u ++ [';']) := by
  have hbreaks : ∀ v, Breaks v → startsDigits v = false := by
    intro v hv
    cases v with
    | nil => rfl
    | cons c v =>
        have hdot := hv.head_eq_false (P := (· == '.')) (by decide) c rfl
        rw [startsDigits_cons (by simpa using hdot)]
        exact isDigit_of_breaks hv
  have hdot : ∀ v, Breaks v → startsDigits ('.' :: v) = false := by
    intro v hv
    cases v with
    | nil => rfl
    | cons c v => exact isDigit_of_breaks hv
  have hsemi : Breaks [';'] := (Ends.semicolon []).breaks
  -- Two characters decide, and one if it is no point.
  match u with
  | [] => rw [List.nil_append, List.nil_append, hbreaks w hw, hbreaks _ hsemi]
  | [c] =>
      by_cases hc : c = '.'
      · rw [hc, List.singleton_append, List.singleton_append, hdot w hw, hdot _ hsemi]
      · rw [List.singleton_append, List.singleton_append, startsDigits_cons hc,
          startsDigits_cons hc]
  | c :: d :: u =>
      by_cases hc : c = '.'
      · rw [hc]
        rfl
      · rw [List.cons_append, startsDigits_cons hc, List.cons_append, startsDigits_cons hc]

/-- The characters that begin tokens of more than one kind, or that are tokens of
    their own. -/
def specials : List Char :=
  ['"', '\'', '#', '$', '*', '^', '|', '~', '(', ')', '[', ']', '{', '}', ',', ':', ';', '+',
    '.', '-', '/', '<', '@', '\\']

/-- White space with something else behind it is the same in front of every text. -/
theorem lex_space {c : Char} (hc : isSpace c = true) {u : List Char}
    (hu : u.dropWhile isSpace ≠ []) (w : List Char) :
    lex c (u ++ w) = ⟨.whiteSpace (String.ofList (c :: u.takeWhile isSpace)),
      c :: u.takeWhile isSpace, u.dropWhile isSpace ++ w⟩ := by
  obtain ⟨htake, hdrop⟩ := spaces_append hu w
  unfold lex
  rw [if_pos hc, htake, hdrop]

/-- White space is one token where something else follows. -/
theorem lex_spaces {c : Char} (hc : isSpace c = true) {u : List Char}
    (hu : ∀ d ∈ u, isSpace d = true) (hw : ∀ d ∈ w.head?, isSpace d = false) :
    lex c (u ++ w) = ⟨.whiteSpace (String.ofList (c :: u)), c :: u, w⟩ := by
  have htake : (u ++ w).takeWhile isSpace = u := by
    rw [takeWhile_append_of_head hw, List.takeWhile_eq_self_iff.mpr hu]
  have hdrop : (u ++ w).dropWhile isSpace = w := by
    rw [List.dropWhile_append_of_pos hu]
    cases w with
    | nil => rfl
    | cons d w => rw [List.dropWhile_cons_of_neg (by simp [hw d rfl])]
  unfold lex
  rw [if_pos hc, htake, hdrop]

theorem lex_nameStart {c : Char} (hspace : isSpace c = false) (h : isNameStart c = true)
    (cs : List Char) : lex c cs = identLike (c :: cs) := by
  unfold lex
  rw [if_neg (by simp [hspace]), if_pos h]

theorem lex_digit {c : Char} (hspace : isSpace c = false) (hstart : isNameStart c = false)
    (h : c.isDigit = true) (cs : List Char) : lex c cs = numeric (c :: cs) := by
  unfold lex
  rw [if_neg (by simp [hspace]), if_neg (by simp [hstart]), if_pos h]

/-- Every character that is not special stands for itself. -/
theorem lex_other {c : Char} (hspace : isSpace c = false) (hstart : isNameStart c = false)
    (hdigit : c.isDigit = false) (h : c ∉ specials) (cs : List Char) :
    lex c cs = single (.delim c) c cs := by
  unfold lex
  rw [if_neg (by simp [hspace]), if_neg (by simp [hstart]), if_neg (by simp [hdigit])]
  split
  case h_25 => rfl
  all_goals exact absurd (by decide) h

/-- What holds of no breaker is decided in front of one. -/
theorem head_map_append (hw : Breaks w) {P : Char → Bool} (hP : breakers.any P = false)
    (u : List Char) :
    (u ++ w).head?.map P = some true ↔ (u ++ [';']).head?.map P = some true := by
  have hbreaks : ∀ v, Breaks v → ¬ v.head?.map P = some true := by
    intro v hv
    cases v with
    | nil => exact nofun
    | cons c v => simp [hv.head_eq_false hP c rfl]
  cases u with
  | nil => exact iff_of_false (hbreaks w hw) (hbreaks _ (Ends.semicolon []).breaks)
  | cons c u => exact Iff.rfl

/-- A number sign begins an identifier if a name follows, another hash if a digit or
    a dash does, and else stands for itself. -/
theorem lex_hash (cs : List Char) :
    lex '#' cs
      = if startsName cs then
          ⟨.idHash (String.ofList (name cs).text), ['#'] ++ (name cs).raw, (name cs).rest⟩
        else if (cs.head?.map fun d => d.isDigit || d == '-') = some true then
          ⟨.hash (String.ofList (name cs).text), ['#'] ++ (name cs).raw, (name cs).rest⟩
        else single (.delim '#') '#' cs := rfl

/-- A hash goes on as the name in it does. -/
theorem resumes_hash (hw : Ends w) {u : List Char} (h : (lex '#' (u ++ [';'])).rest ≠ []) :
    (lex '#' (u ++ [';'])).Resumes (lex '#' (u ++ w)) w := by
  by_cases hslash : u = ['\\']
  · rw [hslash] at h
    exact absurd rfl (ne_slash_of_name (u := ['\\']) h)
  rw [lex_hash] at h ⊢
  rw [lex_hash, startsName_append hw.breaks hslash]
  by_cases hname : startsName (u ++ [';']) = true
  · rw [if_pos hname] at h ⊢
    rw [if_pos hname]
    exact (resumes_name hw h).lexed (fun text => .idHash (String.ofList text)) ['#']
  · rw [if_neg hname] at h ⊢
    rw [if_neg hname]
    have hhead := head_map_append hw.breaks (P := fun d => d.isDigit || d == '-') (by decide) u
    by_cases hdigit : ((u ++ [';']).head?.map fun d => d.isDigit || d == '-') = some true
    · rw [if_pos hdigit] at h ⊢
      rw [if_pos (hhead.mpr hdigit)]
      exact (resumes_name hw h).lexed (fun text => .hash (String.ofList text)) ['#']
    · rw [if_neg hdigit, if_neg (mt hhead.mp hdigit)]
      exact Lexed.resumes_append (.delim '#') ['#'] u w

theorem lex_at (cs : List Char) :
    lex '@' cs
      = if startsName cs then
          ⟨.atKeyword (String.ofList (name cs).text), ['@'] ++ (name cs).raw, (name cs).rest⟩
        else single (.delim '@') '@' cs := rfl

/-- An at-keyword goes on as the name in it does, and an at sign alone stays
    alone. -/
theorem resumes_at (hw : Ends w) {u : List Char} (h : (lex '@' (u ++ [';'])).rest ≠ []) :
    (lex '@' (u ++ [';'])).Resumes (lex '@' (u ++ w)) w := by
  by_cases hslash : u = ['\\']
  · rw [hslash] at h
    exact absurd rfl (ne_slash_of_name (u := ['\\']) h)
  rw [lex_at] at h ⊢
  rw [lex_at, startsName_append hw.breaks hslash]
  by_cases hname : startsName (u ++ [';']) = true
  · rw [if_pos hname] at h ⊢
    rw [if_pos hname]
    exact (resumes_name hw h).lexed (fun text => .atKeyword (String.ofList text)) ['@']
  · rw [if_neg hname, if_neg hname]
    exact Lexed.resumes_append (.delim '@') ['@'] u w

/-- A plus sign is the sign of a number, or stands for itself. -/
theorem lex_plus (cs : List Char) :
    lex '+' cs
      = if startsDigits cs then numeric ('+' :: cs) else single (.delim '+') '+' cs := rfl

/-- A plus sign goes on as its number does, or stands for itself in front of every
    ending. -/
theorem resumes_plus (hw : Ends w) {u : List Char} (h : (lex '+' (u ++ [';'])).rest ≠ []) :
    (lex '+' (u ++ [';'])).Resumes (lex '+' (u ++ w)) w := by
  rw [lex_plus] at h ⊢
  rw [lex_plus, startsDigits_append hw.breaks]
  by_cases hdigits : startsDigits (u ++ [';']) = true
  · rw [if_pos hdigits, ← List.cons_append] at h ⊢
    rw [if_pos hdigits]
    exact resumes_numeric hw h
  · rw [if_neg hdigits, if_neg hdigits]
    exact Lexed.resumes_append (.delim '+') ['+'] u w

theorem lex_dot (cs : List Char) :
    lex '.' cs
      = if (cs.head?.map Char.isDigit) = some true then numeric ('.' :: cs)
        else single (.delim '.') '.' cs := rfl

/-- A point goes on as its number does, or stands for itself in front of every
    ending. -/
theorem resumes_dot (hw : Ends w) {u : List Char} (h : (lex '.' (u ++ [';'])).rest ≠ []) :
    (lex '.' (u ++ [';'])).Resumes (lex '.' (u ++ w)) w := by
  have hhead := head_map_append hw.breaks (P := Char.isDigit) (by decide) u
  rw [lex_dot] at h ⊢
  rw [lex_dot]
  by_cases hdigit : ((u ++ [';']).head?.map Char.isDigit) = some true
  · rw [if_pos hdigit, ← List.cons_append] at h ⊢
    rw [if_pos (hhead.mpr hdigit)]
    exact resumes_numeric hw h
  · rw [if_neg hdigit, if_neg (mt hhead.mp hdigit)]
    exact Lexed.resumes_append (.delim '.') ['.'] u w

/-- No breaker is part of the prefix. -/
theorem prefix_append_iff (hw : Breaks w) {lead : List Char} (h : ∀ c ∈ lead, c ∉ breakers)
    (u : List Char) : lead <+: u ++ w ↔ lead <+: u := by
  induction lead generalizing u with
  | nil => exact iff_of_true List.nil_prefix List.nil_prefix
  | cons c lead ih =>
      obtain ⟨hc, hlead⟩ := List.forall_mem_cons.mp h
      cases u with
      | nil =>
          refine iff_of_false ?_ (by simp)
          rintro ⟨rest, rfl⟩
          exact hc (hw c rfl)
      | cons d u => rw [List.cons_append, List.cons_prefix_cons, List.cons_prefix_cons, ih hlead]

/-- A dash is the sign of a number, ends a comment of another language, begins a
    name or stands for itself, in this order. -/
theorem lex_dash (cs : List Char) :
    lex '-' cs
      = if startsDigits cs then numeric ('-' :: cs)
        else if ['-', '>'] <+: cs then ⟨.commentClose, ['-', '-', '>'], cs.drop 2⟩
        else if startsName ('-' :: cs) then identLike ('-' :: cs)
        else single (.delim '-') '-' cs := by
  show (if startsDigits cs then numeric ('-' :: cs) else _) = _
  split
  · rfl
  · rename_i hdigits
    split
    · rename_i rest
      exact (if_pos (List.prefix_append ['-', '>'] rest)).symm
    · rename_i hclose
      refine (if_neg ?_).symm
      rintro ⟨rest, rfl⟩
      exact hclose rest rfl

/-- A dash goes on as the number or the name that it begins.  No ending begins with
    what would make it more than that. -/
theorem resumes_dash (hw : Ends w) {u : List Char} (h : (lex '-' (u ++ [';'])).rest ≠ []) :
    (lex '-' (u ++ [';'])).Resumes (lex '-' (u ++ w)) w := by
  have hclose : ∀ v, Ends v → (['-', '>'] <+: u ++ v ↔ ['-', '>'] <+: u) :=
    fun v hv => prefix_append_iff hv.breaks (by simp [breakers, enders]) u
  rw [lex_dash] at h ⊢
  rw [lex_dash, startsDigits_append hw.breaks]
  by_cases hdigits : startsDigits (u ++ [';']) = true
  · rw [if_pos hdigits, ← List.cons_append] at h ⊢
    rw [if_pos hdigits]
    exact resumes_numeric hw h
  rw [if_neg hdigits] at h ⊢
  rw [if_neg hdigits]
  by_cases hu : ['-', '>'] <+: u
  · rw [if_pos ((hclose _ (.semicolon [])).mpr hu), if_pos ((hclose w hw).mpr hu)]
    obtain ⟨rest, rfl⟩ := hu
    exact Lexed.resumes_append .commentClose ['-', '-', '>'] rest w
  rw [if_neg (mt (hclose _ (.semicolon [])).mp hu), ← List.cons_append] at h ⊢
  rw [if_neg (mt (hclose w hw).mp hu), ← List.cons_append,
    startsName_append hw.breaks (u := '-' :: u) (by simp)]
  by_cases hname : startsName ('-' :: u ++ [';']) = true
  · rw [if_pos hname] at h ⊢
    rw [if_pos hname]
    exact resumes_identLike hw h
  · rw [if_neg hname, if_neg hname]
    exact Lexed.resumes_append (.delim '-') ['-'] u w

/-- A slash in front of an asterisk begins a comment. -/
theorem lex_slash (cs : List Char) :
    lex '/' cs
      = if ['*'] <+: cs then
          ⟨.comment (String.ofList (commentText cs.tail).text),
            ['/', '*'] ++ (commentText cs.tail).raw, (commentText cs.tail).rest⟩
        else single (.delim '/') '/' cs := by
  by_cases hopen : ['*'] <+: cs
  · obtain ⟨rest, rfl⟩ := hopen
    exact (if_pos (List.prefix_append ['*'] rest)).symm
  · rw [if_neg hopen, lex, if_neg (by decide), if_neg (by decide), if_neg (by decide)]
    rintro rest rfl
    exact hopen (List.prefix_append ['*'] rest)

/-- A comment that leaves the semicolon alone is over in front of it, and a slash
    alone stays alone. -/
theorem resumes_slash (hw : Ends w) {u : List Char} (h : (lex '/' (u ++ [';'])).rest ≠ []) :
    (lex '/' (u ++ [';'])).Resumes (lex '/' (u ++ w)) w := by
  have hopen : ∀ v, Ends v → (['*'] <+: u ++ v ↔ ['*'] <+: u) :=
    fun v hv => prefix_append_iff hv.breaks (by simp [breakers, enders]) u
  rw [lex_slash] at h ⊢
  rw [lex_slash]
  by_cases hu : ['*'] <+: u
  · rw [if_pos ((hopen _ (.semicolon [])).mpr hu)] at h ⊢
    rw [if_pos ((hopen w hw).mpr hu)]
    obtain ⟨rest, rfl⟩ := hu
    have hcomment := commentText_resume (w := w) (u := rest) h
    show Lexed.Resumes _ ⟨.comment (String.ofList (commentText (rest ++ w)).text),
      ['/', '*'] ++ (commentText (rest ++ w)).raw, (commentText (rest ++ w)).rest⟩ w
    rw [hcomment]
    exact Lexed.resumes_resume _ w
  · rw [if_neg (mt (hopen _ (.semicolon [])).mp hu), if_neg (mt (hopen w hw).mp hu)]
    exact Lexed.resumes_append (.delim '/') ['/'] u w

theorem lex_less (cs : List Char) :
    lex '<' cs
      = if ['!', '-', '-'] <+: cs then ⟨.commentOpen, ['<', '!', '-', '-'], cs.drop 3⟩
        else single (.delim '<') '<' cs := by
  by_cases hopen : ['!', '-', '-'] <+: cs
  · obtain ⟨rest, rfl⟩ := hopen
    exact (if_pos (List.prefix_append ['!', '-', '-'] rest)).symm
  · rw [if_neg hopen, lex, if_neg (by decide), if_neg (by decide), if_neg (by decide)]
    rintro rest rfl
    exact hopen (List.prefix_append ['!', '-', '-'] rest)

/-- No ending begins with what would make the sign open a comment of another
    language. -/
theorem resumes_less (hw : Ends w) (u : List Char) :
    (lex '<' (u ++ [';'])).Resumes (lex '<' (u ++ w)) w := by
  have hopen : ∀ v, Ends v → (['!', '-', '-'] <+: u ++ v ↔ ['!', '-', '-'] <+: u) :=
    fun v hv => prefix_append_iff hv.breaks (by simp [breakers, enders]) u
  rw [lex_less, lex_less]
  by_cases hu : ['!', '-', '-'] <+: u
  · rw [if_pos ((hopen _ (.semicolon [])).mpr hu), if_pos ((hopen w hw).mpr hu)]
    obtain ⟨rest, rfl⟩ := hu
    exact Lexed.resumes_append .commentOpen ['<', '!', '-', '-'] rest w
  · rw [if_neg (mt (hopen _ (.semicolon [])).mp hu), if_neg (mt (hopen w hw).mp hu)]
    exact Lexed.resumes_append (.delim '<') ['<'] u w

/-- A backslash begins a name, unless a newline follows. -/
theorem lex_backslash (cs : List Char) :
    lex '\\' cs
      = if startsNewline cs then single (.delim '\\') '\\' cs else identLike ('\\' :: cs) := rfl

/-- A backslash with something of its own to escape goes on as its name does; alone
    it would take the semicolon. -/
theorem resumes_backslash (hw : Ends w) {u : List Char} (h : (lex '\\' (u ++ [';'])).rest ≠ []) :
    (lex '\\' (u ++ [';'])).Resumes (lex '\\' (u ++ w)) w := by
  cases u with
  | nil =>
      -- The escape takes the semicolon.
      refine absurd ?_ h
      show (identLike ['\\', ';']).rest = []
      rw [identLike_of_not_paren (by rw [rest_name_slash]; exact nofun)]
      exact rest_name_slash
  | cons c u =>
      rw [lex_backslash] at h ⊢
      rw [lex_backslash, startsNewline_append (List.cons_ne_nil c u) w [';']]
      by_cases hline : startsNewline (c :: u ++ [';']) = true
      · rw [if_pos hline, if_pos hline]
        exact Lexed.resumes_append (.delim '\\') ['\\'] (c :: u) w
      · rw [if_neg hline, ← List.cons_append] at h ⊢
        rw [if_neg hline]
        exact resumes_identLike hw h

/-- **WHAT FOLLOWS**: a token that leaves the semicolon alone is read just so in
    front of every ending. -/
theorem resumes_lex (hw : Ends w) {c : Char} (hspace : isSpace c = false) {u : List Char}
    (h : (lex c (u ++ [';'])).rest ≠ []) : (lex c (u ++ [';'])).Resumes (lex c (u ++ w)) w := by
  by_cases hstart : isNameStart c = true
  · rw [lex_nameStart hspace hstart, ← List.cons_append] at h ⊢
    rw [lex_nameStart hspace hstart]
    exact resumes_identLike hw h
  rw [Bool.not_eq_true] at hstart
  by_cases hdigit : c.isDigit = true
  · rw [lex_digit hspace hstart hdigit, ← List.cons_append] at h ⊢
    rw [lex_digit hspace hstart hdigit]
    exact resumes_numeric hw h
  rw [Bool.not_eq_true] at hdigit
  by_cases hspecial : c ∈ specials
  · simp only [specials, List.mem_cons, List.not_mem_nil, or_false] at hspecial
    rcases hspecial with rfl | rfl | rfl | rfl | rfl | rfl | rfl | rfl | rfl | rfl | rfl | rfl
      | rfl | rfl | rfl | rfl | rfl | rfl | rfl | rfl | rfl | rfl | rfl | rfl
    · exact resumes_string hw h
    · exact resumes_string hw h
    · exact resumes_hash hw h
    · exact resumes_operator hw .suffixMatch '$' u
    · exact resumes_operator hw .substringMatch '*' u
    · exact resumes_operator hw .prefixMatch '^' u
    · exact resumes_operator hw .dashMatch '|' u
    · exact resumes_operator hw .includeMatch '~' u
    · exact Lexed.resumes_append .openParenthesis ['('] u w
    · exact Lexed.resumes_append .closeParenthesis [')'] u w
    · exact Lexed.resumes_append .openSquare ['['] u w
    · exact Lexed.resumes_append .closeSquare [']'] u w
    · exact Lexed.resumes_append .openCurly ['{'] u w
    · exact Lexed.resumes_append .closeCurly ['}'] u w
    · exact Lexed.resumes_append .comma [','] u w
    · exact Lexed.resumes_append .colon [':'] u w
    · exact Lexed.resumes_append .semicolon [';'] u w
    · exact resumes_plus hw h
    · exact resumes_dot hw h
    · exact resumes_dash hw h
    · exact resumes_slash hw h
    · exact resumes_less hw u
    · exact resumes_at hw h
    · exact resumes_backslash hw h
  · rw [lex_other hspace hstart hdigit hspecial, lex_other hspace hstart hdigit hspecial]
    exact Lexed.resumes_append (.delim c) [c] u w

end Continuations

end ThemeTokens.Css
