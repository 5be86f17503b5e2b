import ThemeTokens.Proofs.Css.Alike

/-! # What a token does not see

    A token that leaves a text behind it alone is the same in front of another
    text, if that one begins alike (`lex_swaps`).  Only a string that a line break
    cuts off does see it. -/

namespace ThemeTokens.Css

/-- A string that a line break has cut off. -/
def Token.isBadString : Token → Bool
  | .badString _ => true
  | _ => false

namespace Lexed

/-- The token with more text behind it. -/
def append (l : Lexed) (w : List Char) : Lexed :=
  ⟨l.token, l.raw, l.rest ++ w⟩

/-- `k` is `l` with `y` in the place of `x`. -/
def Swaps (l k : Lexed) (x y : List Char) : Prop :=
  ∃ r : Lexed, l = r.append x ∧ k = r.append y

/-- Whatever the token, the one text can stand in the place of the other behind
    it. -/
theorem swaps_append (r : Lexed) (x y : List Char) : (r.append x).Swaps (r.append y) x y :=
  ⟨r, rfl, rfl⟩

end Lexed

/-- A token made of some piece swaps as the piece does. -/
theorem Piece.Swaps.lexed {p q : Piece} {x y : List Char} (h : p.Swaps q x y)
    (token : List Char → Token) (lead : List Char) :
    (Lexed.mk (token p.text) (lead ++ p.raw) p.rest).Swaps
      ⟨token q.text, lead ++ q.raw, q.rest⟩ x y := by
  obtain ⟨r, rfl, rfl⟩ := h
  exact ⟨⟨token r.text, lead ++ r.raw, r.rest⟩, rfl, rfl⟩

theorem address?_eq_none_iff {cs : List Char} : address? cs = none ↔ OpensString cs := by
  rw [address?_eq, OpensString]
  split
  · rename_i hquote
    exact iff_of_true rfl hquote
  · rename_i hquote
    exact iff_of_false (Option.some_ne_none _) hquote

/-- The token an address makes swaps as the address does. -/
theorem Address.Swaps.lexed {a b : Address} {x y : List Char} (h : a.Swaps b x y)
    (blanks : List Char) : (a.lexed blanks).Swaps (b.lexed blanks) x y := by
  obtain ⟨hbad, hpiece⟩ := h
  rw [Address.lexed, Address.lexed, hbad]
  exact hpiece.lexed (fun text => if b.bad then .badUrl (String.ofList text)
    else .unquotedUrl (String.ofList text)) blanks

/-- What a parenthesis opens leaves no more than what stood behind the
    parenthesis. -/
theorem length_opened (text raw rest : List Char) :
    (opened text raw rest).rest.length ≤ rest.length := by
  rw [opened]
  split
  · cases ha : address? rest with
    | none => exact Nat.le_refl _
    | some a =>
        rw [splits_address? ha, List.length_append]
        exact Nat.le_add_left _ _
  · exact Nat.le_refl _

section Tokens

variable {x y : List Char} (h : Alike x y)

include h

/-- In front of both texts alike a string begins or does not. -/
theorem opensString_append (u : List Char) : OpensString (u ++ x) ↔ OpensString (u ++ y) := by
  by_cases hu : u.dropWhile isSpace = []
  · have hspace := List.dropWhile_eq_nil_iff.mp hu
    rw [OpensString, OpensString, List.dropWhile_append_of_pos hspace,
      List.dropWhile_append_of_pos hspace]
    exact h.opens
  · obtain ⟨c, v, hv⟩ := List.exists_cons_of_ne_nil hu
    rw [OpensString, OpensString, (spaces_append hu x).2, (spaces_append hu y).2, hv]
    exact Iff.rfl

/-- In front of both texts alike a name begins or does not, unless a backslash is
    all there is. -/
theorem startsName_swap {u : List Char} (hu : u ≠ ['\\']) :
    startsName (u ++ x) = startsName (u ++ y) :=
  (startsName_append h.breaks hu).trans (startsName_append h.breaks_other hu).symm

/-- What begins with a backslash alone is left where the text is. -/
theorem rest_of_startsName {t t' : Token} {raw raw' : List Char}
    (hx : x.length ≤ (if startsName ('\\' :: x) then
      Lexed.mk t raw (name ('\\' :: x)).rest else ⟨t', raw', '\\' :: x⟩).rest.length) :
    (if startsName ('\\' :: x) then
      Lexed.mk t raw (name ('\\' :: x)).rest else ⟨t', raw', '\\' :: x⟩).rest = '\\' :: x := by
  split at hx
  · rename_i hname
    rw [if_pos hname]
    exact rest_name_backslash h hx
  · rename_i hname
    rw [if_neg hname]

/-- In front of both texts there is a string in the place of an address, or the same
    address. -/
theorem address?_swaps {u : List Char}
    (hx : ∀ l, address? (u ++ x) = some l → x.length ≤ l.rest.length) :
    (address? (u ++ x) = none ∧ address? (u ++ y) = none)
      ∨ ∃ l k, address? (u ++ x) = some l ∧ address? (u ++ y) = some k ∧ l.Swaps k x y := by
  by_cases hstring : OpensString (u ++ x)
  · exact .inl ⟨address?_eq_none_iff.mpr hstring,
      address?_eq_none_iff.mpr ((opensString_append h u).mp hstring)⟩
  have hleft : address? (u ++ x) = _ := (address?_eq _).trans (if_neg hstring)
  have hright : address? (u ++ y) = _ :=
    (address?_eq _).trans (if_neg (mt (opensString_append h u).mpr hstring))
  refine .inr ⟨_, _, hleft, hright, ?_⟩
  have hx := hx _ hleft
  by_cases hu : u.dropWhile isSpace = []
  · -- The address would take in the text, or be all that is left of it.
    rw [List.dropWhile_append_of_pos (List.dropWhile_eq_nil_iff.mp hu)] at hx
    exact absurd hx (Nat.not_le_of_lt (length_addressText_dropWhile h.ne_nil))
  · obtain ⟨htake, hdrop⟩ := spaces_append hu x
    obtain ⟨htake', hdrop'⟩ := spaces_append hu y
    rw [htake, hdrop] at hx ⊢
    rw [htake', hdrop']
    exact (addressText_swaps h hx).lexed _

/-- What a parenthesis opens is the same in front of both texts, if it leaves the
    first one alone. -/
theorem opened_swaps {text raw u : List Char}
    (hx : x.length ≤ (opened text raw (u ++ x)).rest.length) :
    (opened text raw (u ++ x)).Swaps (opened text raw (u ++ y)) x y := by
  rw [opened] at hx ⊢
  rw [opened]
  by_cases hurl : text.map Char.toLower = "url".toList
  · rw [if_pos hurl] at hx ⊢
    rw [if_pos hurl]
    obtain ⟨hleft, hright⟩ | ⟨l, k, hleft, hright, r, rfl, rfl⟩ := address?_swaps h (u := u)
      fun l hl => by
        rw [hl] at hx
        exact hx
    · rw [hleft, hright]
      exact Lexed.swaps_append ⟨.function (String.ofList text), raw ++ ['('], u⟩ x y
    · rw [hleft, hright]
      exact Lexed.swaps_append ⟨r.token, raw ++ '(' :: r.raw, r.rest⟩ x y
  · rw [if_neg hurl, if_neg hurl]
    exact Lexed.swaps_append ⟨.function (String.ofList text), raw ++ ['('], u⟩ x y

/-- A name is the same with what it begins, if it leaves the first text alone and no
    backslash in front of that. -/
theorem identLike_swaps {u : List Char} (hx : x.length ≤ (identLike (u ++ x)).rest.length)
    (hslash : (identLike (u ++ x)).rest ≠ '\\' :: x) :
    (identLike (u ++ x)).Swaps (identLike (u ++ y)) x y := by
  by_cases hparen : (name (u ++ x)).rest.head? = some '('
  · obtain ⟨rest, hrest⟩ := List.head?_eq_some_iff.mp hparen
    rw [identLike_of_paren hrest] at hx ⊢
    have hlen : x.length < (name (u ++ x)).rest.length := by
      rw [hrest]
      exact Nat.lt_succ_of_le (Nat.le_trans hx (length_opened _ _ rest))
    obtain ⟨r, hr, hr'⟩ := name_swaps h (Nat.le_of_lt hlen) (by
      rw [hrest]
      exact fun heq => absurd (List.cons.inj heq).1 (by decide))
    rw [hr] at hrest hx ⊢
    -- What the parenthesis opens leaves all of `x`, so the parenthesis is in front of it.
    obtain ⟨v, hv, rfl⟩ := exists_cons_of_le hrest
      (Nat.le_trans hx (length_opened _ _ rest))
    have hrest' : (name (u ++ y)).rest = '(' :: (v ++ y) := by
      rw [hr', Piece.append, hv]
      rfl
    rw [identLike_of_paren hrest', hr']
    exact opened_swaps h hx
  · rw [identLike_of_not_paren hparen] at hx hslash ⊢
    obtain ⟨r, hr, hr'⟩ := name_swaps h hx hslash
    have hparen' : (name (u ++ y)).rest.head? ≠ some '(' := by
      rw [hr] at hparen
      rw [hr']
      refine h.breaks_other.head?_append_ne (by decide) fun hc => hparen ?_
      rw [Piece.append, List.head?_append, hc]
      rfl
    rw [identLike_of_not_paren hparen', hr, hr']
    exact ⟨⟨.ident (String.ofList r.text), r.raw, r.rest⟩, rfl, rfl⟩

/-- What holds of no breaker is decided in front of one. -/
theorem head_map_swap {P : Char → Bool} (hP : breakers.any P = false) (u : List Char) :
    (u ++ x).head?.map P = some true ↔ (u ++ y).head?.map P = some true :=
  (head_map_append h.breaks hP u).trans (head_map_append h.breaks_other hP u).symm

/-- A number is the same with its unit, under the same conditions. -/
theorem numeric_swaps {u : List Char} (hx : x.length ≤ (numeric (u ++ x)).rest.length)
    (hslash : (numeric (u ++ x)).rest ≠ '\\' :: x) :
    (numeric (u ++ x)).Swaps (numeric (u ++ y)) x y := by
  have hleft := numeral_append h.breaks u
  have hright := numeral_append h.breaks_other u
  rw [numeric_eq, hleft] at hx hslash ⊢
  rw [numeric_eq, hright]
  generalize (numeral u).2.2 = rest at hx hslash ⊢
  dsimp only at hx hslash ⊢
  by_cases hc : rest.head? = some '%'
  · obtain ⟨v, rfl⟩ := List.head?_eq_some_iff.mp hc
    exact Lexed.swaps_append ⟨.percentage _, _, v⟩ x y
  have hpercent : ∀ v, Breaks v → (rest ++ v).head? ≠ some '%' :=
    fun v hv => hv.head?_append_ne (by decide) hc
  rw [if_neg (hpercent x h.breaks)] at hx hslash ⊢
  rw [if_neg (hpercent y h.breaks_other)]
  -- A backslash behind the digits would be left in front of `x`.
  have hrest : rest ≠ ['\\'] := by
    rintro rfl
    exact hslash (rest_of_startsName h hx)
  rw [startsName_swap h hrest] at hx hslash ⊢
  by_cases hname : startsName (rest ++ y) = true
  · rw [if_pos hname] at hx hslash ⊢
    rw [if_pos hname]
    exact (name_swaps h hx hslash).lexed (fun text => .dimension _ (String.ofList text)) _
  · rw [if_neg hname, if_neg hname]
    exact Lexed.swaps_append ⟨.number _, _, rest⟩ x y

/-- A string that was closed is closed in front of the other text as well. -/
theorem string_swaps {quote : Char} {u : List Char}
    (hx : x.length ≤ (string quote (u ++ x)).rest.length)
    (hwhole : (string quote (u ++ x)).token.isBadString = false) :
    (string quote (u ++ x)).Swaps (string quote (u ++ y)) x y := by
  have hproper : (stringText quote (u ++ x)).1 = true := by
    by_contra hbroken
    rw [Bool.not_eq_true] at hbroken
    rw [string_eq, hbroken] at hwhole
    cases hwhole
  obtain ⟨hproper', hswaps⟩ := stringText_swaps h hproper hx
  rw [string_eq, string_eq, hproper, hproper']
  exact hswaps.lexed (fun text => .quotedString (String.ofList text)) [quote]

/-- Neither text begins with the equals sign that would make an operator. -/
theorem operator_swaps (token : Token) (c : Char) (u : List Char) :
    (operator token c (u ++ x)).Swaps (operator token c (u ++ y)) x y := by
  by_cases hu : u.head? = some '='
  · obtain ⟨u, rfl⟩ := List.head?_eq_some_iff.mp hu
    exact Lexed.swaps_append ⟨token, [c, '='], u⟩ x y
  · have hbreaks : ∀ v, Breaks v → (u ++ v).head? ≠ some '=' :=
      fun v hv => hv.head?_append_ne (by decide) hu
    rw [operator_of_ne (hbreaks x h.breaks), operator_of_ne (hbreaks y h.breaks_other)]
    exact Lexed.swaps_append ⟨.delim c, [c], u⟩ x y

/-- White space that leaves the text alone is not followed by more of it, and so not
    in front of the other text either. -/
theorem space_swaps {c : Char} (hc : isSpace c = true) {u : List Char}
    (hx : x.length ≤ (lex c (u ++ x)).rest.length) :
    (lex c (u ++ x)).Swaps (lex c (u ++ y)) x y := by
  by_cases hu : u.dropWhile isSpace = []
  · have hspace := List.dropWhile_eq_nil_iff.mp hu
    have hhead : ∀ d ∈ x.head?, isSpace d = false := by
      intro d hd
      obtain ⟨v, rfl⟩ := List.head?_eq_some_iff.mp hd
      rw [Bool.eq_false_iff]
      intro hd
      -- The token would take in what the text begins with.
      unfold lex at hx
      rw [if_pos hc] at hx
      dsimp only at hx
      rw [List.dropWhile_append_of_pos hspace, List.dropWhile_cons_of_pos hd] at hx
      have hlen := (List.dropWhile_suffix isSpace (l := v)).length_le
      exact absurd hx (Nat.not_le_of_lt (Nat.lt_succ_of_le hlen))
    rw [lex_spaces hc hspace hhead, lex_spaces hc hspace (h.space hhead)]
    exact Lexed.swaps_append ⟨_, c :: u, []⟩ x y
  · rw [lex_space hc hu, lex_space hc hu]
    exact Lexed.swaps_append ⟨_, _, u.dropWhile isSpace⟩ x y

/-- A hash is the same if the name in it is. -/
theorem hash_swaps {u : List Char} (hx : x.length ≤ (lex '#' (u ++ x)).rest.length)
    (hslash : (lex '#' (u ++ x)).rest ≠ '\\' :: x) :
    (lex '#' (u ++ x)).Swaps (lex '#' (u ++ y)) x y := by
  have hu : u ≠ ['\\'] := by
    rintro rfl
    rw [lex_hash, if_neg (c := _ = some true) (by simp)] at hx hslash
    exact hslash (rest_of_startsName h hx)
  rw [lex_hash] at hx hslash ⊢
  rw [lex_hash]
  have hhead := head_map_swap h (P := fun d => d.isDigit || d == '-') (by decide) u
  rw [startsName_swap h hu] at hx hslash ⊢
  by_cases hname : startsName (u ++ y) = true
  · rw [if_pos hname] at hx hslash ⊢
    rw [if_pos hname]
    exact (name_swaps h hx hslash).lexed (fun text => .idHash (String.ofList text)) ['#']
  rw [if_neg hname] at hx hslash ⊢
  rw [if_neg hname]
  by_cases hdigit : ((u ++ x).head?.map fun d => d.isDigit || d == '-') = some true
  · rw [if_pos hdigit] at hx hslash ⊢
    rw [if_pos (hhead.mp hdigit)]
    exact (name_swaps h hx hslash).lexed (fun text => .hash (String.ofList text)) ['#']
  · rw [if_neg hdigit, if_neg (mt hhead.mpr hdigit)]
    exact Lexed.swaps_append ⟨.delim '#', ['#'], u⟩ x y

theorem at_swaps {u : List Char} (hx : x.length ≤ (lex '@' (u ++ x)).rest.length)
    (hslash : (lex '@' (u ++ x)).rest ≠ '\\' :: x) :
    (lex '@' (u ++ x)).Swaps (lex '@' (u ++ y)) x y := by
  rw [lex_at] at hx hslash ⊢
  rw [lex_at]
  have hu : u ≠ ['\\'] := by
    rintro rfl
    exact hslash (rest_of_startsName h hx)
  rw [startsName_swap h hu] at hx hslash ⊢
  by_cases hname : startsName (u ++ y) = true
  · rw [if_pos hname] at hx hslash ⊢
    rw [if_pos hname]
    exact (name_swaps h hx hslash).lexed (fun text => .atKeyword (String.ofList text)) ['@']
  · rw [if_neg hname, if_neg hname]
    exact Lexed.swaps_append ⟨.delim '@', ['@'], u⟩ x y

theorem startsDigits_swap (u : List Char) : startsDigits (u ++ x) = startsDigits (u ++ y) :=
  (startsDigits_append h.breaks u).trans (startsDigits_append h.breaks_other u).symm

/-- A plus sign is the same with the number behind it, if there is one. -/
theorem plus_swaps {u : List Char} (hx : x.length ≤ (lex '+' (u ++ x)).rest.length)
    (hslash : (lex '+' (u ++ x)).rest ≠ '\\' :: x) :
    (lex '+' (u ++ x)).Swaps (lex '+' (u ++ y)) x y := by
  rw [lex_plus, startsDigits_swap h] at hx hslash ⊢
  rw [lex_plus]
  by_cases hdigits : startsDigits (u ++ y) = true
  · rw [if_pos hdigits, ← List.cons_append] at hx hslash ⊢
    rw [if_pos hdigits]
    exact numeric_swaps h hx hslash
  · rw [if_neg hdigits, if_neg hdigits]
    exact Lexed.swaps_append ⟨.delim '+', ['+'], u⟩ x y

theorem dot_swaps {u : List Char} (hx : x.length ≤ (lex '.' (u ++ x)).rest.length)
    (hslash : (lex '.' (u ++ x)).rest ≠ '\\' :: x) :
    (lex '.' (u ++ x)).Swaps (lex '.' (u ++ y)) x y := by
  have hhead := head_map_swap h (P := Char.isDigit) (by decide) u
  rw [lex_dot] at hx hslash ⊢
  rw [lex_dot]
  by_cases hdigit : ((u ++ x).head?.map Char.isDigit) = some true
  · rw [if_pos hdigit, ← List.cons_append] at hx hslash ⊢
    rw [if_pos (hhead.mp hdigit)]
    exact numeric_swaps h hx hslash
  · rw [if_neg hdigit, if_neg (mt hhead.mpr hdigit)]
    exact Lexed.swaps_append ⟨.delim '.', ['.'], u⟩ x y

/-- A dash is the same with the number or the name that it begins; neither text
    begins with what would make it more than that. -/
theorem dash_swaps {u : List Char} (hx : x.length ≤ (lex '-' (u ++ x)).rest.length)
    (hslash : (lex '-' (u ++ x)).rest ≠ '\\' :: x) :
    (lex '-' (u ++ x)).Swaps (lex '-' (u ++ y)) x y := by
  rw [lex_dash, startsDigits_swap h] at hx hslash ⊢
  rw [lex_dash]
  by_cases hdigits : startsDigits (u ++ y) = true
  · rw [if_pos hdigits, ← List.cons_append] at hx hslash ⊢
    rw [if_pos hdigits]
    exact numeric_swaps h hx hslash
  rw [if_neg hdigits] at hx hslash ⊢
  rw [if_neg hdigits]
  have hclose : ∀ v, Breaks v → (['-', '>'] <+: u ++ v ↔ ['-', '>'] <+: u) :=
    fun v hv => prefix_append_iff hv (by simp [breakers, enders]) u
  by_cases hu : ['-', '>'] <+: u
  · rw [if_pos ((hclose x h.breaks).mpr hu), if_pos ((hclose y h.breaks_other).mpr hu)]
    obtain ⟨v, rfl⟩ := hu
    exact Lexed.swaps_append ⟨.commentClose, ['-', '-', '>'], v⟩ x y
  rw [if_neg (mt (hclose x h.breaks).mp hu), ← List.cons_append,
    startsName_swap h (u := '-' :: u) (by simp)] at hx hslash ⊢
  rw [if_neg (mt (hclose y h.breaks_other).mp hu), ← List.cons_append]
  by_cases hname : startsName ('-' :: u ++ y) = true
  · rw [if_pos hname] at hx hslash ⊢
    rw [if_pos hname]
    exact identLike_swaps h hx hslash
  · rw [if_neg hname, if_neg hname]
    exact Lexed.swaps_append ⟨.delim '-', ['-'], u⟩ x y

/-- A comment that leaves the text alone is over in front of it. -/
theorem slash_swaps {u : List Char} (hx : x.length ≤ (lex '/' (u ++ x)).rest.length) :
    (lex '/' (u ++ x)).Swaps (lex '/' (u ++ y)) x y := by
  have hopen : ∀ v, Breaks v → (['*'] <+: u ++ v ↔ ['*'] <+: u) :=
    fun v hv => prefix_append_iff hv (by simp [breakers, enders]) u
  by_cases hu : ['*'] <+: u
  · rw [lex_slash, if_pos ((hopen x h.breaks).mpr hu)] at hx ⊢
    rw [lex_slash, if_pos ((hopen y h.breaks_other).mpr hu)]
    obtain ⟨v, rfl⟩ := hu
    exact (commentText_swaps h (u := v) hx).lexed (fun text => .comment (String.ofList text))
      ['/', '*']
  · rw [lex_slash, lex_slash, if_neg (mt (hopen x h.breaks).mp hu),
      if_neg (mt (hopen y h.breaks_other).mp hu)]
    exact Lexed.swaps_append ⟨.delim '/', ['/'], u⟩ x y

theorem less_swaps (u : List Char) : (lex '<' (u ++ x)).Swaps (lex '<' (u ++ y)) x y := by
  have hopen : ∀ v, Breaks v → (['!', '-', '-'] <+: u ++ v ↔ ['!', '-', '-'] <+: u) :=
    fun v hv => prefix_append_iff hv (by simp [breakers, enders]) u
  rw [lex_less, lex_less]
  by_cases hu : ['!', '-', '-'] <+: u
  · rw [if_pos ((hopen x h.breaks).mpr hu), if_pos ((hopen y h.breaks_other).mpr hu)]
    obtain ⟨v, rfl⟩ := hu
    exact Lexed.swaps_append ⟨.commentOpen, ['<', '!', '-', '-'], v⟩ x y
  · rw [if_neg (mt (hopen x h.breaks).mp hu), if_neg (mt (hopen y h.breaks_other).mp hu)]
    exact Lexed.swaps_append ⟨.delim '<', ['<'], u⟩ x y

/-- A backslash with something of its own to escape is the same with its name. -/
theorem backslash_swaps {u : List Char} (hx : x.length ≤ (lex '\\' (u ++ x)).rest.length)
    (hslash : (lex '\\' (u ++ x)).rest ≠ '\\' :: x) (hu : u ≠ []) :
    (lex '\\' (u ++ x)).Swaps (lex '\\' (u ++ y)) x y := by
  rw [lex_backslash, startsNewline_append hu x y] at hx hslash ⊢
  rw [lex_backslash]
  by_cases hline : startsNewline (u ++ y) = true
  · rw [if_pos hline, if_pos hline]
    exact Lexed.swaps_append ⟨.delim '\\', ['\\'], u⟩ x y
  · rw [if_neg hline, ← List.cons_append] at hx hslash ⊢
    rw [if_neg hline]
    exact identLike_swaps h hx hslash

/-- **WHAT FOLLOWS**: a token that leaves the text alone is read just so in front
    of the other one. -/
theorem lex_swaps {c : Char} {u : List Char} (hx : x.length ≤ (lex c (u ++ x)).rest.length)
    (hslash : (lex c (u ++ x)).rest ≠ '\\' :: x) (halone : c :: u ≠ ['\\'])
    (hwhole : (lex c (u ++ x)).token.isBadString = false) :
    (lex c (u ++ x)).Swaps (lex c (u ++ y)) x y := by
  by_cases hspace : isSpace c = true
  · exact space_swaps h hspace hx
  rw [Bool.not_eq_true] at hspace
  by_cases hstart : isNameStart c = true
  · rw [lex_nameStart hspace hstart, ← List.cons_append] at hx hslash ⊢
    rw [lex_nameStart hspace hstart]
    exact identLike_swaps h hx hslash
  rw [Bool.not_eq_true] at hstart
  by_cases hdigit : c.isDigit = true
  · rw [lex_digit hspace hstart hdigit, ← List.cons_append] at hx hslash ⊢
    rw [lex_digit hspace hstart hdigit]
    exact numeric_swaps h hx hslash
  rw [Bool.not_eq_true] at hdigit
  by_cases hspecial : c ∈ specials
  · simp only [specials, List.mem_cons, List.not_mem_nil, or_false] at hspecial
    rcases hspecial with rfl | rfl | rfl | rfl | rfl | rfl | rfl | rfl | rfl | rfl | rfl | rfl
      | rfl | rfl | rfl | rfl | rfl | rfl | rfl | rfl | rfl | rfl | rfl | rfl
    · exact string_swaps h hx hwhole
    · exact string_swaps h hx hwhole
    · exact hash_swaps h hx hslash
    · exact operator_swaps h .suffixMatch '$' u
    · exact operator_swaps h .substringMatch '*' u
    · exact operator_swaps h .prefixMatch '^' u
    · exact operator_swaps h .dashMatch '|' u
    · exact operator_swaps h .includeMatch '~' u
    · exact Lexed.swaps_append ⟨.openParenthesis, ['('], u⟩ x y
    · exact Lexed.swaps_append ⟨.closeParenthesis, [')'], u⟩ x y
    · exact Lexed.swaps_append ⟨.openSquare, ['['], u⟩ x y
    · exact Lexed.swaps_append ⟨.closeSquare, [']'], u⟩ x y
    · exact Lexed.swaps_append ⟨.openCurly, ['{'], u⟩ x y
    · exact Lexed.swaps_append ⟨.closeCurly, ['}'], u⟩ x y
    · exact Lexed.swaps_append ⟨.comma, [','], u⟩ x y
    · exact Lexed.swaps_append ⟨.colon, [':'], u⟩ x y
    · exact Lexed.swaps_append ⟨.semicolon, [';'], u⟩ x y
    · exact plus_swaps h hx hslash
    · exact dot_swaps h hx hslash
    · exact dash_swaps h hx hslash
    · exact slash_swaps h hx
    · exact less_swaps h u
    · exact at_swaps h hx hslash
    · exact backslash_swaps h hx hslash fun hu => halone (by rw [hu])
  · rw [lex_other hspace hstart hdigit hspecial, lex_other hspace hstart hdigit hspecial]
    exact Lexed.swaps_append ⟨.delim c, [c], u⟩ x y

end Tokens

end ThemeTokens.Css
