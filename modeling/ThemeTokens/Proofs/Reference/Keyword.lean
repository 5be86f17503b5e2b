import ThemeTokens.Proofs.Css.Strings
import ThemeTokens.Proofs.Reference.Lossless
import ThemeTokens.Stylesheet.Parse

/-! # Keywords that are read as references

    To a stylesheet `@theme` is a keyword like any other, and a value may be
    looked at as a list of tokens as well as by the scanner for references.
    The two differ in what a quote is: the scanner begins a string at each,
    though in a comment, in an address without quotes and behind a backslash it
    is nothing but a character, and a string may be broken off by a newline.

    Up to the first token in which a quote can mislead it the scanner is in
    step with the tokens: where it stands, the rest of the current token has no
    quotes (`Outside`).  So every keyword in front of that token with a name
    behind it is read as a reference (`keywords_le_atCount`), and behind it
    nothing is certain (`keywords_le_atCount_fails`). -/

namespace ThemeTokens

/-- The two characters that begin a string. -/
def isQuote (c : Char) : Bool :=
  c == '\'' || c == '"'

theorem isQuote_iff {c : Char} : isQuote c = true ↔ c = '\'' ∨ c = '"' := by
  rw [isQuote, Bool.or_eq_true, beq_iff_eq, beq_iff_eq]

/-- How many references are spelled with `@theme`. -/
def ParsedValue.atCount (value : ParsedValue) : Nat :=
  value.references.countP fun r => r.form == .atRule

namespace Css

/-- No quote in the token can mislead the scanner: it is a string that ended
    properly, or there is no quote in it. -/
def Lexeme.isClear (l : Lexeme) : Bool :=
  if l.raw.head?.any isQuote then l.token.isString else !l.raw.any isQuote

/-- Whether the token is the keyword `@theme`, written without escapes. -/
def Lexeme.isThemeKeyword (l : Lexeme) : Bool :=
  match l.token with
  | .atKeyword _ => l.raw == '@' :: themeWord
  | _ => false

/-- Whether white space and an identifier come next that has only characters of
    names. -/
def beginsName : List Lexeme → Bool
  | space :: name :: _ =>
      match space.token, name.token with
      | .whiteSpace _, .ident text => text.toList.all isPathChar
      | _, _ => false
  | _ => false

/-- How many keywords have a name behind them. -/
def keywords : List Lexeme → Nat
  | [] => 0
  | l :: ls => (if l.isThemeKeyword && beginsName ls then 1 else 0) + keywords ls

/-- The tokens in front of the first one in which a quote can mislead. -/
def clearLexemes (here : Location) (cs : List Char) : List Lexeme :=
  (lexemes here cs).takeWhile Lexeme.isClear

theorem clearLexemes_cons (here : Location) (c : Char) (cs : List Char) :
    let l := lex c cs
    let lexeme : Lexeme := ⟨l.token, l.raw, here, here.advance l.raw⟩
    clearLexemes here (c :: cs)
      = if lexeme.isClear then lexeme :: clearLexemes lexeme.stop l.rest else [] := by
  dsimp only
  rw [clearLexemes, lexemes, List.takeWhile_cons]
  rfl

/-- A token begins with the character it was read from. -/
theorem raw_lex (c : Char) (cs : List Char) :
    ∃ inside, (lex c cs).raw = c :: inside ∧ cs = inside ++ (lex c cs).rest := by
  obtain ⟨hsplit, hne⟩ := splits_lex c cs
  cases hraw : (lex c cs).raw with
  | nil => exact absurd hraw hne
  | cons d inside =>
      rw [hraw] at hsplit
      obtain ⟨rfl, htail⟩ := List.cons.inj hsplit
      exact ⟨inside, rfl, htail⟩

/-- The keyword is written at the front of the text it was read from. -/
theorem isPrefix_of_isThemeKeyword {l : Lexed} {cs : List Char} {here stop : Location}
    (hsplits : l.Splits cs)
    (h : (Lexeme.mk l.token l.raw here stop).isThemeKeyword = true) :
    '@' :: themeWord <+: cs := by
  rw [Lexeme.isThemeKeyword] at h
  split at h
  · rw [hsplits.1, ← beq_iff_eq.mp h]
    exact List.prefix_append _ _
  · cases h

end Css

open Css (clearLexemes keywords)

/-- The scanner stands in a token or at its end, and nothing is left of the
    token that has a quote in it.  Behind it there are `n` keywords with names,
    or more, in front of the first token in which a quote can mislead. -/
def Outside (n : Nat) (cs : List Char) : Prop :=
  ∃ inside rest here, cs = inside ++ rest ∧ (∀ c ∈ inside, isQuote c = false)
    ∧ n ≤ keywords (clearLexemes here rest)

/-- Neither a string nor the keyword begins in the run. -/
def Calm (run : List Char) : Prop :=
  ∀ c ∈ run, isQuote c = false ∧ c ≠ '@'

instance (run : List Char) : Decidable (Calm run) :=
  List.decidableBAll _ run

theorem IsBlankRun.calm {blanks : List Char} (h : IsBlankRun blanks) : Calm blanks := by
  intro c hc
  have hblank := h c hc
  simp only [Text.isAsciiBlank, Bool.or_eq_true, beq_iff_eq] at hblank
  rcases hblank with (((rfl | rfl) | rfl) | rfl) | rfl <;> decide

theorem IsPath.calm {path : List Char} (h : IsPath path) : Calm path := by
  intro c hc
  rcases h.mem c hc with hname | rfl
  · have hquote : ∀ d, isPathChar d = false → c ≠ d := fun d hd => ne_of_isPathChar hname hd
    refine ⟨?_, hquote '@' (by decide)⟩
    rw [isQuote, beq_false_of_ne (hquote '\'' (by decide)), beq_false_of_ne (hquote '"' (by decide))]
    rfl
  · decide

/-- Nothing in a path ends a string or escapes what follows. -/
theorem IsPath.plainIn {path : List Char} (h : IsPath path) {quote : Char}
    (hq : quote = '\'' ∨ quote = '"') : Css.PlainIn quote path := by
  intro c hc
  refine ⟨?_, ?_⟩
  · rintro rfl
    cases (isQuote_iff.mpr hq).symm.trans (h.calm c hc).1
  · rintro rfl
    rcases h.mem _ hc with hname | hdot
    · exact absurd hname (by decide)
    · exact absurd hdot (by decide)

namespace Outside

variable {n : Nat} {cs : List Char}

theorem zero (cs : List Char) : Outside 0 cs :=
  ⟨[], cs, .start, rfl, List.forall_mem_nil _, Nat.zero_le _⟩

theorem nil (h : Outside n []) : n = 0 := by
  obtain ⟨inside, rest, here, heq, -, hle⟩ := h
  obtain ⟨-, rfl⟩ := List.append_eq_nil_iff.mp heq.symm
  rw [clearLexemes, Css.lexemes] at hle
  exact Nat.le_zero.mp hle

/-- **ONE CHARACTER**: the scanner stays in step behind a character that is no
    quote, and only a `@theme` that stands there leaves it one keyword less. -/
theorem step {c : Char} (hq : ¬ (c = '\'' ∨ c = '"')) (h : Outside n (c :: cs)) :
    Outside n cs ∨ ('@' :: themeWord <+: c :: cs ∧ ∃ m, n ≤ m + 1 ∧ Outside m cs) := by
  obtain ⟨inside, rest, here, heq, hinside, hle⟩ := h
  cases inside with
  | cons d inside =>
      obtain ⟨-, rfl⟩ := List.cons.inj heq
      exact Or.inl ⟨inside, rest, here, rfl, (List.forall_mem_cons.mp hinside).2, hle⟩
  | nil =>
      -- The scanner is at the front of a token.
      obtain rfl : rest = c :: cs := heq.symm
      rw [Css.clearLexemes_cons] at hle
      obtain ⟨inside, hraw, hcs⟩ := Css.raw_lex c cs
      split at hle
      · rename_i hclear
        have hquiet : ∀ d ∈ inside, isQuote d = false := by
          rw [Css.Lexeme.isClear, hraw, List.head?_cons, Option.any_some,
            if_neg (mt isQuote_iff.mp hq), Bool.not_eq_true', List.any_eq_false] at hclear
          exact fun d hd => Bool.eq_false_iff.mpr (hclear d (List.mem_cons_of_mem _ hd))
        rw [keywords] at hle
        split at hle
        · rename_i hkeyword
          rw [Nat.add_comm] at hle
          refine Or.inr ⟨?_, _, hle, inside, _, _, hcs, hquiet, Nat.le_refl _⟩
          exact Css.isPrefix_of_isThemeKeyword (Css.splits_lex c cs)
            (Bool.and_eq_true_iff.mp hkeyword).1
        · rw [Nat.zero_add] at hle
          exact Or.inl ⟨inside, _, _, hcs, hquiet, hle⟩
      · rw [Nat.le_zero.mp hle]
        exact Or.inl (zero cs)

/-- The scanner stays in step behind a calm run. -/
theorem calm {run : List Char} (hrun : Calm run) (h : Outside n (run ++ cs)) :
    Outside n cs := by
  induction run with
  | nil => exact h
  | cons c run ih =>
      obtain ⟨⟨hquote, hat⟩, hrun⟩ := List.forall_mem_cons.mp hrun
      have hq : ¬ (c = '\'' ∨ c = '"') := mt isQuote_iff.mpr (Bool.eq_false_iff.mp hquote)
      rcases h.step hq with hout | ⟨hword, -⟩
      · exact ih hrun hout
      · exact absurd (List.cons_prefix_cons.mp hword).1.symm hat

/-- **ONE STRING**: the scanner stays in step behind a string that it reads. -/
theorem string {quote : Char} (hq : quote = '\'' ∨ quote = '"') (h : Outside n (quote :: cs)) :
    Outside n (stringRest quote cs).2 := by
  obtain ⟨inside, rest, here, heq, hinside, hle⟩ := h
  cases inside with
  | cons d inside =>
      -- There is no quote inside of a token that is left.
      obtain ⟨rfl, -⟩ := List.cons.inj heq
      cases (isQuote_iff.mpr hq).symm.trans (hinside quote List.mem_cons_self)
  | nil =>
      obtain rfl : rest = quote :: cs := heq.symm
      rw [Css.clearLexemes_cons] at hle
      obtain ⟨inside, hraw, -⟩ := Css.raw_lex quote cs
      split at hle
      · rename_i hclear
        rw [Css.Lexeme.isClear, hraw, List.head?_cons, Option.any_some,
          if_pos (isQuote_iff.mpr hq)] at hclear
        have hplain : (Css.Lexeme.mk (Css.lex quote cs).token (Css.lex quote cs).raw here
            (here.advance (Css.lex quote cs).raw)).isThemeKeyword = false := by
          rw [Css.Lexeme.isThemeKeyword]
          split
          · rename_i name hname
            dsimp only at hclear hname
            rw [hname] at hclear
            cases hclear
          · rfl
        rw [keywords, hplain, Bool.false_and, if_neg Bool.false_ne_true, Nat.zero_add] at hle
        rw [Css.stringRest_of_isString hq hclear]
        exact ⟨[], _, _, rfl, List.forall_mem_nil _, hle⟩
      · rw [Nat.le_zero.mp hle]
        exact zero _

/-- **ONE REFERENCE**: the scanner stays in step behind a reference, and one
    spelled with `@theme` may leave it one keyword less. -/
theorem reference {r : Reference} {text : List Char} (hspells : r.Spells text)
    (h : Outside n (text ++ cs)) :
    ∃ m, n ≤ m + (if r.form == .atRule then 1 else 0) ∧ Outside m cs := by
  have hword : Calm themeWord := by decide
  cases hspells with
  | @atRule path blanks dollar hpath hne hblanks =>
      have hsign : Calm (if dollar then ['$'] else []) := by
        cases dollar with
        | true => decide
        | false => decide
      have hrun : Calm (themeWord ++ (blanks ++ ((if dollar then ['$'] else []) ++ path))) :=
        List.forall_mem_append.mpr ⟨hword, List.forall_mem_append.mpr
          ⟨hblanks.calm, List.forall_mem_append.mpr ⟨hsign, hpath.calm⟩⟩⟩
      -- At its first character the keyword may count, and nowhere else.
      rcases h.step (by decide) with hout | ⟨-, m, hle, hout⟩
      · exact ⟨n, Nat.le_add_right _ _, hout.calm hrun⟩
      · exact ⟨m, hle, hout.calm hrun⟩
  | @function path before behind quote hpath hbefore hbehind hquote =>
      have hfront : Calm (themeWord ++ '(' :: before) :=
        List.forall_mem_append.mpr ⟨hword, List.forall_mem_cons.mpr ⟨by decide, hbefore.calm⟩⟩
      have hback : Calm (behind ++ [')']) :=
        List.forall_mem_append.mpr ⟨hbehind.calm, List.forall_mem_singleton.mpr (by decide)⟩
      have hslash : quote ≠ '\\' := by
        rcases hquote with rfl | rfl
        · decide
        · decide
      have hstring : (stringRest quote (path ++ quote :: (behind ++ [')'] ++ cs))).2
          = behind ++ [')'] ++ cs := by
        rw [Css.stringRest_plain (hpath.plainIn hquote), stringRest_cons hslash, if_pos rfl]
      have hall : themeWord ++ '(' :: (before ++ quote :: (path ++ quote :: (behind ++ [')']))) ++ cs
          = themeWord ++ '(' :: before ++ quote :: (path ++ quote :: (behind ++ [')'] ++ cs)) := by
        simp only [List.append_assoc, List.cons_append]
      rw [hall] at h
      have hout := (h.calm hfront).string hquote
      rw [hstring] at hout
      exact ⟨n, Nat.le_add_right _ _, hout.calm hback⟩

end Outside

/-- **IN STEP**: as many keywords as are counted from where the scanner stands
    are read as references, or more. -/
theorem le_countP_marks {n : Nat} {before : Option Char} {cs : List Char} {ms : List Mark}
    (h : Outside n cs) (hm : marks before cs = .ok ms) :
    n ≤ (ms.filterMap Mark.reference?).countP fun r => r.form == .atRule := by
  induction before, cs using marks.induct generalizing n ms with
  | case1 before =>
      rw [h.nil]
      exact Nat.zero_le _
  | case2 before c tail hq ih =>
      rw [marks_string hq] at hm
      obtain ⟨more, hmore, rfl⟩ := Outcome.map_eq_ok.mp hm
      rw [List.filterMap_append, references_chars, List.nil_append]
      exact ih (h.string hq) hmore
  | case3 before c tail hq fault ho =>
      rcases marks_cons_eq_ok hm with ⟨hyes, -⟩ | ⟨-, _, _, _, ho', -⟩ | ⟨-, ho', -⟩
      · exact absurd hyes hq
      · cases ho.symm.trans ho'
      · cases ho.symm.trans ho'
  | case4 before c tail hq r rest ho ih =>
      rw [marks_reference hq ho] at hm
      obtain ⟨more, hmore, rfl⟩ := Outcome.map_eq_ok.mp hm
      obtain ⟨text, hspells, htext, -⟩ := opener?_eq_some_iff.mp ho
      rw [htext] at h
      obtain ⟨m, hle, hout⟩ := h.reference hspells
      show n ≤ (r :: more.filterMap Mark.reference?).countP _
      rw [List.countP_cons]
      exact Nat.le_trans hle (Nat.add_le_add_right (ih hout hmore) _)
  | case5 before c tail hq ho ih =>
      have hplain := opener?_eq_none_iff.mp ho
      rw [marks_char hq hplain] at hm
      obtain ⟨more, hmore, rfl⟩ := Outcome.map_eq_ok.mp hm
      show n ≤ (more.filterMap Mark.reference?).countP _
      rcases h.step hq with hout | ⟨hword, -⟩
      · exact ih hout hmore
      · exact absurd (Or.inl hword) hplain

/-! ## Main result -/

/-- **KEYWORDS**: a value that is read has as many references spelled with
    `@theme` as there are keywords with names in front of the first token in
    which a quote can mislead.  Where there is no such token none is missed. -/
theorem keywords_le_atCount {text : String} {value : ParsedValue}
    (h : ParsedValue.parse text = .ok value) :
    keywords (clearLexemes .start text.toList) ≤ value.atCount
      ∧ ((∀ l ∈ Css.lexemes .start text.toList, l.isClear = true) →
          keywords (Css.lexemes .start text.toList) ≤ value.atCount) := by
  obtain ⟨ms, hms, rfl⟩ := parse_eq_ok h
  have hstart : Outside (keywords (clearLexemes .start text.toList)) text.toList :=
    ⟨[], text.toList, .start, rfl, List.forall_mem_nil _, Nat.le_refl _⟩
  have hcount : keywords (clearLexemes .start text.toList) ≤ ParsedValue.atCount ⟨gather ms⟩ := by
    rw [ParsedValue.atCount, ParsedValue.references, references_gather]
    exact le_countP_marks hstart hms
  refine ⟨hcount, fun hclear => ?_⟩
  rw [clearLexemes, List.takeWhile_eq_self_iff.mpr hclear] at hcount
  exact hcount

/-- A keyword in a function, a string with an escape in it, and a keyword behind
    the string. -/
theorem keywords_around_string : ∃ value,
    ParsedValue.parse "calc(@theme gap * 2) 'it\\'s' @theme ink" = .ok value
      ∧ 2 ≤ value.atCount := by
  have hok : (ParsedValue.parse "calc(@theme gap * 2) 'it\\'s' @theme ink").toOption.isSome
      = true := by
    decide +kernel
  obtain ⟨value, hparse⟩ := Outcome.exists_ok_of_isSome hok
  have hcount : keywords (clearLexemes .start
      "calc(@theme gap * 2) 'it\\'s' @theme ink".toList) = 2 := by
    decide +kernel
  have hle := (keywords_le_atCount hparse).1
  rw [hcount] at hle
  exact ⟨value, hparse, hle⟩

/-- An apostrophe in a comment begins a string for the scanner, and the keyword
    behind it is taken for a part of that. -/
theorem keywords_le_atCount_fails :
    ¬ (∀ (css : String) (sheet : Stylesheet), Stylesheet.parse css = .ok sheet →
        ∀ d ∈ sheet.declarations, ∀ value, ParsedValue.parse d.value = .ok value →
          keywords (Css.lexemes .start d.value.toList) ≤ value.atCount) := by
  intro h
  have hread : (Stylesheet.parse ".a \x7b color: /* it's */ @theme color; \x7d").toOption.map
      (fun sheet => sheet.declarations.map Declaration.value)
      = some ["/* it's */ @theme color"] := by
    decide +kernel
  obtain ⟨sheet, hsheet, hvalues⟩ := Outcome.exists_ok_of_map hread
  have hmem : "/* it's */ @theme color" ∈ sheet.declarations.map Declaration.value := by
    rw [hvalues]
    exact List.mem_singleton.mpr rfl
  obtain ⟨d, hd, hvalue⟩ := List.mem_map.mp hmem
  have hparsed : (ParsedValue.parse "/* it's */ @theme color").toOption.map ParsedValue.atCount
      = some 0 := by
    decide +kernel
  obtain ⟨value, hok, hnone⟩ := Outcome.exists_ok_of_map hparsed
  rw [← hvalue] at hok
  have hle := h _ sheet hsheet d hd value hok
  have hone : keywords (Css.lexemes .start "/* it's */ @theme color".toList) = 1 := by
    decide +kernel
  rw [hvalue, hone, hnone] at hle
  exact absurd hle (by decide)

end ThemeTokens
