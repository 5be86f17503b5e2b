import ThemeTokens.Proofs.Css.Continuation
import ThemeTokens.Proofs.Css.Nesting

/-! # How tokens are spelled

    A mark is written as its one character, a function ends with its parenthesis,
    and only white space begins with white space (`spelled_lex`).  Tokens are cut
    from their text exactly if each is read in front of those behind it
    (`isCut_cons_iff`). -/

namespace ThemeTokens.Css

/-! ## Marks -/

namespace Token

/-- The character that is written for the token, where there is but one. -/
def mark? : Token → Option Char
  | .colon => some ':'
  | .semicolon => some ';'
  | .comma => some ','
  | .openParenthesis => some '('
  | .openSquare => some '['
  | .openCurly => some '\x7b'
  | .closeParenthesis => some ')'
  | .closeSquare => some ']'
  | .closeCurly => some '\x7d'
  | _ => none

/-- Whether the token is white space. -/
def isWhite : Token → Bool
  | .whiteSpace _ => true
  | _ => false

/-- Whether the token is the name of a function with its parenthesis. -/
def isFunction : Token → Bool
  | .function _ => true
  | _ => false

/-- What the token says of how it was written. -/
structure Spelled (t : Token) (raw : List Char) : Prop where
  mark : ∀ c, t.mark? = some c → raw = [c]
  function : t.isFunction = true → raw.getLast? = some '('
  white : t.isWhite = true → ∀ c ∈ raw, isSpace c = true

/-- Other tokens say nothing of it. -/
def isFree (t : Token) : Bool :=
  t.mark?.isNone && !t.isFunction && !t.isWhite

/-- A token that says nothing of it may be written in any way. -/
theorem Spelled.of_isFree {t : Token} (h : t.isFree = true) (raw : List Char) :
    t.Spelled raw := by
  simp only [isFree, Bool.and_eq_true, Option.isNone_iff_eq_none, Bool.not_eq_true'] at h
  obtain ⟨⟨hmark, hfunction⟩, hwhite⟩ := h
  refine ⟨fun c hc => ?_, fun ht => ?_, fun ht => ?_⟩
  · cases hmark.symm.trans hc
  · cases hfunction.symm.trans ht
  · cases hwhite.symm.trans ht

/-- A mark is neither a function nor white space. -/
theorem Spelled.of_mark {t : Token} {c : Char} (hc : t.mark? = some c) : t.Spelled [c] := by
  have hother : t.isFunction = false ∧ t.isWhite = false := by
    cases t <;> first | exact ⟨rfl, rfl⟩ | cases hc
  refine ⟨fun d hd => ?_, fun ht => ?_, fun ht => ?_⟩
  · rw [Option.some.inj (hc.symm.trans hd)]
  · cases hother.1.symm.trans ht
  · cases hother.2.symm.trans ht

/-- A function ends with its parenthesis. -/
theorem Spelled.of_function (name : String) (raw : List Char) :
    (Token.function name).Spelled (raw ++ ['(']) := by
  refine ⟨fun c hc => ?_, fun _ => List.getLast?_concat, fun ht => ?_⟩
  · cases hc
  · cases ht

/-- White space is written with white space. -/
theorem Spelled.of_white (text : String) {raw : List Char} (h : ∀ c ∈ raw, isSpace c = true) :
    (Token.whiteSpace text).Spelled raw := by
  refine ⟨fun c hc => ?_, fun ht => ?_, fun _ => h⟩
  · cases hc
  · cases ht

end Token

open Token (Spelled)

/-- A token and its spelling. -/
def Lexed.IsSpelled (l : Lexed) : Prop :=
  l.token.Spelled l.raw

/-- A name may begin a function, which ends with its parenthesis; an address or an
    identifier says nothing of how it was written. -/
theorem spelled_identLike (cs : List Char) : (identLike cs).IsSpelled := by
  by_cases hparen : (name cs).rest.head? = some '('
  · obtain ⟨rest, hrest⟩ := List.head?_eq_some_iff.mp hparen
    have hfunction := Spelled.of_function (String.ofList (name cs).text) (name cs).raw
    rw [identLike_of_paren hrest, opened]
    split
    · rw [address?_eq]
      split
      · exact hfunction
      · rw [Option.map_some, Option.getD_some, Address.lexed]
        split <;> exact .of_isFree rfl _
    · exact hfunction
  · rw [identLike_of_not_paren hparen]
    exact .of_isFree rfl _

/-- A number says nothing of how it was written. -/
theorem spelled_numeric (cs : List Char) : (numeric cs).IsSpelled := by
  rw [numeric_eq]
  split
  · exact .of_isFree rfl _
  · split <;> exact .of_isFree rfl _

/-- Nor does an operator, if its token does not. -/
theorem spelled_operator {t : Token} (h : t.isFree = true) (c : Char) (cs : List Char) :
    (operator t c cs).IsSpelled := by
  unfold operator
  split
  · exact .of_isFree h _
  · exact .of_isFree rfl _

/-- Nor does a string, be it closed or broken off. -/
theorem spelled_string (quote : Char) (cs : List Char) : (string quote cs).IsSpelled := by
  rw [string_eq, Lexed.IsSpelled]
  dsimp only
  split <;> exact .of_isFree rfl _

/-- **SPELLING**: what a token that was read says of how it was written. -/
theorem spelled_lex (c : Char) (cs : List Char) : (lex c cs).IsSpelled := by
  unfold lex
  split
  · rename_i hc
    exact .of_white _ (List.forall_mem_cons.mpr ⟨hc, fun d hd => List.mem_takeWhile_imp hd⟩)
  split
  · exact spelled_identLike _
  split
  · exact spelled_numeric _
  split
  · exact spelled_string _ _
  · exact spelled_string _ _
  · split
    · exact .of_isFree rfl _
    · split <;> exact .of_isFree rfl _
  · exact spelled_operator rfl _ _
  · exact spelled_operator rfl _ _
  · exact spelled_operator rfl _ _
  · exact spelled_operator rfl _ _
  · exact spelled_operator rfl _ _
  · exact .of_mark rfl
  · exact .of_mark rfl
  · exact .of_mark rfl
  · exact .of_mark rfl
  · exact .of_mark rfl
  · exact .of_mark rfl
  · exact .of_mark rfl
  · exact .of_mark rfl
  · exact .of_mark rfl
  · split
    · exact spelled_numeric _
    · exact .of_isFree rfl _
  · split
    · exact spelled_numeric _
    · exact .of_isFree rfl _
  · split
    · exact spelled_numeric _
    · split
      · exact .of_isFree rfl _
      · split
        · exact spelled_identLike _
        · exact .of_isFree rfl _
  · split <;> exact .of_isFree rfl _
  · split <;> exact .of_isFree rfl _
  · split <;> exact .of_isFree rfl _
  · split
    · exact .of_isFree rfl _
    · exact spelled_identLike _
  · exact .of_isFree rfl _

/-! ## Tokens that were cut -/

/-- The token is what is read in front of `w`. -/
def Lexeme.Reads (l : Lexeme) (w : List Char) : Prop :=
  ∃ c cs, l.raw = c :: cs ∧ lex c (cs ++ w) = ⟨l.token, l.raw, w⟩

namespace Lexeme.Reads

variable {l : Lexeme} {w : List Char}

/-- A token that is read is not empty. -/
theorem raw_ne_nil (h : l.Reads w) : l.raw ≠ [] := by
  obtain ⟨c, cs, hraw, -⟩ := h
  rw [hraw]
  exact List.cons_ne_nil c cs

/-- A token that is read is written as it says. -/
theorem spelled (h : l.Reads w) : l.token.Spelled l.raw := by
  obtain ⟨c, cs, -, hlex⟩ := h
  have hspelled := spelled_lex c (cs ++ w)
  rwa [hlex] at hspelled

/-- Only white space begins with white space. -/
theorem head_of_not_white (h : l.Reads w) (hl : l.token.isWhite = false) :
    ∀ c ∈ l.raw.head?, isSpace c = false := by
  obtain ⟨c, cs, hraw, hlex⟩ := h
  intro d hd
  rw [hraw] at hd
  obtain rfl := Option.some.inj hd
  rw [Bool.eq_false_iff]
  intro hc
  unfold lex at hlex
  rw [if_pos hc] at hlex
  have htoken : Token.whiteSpace _ = l.token := congrArg Lexed.token hlex
  rw [← htoken] at hl
  cases hl

end Lexeme.Reads

/-- The tokens are what their text is cut into. -/
def IsCut (ls : List Lexeme) : Prop :=
  cut (ls.flatMap Lexeme.raw) = ls.map Lexeme.unplaced

theorem isCut_lexemes (here : Location) (cs : List Char) : IsCut (lexemes here cs) := by
  rw [IsCut, flatMap_raw_lexemes, map_unplaced_lexemes]

/-- **CUT**: the first token is read off the front of the text, and the others are
    cut from what is left. -/
theorem isCut_cons_iff {l : Lexeme} {ls : List Lexeme} :
    IsCut (l :: ls) ↔ l.Reads (ls.flatMap Lexeme.raw) ∧ IsCut ls := by
  rw [IsCut, List.flatMap_cons, List.map_cons]
  constructor
  · intro h
    cases htext : l.raw ++ ls.flatMap Lexeme.raw with
    | nil =>
        rw [htext, cut_nil] at h
        cases h
    | cons c cs =>
        rw [htext, cut_cons] at h
        injection h with hl hls
        have htoken : (lex c cs).token = l.token := congrArg Lexeme.token hl
        have hraw : (lex c cs).raw = l.raw := congrArg Lexeme.raw hl
        obtain ⟨hsplit, hne⟩ := splits_lex c cs
        rw [hraw] at hsplit hne
        -- The token takes its own text off the front, so the text of the others is left.
        have hrest : (lex c cs).rest = ls.flatMap Lexeme.raw :=
          List.append_cancel_left (hsplit.symm.trans htext.symm)
        obtain ⟨d, ds, hds⟩ := List.exists_cons_of_ne_nil hne
        rw [hds, hrest, List.cons_append] at hsplit
        obtain ⟨rfl, rfl⟩ := List.cons.inj hsplit
        refine ⟨⟨c, ds, hds, ?_⟩, ?_⟩
        · rw [← htoken, ← hraw]
          exact congrArg (Lexed.mk _ _) hrest
        · rw [IsCut, ← hls, hrest]
  · rintro ⟨⟨c, cs, hraw, hlex⟩, hls⟩
    rw [hraw, List.cons_append, cut_cons, hlex, ← hls]
    rfl

namespace IsCut

variable {l : Lexeme} {ls ms : List Lexeme}

theorem tail (h : IsCut (l :: ls)) : IsCut ls :=
  (isCut_cons_iff.mp h).2

/-- The last tokens of a text are cut from what they were written with. -/
theorem right (h : IsCut (ls ++ ms)) : IsCut ms := by
  induction ls with
  | nil => exact h
  | cons l ls ih => exact ih h.tail

theorem spelled_of_mem (h : IsCut ls) (hl : l ∈ ls) : l.token.Spelled l.raw := by
  induction ls with
  | nil => cases hl
  | cons k ls ih =>
      obtain ⟨hreads, hls⟩ := isCut_cons_iff.mp h
      rcases List.mem_cons.mp hl with rfl | hl
      · exact hreads.spelled
      · exact ih hls hl

end IsCut

end ThemeTokens.Css
