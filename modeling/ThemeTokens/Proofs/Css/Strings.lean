import ThemeTokens.Css.Lexer
import ThemeTokens.Proofs.Reference.Respelling

/-! # Strings, read twice

    A value is cut into tokens by the rules of stylesheets, and searched for
    references by a scanner that has rules for strings of its own.  The scanner
    knows of an escape only that a backslash takes the next character along,
    and nothing of strings that a newline breaks off.  Where a string ends
    properly the two agree on its end (`stringRest_of_proper`), since whatever
    an escape was written with, only its first character could end a string. -/

namespace ThemeTokens.Css

/-! ## Up to the closing quote -/

section Strings

variable {quote : Char}

/-- Nothing in the run ends a string or escapes what follows. -/
def PlainIn (quote : Char) (run : List Char) : Prop :=
  ∀ c ∈ run, c ≠ quote ∧ c ≠ '\\'

/-- A plain run belongs to the string whole. -/
theorem stringRest_plain {run : List Char} (h : PlainIn quote run) (cs : List Char) :
    stringRest quote (run ++ cs)
      = (run ++ (stringRest quote cs).1, (stringRest quote cs).2) := by
  induction run with
  | nil => rfl
  | cons c run ih =>
      obtain ⟨⟨hquote, hslash⟩, hrun⟩ := List.forall_mem_cons.mp h
      rw [List.cons_append, stringRest_cons hslash, if_neg hquote, ih hrun]
      rfl

/-- An escape belongs to the string whole: of what it was written with only the
    first character could be mistaken, and the backslash takes that along. -/
theorem stringRest_escape {e : Piece} {c : Char} {run cs : List Char} (hs : e.Splits cs)
    (hraw : e.raw = c :: run) (hrun : PlainIn quote run) :
    stringRest quote ('\\' :: cs)
      = ('\\' :: e.raw ++ (stringRest quote e.rest).1, (stringRest quote e.rest).2) := by
  have hcs : cs = c :: (run ++ e.rest) := by
    rw [← List.cons_append, ← hraw]
    exact hs
  rw [hcs, stringRest, stringRest_plain hrun, hraw]
  rfl

variable (hq : quote = '\'' ∨ quote = '"')

include hq

/-- A code is plain. -/
theorem plainIn_hexDigits (n : Nat) (cs : List Char) : PlainIn quote (hexDigits n cs).raw := by
  have hhex : ∀ {c : Char}, isHexDigit c = true → c ≠ quote ∧ c ≠ '\\' := by
    rintro c hc
    refine ⟨?_, ?_⟩
    · rintro rfl
      rcases hq with rfl | rfl
      · exact absurd hc (by decide)
      · exact absurd hc (by decide)
    · rintro rfl
      exact absurd hc (by decide)
  induction n generalizing cs with
  | zero => exact List.forall_mem_nil _
  | succ n ih =>
      cases cs with
      | nil => exact List.forall_mem_nil _
      | cons c cs =>
          rw [hexDigits]
          by_cases hc : isHexDigit c = true
          · rw [if_pos hc]
            exact List.forall_mem_cons.mpr ⟨hhex hc, ih cs⟩
          · rw [if_neg hc]
            exact List.forall_mem_nil _

/-- White space neither closes a string nor escapes anything. -/
theorem ne_of_isSpace {c : Char} (h : isSpace c = true) : c ≠ quote ∧ c ≠ '\\' := by
  refine ⟨?_, ?_⟩
  · rintro rfl
    rcases hq with rfl | rfl
    · exact absurd h (by decide)
    · exact absurd h (by decide)
  · rintro rfl
    exact absurd h (by decide)

theorem plainIn_newline (cs : List Char) : PlainIn quote (newline cs).raw := by
  unfold newline
  split
  · intro c hc
    refine ne_of_isSpace hq ?_
    rcases List.mem_cons.mp hc with rfl | hc
    · rfl
    · rw [List.mem_singleton.mp hc]
      rfl
  · split
    · rename_i c rest _ hn
      refine List.forall_mem_singleton.mpr (ne_of_isSpace hq ?_)
      rw [isSpace, hn, Bool.or_true]
    · exact List.forall_mem_nil _
  · exact List.forall_mem_nil _

theorem plainIn_oneSpace (cs : List Char) : PlainIn quote (oneSpace cs).raw := by
  unfold oneSpace
  split
  · split
    · rename_i c rest hc
      refine List.forall_mem_singleton.mpr (ne_of_isSpace hq ?_)
      rcases hc with rfl | rfl
      · rfl
      · rfl
    · exact plainIn_newline hq _
  · exact List.forall_mem_nil _

/-- What is behind the first character of an escape is plain. -/
theorem raw_escape {cs : List Char} (hne : cs ≠ []) :
    ∃ c run, (escape cs).raw = c :: run ∧ PlainIn quote run := by
  obtain ⟨c, tail, rfl⟩ := List.exists_cons_of_ne_nil hne
  rw [escape]
  by_cases hc : isHexDigit c = true
  · have hdigits : hexDigits 6 (c :: tail) = (hexDigits 5 tail).cons [c] [c] := by
      rw [hexDigits, if_pos hc]
    rw [if_pos hc, hdigits]
    refine ⟨c, _, rfl, ?_⟩
    exact List.forall_mem_append.mpr ⟨plainIn_hexDigits hq 5 tail, plainIn_oneSpace hq _⟩
  · rw [if_neg hc]
    exact ⟨c, [], rfl, List.forall_mem_nil _⟩

/-- What is behind the first character of a newline is plain. -/
theorem raw_newline {cs : List Char} (h : startsNewline cs = true) :
    ∃ c run, (newline cs).raw = c :: run ∧ PlainIn quote run := by
  have hplain := plainIn_newline hq cs
  unfold newline at hplain ⊢
  split
  · exact ⟨'\r', ['\n'], rfl, (List.forall_mem_cons.mp hplain).2⟩
  · rename_i c rest _
    have hc : isNewline c = true := h
    rw [if_pos hc]
    exact ⟨c, [], rfl, List.forall_mem_nil _⟩
  · cases h

/-- A string that ended properly is read alike. -/
theorem stringRest_of_proper {cs : List Char} (h : (stringText quote cs).1 = true) :
    stringRest quote cs = ((stringText quote cs).2.raw, (stringText quote cs).2.rest) := by
  have hslash : quote ≠ '\\' := by
    rcases hq with rfl | rfl
    · decide
    · decide
  fun_induction stringText quote cs with
  | case1 => rfl
  | case2 cs => rw [stringRest_cons hslash, if_pos rfl]
  | case3 => cases h
  | case4 cs hnl n proper tail heq _ _ ih =>
      rw [heq] at ih
      obtain ⟨c, run, hraw, hrun⟩ := raw_newline hq hnl
      rw [stringRest_escape (splits_newline cs) hraw hrun, ih h]
      rfl
  | case5 cs _ hempty =>
      rw [List.isEmpty_iff.mp hempty]
      rfl
  | case6 cs _ hempty e proper tail heq _ _ ih =>
      rw [heq] at ih
      obtain ⟨c, run, hraw, hrun⟩ := raw_escape hq (mt List.isEmpty_iff.mpr hempty)
      rw [stringRest_escape (splits_escape cs) hraw hrun, ih h]
      rfl
  | case7 c cs hc _ hslash' proper tail heq ih =>
      rw [heq] at ih
      rw [stringRest_cons hslash', if_neg hc, ih h]
      rfl

end Strings

/-! ## String tokens -/

/-- Whether the token is a string that ended properly. -/
def Token.isString : Token → Bool
  | .quotedString _ => true
  | _ => false

/-- A quotation mark begins a string. -/
theorem lex_quote {quote : Char} (hq : quote = '\'' ∨ quote = '"') (cs : List Char) :
    lex quote cs = string quote cs := by
  rcases hq with rfl | rfl
  · rfl
  · rfl

/-- Behind a string token the scanner goes on with the next token. -/
theorem stringRest_of_isString {quote : Char} (hq : quote = '\'' ∨ quote = '"')
    {cs : List Char} (h : (lex quote cs).token.isString = true) :
    (stringRest quote cs).2 = (lex quote cs).rest := by
  rw [lex_quote hq] at h ⊢
  have hproper : (stringText quote cs).1 = true := by
    by_contra hbad
    rw [string] at h
    dsimp only at h
    rw [if_neg hbad] at h
    cases h
  rw [stringRest_of_proper hq hproper]
  rfl

end ThemeTokens.Css
