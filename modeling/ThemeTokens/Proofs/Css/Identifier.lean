import ThemeTokens.Proofs.Css.Written

/-! # Identifiers behind two dashes

    A name goes on over name characters and over whole escapes, and what cannot
    go on an escape ends it.  Two dashes always begin a name, so with them in
    front a text is an identifier exactly where it reads as a name to its end
    (`isIdentifier_dashes`). -/

namespace ThemeTokens.Css

/-! ## What goes on a name -/

/-- Name characters belong to the name that follows. -/
theorem rest_name_plain {u : List Char} (hu : ∀ c ∈ u, isNameChar c = true) (w : List Char) :
    (name (u ++ w)).rest = (name w).rest := by
  induction u with
  | nil => rfl
  | cons c u ih =>
      obtain ⟨hc, hu⟩ := List.forall_mem_cons.mp hu
      rw [List.cons_append, name, if_pos hc]
      exact ih hu

/-- A character behind a backslash belongs to the name. -/
theorem rest_name_escaped {c : Char} (hhex : isHexDigit c = false) (hline : isNewline c = false)
    (w : List Char) : (name ('\\' :: c :: w)).rest = (name w).rest := by
  rw [name, if_neg (by decide), if_neg (by decide), if_pos ⟨rfl, hline⟩, escape,
    if_neg (by rw [hhex]; exact Bool.false_ne_true)]
  rfl

theorem hexDigits_all {n : Nat} {digits : List Char}
    (hdigits : ∀ c ∈ digits, isHexDigit c = true) (hlen : digits.length ≤ n) (w : List Char) :
    (hexDigits n (digits ++ ' ' :: w)).rest = ' ' :: w := by
  induction digits generalizing n with
  | nil =>
      cases n with
      | zero => rfl
      | succ n => rw [List.nil_append, hexDigits, if_neg (by decide)]; rfl
  | cons c digits ih =>
      obtain ⟨hc, hdigits⟩ := List.forall_mem_cons.mp hdigits
      cases n with
      | zero => cases hlen
      | succ n =>
          rw [List.cons_append, hexDigits, if_pos hc]
          exact ih hdigits (Nat.le_of_succ_le_succ hlen)

/-- A code behind a backslash belongs to the name, with the blank that ends it. -/
theorem rest_name_code {digits : List Char} (hne : digits ≠ [])
    (hdigits : ∀ c ∈ digits, isHexDigit c = true) (hlen : digits.length ≤ 6) (w : List Char) :
    (name ('\\' :: digits ++ ' ' :: w)).rest = (name w).rest := by
  have hread := hexDigits_all hdigits hlen w
  obtain ⟨c, tail, rfl⟩ := List.exists_cons_of_ne_nil hne
  have hc : isHexDigit c = true := hdigits c List.mem_cons_self
  have hline : isNewline c = false := by
    rw [Bool.eq_false_iff]
    intro hnewline
    simp only [isNewline, Bool.or_eq_true, beq_iff_eq] at hnewline
    rcases hnewline with (rfl | rfl) | rfl
    · cases hc
    · cases hc
    · cases hc
  have hescape : (escape (c :: tail ++ ' ' :: w)).rest = w := by
    rw [List.cons_append, escape, if_pos hc]
    dsimp only
    rw [← List.cons_append, hread]
    rfl
  rw [List.cons_append, name, if_neg (by decide), if_neg (by decide), if_pos ⟨rfl, hline⟩]
  show (name (escape (c :: tail ++ ' ' :: w)).rest).rest = _
  rw [hescape]

/-- Behind a dash only the name goes on: what stands in front of it decides. -/
theorem rest_name_dash {y : List Char} (hy : ∀ c ∈ y, isNameChar c = true) (x : List Char) :
    (name (x ++ '-' :: y)).rest = [] ↔ (name (x ++ ['-'])).rest = [] := by
  have hall : ∀ u : List Char, (∀ c ∈ u, isNameChar c = true) → (name u).rest = [] := by
    intro u hu
    have hnil := rest_name_plain hu []
    rw [List.append_nil, name_nil] at hnil
    exact hnil
  have hdash : ∀ v : List Char, ∀ c ∈ ('-' :: v).head?,
      isHexDigit c = false ∧ isSpace c = false := by
    intro v c hc
    rw [← Option.some.inj hc]
    exact ⟨rfl, rfl⟩
  induction hn : x.length using Nat.strongRecOn generalizing x with
  | ind n ih =>
      cases x with
      | nil =>
          exact iff_of_true (hall _ (List.forall_mem_cons.mpr ⟨rfl, hy⟩))
            (hall _ (List.forall_mem_singleton.mpr rfl))
      | cons c cs =>
          have hshort : cs.length < n := by
            rw [← hn]
            exact Nat.lt_succ_self _
          have ihcs := ih _ hshort cs rfl
          rw [List.cons_append, List.cons_append, name, name]
          by_cases hc : isNameChar c = true
          · rw [if_pos hc, if_pos hc]
            exact ihcs
          rw [if_neg hc, if_neg hc]
          by_cases hnul : c = '\x00'
          · rw [if_pos hnul, if_pos hnul]
            exact ihcs
          rw [if_neg hnul, if_neg hnul]
          have hline : startsNewline (cs ++ '-' :: y) = startsNewline (cs ++ ['-']) := by
            cases cs with
            | nil => rfl
            | cons d cs => rfl
          rw [hline]
          by_cases hslash : c = '\\' ∧ startsNewline (cs ++ ['-']) = false
          · rw [if_pos hslash, if_pos hslash]
            by_cases hcs : cs = []
            · -- The dash itself is escaped.
              subst hcs
              exact iff_of_true (hall y hy) (hall [] (List.forall_mem_nil _))
            · have hescape := fun v => escape_append (fun c hc => (hdash v c hc).1)
                (fun c hc => (hdash v c hc).2) hcs
              have hlen := (splits_escape cs).length_rest
              show (name (escape (cs ++ '-' :: y)).rest).rest = []
                ↔ (name (escape (cs ++ ['-'])).rest).rest = []
              rw [hescape, hescape]
              exact ih _ (Nat.lt_of_le_of_lt hlen hshort) _ rfl
          · rw [if_neg hslash, if_neg hslash]
            exact iff_of_false (List.cons_ne_nil _ _) (List.cons_ne_nil _ _)

/-! ## Identifiers -/

/-- The text is a single token, and that is an identifier. -/
def IsIdentifier (text : String) : Prop :=
  ∃ n, (lexemes .start text.toList).map Lexeme.token = [.ident n]

/-- Addresses and functions are no identifiers. -/
theorem token_opened_ne (text raw rest : List Char) (n : String) :
    (opened text raw rest).token ≠ .ident n := by
  rw [opened]
  split
  · rw [address?_eq]
    split
    · exact Token.noConfusion
    · show (if _ then Token.badUrl _ else Token.unquotedUrl _) ≠ _
      split
      · exact Token.noConfusion
      · exact Token.noConfusion
  · exact Token.noConfusion

theorem map_token_lexemes_cons (here : Location) (c : Char) (cs : List Char) :
    ∃ stop, (lexemes here (c :: cs)).map Lexeme.token
      = (lex c cs).token :: (lexemes stop (lex c cs).rest).map Lexeme.token := by
  rw [lexemes]
  exact ⟨_, rfl⟩

theorem lexemes_eq_nil_iff {here : Location} {cs : List Char} : lexemes here cs = [] ↔ cs = [] := by
  cases cs with
  | nil => exact iff_of_true (by rw [lexemes]) rfl
  | cons c cs =>
      have hne : lexemes here (c :: cs) ≠ [] := by
        rw [lexemes]
        exact List.cons_ne_nil _ _
      exact iff_of_false hne (List.cons_ne_nil c cs)

/-- Behind two dashes an identifier goes on as long as a name does. -/
theorem isIdentifier_dashes (text : String) :
    IsIdentifier ("--" ++ text) ↔ (name text.toList).rest = [] := by
  have htext : ("--" ++ text).toList = '-' :: '-' :: text.toList := by
    rw [String.toList_append]
    rfl
  rw [IsIdentifier, htext]
  generalize text.toList = cs
  obtain ⟨stop, htokens⟩ := map_token_lexemes_cons .start '-' ('-' :: cs)
  have hdashes : ∀ c ∈ ['-', '-'], isNameChar c = true :=
    List.forall_mem_cons.mpr ⟨rfl, List.forall_mem_singleton.mpr rfl⟩
  have hrest : (name ('-' :: '-' :: cs)).rest = (name cs).rest := rest_name_plain hdashes cs
  rw [htokens]
  have hlex : lex '-' ('-' :: cs)
      = if ['-', '>'] <+: '-' :: cs then ⟨.commentClose, ['-', '-', '>'], ('-' :: cs).drop 2⟩
        else identLike ('-' :: '-' :: cs) := by
    have hstarts : startsName ('-' :: '-' :: cs) = true := rfl
    rw [lex_dash, startsDigits_cons (by decide), if_neg (by decide), if_pos hstarts]
  by_cases hclose : ['-', '>'] <+: '-' :: cs
  · -- The end of a comment, not a name.
    obtain ⟨w, hw⟩ := hclose
    obtain rfl : cs = '>' :: w := (List.cons.inj hw).2.symm
    rw [hlex, if_pos ⟨w, rfl⟩, name_of_breaks rfl]
    refine iff_of_false ?_ (List.cons_ne_nil '>' w)
    rintro ⟨n, htoken⟩
    cases (List.cons.inj htoken).1
  · rw [hlex, if_neg hclose]
    cases hname : (name cs).rest with
    | nil =>
        rw [hname] at hrest
        rw [identLike_of_not_paren (by rw [hrest]; simp), hrest, lexemes]
        exact iff_of_true ⟨_, rfl⟩ rfl
    | cons d w =>
        rw [hname] at hrest
        refine iff_of_false ?_ (List.cons_ne_nil d w)
        rintro ⟨n, htoken⟩
        obtain ⟨hident, hnil⟩ := List.cons.inj htoken
        by_cases hparen : d = '('
        · subst hparen
          rw [identLike_of_paren hrest] at hident
          exact token_opened_ne _ _ _ n hident
        · rw [identLike_of_not_paren (by rw [hrest]; simpa using hparen), hrest,
            List.map_eq_nil_iff, lexemes_eq_nil_iff] at hnil
          cases hnil

end ThemeTokens.Css
