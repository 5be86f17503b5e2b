import Mathlib.Data.List.TakeWhile
import ThemeTokens.Proofs.Css.Continuation
import ThemeTokens.Proofs.Css.Nesting

/-! # Texts that stand alone

    A text stands alone if a semicolon put behind it is read as a semicolon
    outside all blocks: no block, string, comment or escape of the text is left
    open for it.  In front of every ending such a text is cut into the same
    tokens and put into the same blocks (`Stands.reads`). -/

namespace ThemeTokens.Css

open Component

/-- The semicolon as a token. -/
def semicolon : Lexeme :=
  ⟨.semicolon, [';'], .none, .none⟩

theorem cut_semicolon (cs : List Char) : cut (';' :: cs) = semicolon :: cut cs :=
  cut_cons ';' cs

/-- Where the last character is not white space, not all are. -/
theorem dropWhile_ne_nil {u : List Char} {c : Char} (hc : isSpace c = true)
    (hlast : ∀ d ∈ (c :: u).getLast?, isSpace d = false) : u.dropWhile isSpace ≠ [] := by
  intro hnil
  have hall : ∀ d ∈ c :: u, isSpace d = true := by
    refine List.forall_mem_cons.mpr ⟨hc, ?_⟩
    exact List.dropWhile_eq_nil_iff.mp hnil
  have hmem := List.getLast_mem (List.cons_ne_nil c u)
  have hspace := hlast _ (List.getLast?_eq_some_getLast (List.cons_ne_nil c u))
  rw [hall _ hmem] at hspace
  cases hspace

/-- What a text ends with, its last part ends with. -/
theorem getLast?_suffix {raw x : List Char} {P : Char → Prop}
    (h : ∀ d ∈ (raw ++ x).getLast?, P d) : ∀ d ∈ x.getLast?, P d := by
  intro d hd
  refine h d ?_
  rw [List.getLast?_append, hd]
  rfl

/-- A token in front of an ending: it, the blank it may take in, and what is left
    where the semicolon was. -/
theorem lex_ends {c : Char} {u w : List Char} (hw : Ends w)
    (hlast : ∀ d ∈ (c :: u).getLast?, isSpace d = false) (h : (lex c (u ++ [';'])).rest ≠ []) :
    ∃ x sp w', w = sp ++ w' ∧ (∀ c ∈ sp, isSpace c = true) ∧ (sp = [] ∨ x = [])
      ∧ (lex c (u ++ [';'])).rest = x ++ [';'] ∧ c :: u = (lex c (u ++ [';'])).raw ++ x
      ∧ lex c (u ++ w)
        = ⟨(lex c (u ++ [';'])).token, (lex c (u ++ [';'])).raw ++ sp, x ++ w'⟩ := by
  have hsplits : c :: u ++ [';'] = _ := (splits_lex c (u ++ [';'])).1
  obtain ⟨x, hx, hraw⟩ := exists_eq_concat hsplits h
  by_cases hc : isSpace c = true
  · have hu := dropWhile_ne_nil hc hlast
    have hsemi := lex_space hc hu [';']
    have hx' : x = u.dropWhile isSpace := by
      rw [hsemi] at hx
      exact (List.append_cancel_right hx).symm
    refine ⟨x, [], w, rfl, List.forall_mem_nil _, Or.inl rfl, hx, hraw, ?_⟩
    rw [lex_space hc hu w, hsemi, List.append_nil, hx']
  · rw [Bool.not_eq_true] at hc
    obtain ⟨sp, w', hsplit, hsp, hend, hlex⟩ := resumes_lex hw hc h
    refine ⟨x, sp, w', hsplit, hsp, ?_, hx, hraw, ?_⟩
    · rcases hend with hnil | hsemi
      · exact Or.inl hnil
      · rw [hsemi] at hx
        exact Or.inr (List.self_eq_append_left.mp hx)
    · rw [hlex, hx, List.dropLast_concat]

/-- **TOKENS**: the tokens in front of a semicolon are the tokens in front of every
    ending.  The last of them may take in a blank. -/
theorem cut_ends {v w : List Char} (hw : Ends w)
    (hlast : ∀ d ∈ v.getLast?, isSpace d = false) {ls : List Lexeme}
    (h : cut (v ++ [';']) = ls ++ [semicolon]) :
    ∃ ks sp w', w = sp ++ w' ∧ (∀ c ∈ sp, isSpace c = true)
      ∧ ks.map Lexeme.token = ls.map Lexeme.token ∧ ks.flatMap Lexeme.raw = v ++ sp
      ∧ cut (v ++ w) = ks ++ cut w' := by
  induction hn : v.length using Nat.strongRecOn generalizing v w ls with
  | ind n ih =>
      cases v with
      | nil =>
          rw [List.nil_append, cut_semicolon, cut_nil] at h
          obtain rfl := List.self_eq_append_left.mp h
          exact ⟨[], [], w, rfl, List.forall_mem_nil _, rfl, rfl, rfl⟩
      | cons c u =>
          have hraws := congrArg (List.flatMap Lexeme.raw) h
          rw [flatMap_raw_cut] at hraws
          rw [List.cons_append, cut_cons] at h
          cases ls with
          | nil =>
              -- The semicolon alone is not the text with the semicolon.
              have hu : u ++ [';'] = [] := (List.cons.inj hraws).2
              exact absurd hu (by simp)
          | cons l ls =>
              injection h with hl hls
              have hrest : (lex c (u ++ [';'])).rest ≠ [] := by
                intro hnil
                rw [hnil, cut_nil] at hls
                exact absurd hls.symm (by simp)
              obtain ⟨x, sp, w₁, rfl, hsp, hend, hx, hraw, hlex⟩ := lex_ends hw hlast hrest
              have hshort : x.length < n := by
                have hpos := List.length_pos_iff.mpr (splits_lex c (u ++ [';'])).2
                rw [← hn, hraw, List.length_append]
                omega
              rw [hx] at hls
              rw [hraw] at hlast
              obtain ⟨ks, sp', w', rfl, hsp', htokens, hraws', hcut⟩ :=
                ih _ hshort ((Ends.append_iff hsp).mp hw) (getLast?_suffix hlast) hls rfl
              refine ⟨⟨(lex c (u ++ [';'])).token, (lex c (u ++ [';'])).raw ++ sp, .none, .none⟩
                  :: ks, sp ++ sp', w', by rw [List.append_assoc],
                List.forall_mem_append.mpr ⟨hsp, hsp'⟩, ?_, ?_, ?_⟩
              · rw [List.map_cons, List.map_cons, htokens, ← hl]
              · rw [List.flatMap_cons, hraws', hraw]
                rcases hend with rfl | rfl
                · simp
                · simp
              · rw [List.cons_append, cut_cons, hlex, hcut]
                rfl

/-- Blocks are made by what the tokens are, however they were written. -/
theorem Closed.rewritten {closer : Option Token} {cs : List Component} (h : Closed closer cs)
    {ks : List Lexeme} (hks : ks.map Lexeme.token = (lexemesAll cs).map Lexeme.token) :
    ∃ ds, Closed closer ds ∧ lexemesAll ds = ks ∧ ds.map head = cs.map head := by
  induction h generalizing ks with
  | nil =>
      obtain rfl := List.map_eq_nil_iff.mp hks
      exact ⟨[], .nil, rfl, rfl⟩
  | token hopens hcloses _ ih =>
      obtain ⟨k, ks, rfl, hk, hks⟩ := List.map_eq_cons_iff.mp hks
      obtain ⟨ds, hds, rfl, hheads⟩ := ih hks
      rw [← hk] at hopens hcloses
      exact ⟨.token k :: ds, .token hopens hcloses hds, rfl, by
        rw [List.map_cons, List.map_cons, hheads, head, head, hk]⟩
  | @block closer opening closing content cs hclosing _ _ ihcontent ih =>
      rw [lexemesAll, Component.lexemes, List.cons_append, List.append_assoc, List.map_cons,
        List.map_append] at hks
      obtain ⟨o, behind, rfl, ho, hbehind⟩ := List.map_eq_cons_iff.mp hks
      obtain ⟨inner, tail, rfl, hinner, htail⟩ := List.map_eq_append_iff.mp hbehind
      obtain ⟨k, after, rfl, hk, hafter⟩ := List.map_eq_cons_iff.mp htail
      obtain ⟨content', hcontent, rfl, -⟩ := ihcontent hinner
      obtain ⟨ds, hds, rfl, hheads⟩ := ih hafter
      rw [← ho, ← hk] at hclosing
      rw [← hk] at hcontent
      refine ⟨.block o content' (some k) :: ds, .block hclosing hcontent hds, ?_, ?_⟩
      · rw [lexemesAll, Component.lexemes, List.cons_append, List.append_assoc]
        rfl
      · rw [List.map_cons, List.map_cons, hheads, head, head, ho]

/-- The text stands alone inside a block that `closer` closes, and `shape` holds
    of its tokens outside further blocks. -/
def Stands (closer : Option Token) (shape : List Token → Prop) (text : List Char) : Prop :=
  ∃ cs, cut (text ++ [';']) = lexemesAll cs ++ [semicolon] ∧ Closed closer cs
    ∧ shape (cs.map head)

/-- **STANDING ALONE**: in front of every ending the text is read on its own. -/
theorem Stands.reads {closer : Option Token} {shape : List Token → Prop} {text w : List Char}
    (h : Stands closer shape text) (hlast : ∀ d ∈ text.getLast?, isSpace d = false)
    (hw : Ends w) :
    ∃ ds sp w', w = sp ++ w' ∧ (∀ c ∈ sp, isSpace c = true) ∧ Closed closer ds
      ∧ shape (ds.map head) ∧ rawAll ds = text ++ sp
      ∧ cut (text ++ w) = lexemesAll ds ++ cut w' := by
  obtain ⟨cs, hcut, hclosed, hshape⟩ := h
  obtain ⟨ks, sp, w', hsplit, hsp, htokens, hraw, hks⟩ := cut_ends hw hlast hcut
  obtain ⟨ds, hds, rfl, hheads⟩ := hclosed.rewritten htokens
  refine ⟨ds, sp, w', hsplit, hsp, hds, ?_, ?_, hks⟩
  · rw [hheads]
    exact hshape
  · rw [rawAll_eq, hraw]

end ThemeTokens.Css
