import ThemeTokens.Proofs.Css.Ending

/-! # Comments, strings and addresses in front of endings

    These have an end of their own.  Where it comes before the semicolon, what
    is read does not reach what stands in its place. -/

namespace ThemeTokens.Css

section Enclosed

variable {w : List Char}

/-! ## Comments and strings -/

theorem Piece.resume_cons (p : Piece) (text raw : List Char) :
    (p.cons text raw).resume w = (p.resume w).cons text raw := rfl

theorem Piece.resume_mk (text raw v : List Char) :
    (Piece.mk text raw (v ++ [';'])).resume w = ⟨text, raw, v ++ w⟩ := by
  rw [Piece.resume, List.dropLast_concat]

/-- A comment that leaves the semicolon alone has its end in front of it. -/
theorem commentText_resume {u : List Char} (h : (commentText (u ++ [';'])).rest ≠ []) :
    commentText (u ++ w) = (commentText (u ++ [';'])).resume w := by
  generalize hcs : u ++ [';'] = cs at h ⊢
  fun_induction commentText cs generalizing u with
  | case1 => exact absurd rfl h
  | case2 rest =>
      obtain ⟨hc, -, -⟩ | ⟨v, rfl, hv⟩ := eq_semicolon_or hcs
      · cases hc
      · obtain ⟨hc, -, -⟩ | ⟨v, rfl, rfl⟩ := eq_semicolon_or hv.symm
        · cases hc
        · rw [Piece.resume_mk]
          rfl
  | case3 c cs hopen ih =>
      obtain ⟨rfl, rfl, rfl⟩ | ⟨v, rfl, rfl⟩ := eq_semicolon_or hcs
      · exact absurd rfl h
      · have hv : v ≠ [] := by
          rintro rfl
          exact h rfl
        obtain ⟨d, v, rfl⟩ := List.exists_cons_of_ne_nil hv
        rw [Piece.resume_cons, ← ih rfl h, List.cons_append, commentText]
        intro rest hc hrest
        exact hopen (v ++ [';']) hc (by rw [List.cons_append, (List.cons.inj hrest).1])

/-- A piece that left more than the semicolon took nothing in. -/
theorem Piece.Resumes.eq_resume {p q : Piece} (h : p.Resumes q w) (hrest : p.rest ≠ [';']) :
    q = p.resume w := by
  obtain ⟨sp, w', rfl, -, rfl | hend, rfl⟩ := h
  · rw [List.append_nil]
    rfl
  · exact absurd hend hrest

/-- A string that has not been closed takes the semicolon in. -/
theorem rest_stringText_semicolon (quote : Char) : (stringText quote [';']).2.rest = [] := by
  rw [stringText]
  split
  · rfl
  · rw [if_neg (by decide), if_neg (by decide), stringText]
    rfl

theorem rest_stringText_nil (quote : Char) : (stringText quote []).2.rest = [] := by
  rw [stringText]
  rfl

/-- A string that leaves the semicolon alone has its quote, or the newline that
    breaks it off, in front of it. -/
theorem stringText_resume (hw : Ends w) {quote : Char} {u : List Char}
    (h : (stringText quote (u ++ [';'])).2.rest ≠ []) :
    stringText quote (u ++ w)
      = ((stringText quote (u ++ [';'])).1, (stringText quote (u ++ [';'])).2.resume w) := by
  -- Behind an escape more than the semicolon is left, as it is left in the end.
  have more : ∀ rest, (stringText quote rest).2.rest ≠ [] → rest ≠ [';'] ∧ rest ≠ [] := by
    intro rest hrest
    refine ⟨?_, ?_⟩
    · rintro rfl
      exact hrest (rest_stringText_semicolon quote)
    · rintro rfl
      exact hrest (rest_stringText_nil quote)
  generalize hcs : u ++ [';'] = cs at h ⊢
  fun_induction stringText quote cs generalizing u w with
  | case1 => exact absurd rfl h
  | case2 cs =>
      obtain ⟨rfl, rfl, rfl⟩ | ⟨v, rfl, rfl⟩ := eq_semicolon_or hcs
      · exact absurd rfl h
      · rw [List.cons_append, stringText, if_pos rfl, Piece.resume_mk]
  | case3 c cs hquote hnl =>
      obtain ⟨rfl, rfl, rfl⟩ | ⟨v, rfl, rfl⟩ := eq_semicolon_or hcs
      · exact absurd hnl (by decide)
      · rw [List.cons_append, stringText, if_neg hquote, if_pos hnl]
        exact Prod.ext rfl (Piece.resume_mk [] [] (c :: v)).symm
  | case4 cs hnl n proper tail heq hquote hline =>
      rename_i ih
      obtain ⟨hc, -, -⟩ | ⟨v, rfl, rfl⟩ := eq_semicolon_or hcs
      · cases hc
      obtain ⟨hsemi, hnil⟩ := more n.rest (by rw [heq]; exact h)
      obtain ⟨x, hx, hv⟩ := exists_eq_concat (splits_newline (v ++ [';'])) hnil
      have hn := (resumes_newline (w := w) v).eq_resume hsemi
      have hnl' : startsNewline (v ++ w) = true := by
        cases v with
        | nil => cases hnl
        | cons d v => exact hnl
      have hrest := ih hw hx.symm (by rw [heq]; exact h)
      rw [heq] at hrest
      rw [List.cons_append, stringText, if_neg hquote, if_neg hline, if_pos rfl, if_pos hnl', hn,
        Piece.resume, hx, List.dropLast_concat]
      dsimp only
      rw [hrest]
      rfl
  | case5 cs _ hempty =>
      obtain ⟨hc, -, -⟩ | ⟨v, rfl, rfl⟩ := eq_semicolon_or hcs
      · cases hc
      · cases v with
        | nil => cases hempty
        | cons d v => cases hempty
  | case6 cs hnl hempty e proper tail heq hquote hline =>
      rename_i ih
      obtain ⟨hc, -, -⟩ | ⟨v, rfl, rfl⟩ := eq_semicolon_or hcs
      · cases hc
      obtain ⟨hsemi, hnil⟩ := more e.rest (by rw [heq]; exact h)
      obtain ⟨x, hx, hv⟩ := exists_eq_concat (splits_escape (v ++ [';'])) hnil
      have he := (resumes_escape hw hnil).eq_resume hsemi
      obtain ⟨d, v, rfl⟩ : ∃ d v', v = d :: v' := by
        cases v with
        | nil => exact absurd rfl hnil
        | cons d v => exact ⟨d, v, rfl⟩
      have hnl' : ¬ startsNewline (d :: v ++ w) = true := hnl
      have hrest := ih hw hx.symm (by rw [heq]; exact h)
      rw [heq] at hrest
      rw [List.cons_append, stringText, if_neg hquote, if_neg hline, if_pos rfl, if_neg hnl',
        if_neg (by simp), he, Piece.resume, hx, List.dropLast_concat]
      dsimp only
      rw [hrest]
      rfl
  | case7 c cs hquote hline hslash proper tail heq =>
      rename_i ih
      obtain ⟨rfl, rfl, rfl⟩ | ⟨v, rfl, rfl⟩ := eq_semicolon_or hcs
      · obtain ⟨-, hnil⟩ := more [] (by rw [heq]; exact h)
        exact absurd rfl hnil
      · have hrest := ih hw rfl (by rw [heq]; exact h)
        rw [heq] at hrest
        rw [List.cons_append, stringText, if_neg hquote, if_neg hline, if_neg hslash, hrest]
        rfl

/-! ## Addresses -/

/-- What is left of a bad address ends at its parenthesis, if that comes before the
    semicolon. -/
theorem badAddress_resume {u : List Char} (h : (badAddress (u ++ [';'])).rest ≠ []) :
    badAddress (u ++ w) = (badAddress (u ++ [';'])).resume w := by
  generalize hcs : u ++ [';'] = cs at h ⊢
  fun_induction badAddress cs generalizing u with
  | case1 => exact absurd rfl h
  | case2 rest =>
      obtain ⟨hc, -, -⟩ | ⟨v, rfl, rfl⟩ := eq_semicolon_or hcs
      · cases hc
      · rw [Piece.resume_mk]
        rfl
  | case3 cs ih =>
      obtain ⟨hc, -, -⟩ | ⟨v, rfl, hv⟩ := eq_semicolon_or hcs
      · cases hc
      obtain ⟨hc, -, -⟩ | ⟨v, rfl, rfl⟩ := eq_semicolon_or hv.symm
      · cases hc
      · rw [Piece.resume_cons, ← ih rfl h]
        rfl
  | case4 cs ih =>
      obtain ⟨hc, -, -⟩ | ⟨v, rfl, hv⟩ := eq_semicolon_or hcs
      · cases hc
      obtain ⟨hc, -, -⟩ | ⟨v, rfl, rfl⟩ := eq_semicolon_or hv.symm
      · cases hc
      · rw [Piece.resume_cons, ← ih rfl h]
        rfl
  | case5 c cs hclose hparen hslash ih =>
      obtain ⟨rfl, rfl, rfl⟩ | ⟨v, rfl, rfl⟩ := eq_semicolon_or hcs
      · exact absurd rfl h
      · have hv : v ≠ [] := by
          rintro rfl
          exact h rfl
        obtain ⟨d, v, rfl⟩ := List.exists_cons_of_ne_nil hv
        rw [Piece.resume_cons, ← ih rfl h, List.cons_append, badAddress]
        · exact hclose
        · intro rest hc hrest
          exact hparen (v ++ [';']) hc (by rw [List.cons_append, (List.cons.inj hrest).1])
        · intro rest hc hrest
          exact hslash (v ++ [';']) hc (by rw [List.cons_append, (List.cons.inj hrest).1])

/-- The address with `w` in the place of the semicolon at the end. -/
def Address.resume (a : Address) (w : List Char) : Address :=
  ⟨a.bad, a.piece.resume w⟩

/-- So does an address with blanks behind it. -/
theorem addressEnd_resume {blanks u : List Char}
    (h : (addressEnd blanks (u ++ [';'])).piece.rest ≠ []) :
    addressEnd blanks (u ++ w) = (addressEnd blanks (u ++ [';'])).resume w := by
  cases u with
  | nil => exact absurd rfl h
  | cons c u =>
      rw [List.cons_append] at h ⊢
      rw [List.cons_append]
      by_cases hc : c = ')'
      · rw [hc]
        show Address.mk false ⟨[], blanks ++ [')'], u ++ w⟩
          = ⟨false, (Piece.mk [] (blanks ++ [')']) (u ++ [';'])).resume w⟩
        rw [Piece.resume_mk]
      · have hbad : ∀ cs, addressEnd blanks (c :: cs)
            = ⟨true, (badAddress cs).cons (blanks ++ [c]) (blanks ++ [c])⟩ := by
          intro cs
          rw [addressEnd]
          exact hc
        rw [hbad] at h ⊢
        rw [hbad, badAddress_resume h]
        rfl

/-- A run of blanks in front of something else is the same in front of every
    text. -/
theorem spaces_append {u : List Char} (h : u.dropWhile isSpace ≠ []) (v : List Char) :
    (u ++ v).takeWhile isSpace = u.takeWhile isSpace
      ∧ (u ++ v).dropWhile isSpace = u.dropWhile isSpace ++ v := by
  have hlen : (u.takeWhile isSpace).length ≠ u.length := by
    intro hlen
    have hsplit := congrArg List.length (List.takeWhile_append_dropWhile (p := isSpace) (l := u))
    rw [List.length_append, hlen] at hsplit
    exact h (List.length_eq_zero_iff.mp (by omega))
  refine ⟨?_, ?_⟩
  · rw [List.takeWhile_append, if_neg hlen]
  · rw [List.dropWhile_append, if_neg (by simpa using h)]

/-- A semicolon is no blank. -/
theorem dropWhile_semicolon {u : List Char} (h : u.dropWhile isSpace = []) :
    (u ++ [';']).dropWhile isSpace = [';'] := by
  rw [List.dropWhile_append, h]
  rfl

/-- What comes first in a text does not depend on what is behind the text. -/
theorem startsNewline_append {u : List Char} (h : u ≠ []) (v w : List Char) :
    startsNewline (u ++ v) = startsNewline (u ++ w) := by
  obtain ⟨c, u, rfl⟩ := List.exists_cons_of_ne_nil h
  rfl

/-- So does an address. -/
theorem rest_addressText_semicolon : (addressText [';']).piece.rest = [] := by
  rw [addressText, if_neg (by decide), if_neg (by decide), if_neg (by decide),
    if_neg (by decide), addressText]
  rfl

theorem rest_addressText_nil : (addressText []).piece.rest = [] := by
  rw [addressText]
  rfl

/-- An address that leaves the semicolon alone has its parenthesis in front of
    it. -/
theorem addressText_resume (hw : Ends w) {u : List Char}
    (h : (addressText (u ++ [';'])).piece.rest ≠ []) :
    addressText (u ++ w) = (addressText (u ++ [';'])).resume w := by
  -- As in a string, an escape leaves more than the semicolon.
  have more : ∀ rest, (addressText rest).piece.rest ≠ [] → rest ≠ [';'] ∧ rest ≠ [] := by
    intro rest hrest
    refine ⟨?_, ?_⟩
    · rintro rfl
      exact hrest rest_addressText_semicolon
    · rintro rfl
      exact hrest rest_addressText_nil
  generalize hcs : u ++ [';'] = cs at h ⊢
  fun_induction addressText cs generalizing u w with
  | case1 => exact absurd rfl h
  | case2 c cs hc =>
      obtain ⟨rfl, -, -⟩ | ⟨v, rfl, rfl⟩ := eq_semicolon_or hcs
      · exact absurd hc (by decide)
      rw [← List.cons_append] at h ⊢
      by_cases hu : (c :: v).dropWhile isSpace = []
      · rw [dropWhile_semicolon hu] at h
        exact absurd rfl h
      · obtain ⟨htake, hdrop⟩ := spaces_append hu [';']
        obtain ⟨htake', hdrop'⟩ := spaces_append hu w
        rw [List.cons_append, addressText, if_pos hc, ← List.cons_append, htake', hdrop',
          htake, hdrop]
        rw [htake, hdrop] at h
        exact addressEnd_resume h
  | case3 cs hc =>
      obtain ⟨h', -, -⟩ | ⟨v, rfl, rfl⟩ := eq_semicolon_or hcs
      · cases h'
      · rw [List.cons_append, addressText, if_neg hc, if_pos rfl, Address.resume, Piece.resume_mk]
  | case4 c cs hspace hparen hbad =>
      obtain ⟨rfl, rfl, -⟩ | ⟨v, rfl, rfl⟩ := eq_semicolon_or hcs
      · exact absurd hbad (by decide)
      have hv : v ≠ [] := by
        rintro rfl
        exact h rfl
      rw [startsNewline_append hv _ w] at hbad
      rw [List.cons_append, addressText, if_neg hspace, if_neg hparen, if_pos hbad,
        badAddress_resume h]
      rfl
  | case5 cs e a hspace hparen hbad =>
      rename_i ih
      obtain ⟨h', -, -⟩ | ⟨v, rfl, rfl⟩ := eq_semicolon_or hcs
      · cases h'
      obtain ⟨hsemi, hnil⟩ := more e.rest h
      obtain ⟨x, hx, -⟩ := exists_eq_concat (splits_escape (v ++ [';'])) hnil
      have he := (resumes_escape hw hnil).eq_resume hsemi
      have hv : v ≠ [] := by
        rintro rfl
        exact hnil rfl
      rw [startsNewline_append hv _ w] at hbad
      rw [List.cons_append, addressText, if_neg hspace, if_neg hparen, if_neg hbad, if_pos rfl,
        he, Piece.resume, hx, List.dropLast_concat]
      dsimp only
      rw [ih hw hx.symm h]
      rfl
  | case6 c cs hspace hparen hbad hslash a =>
      rename_i ih
      obtain ⟨rfl, rfl, rfl⟩ | ⟨v, rfl, rfl⟩ := eq_semicolon_or hcs
      · exact absurd rest_addressText_nil h
      · have hbad' : ¬ (isUnprintable c = true ∨ c = '"' ∨ c = '\'' ∨ c = '('
            ∨ (c = '\\' ∧ startsNewline (v ++ w) = true)) := by
          rintro (hc | hc | hc | hc | ⟨hc, -⟩)
          · exact hbad (Or.inl hc)
          · exact hbad (Or.inr (Or.inl hc))
          · exact hbad (Or.inr (Or.inr (Or.inl hc)))
          · exact hbad (Or.inr (Or.inr (Or.inr (Or.inl hc))))
          · exact hslash hc
        rw [List.cons_append, addressText, if_neg hspace, if_neg hparen, if_neg hbad',
          if_neg hslash]
        dsimp only
        rw [ih hw rfl h]
        rfl

end Enclosed

end ThemeTokens.Css
