import Mathlib
import ThemeTokens.Css.Lexer
import ThemeTokens.Text.Blank

/-! # Endings

    A token is as long as it can be, so what it is may depend on the text
    behind it.  It does not where that text begins like the end of a value, a
    prelude or a selector: with white space, a semicolon or a curly bracket.
    Put a semicolon behind a text, and see which names and escapes leave it
    alone: they are read just so in front of any such ending.  The one thing that
    can happen is that a hexadecimal escape at the very end takes in a blank,
    which is then written with it and changes nothing else. -/

namespace ThemeTokens.Css

/-! ## Endings -/

/-- What ends a value, a prelude or a selector. -/
def isStop (c : Char) : Bool :=
  c == ';' || c == '{' || c == '}'

/-- Behind white space the text is over or goes on with a stop. -/
def Ends (w : List Char) : Prop :=
  ∀ c ∈ (w.dropWhile isSpace).head?, isStop c = true

/-- The characters with which an ending can begin. -/
def enders : List Char :=
  [' ', '\t', '\n', '\x0c', '\r', ';', '{', '}']

/-- An ending can begin with white space. -/
theorem mem_enders_of_isSpace {c : Char} (h : isSpace c = true) : c ∈ enders := by
  simp only [isSpace, isNewline, Bool.or_eq_true, beq_iff_eq] at h
  rcases h with (rfl | rfl) | (rfl | rfl) | rfl <;> decide

/-- It can begin with a stop. -/
theorem mem_enders_of_isStop {c : Char} (h : isStop c = true) : c ∈ enders := by
  simp only [isStop, Bool.or_eq_true, beq_iff_eq] at h
  rcases h with (rfl | rfl) | rfl <;> decide

/-- What is false of all of them is false of each. -/
theorem eq_false_of_mem_enders {P : Char → Bool} (hP : enders.any P = false) {c : Char}
    (hc : c ∈ enders) : P c = false := by
  rw [Bool.eq_false_iff]
  exact List.any_eq_false.mp hP c hc

/-- What separates tokens is white space to the trimming as well. -/
theorem isBlank_of_isSpace {c : Char} (h : isSpace c = true) : Text.isBlank c = true := by
  have hnot := eq_false_of_mem_enders (P := fun d => isSpace d && !Text.isBlank d) (by decide)
    (mem_enders_of_isSpace h)
  simpa [h] using hnot

theorem isSpace_of_isStop {c : Char} (h : isStop c = true) : isSpace c = false := by
  simp only [isStop, Bool.or_eq_true, beq_iff_eq] at h
  rcases h with (rfl | rfl) | rfl <;> rfl

namespace Ends

variable {w : List Char}

theorem nil : Ends [] := nofun

/-- A stop ends what is in front of it, whatever follows. -/
theorem stop {c : Char} (h : isStop c = true) (w : List Char) : Ends (c :: w) := by
  intro d hd
  rw [List.dropWhile_cons_of_neg (by simp [isSpace_of_isStop h])] at hd
  rw [← Option.some.inj hd]
  exact h

theorem semicolon (w : List Char) : Ends (';' :: w) :=
  stop rfl w

/-- White space may come before an ending, and may be gone from it. -/
theorem append_iff {sp : List Char} (hsp : ∀ c ∈ sp, isSpace c = true) :
    Ends (sp ++ w) ↔ Ends w := by
  rw [Ends, Ends, List.dropWhile_append_of_pos hsp]

/-- An ending begins with white space or a stop. -/
theorem mem_enders {c : Char} (h : Ends (c :: w)) : c ∈ enders := by
  by_cases hc : isSpace c = true
  · exact mem_enders_of_isSpace hc
  · refine mem_enders_of_isStop (h c ?_)
    rw [List.dropWhile_cons_of_neg hc]
    rfl

/-- Whatever is false of all characters that begin endings is false of the
    first one. -/
theorem head_eq_false {P : Char → Bool} (h : Ends w) (hP : enders.any P = false) :
    ∀ c ∈ w.head?, P c = false := by
  intro c hc
  cases w with
  | nil => cases hc
  | cons d w =>
      rw [← Option.some.inj hc]
      exact eq_false_of_mem_enders hP h.mem_enders

end Ends

/-- The characters that go on no token but white space. -/
def breakers : List Char :=
  ',' :: enders

/-- The text begins with one of them, if with anything. -/
def Breaks (w : List Char) : Prop :=
  ∀ c ∈ w.head?, c ∈ breakers

/-- No token but white space goes on with an ending. -/
theorem Ends.breaks {w : List Char} (h : Ends w) : Breaks w := by
  intro c hc
  obtain ⟨w, rfl⟩ := List.head?_eq_some_iff.mp hc
  exact List.mem_cons_of_mem _ h.mem_enders

/-- What is false of all breakers is false of the first character. -/
theorem Breaks.head_eq_false {w : List Char} {P : Char → Bool} (h : Breaks w)
    (hP : breakers.any P = false) : ∀ c ∈ w.head?, P c = false := by
  intro c hc
  rw [Bool.eq_false_iff]
  exact List.any_eq_false.mp hP c (h c hc)

/-- What is no breaker comes first only if it came first before. -/
theorem Breaks.head?_append_ne {w : List Char} (h : Breaks w) {c : Char} (hc : c ∉ breakers)
    {v : List Char} (hv : v.head? ≠ some c) : (v ++ w).head? ≠ some c := by
  cases v with
  | nil => exact fun hhead => hc (h c hhead)
  | cons d v => exact hv

/-- A run breaks off where the next character is not of its kind. -/
theorem takeWhile_append_of_head {P : Char → Bool} {w : List Char}
    (hw : ∀ c ∈ w.head?, P c = false) (u : List Char) :
    (u ++ w).takeWhile P = u.takeWhile P := by
  induction u with
  | nil =>
      cases w with
      | nil => rfl
      | cons c w =>
          rw [List.nil_append, List.takeWhile_cons_of_neg (by simp [hw c rfl])]
          rfl
  | cons c u ih =>
      rw [List.cons_append, List.takeWhile_cons, List.takeWhile_cons, ih]

/-! ## Pieces -/

namespace Piece

/-- The piece with more text behind it. -/
def append (p : Piece) (w : List Char) : Piece :=
  ⟨p.text, p.raw, p.rest ++ w⟩

/-- The piece with `w` in the place of the semicolon at the end. -/
def resume (p : Piece) (w : List Char) : Piece :=
  ⟨p.text, p.raw, p.rest.dropLast ++ w⟩

/-- `q` is `p` with `w` in the place of the semicolon at the end, where a piece
    that ended there may have taken in white space. -/
def Resumes (p q : Piece) (w : List Char) : Prop :=
  ∃ sp w', w = sp ++ w' ∧ (∀ c ∈ sp, isSpace c = true) ∧ (sp = [] ∨ p.rest = [';'])
    ∧ q = ⟨p.text, p.raw ++ sp, p.rest.dropLast ++ w'⟩

theorem resumes_resume (p : Piece) (w : List Char) : p.Resumes (p.resume w) w :=
  ⟨[], w, rfl, List.forall_mem_nil _, Or.inl rfl, by rw [List.append_nil]; rfl⟩

theorem resume_append (p : Piece) (w : List Char) :
    (p.append [';']).resume w = p.append w := by
  rw [resume, append, append, List.dropLast_concat]

/-- What a piece left behind it is left whatever takes the place of the
    semicolon. -/
theorem resumes_append (p : Piece) (w : List Char) : (p.append [';']).Resumes (p.append w) w := by
  have h := resumes_resume (p.append [';']) w
  rwa [resume_append] at h

/-- With something more in front a piece goes on as it would without. -/
theorem Resumes.cons {p q : Piece} {w : List Char} (h : p.Resumes q w) (text raw : List Char) :
    (p.cons text raw).Resumes (q.cons text raw) w := by
  obtain ⟨sp, w', hw, hsp, hend, rfl⟩ := h
  exact ⟨sp, w', hw, hsp, hend, by rw [Piece.cons, Piece.cons, List.append_assoc]⟩

end Piece

section Continuations

variable {w : List Char}

/-- A code ends in front of what is no digit of it. -/
theorem hexDigits_append (hw : ∀ c ∈ w.head?, isHexDigit c = false) (n : Nat) (u : List Char) :
    hexDigits n (u ++ w) = (hexDigits n u).append w := by
  induction n generalizing u with
  | zero => rfl
  | succ n ih =>
      cases u with
      | nil =>
          cases w with
          | nil => rfl
          | cons c w =>
              rw [List.nil_append, hexDigits, hexDigits, hw c rfl]
              rfl
      | cons c u =>
          rw [List.cons_append, hexDigits, hexDigits, ih]
          split
          · rfl
          · rfl

/-- A piece that ended at the semicolon may go on with white space. -/
theorem Piece.resumes_of_blank {p q : Piece} (hp : p.rest = [';']) (htext : q.text = p.text)
    {sp : List Char} (hraw : q.raw = p.raw ++ sp) (hsp : ∀ c ∈ sp, isSpace c = true)
    (hw : w = sp ++ q.rest) : p.Resumes q w := by
  refine ⟨sp, q.rest, hw, hsp, Or.inr hp, ?_⟩
  rw [hp, ← htext, ← hraw]
  rfl

/-- But for a carriage return with a line feed, a newline is one character. -/
theorem newline_cons {c : Char} {cs : List Char} (h : ¬ (c = '\r' ∧ cs.head? = some '\n')) :
    newline (c :: cs) = if isNewline c then ⟨[], [c], cs⟩ else .none (c :: cs) := by
  unfold newline
  split
  · rename_i rest heq
    injection heq with hc hcs
    exact absurd ⟨hc, by rw [hcs]; rfl⟩ h
  · rename_i heq
    injection heq with hc hcs
    rw [hc, hcs]
  · rename_i heq
    cases heq

/-- A newline is white space. -/
theorem newline_blank (cs : List Char) :
    (newline cs).text = [] ∧ ∀ c ∈ (newline cs).raw, isSpace c = true := by
  unfold newline
  split
  · exact ⟨rfl, List.forall_mem_cons.mpr ⟨rfl, List.forall_mem_singleton.mpr rfl⟩⟩
  · split
    · rename_i c rest _ hc
      refine ⟨rfl, List.forall_mem_singleton.mpr ?_⟩
      rw [isSpace, hc, Bool.or_true]
    · exact ⟨rfl, List.forall_mem_nil _⟩
  · exact ⟨rfl, List.forall_mem_nil _⟩

/-- A carriage return at the very end may take in a line feed. -/
theorem resumes_newline (u : List Char) : (newline (u ++ [';'])).Resumes (newline (u ++ w)) w := by
  cases u with
  | nil =>
      exact Piece.resumes_of_blank rfl (newline_blank w).1 rfl (newline_blank w).2
        (splits_newline w)
  | cons c u =>
      cases u with
      | nil =>
          rw [List.singleton_append, List.singleton_append, newline_cons (by simp)]
          by_cases hcr : c = '\r' ∧ w.head? = some '\n'
          · obtain ⟨rfl, hhead⟩ := hcr
            obtain ⟨rest, rfl⟩ := List.head?_eq_some_iff.mp hhead
            have hblank : ∀ c ∈ ['\n'], isSpace c = true := List.forall_mem_singleton.mpr rfl
            exact Piece.resumes_of_blank rfl rfl rfl hblank rfl
          · rw [newline_cons hcr]
            split
            · exact Piece.resumes_resume _ w
            · exact Piece.resumes_resume _ w
      | cons d u =>
          by_cases hcr : c = '\r' ∧ d = '\n'
          · obtain ⟨rfl, rfl⟩ := hcr
            exact Piece.resumes_append ⟨[], ['\r', '\n'], u⟩ w
          · have hnl : ∀ cs, newline (c :: d :: cs)
                = if isNewline c then ⟨[], [c], d :: cs⟩ else .none (c :: d :: cs) :=
              fun cs => newline_cons fun h => hcr ⟨h.1, Option.some.inj h.2⟩
            show (newline (c :: d :: (u ++ [';']))).Resumes (newline (c :: d :: (u ++ w))) w
            rw [hnl, hnl]
            split
            · exact Piece.resumes_append ⟨[], [c], d :: u⟩ w
            · exact Piece.resumes_append (.none (c :: d :: u)) w

/-- A single blank is white space. -/
theorem oneSpace_blank (cs : List Char) :
    (oneSpace cs).text = [] ∧ ∀ c ∈ (oneSpace cs).raw, isSpace c = true := by
  unfold oneSpace
  split
  · split
    · rename_i c rest hc
      refine ⟨rfl, List.forall_mem_singleton.mpr ?_⟩
      rcases hc with rfl | rfl
      · rfl
      · rfl
    · exact newline_blank _
  · exact ⟨rfl, List.forall_mem_nil _⟩

/-- An escape at the very end may take in a blank. -/
theorem resumes_oneSpace (u : List Char) :
    (oneSpace (u ++ [';'])).Resumes (oneSpace (u ++ w)) w := by
  cases u with
  | nil =>
      exact Piece.resumes_of_blank rfl (oneSpace_blank w).1 rfl (oneSpace_blank w).2
        (splits_oneSpace w)
  | cons c u =>
      rw [List.cons_append, List.cons_append, oneSpace, oneSpace]
      split
      · exact Piece.resumes_append ⟨[], [c], u⟩ w
      · exact resumes_newline (c :: u)

/-- An escape that leaves the semicolon alone ends in front of every ending. -/
theorem resumes_escape (hw : Ends w) {u : List Char} (h : (escape (u ++ [';'])).rest ≠ []) :
    (escape (u ++ [';'])).Resumes (escape (u ++ w)) w := by
  cases u with
  | nil => exact absurd rfl h
  | cons c u =>
      rw [List.cons_append, List.cons_append, escape, escape]
      by_cases hc : isHexDigit c = true
      · have hdigits := hexDigits_append (hw.head_eq_false (by decide)) 6 (c :: u)
        have hsemi := hexDigits_append ((Ends.semicolon []).head_eq_false (by decide)) 6 (c :: u)
        rw [List.cons_append] at hdigits hsemi
        rw [if_pos hc, if_pos hc, hdigits, hsemi]
        obtain ⟨sp, w', hsplit, hsp, hend, hblank⟩ :=
          resumes_oneSpace (w := w) (hexDigits 6 (c :: u)).rest
        refine ⟨sp, w', hsplit, hsp, hend, ?_⟩
        simp only [Piece.append, hblank, List.append_assoc]
      · rw [if_neg hc, if_neg hc]
        exact Piece.resumes_append ⟨_, [c], u⟩ w

/-- Where no white space follows, a newline ends as it would alone. -/
theorem newline_append (hw : ∀ c ∈ w.head?, isSpace c = false) (u : List Char) :
    newline (u ++ w) = (newline u).append w := by
  have hline : w.head? ≠ some '\n' := fun h => by
    cases hw '\n' h
  cases u with
  | nil =>
      cases w with
      | nil => rfl
      | cons c w =>
          have hc : isNewline c = false := by
            have hspace := hw c rfl
            rw [isSpace, Bool.or_eq_false_iff] at hspace
            exact hspace.2
          have hcr : ¬ (c = '\r' ∧ w.head? = some '\n') := by
            rintro ⟨rfl, -⟩
            cases hc
          rw [List.nil_append, newline_cons hcr, if_neg (by rw [hc]; exact Bool.false_ne_true)]
          rfl
  | cons c u =>
      by_cases hcr : c = '\r' ∧ u.head? = some '\n'
      · obtain ⟨rfl, hhead⟩ := hcr
        obtain ⟨v, rfl⟩ := List.head?_eq_some_iff.mp hhead
        rfl
      · have hcr' : ¬ (c = '\r' ∧ (u ++ w).head? = some '\n') := by
          rintro ⟨hc, hhead⟩
          cases u with
          | nil => exact hline hhead
          | cons d u => exact hcr ⟨hc, hhead⟩
        rw [List.cons_append, newline_cons hcr', newline_cons hcr]
        split
        · rfl
        · rfl

/-- So does the blank behind a code. -/
theorem oneSpace_append (hw : ∀ c ∈ w.head?, isSpace c = false) (u : List Char) :
    oneSpace (u ++ w) = (oneSpace u).append w := by
  cases u with
  | nil =>
      have hnewline := newline_append hw []
      cases w with
      | nil => rfl
      | cons c w =>
          have hc : ¬ (c = ' ' ∨ c = '\t') := by
            rintro (rfl | rfl)
            · cases hw ' ' rfl
            · cases hw '\t' rfl
          rw [List.nil_append, oneSpace, if_neg hc]
          exact hnewline
  | cons c u =>
      rw [List.cons_append, oneSpace, oneSpace]
      split
      · rfl
      · exact newline_append hw (c :: u)

/-- An escape of which something is there ends before what cannot go on it. -/
theorem escape_append (hhex : ∀ c ∈ w.head?, isHexDigit c = false)
    (hspace : ∀ c ∈ w.head?, isSpace c = false) {u : List Char} (hu : u ≠ []) :
    escape (u ++ w) = (escape u).append w := by
  obtain ⟨c, u, rfl⟩ := List.exists_cons_of_ne_nil hu
  rw [List.cons_append, escape, escape]
  split
  · have hdigits := hexDigits_append hhex 6 (c :: u)
    rw [List.cons_append] at hdigits
    rw [hdigits]
    simp only [Piece.append, oneSpace_append hspace]
  · rfl

/-- No name begins with a breaker. -/
theorem Breaks.name_eq (hw : Breaks w) : name w = .none w := by
  cases w with
  | nil => rw [name]
  | cons c w =>
      have hname := hw.head_eq_false (P := isNameChar) (by decide) c rfl
      have hnul := hw.head_eq_false (P := (· == '\x00')) (by decide) c rfl
      have hslash := hw.head_eq_false (P := (· == '\\')) (by decide) c rfl
      rw [name, if_neg (by simp [hname]), if_neg (by simpa using hnul),
        if_neg (by simpa using fun h => absurd h (by simpa using hslash))]

/-- No ending begins with a name. -/
theorem name_of_ends (hw : Ends w) : name w = .none w :=
  hw.breaks.name_eq

theorem name_nil : name [] = .none [] := by
  rw [name]

/-- The first character of a text with a semicolon behind it is that semicolon, or it
    belongs to the text. -/
theorem eq_semicolon_or {c : Char} {cs u : List Char} (h : u ++ [';'] = c :: cs) :
    (c = ';' ∧ cs = [] ∧ u = []) ∨ ∃ v, u = c :: v ∧ cs = v ++ [';'] := by
  rcases List.append_eq_cons_iff.mp h with ⟨hu, hc⟩ | ⟨v, hu, hcs⟩
  · injection hc with hc hcs
    exact Or.inl ⟨hc.symm, hcs.symm, hu⟩
  · exact Or.inr ⟨v, hu, hcs⟩

/-- What is left in front of the semicolon ends with it. -/
theorem exists_eq_concat {u raw rest : List Char} (h : u ++ [';'] = raw ++ rest)
    (hrest : rest ≠ []) : ∃ x, rest = x ++ [';'] ∧ u = raw ++ x := by
  rcases List.eq_nil_or_concat rest with hnil | ⟨x, c, hx⟩
  · exact absurd hnil hrest
  · rw [List.concat_eq_append] at hx
    rw [hx, ← List.append_assoc] at h
    obtain ⟨hu, hc⟩ := List.append_inj' h rfl
    exact ⟨x, by rw [hx, hc], hu⟩

/-- A name that leaves the semicolon alone ends in front of every ending. -/
theorem resumes_name (hw : Ends w) {u : List Char} (h : (name (u ++ [';'])).rest ≠ []) :
    (name (u ++ [';'])).Resumes (name (u ++ w)) w := by
  generalize hcs : u ++ [';'] = cs at h ⊢
  fun_induction name cs generalizing u w with
  | case1 => simp at hcs
  | case2 c cs hc ih =>
      obtain ⟨rfl, -, -⟩ | ⟨v, rfl, rfl⟩ := eq_semicolon_or hcs
      · exact absurd hc (by decide)
      · rw [List.cons_append, name, if_pos hc]
        exact (ih hw rfl h).cons [c] [c]
  | case3 cs _ ih =>
      obtain ⟨hc, -, -⟩ | ⟨v, rfl, rfl⟩ := eq_semicolon_or hcs
      · exact absurd hc (by decide)
      · rw [List.cons_append, name, if_neg (by decide), if_pos rfl]
        exact (ih hw rfl h).cons [replacement] ['\x00']
  | case4 c cs hname hnul hslash e =>
      rename_i ih
      obtain ⟨rfl, -, -⟩ | ⟨v, rfl, rfl⟩ := eq_semicolon_or hcs
      · exact absurd hslash.1 (by decide)
      obtain ⟨rfl, hline⟩ := hslash
      have he : (escape (v ++ [';'])).rest ≠ [] := by
        intro hnil
        exact h (by rw [show e = escape (v ++ [';']) from rfl, hnil, name_nil]; rfl)
      -- The escape is not the one that takes the semicolon, so something stands
      -- behind the backslash, and decides alike whether there is an escape.
      have hv : v ≠ [] := by
        rintro rfl
        exact he rfl
      have hline' : startsNewline (v ++ w) = false := by
        obtain ⟨d, v, rfl⟩ := List.exists_cons_of_ne_nil hv
        exact hline
      obtain ⟨sp, w', rfl, hsp, hend, hescape⟩ := resumes_escape hw he
      obtain ⟨x, hx, -⟩ := exists_eq_concat (splits_escape _) he
      obtain ⟨sp', w'', rfl, hsp', hend', hrest⟩ := ih ((Ends.append_iff hsp).mp hw) hx.symm h
      rw [show e.rest = x ++ [';'] from hx] at hend' hrest
      rw [List.cons_append, name, if_neg (by decide), if_neg (by decide), if_pos ⟨rfl, hline'⟩]
      dsimp only
      rw [hescape, hx, List.dropLast_concat, hrest]
      refine ⟨sp ++ sp', w'', by rw [List.append_assoc],
        List.forall_mem_append.mpr ⟨hsp, hsp'⟩, ?_, ?_⟩
      · rcases hend with rfl | hsemi
        · exact hend'
        · obtain rfl : x = [] := by simpa [hx] using hsemi
          refine Or.inr ?_
          rw [List.nil_append, name_of_ends (.semicolon [])]
          rfl
      · rcases hend with rfl | hsemi
        · simp [Piece.cons, e]
        · -- Behind the escape there is no more of the name.
          obtain rfl : x = [] := by simpa [hx] using hsemi
          have hnone : name ([] ++ [';']) = .none [';'] := name_of_ends (.semicolon [])
          rw [hnone]
          simp [Piece.cons, Piece.none, e]
  | case5 c cs hname hnul hslash =>
      obtain ⟨rfl, rfl, rfl⟩ | ⟨v, rfl, rfl⟩ := eq_semicolon_or hcs
      · rw [List.nil_append, name_of_ends hw]
        exact Piece.resumes_append (.none []) w
      · have hslash' : ¬ (c = '\\' ∧ startsNewline (v ++ w) = false) := by
          rintro ⟨rfl, hline⟩
          cases v with
          | nil => exact hslash ⟨rfl, rfl⟩
          | cons d v => exact hslash ⟨rfl, hline⟩
        rw [List.cons_append, name, if_neg hname, if_neg hnul, if_neg hslash']
        exact Piece.resumes_append (.none (c :: v)) w

/-! ## Where names begin -/

theorem Breaks.startsName_eq (hw : Breaks w) : startsName w = false := by
  cases w with
  | nil => rfl
  | cons c w =>
      have hdash := hw.head_eq_false (P := (· == '-')) (by decide) c rfl
      have hslash := hw.head_eq_false (P := (· == '\\')) (by decide) c rfl
      rw [startsName_cons (by simpa using hdash) (by simpa using hslash)]
      exact hw.head_eq_false (by decide) c rfl

/-- A dash in front of a breaker begins no name. -/
theorem Breaks.startsName_dash (hw : Breaks w) : startsName ('-' :: w) = false := by
  cases w with
  | nil => rfl
  | cons c w =>
      have hc := hw.head_eq_false (P := fun c => c == '-' || c == '\\' || isNameStart c)
        (by decide) c rfl
      exact hc

/-- Whether a name begins is decided in front of a breaker, unless a backslash
    is all there is. -/
theorem startsName_append (hw : Breaks w) {u : List Char} (h : u ≠ ['\\']) :
    startsName (u ++ w) = startsName (u ++ [';']) := by
  match u with
  | [] => rw [List.nil_append, List.nil_append, hw.startsName_eq,
      (Ends.semicolon []).breaks.startsName_eq]
  | [c] =>
      by_cases hdash : c = '-'
      · rw [hdash, List.singleton_append, List.singleton_append, hw.startsName_dash,
          (Ends.semicolon []).breaks.startsName_dash]
      · have hslash : c ≠ '\\' := by
          rintro rfl
          exact h rfl
        rw [List.singleton_append, List.singleton_append, startsName_cons hdash hslash,
          startsName_cons hdash hslash]
  | c :: d :: u =>
      by_cases hdash : c = '-'
      · rw [hdash]
        rfl
      · by_cases hslash : c = '\\'
        · rw [hslash]
          rfl
        · rw [List.cons_append, startsName_cons hdash hslash, List.cons_append,
            startsName_cons hdash hslash]

/-- Behind a backslash alone the name takes the semicolon. -/
theorem rest_name_slash : (name ['\\', ';']).rest = [] := by
  rw [name, if_neg (by decide), if_neg (by decide), if_pos (by decide)]
  exact congrArg Piece.rest name_nil

theorem ne_slash_of_name {u : List Char} (h : (name (u ++ [';'])).rest ≠ []) : u ≠ ['\\'] := by
  rintro rfl
  exact h rest_name_slash

end Continuations

end ThemeTokens.Css
