import ThemeTokens.Proofs.Css.Continuation

/-! # Texts that begin alike

    What leaves a text behind it alone is read just so in front of another text,
    if that one begins alike: both with a comma, white space or a stop, or the
    other one is over.  Only white space has to be kept where an escape would take
    it in, and a quotation mark behind it where an address could begin. -/

namespace ThemeTokens.Css

/-! ## Texts that begin alike -/

/-- Whether a string begins behind white space. -/
def OpensString (cs : List Char) : Prop :=
  (cs.dropWhile isSpace).head? = some '"' ∨ (cs.dropWhile isSpace).head? = some '\''

/-- What reads up to `x` reads up to `y` in its place. -/
structure Alike (x y : List Char) : Prop where
  breaks : Breaks x
  breaks_other : Breaks y
  ne_nil : x ≠ []
  /-- White space was there before. -/
  space : (∀ c ∈ x.head?, isSpace c = false) → ∀ c ∈ y.head?, isSpace c = false
  /-- So was a line feed, which a carriage return would take in. -/
  feed : y.head? = some '\n' → x.head? = some '\n'
  opens : OpensString x ↔ OpensString y

/-- `q` is `p` with `y` in the place of `x`. -/
def Piece.Swaps (p q : Piece) (x y : List Char) : Prop :=
  ∃ r : Piece, p = r.append x ∧ q = r.append y

namespace Piece

variable {p q : Piece} {x y : List Char}

/-- Where a piece has left one text behind it, another can stand there. -/
theorem swaps_append (r : Piece) (x y : List Char) : (r.append x).Swaps (r.append y) x y :=
  ⟨r, rfl, rfl⟩

/-- With something more in front the texts swap as they would without. -/
theorem Swaps.cons (h : p.Swaps q x y) (text raw : List Char) :
    (p.cons text raw).Swaps (q.cons text raw) x y := by
  obtain ⟨r, rfl, rfl⟩ := h
  exact ⟨r.cons text raw, rfl, rfl⟩

theorem Swaps.behind (h : p.Swaps q x y) (text raw : List Char) :
    (Piece.mk text (raw ++ p.raw) p.rest).Swaps ⟨text, raw ++ q.raw, q.rest⟩ x y := by
  obtain ⟨r, rfl, rfl⟩ := h
  exact ⟨⟨text, raw ++ r.raw, r.rest⟩, rfl, rfl⟩

/-- What is read in front of a text is no longer than what stands there. -/
theorem length_rest_le {p r : Piece} {u x : List Char} (hp : p.Splits (u ++ x))
    (hr : p = r.append x) : r.rest.length ≤ u.length := by
  have hlen := hp.length_rest
  rw [hr, append, List.length_append, List.length_append] at hlen
  exact Nat.le_of_add_le_add_right hlen

end Piece

/-- `b` is `a` with `y` in the place of `x`. -/
def Address.Swaps (a b : Address) (x y : List Char) : Prop :=
  a.bad = b.bad ∧ a.piece.Swaps b.piece x y

theorem Address.Swaps.cons {a b : Address} {x y : List Char} (h : a.Swaps b x y)
    (text : Bool → List Char) (raw : List Char) :
    (Address.mk a.bad (a.piece.cons (text a.bad) raw)).Swaps
      ⟨b.bad, b.piece.cons (text b.bad) raw⟩ x y := by
  obtain ⟨hbad, hpiece⟩ := h
  rw [hbad]
  exact ⟨rfl, hpiece.cons _ raw⟩

/-! ## What is taken in -/

/-- A newline takes in something. -/
theorem length_newline {c : Char} (h : isNewline c = true) (cs : List Char) :
    (newline (c :: cs)).rest.length < (c :: cs).length := by
  by_cases hcr : c = '\r' ∧ cs.head? = some '\n'
  · obtain ⟨rfl, hhead⟩ := hcr
    obtain ⟨cs, rfl⟩ := List.head?_eq_some_iff.mp hhead
    exact Nat.lt_succ_of_lt (Nat.lt_succ_self _)
  · rw [newline_cons hcr, if_pos h]
    exact Nat.lt_succ_self _

/-- So does a blank. -/
theorem length_oneSpace {c : Char} (h : isSpace c = true) (cs : List Char) :
    (oneSpace (c :: cs)).rest.length < (c :: cs).length := by
  rw [oneSpace]
  split
  · exact Nat.lt_succ_self _
  · rename_i hblank
    simp only [isSpace, Bool.or_eq_true, beq_iff_eq] at h
    exact length_newline (h.resolve_left hblank) cs

/-- A string that is not broken off takes in something. -/
theorem length_stringText {quote : Char} {cs : List Char} (hne : cs ≠ [])
    (hproper : (stringText quote cs).1 = true) :
    (stringText quote cs).2.rest.length < cs.length := by
  obtain ⟨c, cs, rfl⟩ := List.exists_cons_of_ne_nil hne
  have hlen := fun cs => (splits_stringText quote cs).length_rest
  rw [stringText] at hproper ⊢
  split
  · exact Nat.lt_succ_self _
  rename_i hquote
  rw [if_neg hquote] at hproper
  split
  · rename_i hline
    rw [if_pos hline] at hproper
    cases hproper
  split
  · split
    · exact Nat.lt_succ_of_le (Nat.le_trans (hlen _) (splits_newline cs).length_rest)
    · split
      · exact Nat.zero_lt_succ _
      · exact Nat.lt_succ_of_le (Nat.le_trans (hlen _) (splits_escape cs).length_rest)
  · exact Nat.lt_succ_of_le (hlen cs)

/-- A comment takes in something. -/
theorem length_commentText {cs : List Char} (hne : cs ≠ []) :
    (commentText cs).rest.length < cs.length := by
  cases cs with
  | nil => exact absurd rfl hne
  | cons c cs =>
      rw [commentText.eq_def]
      split
      · contradiction
      · rename_i heq
        rw [heq]
        exact Nat.lt_succ_of_lt (Nat.lt_succ_self _)
      · rename_i heq
        rw [heq]
        exact Nat.lt_succ_of_le (splits_commentText _).length_rest

/-- So does what is left of a bad address. -/
theorem length_badAddress {cs : List Char} (hne : cs ≠ []) :
    (badAddress cs).rest.length < cs.length := by
  have hlen := fun cs => (splits_badAddress cs).length_rest
  rw [badAddress.eq_def]
  split
  · exact absurd rfl hne
  · exact Nat.lt_succ_self _
  · exact Nat.lt_succ_of_lt (Nat.lt_succ_of_le (hlen _))
  · exact Nat.lt_succ_of_lt (Nat.lt_succ_of_le (hlen _))
  · exact Nat.lt_succ_of_le (hlen _)

/-- The end of an address takes in something. -/
theorem length_addressEnd {blanks cs : List Char} (hne : cs ≠ []) :
    (addressEnd blanks cs).piece.rest.length < cs.length := by
  rw [addressEnd.eq_def]
  split
  · exact absurd rfl hne
  · exact Nat.lt_succ_self _
  · exact Nat.lt_succ_of_le (splits_badAddress _).length_rest

theorem length_addressEnd_dropWhile {blanks cs : List Char} (hne : cs ≠ []) :
    (addressEnd blanks (cs.dropWhile isSpace)).piece.rest.length < cs.length := by
  by_cases hall : cs.dropWhile isSpace = []
  · rw [hall]
    exact List.length_pos_iff.mpr hne
  · exact Nat.lt_of_lt_of_le (length_addressEnd hall) (List.dropWhile_suffix isSpace).length_le

/-- So does an address. -/
theorem length_addressText {cs : List Char} (hne : cs ≠ []) :
    (addressText cs).piece.rest.length < cs.length := by
  obtain ⟨c, cs, rfl⟩ := List.exists_cons_of_ne_nil hne
  rw [addressText]
  split
  · exact length_addressEnd_dropWhile hne
  split
  · exact Nat.lt_succ_self _
  split
  · exact Nat.lt_succ_of_le (splits_badAddress _).length_rest
  split
  · exact Nat.lt_succ_of_le (Nat.le_trans (splits_addressText _).length_rest
      (splits_escape _).length_rest)
  · exact Nat.lt_succ_of_le (splits_addressText _).length_rest

theorem length_addressText_dropWhile {cs : List Char} (hne : cs ≠ []) :
    (addressText (cs.dropWhile isSpace)).piece.rest.length < cs.length := by
  by_cases hall : cs.dropWhile isSpace = []
  · rw [hall, rest_addressText_nil]
    exact List.length_pos_iff.mpr hne
  · exact Nat.lt_of_lt_of_le (length_addressText hall) (List.dropWhile_suffix isSpace).length_le

/-- What is left has come from the text or from behind it. -/
theorem exists_cons_of_le {u x cs : List Char} {c : Char} (hcs : u ++ x = c :: cs)
    (hx : x.length ≤ cs.length) : ∃ v, u = c :: v ∧ cs = v ++ x := by
  cases u with
  | nil =>
      rw [List.nil_append] at hcs
      rw [hcs] at hx
      exact absurd hx (Nat.not_le_of_lt (Nat.lt_succ_self _))
  | cons d v =>
      obtain ⟨rfl, rfl⟩ := List.cons.inj hcs
      exact ⟨v, rfl, rfl⟩

section Locality

variable {x y : List Char} (h : Alike x y)

include h

/-! ## Escapes -/

/-- A newline that leaves the text alone is the same in front of the other one,
    which begins with a line feed only if the first does. -/
theorem newline_swaps {c : Char} {u : List Char}
    (hx : x.length ≤ (newline (c :: u ++ x)).rest.length) :
    (newline (c :: u ++ x)).Swaps (newline (c :: u ++ y)) x y := by
  by_cases hcr : c = '\r' ∧ u.head? = some '\n'
  · obtain ⟨rfl, hhead⟩ := hcr
    obtain ⟨u, rfl⟩ := List.head?_eq_some_iff.mp hhead
    exact Piece.swaps_append ⟨[], ['\r', '\n'], u⟩ x y
  have hleft : ¬ (c = '\r' ∧ (u ++ x).head? = some '\n') := by
    rintro ⟨rfl, hhead⟩
    cases u with
    | nil =>
        obtain ⟨x, rfl⟩ := List.head?_eq_some_iff.mp hhead
        exact absurd hx (Nat.not_le_of_lt (Nat.lt_succ_self _))
    | cons d u => exact hcr ⟨rfl, hhead⟩
  have hright : ¬ (c = '\r' ∧ (u ++ y).head? = some '\n') := by
    rintro ⟨rfl, hhead⟩
    cases u with
    | nil => exact hleft ⟨rfl, h.feed hhead⟩
    | cons d u => exact hcr ⟨rfl, hhead⟩
  rw [List.cons_append, List.cons_append, newline_cons hleft, newline_cons hright]
  split
  · exact Piece.swaps_append ⟨[], [c], u⟩ x y
  · exact Piece.swaps_append (.none (c :: u)) x y

/-- A blank behind a code is the same, as the other text begins with white space
    only if the first does. -/
theorem oneSpace_swaps {u : List Char} (hx : x.length ≤ (oneSpace (u ++ x)).rest.length) :
    (oneSpace (u ++ x)).Swaps (oneSpace (u ++ y)) x y := by
  cases u with
  | nil =>
      have hspace : ∀ c ∈ x.head?, isSpace c = false := by
        intro c hc
        obtain ⟨x, rfl⟩ := List.head?_eq_some_iff.mp hc
        rw [Bool.eq_false_iff]
        exact fun hc => absurd hx (Nat.not_le_of_lt (length_oneSpace hc x))
      rw [oneSpace_append hspace, oneSpace_append (h.space hspace)]
      exact Piece.swaps_append _ x y
  | cons c u =>
      rw [List.cons_append, oneSpace] at hx ⊢
      rw [List.cons_append, oneSpace]
      split
      · exact Piece.swaps_append ⟨[], [c], u⟩ x y
      · rename_i hc
        rw [if_neg hc] at hx
        exact newline_swaps h hx

/-- An escape that leaves the text alone has something of its own to escape. -/
theorem ne_nil_of_escape {u : List Char} (hx : x.length ≤ (escape (u ++ x)).rest.length) :
    u ≠ [] := by
  rintro rfl
  obtain ⟨c, x, rfl⟩ := List.exists_cons_of_ne_nil h.ne_nil
  have hc := h.breaks.head_eq_false (P := isHexDigit) (by decide) c rfl
  rw [List.nil_append, escape, if_neg (by rw [hc]; exact Bool.false_ne_true)] at hx
  exact absurd hx (Nat.not_le_of_lt (Nat.lt_succ_self _))

/-- An escape that leaves the text alone is the same in front of the other one. -/
theorem escape_swaps {u : List Char} (hx : x.length ≤ (escape (u ++ x)).rest.length) :
    (escape (u ++ x)).Swaps (escape (u ++ y)) x y := by
  obtain ⟨c, u, rfl⟩ := List.exists_cons_of_ne_nil (ne_nil_of_escape h hx)
  rw [List.cons_append, escape] at hx ⊢
  rw [List.cons_append, escape]
  by_cases hc : isHexDigit c = true
  · have hdigits := fun {w} hw => hexDigits_append (w := w) hw 6 (c :: u)
    have hleft := hdigits (h.breaks.head_eq_false (by decide))
    have hright := hdigits (h.breaks_other.head_eq_false (by decide))
    rw [List.cons_append] at hleft hright
    rw [if_pos hc, hleft] at hx ⊢
    rw [if_pos hc, hright]
    exact (oneSpace_swaps h hx).behind _ (hexDigits 6 (c :: u)).raw
  · rw [if_neg hc, if_neg hc]
    exact Piece.swaps_append ⟨_, [c], u⟩ x y

/-! ## Names -/

/-- A backslash alone takes in the text, or is left with it. -/
theorem rest_name_backslash (hx : x.length ≤ (name ('\\' :: x)).rest.length) :
    (name ('\\' :: x)).rest = '\\' :: x := by
  rw [name, if_neg (by decide), if_neg (by decide)] at hx ⊢
  split
  · rename_i hline
    rw [if_pos hline] at hx
    have hlen := (splits_name (escape x).rest).length_rest
    exact absurd rfl (ne_nil_of_escape h (u := []) (Nat.le_trans hx hlen))
  · rfl

/-- A name that leaves the text alone does so in front of the other one. -/
theorem name_swaps {u : List Char} (hx : x.length ≤ (name (u ++ x)).rest.length)
    (hslash : (name (u ++ x)).rest ≠ '\\' :: x) :
    (name (u ++ x)).Swaps (name (u ++ y)) x y := by
  induction hn : u.length using Nat.strongRecOn generalizing u with
  | ind n ih =>
      cases u with
      | nil =>
          rw [List.nil_append, List.nil_append, h.breaks.name_eq, h.breaks_other.name_eq]
          exact Piece.swaps_append (.none []) x y
      | cons c u =>
          have hshort : u.length < n := by
            rw [← hn]
            exact Nat.lt_succ_self _
          have hu : ¬ (c = '\\' ∧ u = []) := by
            rintro ⟨rfl, rfl⟩
            exact hslash (rest_name_backslash h hx)
          rw [List.cons_append, name] at hx hslash ⊢
          rw [List.cons_append, name]
          by_cases hc : isNameChar c = true
          · rw [if_pos hc] at hx hslash ⊢
            rw [if_pos hc]
            exact (ih _ hshort hx hslash rfl).cons [c] [c]
          rw [if_neg hc] at hx hslash ⊢
          rw [if_neg hc]
          by_cases hnul : c = '\x00'
          · rw [if_pos hnul] at hx hslash ⊢
            rw [if_pos hnul]
            exact (ih _ hshort hx hslash rfl).cons [replacement] [c]
          rw [if_neg hnul] at hx hslash ⊢
          rw [if_neg hnul]
          by_cases hescape : c = '\\' ∧ startsNewline (u ++ x) = false
          · have hne : u ≠ [] := fun hnil => hu ⟨hescape.1, hnil⟩
            rw [if_pos hescape] at hx hslash ⊢
            rw [if_pos (startsNewline_append hne x y ▸ hescape)]
            have hescaped := Nat.le_trans hx (splits_name _).length_rest
            obtain ⟨r, hr, hr'⟩ := escape_swaps h hescaped
            have hlen := Piece.length_rest_le (splits_escape _) hr
            dsimp only at hx hslash ⊢
            rw [hr] at hx hslash ⊢
            rw [hr']
            exact (ih _ (Nat.lt_of_le_of_lt hlen hshort) hx hslash rfl).cons r.text ('\\' :: r.raw)
          · have hescape' : ¬ (c = '\\' ∧ startsNewline (u ++ y) = false) := by
              rintro ⟨hc, hline⟩
              have hne : u ≠ [] := fun hnil => hu ⟨hc, hnil⟩
              exact hescape ⟨hc, startsNewline_append hne x y ▸ hline⟩
            rw [if_neg hescape, if_neg hescape']
            exact Piece.swaps_append (.none (c :: u)) x y

/-! ## Strings -/

/-- A backslash that leaves the text alone has something of its own behind it. -/
theorem ne_nil_of_slash {quote : Char} {u : List Char} (hquote : ¬ '\\' = quote)
    (hx : x.length ≤ (stringText quote ('\\' :: u ++ x)).2.rest.length) : u ≠ [] := by
  have hlen := fun cs => (splits_stringText quote cs).length_rest
  rintro rfl
  rw [List.singleton_append, stringText, if_neg hquote, if_neg (by decide), if_pos rfl] at hx
  by_cases hstart : startsNewline x = true
  · rw [if_pos hstart] at hx
    obtain ⟨d, v, rfl⟩ := List.exists_cons_of_ne_nil h.ne_nil
    exact absurd (Nat.le_trans hx (hlen _)) (Nat.not_le_of_lt (length_newline hstart v))
  · rw [if_neg hstart, if_neg (by simp [h.ne_nil])] at hx
    exact ne_nil_of_escape h (u := []) (Nat.le_trans hx (hlen _)) rfl

/-- A string that is closed in front of the text is closed there. -/
theorem stringText_swaps {quote : Char} {u : List Char}
    (hproper : (stringText quote (u ++ x)).1 = true)
    (hx : x.length ≤ (stringText quote (u ++ x)).2.rest.length) :
    (stringText quote (u ++ y)).1 = true
      ∧ (stringText quote (u ++ x)).2.Swaps (stringText quote (u ++ y)).2 x y := by
  induction hn : u.length using Nat.strongRecOn generalizing u with
  | ind n ih =>
      cases u with
      | nil => exact absurd hx (Nat.not_le_of_lt (length_stringText h.ne_nil hproper))
      | cons c u =>
          have hshort : u.length < n := by
            rw [← hn]
            exact Nat.lt_succ_self _
          have hlen := fun cs => (splits_stringText quote cs).length_rest
          have hown : c = '\\' → ¬ c = quote → u ≠ [] := by
            rintro rfl hquote
            exact ne_nil_of_slash h hquote hx
          rw [List.cons_append, stringText] at hproper hx ⊢
          rw [List.cons_append, stringText]
          by_cases hquote : c = quote
          · rw [if_pos hquote, if_pos hquote]
            exact ⟨rfl, Piece.swaps_append ⟨[], [c], u⟩ x y⟩
          rw [if_neg hquote] at hproper hx ⊢
          rw [if_neg hquote]
          by_cases hline : isNewline c = true
          · rw [if_pos hline] at hproper
            cases hproper
          rw [if_neg hline] at hproper hx ⊢
          rw [if_neg hline]
          by_cases hslash : c = '\\'
          · rw [if_pos hslash] at hproper hx ⊢
            rw [if_pos hslash]
            have hu := hown hslash hquote
            have hstarts := startsNewline_append hu x y
            have hempty : ∀ v, ¬ (u ++ v).isEmpty = true := by simp [hu]
            by_cases hstart : startsNewline (u ++ x) = true
            · rw [if_pos hstart] at hproper hx ⊢
              rw [if_pos (hstarts ▸ hstart)]
              obtain ⟨d, v, rfl⟩ := List.exists_cons_of_ne_nil hu
              obtain ⟨r, hr, hr'⟩ := newline_swaps h (Nat.le_trans hx (hlen _))
              have hrest := Piece.length_rest_le (splits_newline _) hr
              dsimp only at hproper hx ⊢
              rw [hr] at hproper hx ⊢
              rw [hr']
              obtain ⟨hproper', hswaps⟩ :=
                ih _ (Nat.lt_of_le_of_lt hrest hshort) hproper hx rfl
              exact ⟨hproper', hswaps.cons [] (c :: r.raw)⟩
            · rw [if_neg hstart, if_neg (hempty x)] at hproper hx ⊢
              rw [if_neg (hstarts ▸ hstart), if_neg (hempty y)]
              obtain ⟨r, hr, hr'⟩ := escape_swaps h (Nat.le_trans hx (hlen _))
              have hrest := Piece.length_rest_le (splits_escape _) hr
              dsimp only at hproper hx ⊢
              rw [hr] at hproper hx ⊢
              rw [hr']
              obtain ⟨hproper', hswaps⟩ :=
                ih _ (Nat.lt_of_le_of_lt hrest hshort) hproper hx rfl
              exact ⟨hproper', hswaps.cons r.text (c :: r.raw)⟩
          · rw [if_neg hslash] at hproper hx ⊢
            rw [if_neg hslash]
            obtain ⟨hproper', hswaps⟩ := ih _ hshort hproper hx rfl
            exact ⟨hproper', hswaps.cons _ [c]⟩

/-! ## Comments and addresses -/

/-- A comment that is over in front of the text is over there. -/
theorem commentText_swaps {u : List Char} (hx : x.length ≤ (commentText (u ++ x)).rest.length) :
    (commentText (u ++ x)).Swaps (commentText (u ++ y)) x y := by
  generalize hcs : u ++ x = cs at hx ⊢
  fun_induction commentText cs generalizing u with
  | case1 => exact absurd (List.append_eq_nil_iff.mp hcs).2 h.ne_nil
  | case2 rest =>
      obtain ⟨v, rfl, hv⟩ := exists_cons_of_le hcs (Nat.le_succ_of_le hx)
      obtain ⟨v, rfl, rfl⟩ := exists_cons_of_le hv.symm hx
      exact Piece.swaps_append ⟨[], ['*', '/'], v⟩ x y
  | case3 c cs hopen ih =>
      obtain ⟨v, rfl, rfl⟩ :=
        exists_cons_of_le hcs (Nat.le_trans hx (splits_commentText cs).length_rest)
      have hv : v ≠ [] := by
        rintro rfl
        exact absurd hx (Nat.not_le_of_lt (length_commentText h.ne_nil))
      obtain ⟨d, v, rfl⟩ := List.exists_cons_of_ne_nil hv
      have hother : commentText (c :: (d :: v ++ y))
          = (commentText (d :: v ++ y)).cons [c] [c] := by
        rw [commentText]
        intro rest hc hrest
        exact hopen (v ++ x) hc (by rw [List.cons_append, (List.cons.inj hrest).1])
      exact hother ▸ (ih rfl hx).cons [c] [c]

/-- So is what is left of a bad address. -/
theorem badAddress_swaps {u : List Char} (hx : x.length ≤ (badAddress (u ++ x)).rest.length) :
    (badAddress (u ++ x)).Swaps (badAddress (u ++ y)) x y := by
  have hlen := fun cs => (splits_badAddress cs).length_rest
  generalize hcs : u ++ x = cs at hx ⊢
  fun_induction badAddress cs generalizing u with
  | case1 => exact absurd (List.append_eq_nil_iff.mp hcs).2 h.ne_nil
  | case2 rest =>
      obtain ⟨v, rfl, rfl⟩ := exists_cons_of_le hcs hx
      exact Piece.swaps_append ⟨[], [')'], v⟩ x y
  | case3 cs ih =>
      obtain ⟨v, rfl, hv⟩ :=
        exists_cons_of_le hcs (Nat.le_succ_of_le (Nat.le_trans hx (hlen cs)))
      obtain ⟨v, rfl, rfl⟩ := exists_cons_of_le hv.symm (Nat.le_trans hx (hlen cs))
      exact (ih rfl hx).cons _ _
  | case4 cs ih =>
      obtain ⟨v, rfl, hv⟩ :=
        exists_cons_of_le hcs (Nat.le_succ_of_le (Nat.le_trans hx (hlen cs)))
      obtain ⟨v, rfl, rfl⟩ := exists_cons_of_le hv.symm (Nat.le_trans hx (hlen cs))
      exact (ih rfl hx).cons _ _
  | case5 c cs hclose hparen hslash ih =>
      obtain ⟨v, rfl, rfl⟩ := exists_cons_of_le hcs (Nat.le_trans hx (hlen cs))
      have hv : v ≠ [] := by
        rintro rfl
        exact absurd hx (Nat.not_le_of_lt (length_badAddress h.ne_nil))
      obtain ⟨d, v, rfl⟩ := List.exists_cons_of_ne_nil hv
      have hother : badAddress (c :: (d :: v ++ y)) = (badAddress (d :: v ++ y)).cons [c] [c] := by
        rw [badAddress]
        · exact hclose
        · intro rest hc hrest
          exact hparen (v ++ x) hc (by rw [List.cons_append, (List.cons.inj hrest).1])
        · intro rest hc hrest
          exact hslash (v ++ x) hc (by rw [List.cons_append, (List.cons.inj hrest).1])
      exact hother ▸ (ih rfl hx).cons [c] [c]

theorem addressEnd_swaps {blanks u : List Char}
    (hx : x.length ≤ (addressEnd blanks (u ++ x)).piece.rest.length) :
    (addressEnd blanks (u ++ x)).Swaps (addressEnd blanks (u ++ y)) x y := by
  cases u with
  | nil => exact absurd hx (Nat.not_le_of_lt (length_addressEnd h.ne_nil))
  | cons c u =>
      rw [List.cons_append] at hx ⊢
      rw [List.cons_append]
      by_cases hc : c = ')'
      · rw [hc]
        exact ⟨rfl, Piece.swaps_append ⟨[], blanks ++ [')'], u⟩ x y⟩
      · have hbad : ∀ cs, addressEnd blanks (c :: cs)
            = ⟨true, (badAddress cs).cons (blanks ++ [c]) (blanks ++ [c])⟩ := by
          intro cs
          rw [addressEnd]
          exact hc
        rw [hbad] at hx ⊢
        rw [hbad]
        exact ⟨rfl, (badAddress_swaps h hx).cons _ _⟩

/-- An address that leaves the text alone has its parenthesis in front of it. -/
theorem addressText_swaps {u : List Char}
    (hx : x.length ≤ (addressText (u ++ x)).piece.rest.length) :
    (addressText (u ++ x)).Swaps (addressText (u ++ y)) x y := by
  induction hn : u.length using Nat.strongRecOn generalizing u with
  | ind n ih =>
      cases u with
      | nil => exact absurd hx (Nat.not_le_of_lt (length_addressText h.ne_nil))
      | cons c u =>
          have hshort : u.length < n := by
            rw [← hn]
            exact Nat.lt_succ_self _
          rw [List.cons_append, addressText] at hx ⊢
          rw [List.cons_append, addressText]
          by_cases hspace : isSpace c = true
          · rw [if_pos hspace, ← List.cons_append] at hx ⊢
            rw [if_pos hspace, ← List.cons_append]
            by_cases hu : (c :: u).dropWhile isSpace = []
            · rw [List.dropWhile_append_of_pos (List.dropWhile_eq_nil_iff.mp hu)] at hx
              exact absurd hx (Nat.not_le_of_lt (length_addressEnd_dropWhile h.ne_nil))
            · obtain ⟨htake, hdrop⟩ := spaces_append hu x
              obtain ⟨htake', hdrop'⟩ := spaces_append hu y
              rw [htake, hdrop] at hx ⊢
              rw [htake', hdrop']
              exact addressEnd_swaps h hx
          rw [if_neg hspace] at hx ⊢
          rw [if_neg hspace]
          by_cases hparen : c = ')'
          · rw [if_pos hparen, if_pos hparen]
            exact ⟨rfl, Piece.swaps_append ⟨[], [c], u⟩ x y⟩
          rw [if_neg hparen] at hx ⊢
          rw [if_neg hparen]
          -- What is read behind the character would take in something of the text.
          have hu : u ≠ [] := by
            rintro rfl
            rw [List.nil_append] at hx
            split at hx
            · exact absurd hx (Nat.not_le_of_lt (length_badAddress h.ne_nil))
            split at hx
            · exact ne_nil_of_escape h (u := [])
                (Nat.le_trans hx (splits_addressText _).length_rest) rfl
            · exact absurd hx (Nat.not_le_of_lt (length_addressText h.ne_nil))
          rw [startsNewline_append hu x y] at hx ⊢
          by_cases hbad : isUnprintable c = true ∨ c = '"' ∨ c = '\'' ∨ c = '('
              ∨ (c = '\\' ∧ startsNewline (u ++ y) = true)
          · rw [if_pos hbad] at hx ⊢
            rw [if_pos hbad]
            exact ⟨rfl, (badAddress_swaps h hx).cons [c] [c]⟩
          rw [if_neg hbad] at hx ⊢
          rw [if_neg hbad]
          by_cases hslash : c = '\\'
          · rw [if_pos hslash] at hx ⊢
            rw [if_pos hslash]
            have hescaped := Nat.le_trans hx (splits_addressText _).length_rest
            obtain ⟨r, hr, hr'⟩ := escape_swaps h hescaped
            have hlen := Piece.length_rest_le (splits_escape _) hr
            dsimp only at hx ⊢
            rw [hr] at hx ⊢
            rw [hr']
            exact (ih _ (Nat.lt_of_le_of_lt hlen hshort) hx rfl).cons
              (fun bad => if bad then c :: r.raw else r.text) (c :: r.raw)
          · rw [if_neg hslash] at hx ⊢
            rw [if_neg hslash]
            exact (ih _ hshort hx rfl).cons
              (fun bad => [if c = '\x00' ∧ bad = false then replacement else c]) [c]

end Locality

end ThemeTokens.Css
