import ThemeTokens.Proofs.Css.Locality
import ThemeTokens.Proofs.Css.Spelled

/-! # Tokens taken out of a text

    Tokens that were cut from a text are cut alike from a part of it, if what
    stood behind the part ended the last of them (`IsCut.excerpt`).  They are cut
    alike too where line breaks are gone from the white space between them, as
    long as some white space is left (`IsCut.unbroken`). -/

namespace ThemeTokens.Css

/-! ## What may follow -/

/-- A token that reads alike in front of texts that begin alike: no line break has
    cut it off. -/
structure Lexeme.IsIntact (l : Lexeme) : Prop where
  whole : l.token.isBadString = false
  /-- It is no backslash in front of a line break. -/
  ne_backslash : l.raw ≠ ['\\']

instance (l : Lexeme) : Decidable l.IsIntact :=
  decidable_of_iff (l.token.isBadString = false ∧ l.raw ≠ ['\\'])
    ⟨fun h => ⟨h.1, h.2⟩, fun h => ⟨h.whole, h.ne_backslash⟩⟩

/-- The texts begin alike, behind the same characters if any. -/
def Follows (w w' : List Char) : Prop :=
  w = w' ∨ ∃ a x y, Alike x y ∧ a ≠ ['\\'] ∧ w = a ++ x ∧ w' = a ++ y

/-- Texts that begin alike do so behind more of the same characters too, unless
    these are a lone backslash. -/
theorem Follows.append {w w' : List Char} (h : Follows w w') {raw : List Char} (hne : raw ≠ [])
    (hslash : raw ≠ ['\\']) : Follows (raw ++ w) (raw ++ w') := by
  obtain rfl | ⟨a, x, y, halike, ha, rfl, rfl⟩ := h
  · exact .inl rfl
  · refine .inr ⟨raw ++ a, x, y, halike, ?_, by rw [List.append_assoc], by rw [List.append_assoc]⟩
    intro heq
    obtain ⟨hnil, -⟩ | ⟨hone, -⟩ := List.append_eq_singleton_iff.mp heq
    · exact hne hnil
    · exact hslash hone

namespace Lexeme

variable {l : Lexeme} {w w' : List Char}

/-- A token reads alike in front of what may follow it as well. -/
theorem Reads.follows (h : l.Reads w) (hl : l.IsIntact) (hw : Follows w w') : l.Reads w' := by
  obtain rfl | ⟨a, x, y, halike, ha, rfl, rfl⟩ := hw
  · exact h
  obtain ⟨c, cs, hraw, hlex⟩ := h
  rw [← List.append_assoc] at hlex
  have hlen : x.length ≤ (lex c (cs ++ a ++ x)).rest.length := by
    rw [hlex, List.length_append]
    exact Nat.le_add_left _ _
  have hslash : (lex c (cs ++ a ++ x)).rest ≠ '\\' :: x := by
    rw [hlex]
    exact fun heq => ha (List.append_cancel_right heq)
  have halone : c :: (cs ++ a) ≠ ['\\'] := by
    intro heq
    obtain ⟨rfl, hnil⟩ := List.cons.inj heq
    rw [(List.append_eq_nil_iff.mp hnil).1] at hraw
    exact hl.ne_backslash hraw
  have hwhole : (lex c (cs ++ a ++ x)).token.isBadString = false := by
    rw [hlex]
    exact hl.whole
  obtain ⟨r, hr, hr'⟩ := lex_swaps halike hlen hslash halone hwhole
  rw [hlex, Lexed.append] at hr
  obtain ⟨htoken, hread, hrest⟩ := Lexed.mk.inj hr
  refine ⟨c, cs, hraw, ?_⟩
  rw [← List.append_assoc, hr', Lexed.append, htoken, hread, List.append_cancel_right hrest]

end Lexeme

namespace IsCut

variable {ls ms ns : List Lexeme}

theorem nil : IsCut [] :=
  cut_nil

/-- What may follow the last token may follow them all. -/
theorem follows_append (h : IsCut (ls ++ ms)) (hls : ∀ l ∈ ls, l.IsIntact) {w w' : List Char}
    (hw : Follows w w') :
    Follows (ls.flatMap Lexeme.raw ++ w) (ls.flatMap Lexeme.raw ++ w') := by
  induction ls with
  | nil => exact hw
  | cons l ls ih =>
      obtain ⟨hl, hls⟩ := List.forall_mem_cons.mp hls
      rw [List.cons_append, isCut_cons_iff] at h
      rw [List.flatMap_cons, List.append_assoc, List.append_assoc]
      exact (ih h.2 hls).append h.1.raw_ne_nil hl.ne_backslash

/-- **EXCERPTS**: tokens are cut alike in front of tokens that may follow as well. -/
theorem excerpt (h : IsCut (ls ++ ms)) (hls : ∀ l ∈ ls, l.IsIntact) (hns : IsCut ns)
    (hw : Follows (ms.flatMap Lexeme.raw) (ns.flatMap Lexeme.raw)) : IsCut (ls ++ ns) := by
  induction ls with
  | nil => exact hns
  | cons l ls ih =>
      obtain ⟨hl, hls⟩ := List.forall_mem_cons.mp hls
      rw [List.cons_append, isCut_cons_iff] at h ⊢
      have hbehind := h.2.follows_append hls hw
      rw [List.flatMap_append] at h ⊢
      exact ⟨h.1.follows hl hbehind, ih h.2 hls⟩

end IsCut

/-- What ends a token ends it like the end of the text. -/
theorem follows_nil {c : Char} {w : List Char} (hc : c ∈ breakers)
    (hw : ¬ OpensString (c :: w)) : Follows (c :: w) [] := by
  refine .inr ⟨[], c :: w, [], ⟨?_, ?_, List.cons_ne_nil c w, ?_, ?_, ?_⟩, ?_, rfl, rfl⟩
  · intro d hd
    rwa [← Option.some.inj hd]
  · intro d hd
    cases hd
  · intro _ d hd
    cases hd
  · intro hfeed
    cases hfeed
  · refine iff_of_false hw ?_
    rintro (hquote | hquote)
    · cases hquote
    · cases hquote
  · exact (List.cons_ne_nil _ _).symm

/-! ## Line breaks -/

/-- Line feed and carriage return. -/
def isLineBreak (c : Char) : Bool :=
  c == '\n' || c == '\r'

/-- The text without its line breaks. -/
def unbroken (cs : List Char) : List Char :=
  cs.filter fun c => !isLineBreak c

theorem unbroken_append (cs ds : List Char) :
    unbroken (cs ++ ds) = unbroken cs ++ unbroken ds :=
  List.filter_append cs ds

/-- What is left is in the text and breaks no line. -/
theorem mem_unbroken {c : Char} {cs : List Char} (h : c ∈ unbroken cs) :
    c ∈ cs ∧ isLineBreak c = false := by
  obtain ⟨hmem, hc⟩ := List.mem_filter.mp h
  exact ⟨hmem, Bool.not_eq_true' _ ▸ hc⟩

namespace Lexeme

/-- The token without the line breaks of its white space. -/
def unbroken (l : Lexeme) : Lexeme :=
  if l.token.isWhite then
    ⟨.whiteSpace (String.ofList (Css.unbroken l.raw)), Css.unbroken l.raw, l.start, l.stop⟩
  else l

variable {l : Lexeme} {w : List Char}

theorem unbroken_of_white (h : l.token.isWhite = true) :
    l.unbroken
      = ⟨.whiteSpace (String.ofList (Css.unbroken l.raw)), Css.unbroken l.raw, l.start, l.stop⟩ :=
  if_pos h

/-- Only white space changes. -/
theorem unbroken_of_not_white (h : l.token.isWhite = false) : l.unbroken = l :=
  if_neg (by rw [h]; exact Bool.false_ne_true)

/-- Behind white space stands something else. -/
theorem Reads.head_of_white (h : l.Reads w) (hl : l.token.isWhite = true) :
    ∀ c ∈ w.head?, isSpace c = false := by
  have hspace := h.spelled.white hl
  obtain ⟨c, cs, hraw, hlex⟩ := h
  rw [hraw] at hspace
  obtain ⟨hc, hcs⟩ := List.forall_mem_cons.mp hspace
  have hrest : (cs ++ w).dropWhile isSpace = w := by
    unfold lex at hlex
    rw [if_pos hc] at hlex
    exact congrArg Lexed.rest hlex
  rw [List.dropWhile_append_of_pos hcs] at hrest
  intro d hd
  have hnot := List.head?_dropWhile_not isSpace w
  rw [hrest, hd] at hnot
  exact hnot

end Lexeme

/-- What is no white space is a quotation mark, or there is none. -/
theorem opensString_cons {c : Char} (hc : isSpace c = false) (cs : List Char) :
    OpensString (c :: cs) ↔ c = '"' ∨ c = '\'' := by
  rw [OpensString, List.dropWhile_cons_of_neg (by rw [hc]; exact Bool.false_ne_true)]
  exact or_congr Option.some_inj Option.some_inj

/-- White space in front does not count. -/
theorem opensString_spaces {sp : List Char} (hsp : ∀ c ∈ sp, isSpace c = true) (w : List Char) :
    OpensString (sp ++ w) ↔ OpensString w := by
  rw [OpensString, OpensString, List.dropWhile_append_of_pos hsp]

theorem breaks_of_space {c : Char} (hc : isSpace c = true) (w : List Char) : Breaks (c :: w) := by
  intro d hd
  rw [← Option.some.inj hd]
  exact List.mem_cons_of_mem _ (mem_enders_of_isSpace hc)

/-- White space is as good without its line breaks, if it is not gone with them. -/
theorem alike_unbroken {sp : List Char} (hsp : ∀ c ∈ sp, isSpace c = true)
    (hne : unbroken sp ≠ []) {w w' : List Char} (hw : OpensString w ↔ OpensString w') :
    Alike (sp ++ w) (unbroken sp ++ w') := by
  have hsp' : ∀ c ∈ unbroken sp, isSpace c = true := fun c hc => hsp c (mem_unbroken hc).1
  have hopens : OpensString (sp ++ w) ↔ OpensString (unbroken sp ++ w') :=
    (opensString_spaces hsp w).trans (hw.trans (opensString_spaces hsp' w').symm)
  obtain ⟨d, ds, hds⟩ := List.exists_cons_of_ne_nil hne
  have hmem : d ∈ unbroken sp := by
    rw [hds]
    exact List.mem_cons_self
  obtain ⟨hd, hline⟩ := mem_unbroken hmem
  obtain ⟨c, cs, rfl⟩ := List.exists_cons_of_ne_nil (List.ne_nil_of_mem hd)
  have hc := hsp c List.mem_cons_self
  rw [hds] at hopens ⊢
  refine ⟨breaks_of_space hc _, breaks_of_space (hsp d hd) _, List.cons_ne_nil _ _, ?_, ?_, hopens⟩
  · intro hhead
    cases hc.symm.trans (hhead c rfl)
  · intro hfeed
    rw [Option.some.inj hfeed] at hline
    cases hline

namespace IsCut

variable {l : Lexeme} {ls : List Lexeme}

/-- Without line breaks a string begins behind white space where one did before. -/
theorem opensString_unbroken (h : IsCut ls) :
    OpensString (ls.flatMap Lexeme.raw)
      ↔ OpensString ((ls.map Lexeme.unbroken).flatMap Lexeme.raw) := by
  induction ls with
  | nil => exact Iff.rfl
  | cons l ls ih =>
      obtain ⟨hreads, hls⟩ := isCut_cons_iff.mp h
      rw [List.map_cons, List.flatMap_cons, List.flatMap_cons]
      cases hwhite : l.token.isWhite with
      | true =>
          have hspace := hreads.spelled.white hwhite
          rw [Lexeme.unbroken_of_white hwhite, opensString_spaces hspace,
            opensString_spaces fun c hc => hspace c (mem_unbroken hc).1]
          exact ih hls
      | false =>
          obtain ⟨c, cs, hraw⟩ := List.exists_cons_of_ne_nil hreads.raw_ne_nil
          have hc := hreads.head_of_not_white hwhite c (by rw [hraw]; rfl)
          rw [Lexeme.unbroken_of_not_white hwhite, hraw, List.cons_append, List.cons_append,
            opensString_cons hc, opensString_cons hc]

/-- What does not begin with white space does not come to begin with it. -/
theorem head_unbroken (h : IsCut ls)
    (hhead : ∀ c ∈ (ls.flatMap Lexeme.raw).head?, isSpace c = false) :
    ∀ c ∈ ((ls.map Lexeme.unbroken).flatMap Lexeme.raw).head?, isSpace c = false := by
  cases ls with
  | nil => exact hhead
  | cons l ls =>
      have hreads := (isCut_cons_iff.mp h).1
      obtain ⟨c, cs, hraw⟩ := List.exists_cons_of_ne_nil hreads.raw_ne_nil
      rw [List.flatMap_cons, hraw] at hhead
      have hwhite : l.token.isWhite = false := by
        rw [Bool.eq_false_iff]
        intro hwhite
        have hc := hreads.spelled.white hwhite c (by rw [hraw]; exact List.mem_cons_self)
        cases hc.symm.trans (hhead c rfl)
      rw [List.map_cons, List.flatMap_cons, Lexeme.unbroken_of_not_white hwhite, hraw]
      exact hhead

variable (hintact : ∀ l ∈ ls, l.IsIntact)
  (hblank : ∀ l ∈ ls, l.token.isWhite = true → Css.unbroken l.raw ≠ [])

include hintact hblank

/-- Tokens begin alike without the line breaks between them, if what separates them
    is not gone. -/
theorem follows_unbroken (h : IsCut ls) :
    Follows (ls.flatMap Lexeme.raw) ((ls.map Lexeme.unbroken).flatMap Lexeme.raw) := by
  induction ls with
  | nil => exact .inl rfl
  | cons l ls ih =>
      obtain ⟨hreads, hls⟩ := isCut_cons_iff.mp h
      obtain ⟨hl, hintact⟩ := List.forall_mem_cons.mp hintact
      obtain ⟨hlblank, hblank⟩ := List.forall_mem_cons.mp hblank
      rw [List.map_cons, List.flatMap_cons, List.flatMap_cons]
      cases hwhite : l.token.isWhite with
      | true =>
          have halike := alike_unbroken (hreads.spelled.white hwhite) (hlblank hwhite)
            hls.opensString_unbroken
          rw [Lexeme.unbroken_of_white hwhite]
          exact .inr ⟨[], _, _, halike, (List.cons_ne_nil _ _).symm, rfl, rfl⟩
      | false =>
          rw [Lexeme.unbroken_of_not_white hwhite]
          exact (ih hintact hblank hls).append hreads.raw_ne_nil hl.ne_backslash

/-- **LINE BREAKS**: tokens are cut alike without the line breaks between them. -/
theorem unbroken (h : IsCut ls) : IsCut (ls.map Lexeme.unbroken) := by
  induction ls with
  | nil => exact h
  | cons l ls ih =>
      obtain ⟨hreads, hls⟩ := isCut_cons_iff.mp h
      obtain ⟨hl, hintact⟩ := List.forall_mem_cons.mp hintact
      obtain ⟨hlblank, hblank⟩ := List.forall_mem_cons.mp hblank
      rw [List.map_cons, isCut_cons_iff]
      refine ⟨?_, ih hintact hblank hls⟩
      cases hwhite : l.token.isWhite with
      | true =>
          have hspace := hreads.spelled.white hwhite
          obtain ⟨c, cs, hraw⟩ := List.exists_cons_of_ne_nil (hlblank hwhite)
          have hspaces : ∀ d ∈ c :: cs, isSpace d = true := fun d hd =>
            hspace d (mem_unbroken (hraw ▸ hd)).1
          obtain ⟨hc, hcs⟩ := List.forall_mem_cons.mp hspaces
          have hhead := head_unbroken hls (hreads.head_of_white hwhite)
          rw [Lexeme.unbroken_of_white hwhite]
          refine ⟨c, cs, hraw, ?_⟩
          rw [lex_spaces hc hcs hhead, hraw]
      | false =>
          rw [Lexeme.unbroken_of_not_white hwhite]
          exact hreads.follows hl (follows_unbroken hintact hblank hls)

end IsCut

end ThemeTokens.Css
