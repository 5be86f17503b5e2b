import Mathlib.Data.List.TakeWhile
import ThemeTokens.Text.Search

/-! # Occurrence and splitting

    A mark occurs in a text exactly when the text has it as a contiguous
    piece, so an occurrence survives whatever is put around it.  Splitting at
    a separator and joining with it undo each other, as long as no piece holds
    the separator itself.  A run of characters of one kind is read up to the
    first character of another. -/

namespace ThemeTokens.Text

/-- What is left after a mark is left exactly when the mark is in front. -/
theorem isSome_after?_iff {mark text : List Char} :
    (after? mark text).isSome = true ↔ mark <+: text := by
  rw [Option.isSome_iff_exists]
  constructor
  · rintro ⟨rest, h⟩
    exact ⟨rest, (after?_eq_some_iff.mp h).symm⟩
  · rintro ⟨rest, h⟩
    exact ⟨rest, after?_eq_some_iff.mpr h.symm⟩

theorem occurs_iff_isInfix {mark text : List Char} :
    occurs mark text = true ↔ mark <:+: text := by
  induction text with
  | nil =>
      rw [occurs, isSome_after?_iff, List.prefix_nil, List.infix_nil]
  | cons c cs ih =>
      rw [occurs, Bool.or_eq_true, isSome_after?_iff, ih, List.infix_cons_iff]

/-- A mark is cut off exactly where it occurs. -/
theorem isSome_cut?_iff {mark text : List Char} :
    (cut? mark text).isSome = true ↔ mark <:+: text := by
  induction text with
  | nil => rw [cut?, Option.isSome_map, isSome_after?_iff, List.prefix_nil, List.infix_nil]
  | cons c cs ih =>
      rw [List.infix_cons_iff, ← isSome_after?_iff, ← ih, cut?]
      cases after? mark (c :: cs) with
      | some rest => simp
      | none => simp

/-! ## Marks in texts put together -/

section Together

variable {c : Char} {mark : List Char}

/-- A mark does not begin in a text without its first character. -/
theorem infix_append_left_iff {front : List Char} (h : c ∉ front) (cs : List Char) :
    c :: mark <:+: front ++ cs ↔ c :: mark <:+: cs := by
  induction front with
  | nil => rfl
  | cons d front ih =>
      obtain ⟨hd, hfront⟩ := not_or.mp (mt List.mem_cons.mpr h)
      rw [List.cons_append, List.infix_cons_iff, List.cons_prefix_cons, ih hfront]
      exact or_iff_right fun hhead => hd hhead.1

/-- A mark does not end in a text without its last character. -/
theorem infix_append_right_iff {back : List Char} (h : c ∉ back) (cs : List Char) :
    mark ++ [c] <:+: cs ++ back ↔ mark ++ [c] <:+: cs := by
  have hmark : (mark ++ [c]).reverse = c :: mark.reverse := by
    rw [List.reverse_append, List.reverse_singleton, List.singleton_append]
  have hback : c ∉ back.reverse := fun hc => h (List.mem_reverse.mp hc)
  calc mark ++ [c] <:+: cs ++ back
      ↔ c :: mark.reverse <:+: back.reverse ++ cs.reverse := by
        rw [← List.reverse_infix, hmark, List.reverse_append]
    _ ↔ c :: mark.reverse <:+: cs.reverse := infix_append_left_iff hback cs.reverse
    _ ↔ mark ++ [c] <:+: cs := by rw [← hmark, List.reverse_infix]

/-- A mark does not reach over a character that it does not have. -/
theorem infix_separated_iff {sep : Char} (h : sep ∉ mark) (u v : List Char) :
    mark <:+: u ++ sep :: v ↔ mark <:+: u ∨ mark <:+: v := by
  constructor
  · intro hmark
    rcases List.infix_append_iff.mp hmark with hu | hv | ⟨front, back, rfl, hfront, hback⟩
    · exact .inl hu
    · rcases List.infix_cons_iff.mp hv with hhead | hlater
      · cases mark with
        | nil => exact .inr (List.nil_infix)
        | cons c mark =>
            rw [(List.cons_prefix_cons.mp hhead).1] at h
            exact absurd List.mem_cons_self h
      · exact .inr hlater
    · cases back with
      | nil =>
          rw [List.append_nil]
          exact .inl hfront.isInfix
      | cons c back =>
          rw [(List.cons_prefix_cons.mp hback).1] at h
          exact absurd (List.mem_append_right front List.mem_cons_self) h
  · rintro (hu | hv)
    · exact hu.trans (List.prefix_append u _).isInfix
    · exact hv.trans ((List.suffix_cons sep v).trans (List.suffix_append u _)).isInfix

end Together

/-! ## Splitting and joining -/

/-- Without a separator there is one piece. -/
theorem splitAt_of_not_mem {sep : Char} {piece : List Char} (h : sep ∉ piece) :
    splitAt sep piece = [piece] := by
  induction piece with
  | nil => rfl
  | cons c cs ih =>
      obtain ⟨hc, hcs⟩ := not_or.mp (mt List.mem_cons.mpr h)
      rw [splitAt, if_neg (Ne.symm hc), ih hcs]

/-- The first piece ends at the first separator. -/
theorem splitAt_append {sep : Char} {piece : List Char} (h : sep ∉ piece)
    (rest : List Char) :
    splitAt sep (piece ++ sep :: rest) = piece :: splitAt sep rest := by
  induction piece with
  | nil =>
      show splitAt sep (sep :: rest) = _
      rw [splitAt, if_pos rfl]
  | cons c cs ih =>
      obtain ⟨hc, hcs⟩ := not_or.mp (mt List.mem_cons.mpr h)
      rw [List.cons_append, splitAt, if_neg (Ne.symm hc), ih hcs]

/-- No piece has a separator in it. -/
theorem not_mem_of_mem_splitAt {sep : Char} {cs piece : List Char} (h : piece ∈ splitAt sep cs) :
    sep ∉ piece := by
  induction cs generalizing piece with
  | nil =>
      rw [List.mem_singleton.mp h]
      exact List.not_mem_nil
  | cons c cs ih =>
      rw [splitAt] at h
      by_cases hc : c = sep
      · rw [if_pos hc] at h
        rcases List.mem_cons.mp h with rfl | h
        · exact List.not_mem_nil
        · exact ih h
      · rw [if_neg hc] at h
        -- Only the first piece gets a character more.
        cases hpieces : splitAt sep cs with
        | nil => exact absurd hpieces (splitAt_ne_nil sep cs)
        | cons first rest =>
            rw [hpieces] at h ih
            rcases List.mem_cons.mp h with rfl | h
            · exact List.not_mem_cons_of_ne_of_not_mem (Ne.symm hc) (ih List.mem_cons_self)
            · exact ih (List.mem_cons_of_mem _ h)

theorem joinWith_cons (glue : List Char) {piece : List Char} {pieces : List (List Char)}
    (h : pieces ≠ []) :
    joinWith glue (piece :: pieces) = piece ++ glue ++ joinWith glue pieces := by
  cases pieces with
  | nil => exact absurd rfl h
  | cons second rest => rfl

/-- Glue that a mark does not have keeps the pieces apart. -/
theorem infix_joinWith_iff {c sep : Char} {mark glue : List Char} (hsep : sep ∉ c :: mark)
    (hglue : c ∉ glue) (pieces : List (List Char)) :
    c :: mark <:+: joinWith (sep :: glue) pieces ↔ ∃ piece ∈ pieces, c :: mark <:+: piece := by
  induction pieces with
  | nil => simp [joinWith]
  | cons piece pieces ih =>
      cases pieces with
      | nil => simp [joinWith]
      | cons second rest =>
          rw [joinWith_cons _ (List.cons_ne_nil _ _), List.append_assoc, List.cons_append,
            infix_separated_iff hsep, infix_append_left_iff hglue, ih]
          simp only [List.mem_cons, exists_eq_or_imp]

/-- A last piece is joined to the others like any other. -/
theorem joinWith_concat (glue : List Char) {pieces : List (List Char)} (h : pieces ≠ [])
    (last : List Char) :
    joinWith glue (pieces ++ [last]) = joinWith glue pieces ++ glue ++ last := by
  induction pieces with
  | nil => exact absurd rfl h
  | cons piece pieces ih =>
      cases pieces with
      | nil => rfl
      | cons second rest =>
          show piece ++ glue ++ joinWith glue (second :: rest ++ [last])
            = piece ++ glue ++ joinWith glue (second :: rest) ++ glue ++ last
          rw [ih (List.cons_ne_nil _ _)]
          simp only [List.append_assoc]

/-- What ends the glue may as well begin each of the pieces. -/
theorem cons_joinWith (glue : List Char) (c : Char) {pieces : List (List Char)}
    (h : pieces ≠ []) :
    c :: joinWith (glue ++ [c]) pieces = joinWith glue (pieces.map (c :: ·)) := by
  induction pieces with
  | nil => exact absurd rfl h
  | cons piece pieces ih =>
      cases pieces with
      | nil => rfl
      | cons second rest =>
          have hne : (second :: rest).map (c :: ·) ≠ [] := List.cons_ne_nil _ _
          rw [joinWith_cons _ (List.cons_ne_nil _ _), List.map_cons, joinWith_cons _ hne,
            ← ih (List.cons_ne_nil _ _)]
          simp only [List.cons_append, List.append_assoc, List.nil_append]

/-- **SPLITTING UNDOES JOINING**: pieces without the separator come back. -/
theorem splitAt_joinWith {sep : Char} {pieces : List (List Char)} (hne : pieces ≠ [])
    (h : ∀ piece ∈ pieces, sep ∉ piece) : splitAt sep (joinWith [sep] pieces) = pieces := by
  induction pieces with
  | nil => exact absurd rfl hne
  | cons piece pieces ih =>
      have hpiece : sep ∉ piece := h piece List.mem_cons_self
      cases pieces with
      | nil => exact splitAt_of_not_mem hpiece
      | cons second rest =>
          rw [joinWith_cons _ (List.cons_ne_nil _ _), List.append_assoc, List.singleton_append,
            splitAt_append hpiece, ih (List.cons_ne_nil _ _)]
          exact fun other ho => h other (List.mem_cons_of_mem _ ho)

/-- **JOINING UNDOES SPLITTING**. -/
theorem joinWith_splitAt (sep : Char) (cs : List Char) :
    joinWith [sep] (splitAt sep cs) = cs := by
  induction cs with
  | nil => rfl
  | cons c cs ih =>
      rw [splitAt]
      by_cases hc : c = sep
      · rw [if_pos hc, joinWith_cons _ (splitAt_ne_nil sep cs), ih, hc]
        rfl
      · rw [if_neg hc]
        -- The character goes to the front of the first piece.
        cases hpieces : splitAt sep cs with
        | nil => exact absurd hpieces (splitAt_ne_nil sep cs)
        | cons piece rest =>
            rw [hpieces] at ih
            cases rest with
            | nil => rw [← ih]; rfl
            | cons second rest => rw [← ih]; rfl

/-! ## Runs of characters -/

section Runs

variable {p : Char → Bool} {run rest cs : List Char}

/-- A run is taken whole where what follows does not go on with it. -/
theorem takeWhile_run (hrun : ∀ c ∈ run, p c = true)
    (hstop : ∀ c ∈ rest.head?, p c = false) : (run ++ rest).takeWhile p = run := by
  rw [List.takeWhile_append_of_pos hrun]
  cases rest with
  | nil => rw [List.takeWhile_nil, List.append_nil]
  | cons c rest =>
      rw [List.takeWhile_cons_of_neg (by rw [hstop c rfl]; exact Bool.false_ne_true),
        List.append_nil]

/-- Behind a run is what does not go on with it. -/
theorem dropWhile_run (hrun : ∀ c ∈ run, p c = true)
    (hstop : ∀ c ∈ rest.head?, p c = false) : (run ++ rest).dropWhile p = rest := by
  rw [List.dropWhile_append_of_pos hrun]
  cases rest with
  | nil => rfl
  | cons c rest =>
      exact List.dropWhile_cons_of_neg (by rw [hstop c rfl]; exact Bool.false_ne_true)

/-- What is behind a run does not go on with it. -/
theorem stop_dropWhile (p : Char → Bool) (cs : List Char) :
    ∀ c ∈ (cs.dropWhile p).head?, p c = false := by
  intro c hc
  have h := List.head?_dropWhile_not p cs
  rw [Option.mem_def.mp hc] at h
  exact h

end Runs

end ThemeTokens.Text
