import Mathlib.Data.List.Basic
import ThemeTokens.Lint.Distance

/-! # No distance

    The rows of the table are followed by their zeros: an entry is zero exactly
    where the beginning of the second text is what was read of the first
    (`IsRow`).  So two texts are at no distance exactly if they are the same
    (`distance_eq_zero_iff`). -/

namespace ThemeTokens.Lint

theorem length_nextEntries (c : Char) (left diagonal : Nat) (cells : List (Char × Nat)) :
    (nextEntries c left diagonal cells).length = cells.length := by
  induction cells generalizing left diagonal with
  | nil => rfl
  | cons cell cells ih => exact congrArg (· + 1) (ih _ _)

/-- An entry is zero where the characters are the same and the entry before it in
    the row above is zero. -/
theorem nextEntries_eq_zero_iff {c : Char} {left diagonal : Nat} {cells : List (Char × Nat)}
    {j : Nat} :
    (nextEntries c left diagonal cells)[j]? = some 0
      ↔ (cells.map Prod.fst)[j]? = some c ∧ (diagonal :: cells.map Prod.snd)[j]? = some 0
        ∧ j < cells.length := by
  induction cells generalizing left diagonal j with
  | nil => exact iff_of_false nofun fun h => Nat.not_lt_zero j h.2.2
  | cons cell cells ih =>
      obtain ⟨d, above⟩ := cell
      cases j with
      | zero =>
          rw [nextEntries, List.getElem?_cons_zero, List.map_cons, List.getElem?_cons_zero,
            List.getElem?_cons_zero, Option.some.injEq, Option.some.injEq, Option.some.injEq]
          by_cases hc : c = d
          · rw [if_pos hc]
            constructor
            · intro h
              exact ⟨hc.symm, by omega, Nat.succ_pos _⟩
            · rintro ⟨-, h, -⟩
              omega
          · rw [if_neg hc]
            refine iff_of_false (by omega) ?_
            rintro ⟨h, -⟩
            exact hc h.symm
      | succ j =>
          rw [nextEntries, List.getElem?_cons_succ, ih, List.map_cons, List.map_cons,
            List.getElem?_cons_succ, List.getElem?_cons_succ, List.length_cons,
            Nat.succ_lt_succ_iff]

/-- The row for what was read: its zeros are where the second text begins with
    just that. -/
structure IsRow (other read : List Char) (row : List Nat) : Prop where
  length : row.length = other.length + 1
  zero : ∀ j ≤ other.length, row[j]? = some 0 ↔ other.take j = read

namespace IsRow

variable {other read : List Char} {row : List Nat}

theorem range (other : List Char) : IsRow other [] (List.range (other.length + 1)) where
  length := List.length_range
  zero := by
    intro j hj
    rw [List.getElem?_range (Nat.lt_succ_of_le hj), Option.some.injEq, List.take_eq_nil_iff]
    constructor
    · exact Or.inl
    · rintro (h | h)
      · exact h
      · rw [h] at hj
        exact Nat.le_zero.mp hj

/-- **ONE CHARACTER MORE**: the next row is the row for what was read with it. -/
theorem nextRow (h : IsRow other read row) (c : Char) :
    IsRow other (read ++ [c]) (nextRow other row c) := by
  obtain ⟨first, entries, rfl⟩ := List.exists_cons_of_length_eq_add_one h.length
  have hentries : entries.length = other.length := Nat.succ.inj h.length
  have hchars : (other.zip entries).map Prod.fst = other :=
    List.map_fst_zip (Nat.le_of_eq hentries.symm)
  have habove : (other.zip entries).map Prod.snd = entries :=
    List.map_snd_zip (Nat.le_of_eq hentries)
  have hzip : (other.zip entries).length = other.length := by
    rw [List.length_zip, hentries, Nat.min_self]
  refine ⟨?_, fun j hj => ?_⟩
  · rw [Lint.nextRow, List.length_cons, length_nextEntries, hzip]
  · cases j with
    | zero =>
        refine iff_of_false (fun hzero => ?_) fun htake => ?_
        · exact Nat.succ_ne_zero first (Option.some.inj hzero)
        · exact List.append_ne_nil_of_right_ne_nil read (List.cons_ne_nil c []) htake.symm
    | succ j =>
        -- The beginning of the second text has one character more as well.
        have htake : other.take (j + 1) = other.take j ++ [other[j]] := by
          rw [List.take_append_getElem]
        rw [Lint.nextRow, List.getElem?_cons_succ, nextEntries_eq_zero_iff, hchars, habove, hzip,
          h.zero j (Nat.le_of_lt hj), htake, List.append_singleton_inj,
          List.getElem?_eq_getElem hj, Option.some.injEq]
        constructor
        · rintro ⟨hc, hread, -⟩
          exact ⟨hread, hc⟩
        · rintro ⟨hread, hc⟩
          exact ⟨hc, hread, hj⟩

end IsRow

/-- The row for the whole text is reached character by character. -/
theorem isRow_foldl (text other : List Char) :
    IsRow other text (text.foldl (nextRow other) (List.range (other.length + 1))) := by
  have hfold : ∀ (text read : List Char) (row : List Nat), IsRow other read row →
      IsRow other (read ++ text) (text.foldl (nextRow other) row) := by
    intro text
    induction text with
    | nil =>
        intro read row h
        rwa [List.append_nil]
    | cons c text ih =>
        intro read row h
        rw [List.append_cons]
        exact ih _ _ (h.nextRow c)
  exact hfold text [] _ (.range other)

/-- **NO DISTANCE** is between a text and itself, and between no two others. -/
theorem distance_eq_zero_iff {text other : List Char} :
    distance text other = 0 ↔ text = other := by
  have hrow := isRow_foldl text other
  have hlast : (text.foldl (nextRow other) (List.range (other.length + 1)))[other.length]?
      = some (distance text other) := by
    rw [distance, List.getLastD_eq_getLast?, List.getLast?_eq_getElem?, hrow.length,
      Nat.add_sub_cancel]
    have hin : other.length
        < (text.foldl (nextRow other) (List.range (other.length + 1))).length := by
      rw [hrow.length]
      exact Nat.lt_succ_self _
    rw [List.getElem?_eq_getElem hin]
    rfl
  have hzero := hrow.zero other.length (Nat.le_refl _)
  rw [hlast, Option.some.injEq, List.take_length] at hzero
  rw [hzero]
  exact eq_comm

end ThemeTokens.Lint
