/-! # Searching and cutting text

    The scanners of this library look for a fixed mark in a text, cut the text
    at a mark, or split it at a separator.  All of it works on lists of
    characters, so that each function is a plain recursion. -/

namespace ThemeTokens.Text

/-- What follows `mark` in a text that starts with it. -/
def after? : (mark text : List Char) → Option (List Char)
  | [], cs => some cs
  | _ :: _, [] => none
  | m :: ms, c :: cs => if m = c then after? ms cs else none

/-- The texts before and after the first `mark`. -/
def cut? (mark : List Char) : List Char → Option (List Char × List Char)
  | [] => (after? mark []).map fun rest => ([], rest)
  | c :: cs =>
      match after? mark (c :: cs) with
      | some rest => some ([], rest)
      | none => (cut? mark cs).map fun (before, rest) => (c :: before, rest)

/-- Whether `mark` occurs in the text. -/
def occurs (mark : List Char) : List Char → Bool
  | [] => (after? mark []).isSome
  | c :: cs => (after? mark (c :: cs)).isSome || occurs mark cs

/-- The pieces between the separators; one more than there are separators. -/
def splitAt (sep : Char) : List Char → List (List Char)
  | [] => [[]]
  | c :: cs =>
      if c = sep then [] :: splitAt sep cs
      else
        match splitAt sep cs with
        | [] => [[c]]
        | piece :: pieces => (c :: piece) :: pieces

/-- The texts joined with `glue` between them. -/
def joinWith (glue : List Char) : List (List Char) → List Char
  | [] => []
  | [piece] => piece
  | piece :: pieces => piece ++ glue ++ joinWith glue pieces

/-- A text starts with `mark` exactly when `mark` and the rest make it up. -/
theorem after?_eq_some_iff {mark text rest : List Char} :
    after? mark text = some rest ↔ text = mark ++ rest := by
  induction mark generalizing text with
  | nil => simp [after?, eq_comm]
  | cons m ms ih =>
      cases text with
      | nil => simp [after?]
      | cons c cs =>
          by_cases h : m = c
          · simp [after?, h, ih]
          · simp [after?, h, Ne.symm h]

/-- Cutting keeps every character. -/
theorem eq_of_cut? {mark text before rest : List Char}
    (h : cut? mark text = some (before, rest)) :
    text = before ++ mark ++ rest := by
  induction text generalizing before with
  | nil =>
      simp only [cut?, Option.map_eq_some_iff, Prod.mk.injEq] at h
      obtain ⟨r, hr, hb, rfl⟩ := h
      simpa [← hb] using after?_eq_some_iff.mp hr
  | cons c cs ih =>
      unfold cut? at h
      split at h
      · rename_i r hr
        simp only [Option.some.injEq, Prod.mk.injEq] at h
        obtain ⟨rfl, rfl⟩ := h
        simpa using after?_eq_some_iff.mp hr
      · simp only [Option.map_eq_some_iff, Prod.exists, Prod.mk.injEq] at h
        obtain ⟨b, r, hc, rfl, rfl⟩ := h
        simp [ih hc]

/-- Splitting always yields a piece. -/
theorem splitAt_ne_nil (sep : Char) (cs : List Char) : splitAt sep cs ≠ [] := by
  cases cs with
  | nil => simp [splitAt]
  | cons c cs =>
      unfold splitAt
      split
      · simp
      · split <;> simp

end ThemeTokens.Text
