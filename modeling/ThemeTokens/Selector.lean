import ThemeTokens.Text.Blank
import ThemeTokens.Text.Search

/-! # Selectors and the root marker

    `:theme-root` marks the part of a selector that sits on the element that
    carries the theme's class; `:theme-root(X)` stands for `X` on it.  A
    selector list is cut into branches at the commas outside parentheses and
    brackets. -/

namespace ThemeTokens.Selector

/-- The marker. -/
def rootMarker : List Char := ":theme-root".toList

/-- Whether the marker occurs. -/
def hasThemeRoot (selector : String) : Bool :=
  Text.occurs rootMarker selector.toList

/-- A branch without line breaks and trimmed. -/
def cleanBranch (branch : List Char) : List Char :=
  Text.trim (branch.filter fun c => !(c == '\n' || c == '\r'))

/-- The pieces between the commas at depth zero; `depth` counts the open
    parentheses and brackets, and closing more than are open is ignored. -/
def pieces (depth : Nat) : List Char → List (List Char)
  | [] => [[]]
  | c :: cs =>
      if c = ',' ∧ depth = 0 then [] :: pieces 0 cs
      else
        let inner :=
          if c = '(' ∨ c = '[' then depth + 1
          else if c = ')' ∨ c = ']' then depth - 1
          else depth
        match pieces inner cs with
        | [] => [[c]]
        | piece :: rest => (c :: piece) :: rest

/-- The branches of a selector list. -/
def branches (selector : List Char) : List (List Char) :=
  (pieces 0 selector).map cleanBranch

/-- The branches of a selector list. -/
def split (selector : String) : List String :=
  (branches selector.toList).map String.ofList

/-- The text up to the parenthesis that closes an open one, and what follows
    it; `depth` counts the parentheses opened since. -/
def closing? (depth : Nat) : List Char → Option (List Char × List Char)
  | [] => none
  | c :: cs =>
      if c = ')' ∧ depth = 0 then some ([], cs)
      else
        let inner :=
          if c = '(' then depth + 1 else if c = ')' then depth - 1 else depth
        (closing? inner cs).map fun (inside, rest) => (c :: inside, rest)

/-- Cutting leaves less than there was. -/
theorem length_cut? {mark text before rest : List Char}
    (h : Text.cut? mark text = some (before, rest)) (hm : mark ≠ []) :
    rest.length < text.length := by
  have : 0 < mark.length := List.length_pos_iff.mpr hm
  rw [Text.eq_of_cut? h]
  simp only [List.length_append]
  omega

/-- The parenthesis that closes another is read. -/
theorem length_closing? {depth : Nat} {cs inside rest : List Char}
    (h : closing? depth cs = some (inside, rest)) : rest.length < cs.length := by
  induction cs generalizing depth inside with
  | nil => simp [closing?] at h
  | cons c cs ih =>
      unfold closing? at h
      split at h
      · simp only [Option.some.injEq, Prod.mk.injEq] at h
        simp [← h.2]
      · simp only [Option.map_eq_some_iff, Prod.exists, Prod.mk.injEq] at h
        obtain ⟨i, r, hc, _, rfl⟩ := h
        have := ih hc
        simp only [List.length_cons]
        omega

/-- What the parentheses behind a marker hold, and what follows them. -/
def argument? : List Char → Option (List Char × List Char)
  | '(' :: cs => closing? 0 cs
  | _ => none

/-- So is the one behind a marker. -/
theorem length_argument? {cs inside rest : List Char}
    (h : argument? cs = some (inside, rest)) : rest.length < cs.length := by
  unfold argument? at h
  split at h
  · exact Nat.lt_succ_of_lt (length_closing? h)
  · cases h

/-- Drops every marker and keeps what its parentheses hold, as written. -/
def dropMarkers (selector : List Char) : List Char :=
  match _h : Text.cut? rootMarker selector with
  | none => selector
  | some (before, rest) =>
      match _ha : argument? rest with
      | some (inside, rest) => before ++ inside ++ dropMarkers rest
      | none => before ++ dropMarkers rest
termination_by selector.length
decreasing_by
  · exact Nat.lt_trans (length_argument? _ha) (length_cut? _h (by decide))
  · exact length_cut? _h (by decide)

/-- Drops the markers of a single selector, blanks around them kept. -/
def stripMarker (selector : String) : String :=
  String.ofList (dropMarkers selector.toList)

/-- Texts with a comma and a space between them. -/
def joinBranches (parts : List String) : String :=
  String.ofList (Text.joinWith ", ".toList (parts.map String.toList))

/-- Drops the markers of every branch of a selector list. -/
def stripThemeRoot (selector : String) : String :=
  if hasThemeRoot selector then
    joinBranches ((branches selector.toList).map fun branch =>
      String.ofList (Text.trim (dropMarkers branch)))
  else selector

/-- Puts a class in front of each branch, or on the element that a branch
    marks. -/
def scope (selector className : String) : String :=
  joinBranches ((split selector).map fun branch =>
    if hasThemeRoot branch then
      let stripped := stripMarker branch
      match stripped.toList with
      | ['*'] => "*" ++ className
      | cs =>
          if cs.head?.any Text.isBlank then
            className ++ " " ++ String.ofList (Text.trimStart cs)
          else className ++ stripped
    else className ++ " " ++ branch)

end ThemeTokens.Selector
