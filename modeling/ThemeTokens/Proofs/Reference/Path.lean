import ThemeTokens.Proofs.Text.Search
import ThemeTokens.Reference.Parse

/-! # Paths inside of a value

    A path is made of names with single dots between them.  It is read as far
    as it goes: `path?_eq_some_iff` says that the scanner takes a path off the
    front of a text exactly when what is left would not continue it. -/

namespace ThemeTokens

/-- One or more letters, digits, dashes and underscores. -/
def IsName (cs : List Char) : Prop :=
  cs ≠ [] ∧ ∀ c ∈ cs, isPathChar c = true

/-- Names with single dots between them. -/
inductive IsPath : List Char → Prop where
  | name {name : List Char} (hname : IsName name) : IsPath name
  | dotted {name path : List Char} (hname : IsName name) (hpath : IsPath path) :
      IsPath (name ++ '.' :: path)

/-- Whether a text behind a path would continue it: with a longer last name, or
    with one more name behind a dot. -/
def continuesPath : List Char → Bool
  | '.' :: c :: _ => isPathChar c
  | c :: _ => isPathChar c
  | [] => false

/-- Apart from a dot the first character decides. -/
theorem continuesPath_cons {c : Char} (h : c ≠ '.') (rest : List Char) :
    continuesPath (c :: rest) = isPathChar c := by
  rw [continuesPath]
  exact fun _ _ hdot => absurd hdot h

theorem IsName.cons {name : List Char} (h : IsName name) :
    ∃ c cs, name = c :: cs ∧ isPathChar c = true := by
  obtain ⟨hne, hall⟩ := h
  cases name with
  | nil => exact absurd rfl hne
  | cons c cs => exact ⟨c, cs, rfl, hall c List.mem_cons_self⟩

/-- A path begins with a character of a name. -/
theorem IsPath.cons {path : List Char} (h : IsPath path) :
    ∃ c cs, path = c :: cs ∧ isPathChar c = true := by
  cases h with
  | name hname => exact hname.cons
  | dotted hname hpath =>
      obtain ⟨c, cs, rfl, hc⟩ := hname.cons
      exact ⟨c, cs ++ '.' :: _, rfl, hc⟩

/-- Characters of names and dots are all there is in a path. -/
theorem IsPath.mem {path : List Char} (h : IsPath path) :
    ∀ c ∈ path, isPathChar c = true ∨ c = '.' := by
  induction h with
  | name hname => exact fun c hc => Or.inl (hname.2 c hc)
  | dotted hname hpath ih =>
      intro c hc
      rcases List.mem_append.mp hc with hc | hc
      · exact Or.inl (hname.2 c hc)
      · rcases List.mem_cons.mp hc with hdot | hc
        · exact Or.inr hdot
        · exact ih c hc

/-- Cut at its dots a path falls into its names, and none of them is empty. -/
theorem IsPath.splitAt_ne_nil {path : List Char} (h : IsPath path) :
    ∀ piece ∈ Text.splitAt '.' path, piece ≠ [] := by
  have hdot : ∀ {name : List Char}, IsName name → '.' ∉ name := by
    intro name hname hmem
    exact absurd (hname.2 '.' hmem) (by decide)
  induction h with
  | name hname =>
      rw [Text.splitAt_of_not_mem (hdot hname)]
      exact List.forall_mem_singleton.mpr hname.1
  | dotted hname hpath ih =>
      rw [Text.splitAt_append (hdot hname)]
      exact List.forall_mem_cons.mpr ⟨hname.1, ih⟩

/-- What does not continue a path begins with no character of a name. -/
theorem stop_of_continuesPath {rest : List Char} (h : continuesPath rest = false) :
    ∀ c ∈ rest.head?, isPathChar c = false := by
  intro c hc
  cases rest with
  | nil => cases hc
  | cons d rest =>
      rw [← Option.some.inj (Option.mem_def.mp hc)]
      by_cases hdot : d = '.'
      · rw [hdot]
        decide
      · rw [← continuesPath_cons hdot]
        exact h

/-! ## The scanner of paths, without its limit -/

/-- Further names begin with a dot. -/
theorem moreNames_of_no_dot {n : Nat} {cs : List Char} (h : ∀ tail, cs ≠ '.' :: tail) :
    moreNames n cs = ([], cs) := by
  cases n with
  | zero => rfl
  | succ n =>
      rw [moreNames]
      exact fun tail heq => h tail heq

/-- A limit that is not below the length of the text plays no part. -/
theorem moreNames_limit {n m : Nat} {cs : List Char} (hn : cs.length ≤ n)
    (hm : cs.length ≤ m) : moreNames n cs = moreNames m cs := by
  induction n generalizing m cs with
  | zero =>
      rw [List.length_eq_zero_iff.mp (Nat.le_zero.mp hn)]
      cases m with
      | zero => rfl
      | succ m => rfl
  | succ n ih =>
      cases m with
      | zero =>
          rw [List.length_eq_zero_iff.mp (Nat.le_zero.mp hm)]
          rfl
      | succ m =>
          by_cases hdot : ∃ tail, cs = '.' :: tail
          · obtain ⟨tail, rfl⟩ := hdot
            have hle := (List.dropWhile_sublist (l := tail) isPathChar).length_le
            rw [List.length_cons] at hn hm
            rw [moreNames, moreNames, ih (Nat.le_trans hle (Nat.le_of_succ_le_succ hn))
              (Nat.le_trans hle (Nat.le_of_succ_le_succ hm))]
          · have hno : ∀ tail, cs ≠ '.' :: tail := not_exists.mp hdot
            rw [moreNames_of_no_dot hno, moreNames_of_no_dot hno]

/-- A path is a name, and behind a dot another path if there is one. -/
theorem path?_eq (cs : List Char) :
    path? cs =
      if (cs.takeWhile isPathChar).isEmpty then none
      else
        match cs.dropWhile isPathChar with
        | '.' :: tail =>
            match path? tail with
            | some (path, rest) => some (cs.takeWhile isPathChar ++ '.' :: path, rest)
            | none => some (cs.takeWhile isPathChar, '.' :: tail)
        | rest => some (cs.takeWhile isPathChar, rest) := by
  rw [path?]
  by_cases hempty : (cs.takeWhile isPathChar).isEmpty = true
  · rw [if_pos hempty, if_pos hempty]
  · rw [if_neg hempty, if_neg hempty]
    split
    · rename_i tail hd
      rw [hd, path?]
      dsimp only [List.length_cons]
      rw [moreNames]
      by_cases hnext : (tail.takeWhile isPathChar).isEmpty = true
      · rw [if_pos hnext, if_pos hnext]
        show some (_ ++ [], _) = _
        rw [List.append_nil]
      · -- The next name is read with a limit that is enough for what follows it.
        rw [if_neg hnext, if_neg hnext,
          moreNames_limit (List.dropWhile_sublist (l := tail) isPathChar).length_le le_rfl]
        rfl
    · rename_i hdot
      dsimp only
      rw [moreNames_of_no_dot fun tail heq => hdot tail heq]
      show some (_ ++ [], _) = _
      rw [List.append_nil]

/-- Where no name begins there is no path. -/
theorem path?_eq_none {cs : List Char} (h : ∀ c ∈ cs.head?, isPathChar c = false) :
    path? cs = none := by
  have hname : cs.takeWhile isPathChar = [] :=
    Text.takeWhile_run (List.forall_mem_nil _) h
  rw [path?_eq, hname]
  rfl

/-- A path is read whole where what follows does not continue it. -/
theorem path?_append {path rest : List Char} (hpath : IsPath path)
    (hrest : continuesPath rest = false) : path? (path ++ rest) = some (path, rest) := by
  induction hpath with
  | @name name hname =>
      have hstop := stop_of_continuesPath hrest
      rw [path?_eq, Text.takeWhile_run hname.2 hstop, Text.dropWhile_run hname.2 hstop,
        if_neg (by rw [List.isEmpty_iff]; exact hname.1)]
      split
      · -- A dot follows, but no name behind it.
        rename_i tail
        have hnone : path? tail = none := by
          refine path?_eq_none fun c hc => ?_
          cases tail with
          | nil => cases hc
          | cons d tail =>
              rw [← Option.some.inj (Option.mem_def.mp hc)]
              exact hrest
        rw [hnone]
      · rfl
  | @dotted name path hname _ ih =>
      have hstop : ∀ c ∈ ('.' :: (path ++ rest)).head?, isPathChar c = false := by
        intro c hc
        rw [← Option.some.inj (Option.mem_def.mp hc)]
        decide
      rw [List.append_assoc, List.cons_append, path?_eq, Text.takeWhile_run hname.2 hstop,
        Text.dropWhile_run hname.2 hstop, if_neg (by rw [List.isEmpty_iff]; exact hname.1)]
      show (match path? (path ++ rest) with
        | some (path, rest) => some (name ++ '.' :: path, rest)
        | none => some (name, '.' :: (path ++ rest))) = _
      rw [ih]

/-- What is read as a path is one, and nothing is lost behind it. -/
theorem isPath_of_path? {cs path rest : List Char} (h : path? cs = some (path, rest)) :
    cs = path ++ rest ∧ IsPath path ∧ continuesPath rest = false := by
  induction hn : cs.length using Nat.strongRecOn generalizing cs path rest with
  | _ n ih =>
      rw [path?_eq] at h
      by_cases hempty : (cs.takeWhile isPathChar).isEmpty = true
      · rw [if_pos hempty] at h
        cases h
      · rw [if_neg hempty] at h
        have hne : cs.takeWhile isPathChar ≠ [] := fun hnil => hempty (List.isEmpty_iff.mpr hnil)
        have hname : IsName (cs.takeWhile isPathChar) :=
          ⟨hne, fun c hc => List.mem_takeWhile_imp hc⟩
        have hcs : cs = cs.takeWhile isPathChar ++ cs.dropWhile isPathChar :=
          List.takeWhile_append_dropWhile.symm
        have hstop := Text.stop_dropWhile isPathChar cs
        split at h
        · rename_i tail hd
          rw [hd] at hcs
          split at h
          · rename_i inner last hinner
            obtain ⟨rfl, rfl⟩ := Prod.mk.inj (Option.some.inj h)
            have hlt : tail.length < n := by
              rw [← hn, hcs, List.length_append, List.length_cons]
              omega
            obtain ⟨htail, hpath, hrest⟩ := ih _ hlt hinner rfl
            refine ⟨?_, .dotted hname hpath, hrest⟩
            rw [List.append_assoc, List.cons_append, ← htail]
            exact hcs
          · rename_i hnone
            obtain ⟨rfl, rfl⟩ := Prod.mk.inj (Option.some.inj h)
            refine ⟨hcs, .name hname, ?_⟩
            -- A name behind the dot would have been read as a path.
            cases tail with
            | nil => decide
            | cons c tail =>
                show isPathChar c = false
                by_contra hc
                rw [path?_eq, List.takeWhile_cons_of_pos (by simpa using hc), List.isEmpty_cons,
                  if_neg Bool.false_ne_true] at hnone
                split at hnone
                · split at hnone <;> cases hnone
                · cases hnone
        · rename_i hdot
          obtain ⟨rfl, rfl⟩ := Prod.mk.inj (Option.some.inj h)
          refine ⟨hcs, .name hname, ?_⟩
          cases hd : cs.dropWhile isPathChar with
          | nil => rfl
          | cons c rest =>
              rw [continuesPath_cons fun hc => hdot rest (hc ▸ hd)]
              exact hstop c (by rw [hd]; rfl)

/-- **PATHS**: a path is read off the front of a text exactly when it is one and
    what is left does not continue it. -/
theorem path?_eq_some_iff {cs path rest : List Char} :
    path? cs = some (path, rest)
      ↔ cs = path ++ rest ∧ IsPath path ∧ continuesPath rest = false := by
  constructor
  · exact isPath_of_path?
  · rintro ⟨rfl, hpath, hrest⟩
    exact path?_append hpath hrest

end ThemeTokens
