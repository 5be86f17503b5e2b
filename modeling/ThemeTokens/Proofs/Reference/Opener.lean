import ThemeTokens.Proofs.Reference.Mention
import ThemeTokens.Proofs.Reference.Path

/-! # Where references begin, and how they are written

    The scanner asks at each character whether a reference opens there.  What
    it answers is said here in terms of the text alone:

    * `opener?_eq_some_iff`: a reference is read exactly when the text begins
      with one of its spellings and the reference is set off from what is
      around it;
    * `opener?_eq_none_iff`: the character is taken as it is exactly when no
      opener stands there.

    What is left is an opener without a reference behind it, which is an
    error. -/

namespace ThemeTokens

/-- A text of ASCII blanks only. -/
def IsBlankRun (cs : List Char) : Prop :=
  ∀ c ∈ cs, Text.isAsciiBlank c = true

/-- The texts that spell a reference. -/
inductive Reference.Spells : Reference → List Char → Prop where
  /-- One or more blanks stand between `@theme` and the path. -/
  | atRule {path blanks : List Char} (dollar : Bool) (hpath : IsPath path)
      (hne : blanks ≠ []) (hblanks : IsBlankRun blanks) :
      Spells ⟨⟨String.ofList path⟩, .atRule, dollar⟩
        ('@' :: (themeWord ++ (blanks ++ ((if dollar then ['$'] else []) ++ path))))
  /-- Blanks may stand in front of the quoted path and behind it. -/
  | function {path before behind : List Char} {quote : Char} (hpath : IsPath path)
      (hbefore : IsBlankRun before) (hbehind : IsBlankRun behind)
      (hquote : quote = '\'' ∨ quote = '"') :
      Spells ⟨⟨String.ofList path⟩, .function, false⟩
        (themeWord ++ '(' :: (before ++ quote :: (path ++ quote :: (behind ++ [')']))))

/-- A reference is set off from what is around it: the text behind
    `@theme path` does not continue the path, and no word runs into `theme(`. -/
def Reference.SetOff (r : Reference) (before : Option Char) (rest : List Char) : Prop :=
  match r.form with
  | .atRule => continuesPath rest = false
  | .function => before.any isWordChar = false

/-- An opener stands in front of the text: `@theme`, or a free-standing `theme`
    with a parenthesis behind it, blanks in between or not. -/
def Opens (before : Option Char) (cs : List Char) : Prop :=
  '@' :: themeWord <+: cs
    ∨ before.any isWordChar = false
        ∧ ∃ blanks, IsBlankRun blanks ∧ themeWord ++ (blanks ++ ['(']) <+: cs

/-! ## Characters -/

theorem isPathChar_of_blank {c : Char} (h : Text.isAsciiBlank c = true) :
    isPathChar c = false := by
  simp only [Text.isAsciiBlank, Bool.or_eq_true, beq_iff_eq] at h
  rcases h with (((h | h) | h) | h) | h <;> subst h <;> decide

/-- Characters of names are no blanks. -/
theorem not_blank_of_isPathChar {c : Char} (h : isPathChar c = true) :
    Text.isAsciiBlank c = false := by
  by_contra hb
  rw [isPathChar_of_blank (by simpa using hb)] at h
  cases h

theorem ne_of_isPathChar {c d : Char} (h : isPathChar c = true) (hd : isPathChar d = false) :
    c ≠ d := by
  rintro rfl
  rw [h] at hd
  cases hd

/-- Blanks end at the first character that is none. -/
theorem dropWhile_blanks {blanks : List Char} (h : IsBlankRun blanks) {c : Char}
    (hc : Text.isAsciiBlank c = false) (rest : List Char) :
    (blanks ++ c :: rest).dropWhile Text.isAsciiBlank = c :: rest := by
  refine Text.dropWhile_run h fun d hd => ?_
  rw [← Option.some.inj (Option.mem_def.mp hd)]
  exact hc

/-- A text is its leading blanks and what is behind them. -/
theorem takeWhile_blanks_append (cs : List Char) :
    IsBlankRun (cs.takeWhile Text.isAsciiBlank)
      ∧ cs = cs.takeWhile Text.isAsciiBlank ++ cs.dropWhile Text.isAsciiBlank :=
  ⟨fun _ hc => List.mem_takeWhile_imp hc, List.takeWhile_append_dropWhile.symm⟩

/-! ## Behind an opener -/

/-- Behind blanks `@theme` looks for a dollar sign and reads a path. -/
theorem atReference_blanks {blanks : List Char} (hne : blanks ≠ [])
    (hblanks : IsBlankRun blanks) {c : Char} (hc : Text.isAsciiBlank c = false)
    (rest : List Char) :
    atReference (blanks ++ c :: rest) =
      match path? (if c == '$' then rest else c :: rest) with
      | some (path, last) => .ok (⟨⟨String.ofList path⟩, .atRule, c == '$'⟩, last)
      | none => .error .invalidUsage := by
  obtain ⟨b, bs, rfl⟩ := List.exists_cons_of_ne_nil hne
  rw [List.cons_append, atReference, if_pos (hblanks b List.mem_cons_self), ← List.cons_append,
    dropWhile_blanks hblanks hc]
  rfl

/-- A reference behind `@theme` begins with a blank. -/
theorem blank_of_atReference {cs : List Char} {found : Reference × List Char}
    (h : atReference cs = .ok found) :
    ∃ c tail, cs = c :: tail ∧ Text.isAsciiBlank c = true := by
  cases cs with
  | nil => cases h
  | cons c tail =>
      by_cases hc : Text.isAsciiBlank c = true
      · exact ⟨c, tail, rfl, hc⟩
      · rw [atReference, if_neg hc] at h
        cases h

/-- Behind `@theme` a reference is read exactly when blanks, a dollar sign or
    none, and a path follow. -/
theorem atReference_eq_ok_iff {cs rest : List Char} {r : Reference} :
    atReference cs = .ok (r, rest) ↔
      ∃ blanks path dollar, blanks ≠ [] ∧ IsBlankRun blanks ∧ IsPath path ∧
        continuesPath rest = false ∧ r = ⟨⟨String.ofList path⟩, .atRule, dollar⟩ ∧
        cs = blanks ++ ((if dollar then ['$'] else []) ++ (path ++ rest)) := by
  constructor
  · intro h
    obtain ⟨b, bs, rfl, hb⟩ := blank_of_atReference h
    obtain ⟨hblanks, hcs⟩ := takeWhile_blanks_append (b :: bs)
    have hne : (b :: bs).takeWhile Text.isAsciiBlank ≠ [] := by
      rw [List.takeWhile_cons_of_pos hb]
      exact List.cons_ne_nil _ _
    have hstop := Text.stop_dropWhile Text.isAsciiBlank (b :: bs)
    cases hdrop : (b :: bs).dropWhile Text.isAsciiBlank with
    | nil =>
        -- Only blanks: there is no path behind them.
        rw [atReference, if_pos hb, hdrop] at h
        cases h
    | cons c tail =>
        rw [hdrop] at hcs hstop
        rw [hcs, atReference_blanks hne hblanks (hstop c rfl)] at h
        split at h
        · rename_i path last hp
          obtain ⟨rfl, rfl⟩ := Prod.mk.inj (Except.ok.inj h)
          obtain ⟨hspelled, hpath, hrest⟩ := path?_eq_some_iff.mp hp
          refine ⟨_, path, _, hne, hblanks, hpath, hrest, rfl, ?_⟩
          rw [← hspelled]
          by_cases hd : (c == '$') = true
          · rw [if_pos hd, if_pos hd, ← beq_iff_eq.mp hd]
            exact hcs
          · rw [if_neg hd, if_neg hd]
            exact hcs
        · cases h
  · rintro ⟨blanks, path, dollar, hne, hblanks, hpath, hrest, rfl, rfl⟩
    have hread : path? (path ++ rest) = some (path, rest) :=
      path?_eq_some_iff.mpr ⟨rfl, hpath, hrest⟩
    cases dollar with
    | true =>
        show atReference (blanks ++ '$' :: (path ++ rest)) = _
        rw [atReference_blanks hne hblanks (by decide)]
        show (match path? (path ++ rest) with
          | some (path, last) => _
          | none => _) = _
        rw [hread]
        rfl
    | false =>
        obtain ⟨c, cs, rfl, hc⟩ := hpath.cons
        have hdollar : (c == '$') = false :=
          beq_eq_false_iff_ne.mpr (ne_of_isPathChar hc (by decide))
        show atReference (blanks ++ c :: (cs ++ rest)) = _
        rw [atReference_blanks hne hblanks (not_blank_of_isPathChar hc), hdollar]
        show (match path? (c :: cs ++ rest) with
          | some (path, last) => _
          | none => _) = _
        rw [hread]

/-- Behind `theme(` a reference is read exactly when a path in matching quotes
    and a closing parenthesis follow, with blanks in between or not. -/
theorem functionReference_eq_ok_iff {cs rest : List Char} {r : Reference} :
    functionReference cs = .ok (r, rest) ↔
      ∃ before quote path behind, IsBlankRun before ∧ (quote = '\'' ∨ quote = '"') ∧
        IsPath path ∧ IsBlankRun behind ∧ r = ⟨⟨String.ofList path⟩, .function, false⟩ ∧
        cs = before ++ quote :: (path ++ quote :: (behind ++ ')' :: rest)) := by
  constructor
  · intro h
    rw [functionReference] at h
    obtain ⟨hbefore, hcs⟩ := takeWhile_blanks_append cs
    split at h
    · rename_i quote spelled hdrop
      rw [hdrop] at hcs
      by_cases hquote : quote = '\'' ∨ quote = '"'
      · rw [if_pos hquote] at h
        split at h
        · rename_i path close last hp
          obtain ⟨hspelled, hpath, -⟩ := path?_eq_some_iff.mp hp
          by_cases hclose : close = quote
          · rw [if_pos hclose] at h
            obtain ⟨hbehind, hlast⟩ := takeWhile_blanks_append last
            split at h
            · rename_i tail hparen
              obtain ⟨rfl, rfl⟩ := Prod.mk.inj (Except.ok.inj h)
              rw [hparen] at hlast
              refine ⟨_, quote, path, _, hbefore, hquote, hpath, hbehind, rfl, ?_⟩
              rw [← hlast, ← hclose, ← hspelled, hclose]
              exact hcs
            · cases h
          · rw [if_neg hclose] at h
            cases h
        · cases h
      · rw [if_neg hquote] at h
        cases h
    · cases h
  · rintro ⟨before, quote, path, behind, hbefore, hquote, hpath, hbehind, rfl, rfl⟩
    have hblank : Text.isAsciiBlank quote = false := by
      rcases hquote with rfl | rfl <;> decide
    -- A quote neither belongs to a name nor is a dot.
    have hstop : continuesPath (quote :: (behind ++ ')' :: rest)) = false := by
      rcases hquote with rfl | rfl <;> rfl
    have hread : path? (path ++ quote :: (behind ++ ')' :: rest))
        = some (path, quote :: (behind ++ ')' :: rest)) :=
      path?_eq_some_iff.mpr ⟨rfl, hpath, hstop⟩
    rw [functionReference, dropWhile_blanks hbefore hblank]
    dsimp only
    rw [if_pos hquote, hread]
    dsimp only
    rw [if_pos rfl, dropWhile_blanks hbehind (by decide)]
    rfl

/-! ## At an opener -/

/-- Of the character in front of a text only its kind matters. -/
theorem opener?_congr {before other : Option Char}
    (h : before.any isWordChar = other.any isWordChar) (cs : List Char) :
    opener? before cs = opener? other cs := by
  rw [opener?.eq_def, opener?.eq_def, h]

theorem themeWord_append (rest : List Char) :
    themeWord ++ rest = 't' :: 'h' :: 'e' :: 'm' :: 'e' :: rest := rfl

theorem opener?_atTheme (before : Option Char) (rest : List Char) :
    opener? before ('@' :: (themeWord ++ rest)) = some <$> atReference rest := by
  rw [themeWord_append]
  rfl

theorem opener?_function {before : Option Char} (hfree : before.any isWordChar = false)
    (rest : List Char) :
    opener? before (themeWord ++ '(' :: rest) = some <$> functionReference rest := by
  rw [themeWord_append]
  show (if before.any isWordChar = true then _ else some <$> functionReference rest) = _
  rw [hfree, if_neg Bool.false_ne_true]

/-- A free-standing `theme` opens exactly where blanks and a parenthesis follow. -/
theorem opens_theme_iff {before : Option Char} {rest : List Char} :
    Opens before (themeWord ++ rest)
      ↔ before.any isWordChar = false
        ∧ (rest.dropWhile Text.isAsciiBlank).head? = some '(' := by
  rw [Opens]
  constructor
  · rintro (hat | ⟨hfree, blanks, hblanks, hprefix⟩)
    · rw [themeWord_append, List.cons_prefix_cons] at hat
      exact absurd hat.1 (by decide)
    · refine ⟨hfree, ?_⟩
      obtain ⟨tail, heq⟩ := (List.prefix_append_right_inj _).mp hprefix
      rw [← heq, List.append_assoc]
      show ((blanks ++ '(' :: tail).dropWhile _).head? = _
      rw [dropWhile_blanks hblanks (by decide)]
      rfl
  · rintro ⟨hfree, hparen⟩
    obtain ⟨hblanks, hrest⟩ := takeWhile_blanks_append rest
    refine Or.inr ⟨hfree, _, hblanks, (List.prefix_append_right_inj _).mpr ?_⟩
    cases hdrop : rest.dropWhile Text.isAsciiBlank with
    | nil =>
        rw [hdrop] at hparen
        cases hparen
    | cons c tail =>
        rw [hdrop] at hparen hrest
        rw [Option.some.inj hparen] at hrest
        refine ⟨tail, ?_⟩
        rw [List.append_assoc]
        exact hrest.symm

/-- **REFERENCES**: one is read exactly when the text begins with a spelling of
    it and it is set off from what is around it. -/
theorem opener?_eq_some_iff {before : Option Char} {cs rest : List Char} {r : Reference} :
    opener? before cs = .ok (some (r, rest))
      ↔ ∃ text, r.Spells text ∧ cs = text ++ rest ∧ r.SetOff before rest := by
  constructor
  · intro h
    rw [opener?.eq_def] at h
    split at h
    · rename_i tail
      obtain ⟨found, hread, hfound⟩ := Outcome.map_eq_ok.mp h
      rw [Option.some.inj hfound] at hread
      obtain ⟨blanks, path, dollar, hne, hblanks, hpath, hrest, rfl, rfl⟩ :=
        atReference_eq_ok_iff.mp hread
      refine ⟨_, .atRule dollar hpath hne hblanks, ?_, hrest⟩
      rw [List.cons_append, List.append_assoc, List.append_assoc, List.append_assoc,
        themeWord_append]
    · rename_i tail
      by_cases hword : before.any isWordChar = true
      · rw [if_pos hword] at h
        cases h
      · rw [if_neg hword] at h
        split at h
        · rename_i inside
          obtain ⟨found, hread, hfound⟩ := Outcome.map_eq_ok.mp h
          rw [Option.some.inj hfound] at hread
          obtain ⟨front, quote, path, behind, hfront, hquote, hpath, hbehind, rfl, rfl⟩ :=
            functionReference_eq_ok_iff.mp hread
          refine ⟨_, .function hpath hfront hbehind hquote, ?_, Bool.eq_false_iff.mpr hword⟩
          rw [themeWord_append]
          simp only [List.append_assoc, List.cons_append, List.nil_append]
        · split at h <;> cases h
        · cases h
    · cases h
  · rintro ⟨text, hspells, rfl, hset⟩
    cases hspells with
    | atRule dollar hpath hne hblanks =>
        rw [List.cons_append, List.append_assoc, List.append_assoc, List.append_assoc,
          opener?_atTheme,
          atReference_eq_ok_iff.mpr ⟨_, _, dollar, hne, hblanks, hpath, hset, rfl, rfl⟩]
        rfl
    | function hpath hbefore hbehind hquote =>
        simp only [List.append_assoc, List.cons_append, List.nil_append]
        rw [opener?_function hset,
          functionReference_eq_ok_iff.mpr ⟨_, _, _, _, hbefore, hquote, hpath, hbehind, rfl, rfl⟩]
        rfl

/-- **PLAIN CHARACTERS**: a character is taken as it is exactly when no opener
    stands there. -/
theorem opener?_eq_none_iff {before : Option Char} {cs : List Char} :
    opener? before cs = .ok none ↔ ¬ Opens before cs := by
  rw [opener?.eq_def]
  split
  · rename_i tail
    constructor
    · intro h
      obtain ⟨found, -, hfound⟩ := Outcome.map_eq_ok.mp h
      cases hfound
    · intro h
      exact absurd (Or.inl ⟨tail, rfl⟩) h
  · rename_i tail
    rw [← themeWord_append, opens_theme_iff]
    by_cases hword : before.any isWordChar = true
    · rw [if_pos hword, hword]
      exact iff_of_true rfl fun h => absurd h.1.symm Bool.false_ne_true
    · rw [if_neg hword, Bool.eq_false_iff.mpr hword, eq_self_iff_true, true_and]
      split
      · rename_i inside
        constructor
        · intro h
          obtain ⟨found, -, hfound⟩ := Outcome.map_eq_ok.mp h
          cases hfound
        · intro h
          exact absurd rfl h
      · rename_i c more hparen
        by_cases hblank : Text.isAsciiBlank c = true
        · rw [hblank, Bool.true_and]
          by_cases hhead : (((c :: more).dropWhile Text.isAsciiBlank).head? == some '(') = true
          · rw [if_pos hhead]
            exact iff_of_false (fun h => by cases h) (not_not_intro (beq_iff_eq.mp hhead))
          · rw [if_neg hhead]
            exact iff_of_true rfl fun h => hhead (beq_iff_eq.mpr h)
        · rw [Bool.eq_false_iff.mpr hblank, Bool.false_and, if_neg Bool.false_ne_true,
            List.dropWhile_cons_of_neg hblank]
          exact iff_of_true rfl fun h => hparen (Option.some.inj h)
      · exact iff_of_true rfl fun h => by cases h
  · rename_i hat htheme
    refine iff_of_true rfl ?_
    rintro (⟨tail, rfl⟩ | ⟨-, blanks, -, tail, rfl⟩)
    · exact hat _ rfl
    · exact htheme _ rfl

end ThemeTokens
