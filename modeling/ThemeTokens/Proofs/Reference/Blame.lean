import Mathlib
import ThemeTokens.Proofs.Reference.Lossless

/-! # Which opener is to blame

    The scanner goes over a value from left to right: over a string at once,
    over a reference at once, and otherwise over one character.  Said of the
    text alone, these are the steps between the positions in a value, and at
    each position either an opener stands or none does.  A value is read
    exactly when every opener that is reached begins a reference; otherwise the
    leftmost that does not is to blame, and what follows it says for what
    (`parse_blames`). -/

namespace ThemeTokens

/-! ## Strings -/

/-- Nothing here ends the string.  What stands behind a backslash does not
    count. -/
inductive InString (quote : Char) : List Char → Prop where
  | nil : InString quote []
  | plain {c : Char} {cs : List Char} (hquote : c ≠ quote) (hslash : c ≠ '\\')
      (behind : InString quote cs) : InString quote (c :: cs)
  | escaped (c : Char) {cs : List Char} (behind : InString quote cs) :
      InString quote ('\\' :: c :: cs)

/-- Behind its opening quote a string ends at the next one that counts, or with
    the text. -/
inductive StringEnds (quote : Char) : List Char → List Char → Prop where
  | closed {inside : List Char} (hinside : InString quote inside) (rest : List Char) :
      StringEnds quote (inside ++ [quote]) rest
  | unclosed {inside : List Char} (hinside : InString quote inside) :
      StringEnds quote inside []
  | slash {inside : List Char} (hinside : InString quote inside) :
      StringEnds quote (inside ++ ['\\']) []

namespace StringEnds

variable {quote : Char} {inside rest : List Char}

theorem plain {c : Char} (hquote : c ≠ quote) (hslash : c ≠ '\\')
    (h : StringEnds quote inside rest) : StringEnds quote (c :: inside) rest := by
  cases h with
  | closed hinside => exact .closed (.plain hquote hslash hinside) rest
  | unclosed hinside => exact .unclosed (.plain hquote hslash hinside)
  | slash hinside => exact .slash (.plain hquote hslash hinside)

theorem escaped (c : Char) (h : StringEnds quote inside rest) :
    StringEnds quote ('\\' :: c :: inside) rest := by
  cases h with
  | closed hinside => exact .closed (.escaped c hinside) rest
  | unclosed hinside => exact .unclosed (.escaped c hinside)
  | slash hinside => exact .slash (.escaped c hinside)

end StringEnds

/-- A string is read to where it ends. -/
theorem stringEnds_stringRest (quote : Char) (cs : List Char) :
    StringEnds quote (stringRest quote cs).1 (stringRest quote cs).2 := by
  fun_induction stringRest quote cs with
  | case1 => exact .unclosed .nil
  | case2 => exact .slash .nil
  | case3 c cs inside rest heq ih =>
      rw [heq] at ih
      exact ih.escaped c
  | case4 cs hone htwo => exact .closed .nil cs
  | case5 c cs hone htwo hne inside rest heq ih =>
      rw [heq] at ih
      have hslash : c ≠ '\\' := by
        rintro rfl
        cases cs with
        | nil => exact hone rfl rfl
        | cons d ds => exact htwo d ds rfl rfl
      exact ih.plain hne hslash

/-- What does not end the string belongs to it. -/
theorem stringRest_inString {quote : Char} {inside : List Char}
    (hinside : InString quote inside) (cs : List Char) :
    stringRest quote (inside ++ cs)
      = (inside ++ (stringRest quote cs).1, (stringRest quote cs).2) := by
  induction hinside with
  | nil => rfl
  | plain hne hslash _ ih =>
      rw [List.cons_append, stringRest_cons hslash, if_neg hne, ih]
      rfl
  | escaped c _ ih =>
      rw [List.cons_append, List.cons_append, stringRest, ih]
      rfl

/-- **STRINGS**: the scanner leaves a string where it ends. -/
theorem stringRest_eq_iff {quote : Char} (hquote : quote ≠ '\\') {cs inside rest : List Char} :
    stringRest quote cs = (inside, rest)
      ↔ cs = inside ++ rest ∧ StringEnds quote inside rest := by
  constructor
  · intro h
    have hends := stringEnds_stringRest quote cs
    have hsplit := stringRest_append quote cs
    rw [h] at hends hsplit
    exact ⟨hsplit.symm, hends⟩
  · rintro ⟨rfl, hends⟩
    cases hends with
    | closed hinside =>
        rw [List.append_assoc, stringRest_inString hinside, List.singleton_append,
          stringRest_cons hquote, if_pos rfl]
    | unclosed hinside =>
        rw [stringRest_inString hinside, stringRest, List.append_nil]
    | slash hinside =>
        rw [List.append_assoc, stringRest_inString hinside, List.append_nil, stringRest]

/-! ## Openers and what they begin -/

/-- A spelling of a reference stands at the front. -/
def BeginsReference (cs : List Char) : Prop :=
  ∃ r text, Reference.Spells r text ∧ text <+: cs

/-- What is wrong with an opener that begins no reference. -/
def Blames (cs : List Char) (fault : ReferenceFault) : Prop :=
  (fault = .missingSpace ↔
    ∃ c rest, cs = '@' :: (themeWord ++ c :: rest) ∧ Text.isAsciiBlank c = false) ∧
  (fault = .spaceBeforeParenthesis ↔
    ∃ blanks, blanks ≠ [] ∧ IsBlankRun blanks ∧ themeWord ++ (blanks ++ ['(']) <+: cs)

/-- There is only one thing to blame an opener for. -/
theorem Blames.unique {cs : List Char} {fault other : ReferenceFault} (h : Blames cs fault)
    (hother : Blames cs other) : fault = other := by
  have hmissing := h.1.trans hother.1.symm
  have hspace := h.2.trans hother.2.symm
  cases fault with
  | missingSpace => exact (hmissing.mp rfl).symm
  | spaceBeforeParenthesis => exact (hspace.mp rfl).symm
  | invalidUsage =>
      cases other with
      | missingSpace => cases hmissing.mpr rfl
      | spaceBeforeParenthesis => cases hspace.mpr rfl
      | invalidUsage => rfl

section Openers

variable {before : Option Char} {cs : List Char}

/-- Where a path begins a longest one does. -/
theorem exists_path? {path : List Char} (hpath : IsPath path) (more : List Char) :
    ∃ longest rest, path? (path ++ more) = some (longest, rest) := by
  obtain ⟨c, tail, rfl, hc⟩ := hpath.cons
  rw [path?_eq, List.cons_append, List.takeWhile_cons_of_pos hc, List.isEmpty_cons,
    if_neg Bool.false_ne_true]
  split
  · split
    · exact ⟨_, _, rfl⟩
    · exact ⟨_, _, rfl⟩
  · exact ⟨_, _, rfl⟩

/-- An opener is read as a reference exactly when it begins one. -/
theorem exists_opener?_iff :
    (∃ found, opener? before cs = .ok (some found)) ↔ Opens before cs ∧ BeginsReference cs := by
  constructor
  · rintro ⟨⟨r, rest⟩, h⟩
    refine ⟨?_, ?_⟩
    · by_contra hopens
      cases h.symm.trans (opener?_eq_none_iff.mpr hopens)
    · obtain ⟨text, hspells, rfl, -⟩ := opener?_eq_some_iff.mp h
      exact ⟨r, text, hspells, rest, rfl⟩
  · rintro ⟨hopens, r, text, hspells, more, rfl⟩
    cases hspells with
    | @atRule path blanks dollar hpath hne hblanks =>
        -- The path may be longer than the one spelled.
        obtain ⟨longest, rest, hread⟩ := exists_path? hpath more
        obtain ⟨hsplit, hlongest, hrest⟩ := path?_eq_some_iff.mp hread
        refine ⟨(_, rest), opener?_eq_some_iff.mpr
          ⟨_, .atRule dollar hlongest hne hblanks, ?_, hrest⟩⟩
        simp only [List.cons_append, List.append_assoc, hsplit]
    | function hpath hbefore hbehind hquote =>
        have hfree : before.any isWordChar = false := by
          rw [List.append_assoc] at hopens
          exact (opens_theme_iff.mp hopens).1
        exact ⟨(_, more), opener?_eq_some_iff.mpr
          ⟨_, .function hpath hbefore hbehind hquote, rfl, hfree⟩⟩

/-- Behind `theme(` there is one thing to blame. -/
theorem functionReference_fault {fault : ReferenceFault}
    (h : functionReference cs = .error fault) : fault = .invalidUsage := by
  unfold functionReference at h
  split at h
  · split at h
    · split at h
      · split at h
        · split at h
          · cases h
          · exact (Except.error.inj h).symm
        · exact (Except.error.inj h).symm
      · exact (Except.error.inj h).symm
    · exact (Except.error.inj h).symm
  · exact (Except.error.inj h).symm

/-- Behind `@theme` a missing blank is blamed first. -/
theorem atReference_fault {fault : ReferenceFault} (h : atReference cs = .error fault) :
    fault ≠ .spaceBeforeParenthesis
      ∧ (fault = .missingSpace ↔ ∃ c rest, cs = c :: rest ∧ Text.isAsciiBlank c = false) := by
  cases cs with
  | nil =>
      obtain rfl := Except.error.inj h
      exact ⟨by decide, ReferenceFault.noConfusion, by rintro ⟨c, rest, hcs, -⟩; cases hcs⟩
  | cons c rest =>
      rw [atReference] at h
      split at h
      · rename_i hblank
        have hfault : fault = .invalidUsage := by
          dsimp only at h
          split at h
          · cases h
          · exact (Except.error.inj h).symm
        rw [hfault]
        refine ⟨by decide, ReferenceFault.noConfusion, ?_⟩
        rintro ⟨d, more, hcs, hd⟩
        rw [(List.cons.inj hcs).1, hd] at hblank
        cases hblank
      · rename_i hblank
        obtain rfl := Except.error.inj h
        exact ⟨by decide, fun _ => ⟨c, rest, rfl, Bool.eq_false_iff.mpr hblank⟩, fun _ => rfl⟩

/-- An opener fails for what the text behind it is to blame for. -/
theorem blames_of_opener? {fault : ReferenceFault} (h : opener? before cs = .error fault) :
    Blames cs fault := by
  -- Neither shape is the other, so each opener has only its own faults.
  have hat : ∀ rest, ¬ ∃ blanks, blanks ≠ [] ∧ IsBlankRun blanks
      ∧ themeWord ++ (blanks ++ ['(']) <+: '@' :: rest := by
    rintro rest ⟨blanks, -, -, hlead⟩
    exact absurd (List.cons_prefix_cons.mp hlead).1 (by decide)
  have htheme : ∀ rest, ¬ ∃ c more, themeWord ++ rest = '@' :: (themeWord ++ c :: more)
      ∧ Text.isAsciiBlank c = false := by
    rintro rest ⟨c, more, heq, -⟩
    exact absurd (List.cons.inj heq).1 (by decide)
  rw [opener?.eq_def] at h
  split at h
  · rename_i rest
    obtain ⟨hspace, hmissing⟩ := atReference_fault (Outcome.map_eq_error.mp h)
    refine ⟨hmissing.trans ?_, iff_of_false hspace (hat _)⟩
    constructor
    · rintro ⟨c, more, rfl, hc⟩
      exact ⟨c, more, rfl, hc⟩
    · rintro ⟨c, more, heq, hc⟩
      have hsplit : themeWord ++ rest = themeWord ++ c :: more := (List.cons.inj heq).2
      exact ⟨c, more, List.append_cancel_left hsplit, hc⟩
  · rename_i rest
    rw [← themeWord_append]
    split at h
    · cases h
    split at h
    · rename_i inside
      rw [functionReference_fault (Outcome.map_eq_error.mp h)]
      refine ⟨iff_of_false (by decide) (htheme _), iff_of_false (by decide) ?_⟩
      rintro ⟨blanks, hne, hblanks, hlead⟩
      obtain ⟨b, bs, rfl⟩ := List.exists_cons_of_ne_nil hne
      have hb := hblanks b List.mem_cons_self
      rw [List.prefix_append_right_inj, List.cons_append, List.cons_prefix_cons] at hlead
      rw [hlead.1] at hb
      cases hb
    · rename_i c more hparen
      split at h
      · rename_i hspace
        rw [Bool.and_eq_true, beq_iff_eq] at hspace
        obtain ⟨hblank, hhead⟩ := hspace
        obtain rfl := Except.error.inj h
        refine ⟨iff_of_false (by decide) (htheme _), iff_of_true rfl ?_⟩
        obtain ⟨hblanks, hsplit⟩ := takeWhile_blanks_append (c :: more)
        obtain ⟨tail, htail⟩ := List.head?_eq_some_iff.mp hhead
        refine ⟨_, ?_, hblanks, (List.prefix_append_right_inj _).mpr ⟨tail, ?_⟩⟩
        · rw [List.takeWhile_cons_of_pos hblank]
          exact List.cons_ne_nil _ _
        · rw [htail] at hsplit
          rw [List.append_assoc]
          exact hsplit.symm
      · cases h
    · cases h
  · cases h

/-- **FAULTS**: an opener is an error exactly when it begins no reference. -/
theorem opener?_eq_error_iff {fault : ReferenceFault} :
    opener? before cs = .error fault
      ↔ (Opens before cs ∧ ¬ BeginsReference cs) ∧ Blames cs fault := by
  constructor
  · intro h
    have hopens : Opens before cs := by
      by_contra hopens
      cases h.symm.trans (opener?_eq_none_iff.mpr hopens)
    refine ⟨⟨hopens, fun hbegins => ?_⟩, blames_of_opener? h⟩
    obtain ⟨found, hfound⟩ := exists_opener?_iff.mpr ⟨hopens, hbegins⟩
    cases h.symm.trans hfound
  · rintro ⟨⟨hopens, hbegins⟩, hblames⟩
    cases h : opener? before cs with
    | error other => rw [hblames.unique (blames_of_opener? h)]
    | ok found =>
        cases found with
        | none => exact absurd hopens (opener?_eq_none_iff.mp h)
        | some found => exact absurd (exists_opener?_iff.mp ⟨found, h⟩).2 hbegins

/-- What stands in front matters to `theme(` only. -/
theorem opener?_of_head (h : cs.head? ≠ some 't') (other : Option Char) :
    opener? before cs = opener? other cs := by
  rw [opener?.eq_def, opener?.eq_def]
  split
  · rfl
  · exact absurd rfl h
  · rfl

end Openers

/-! ## Positions -/

/-- A place in a value: what is in front of it, and what is not. -/
structure Position where
  front : List Char
  rest : List Char

namespace Position

/-- An opener stands here. -/
def IsOpener (p : Position) : Prop :=
  Opens p.front.getLast? p.rest

/-- An opener stands here that begins no reference. -/
def IsFaulty (p : Position) : Prop :=
  p.IsOpener ∧ ¬ BeginsReference p.rest

/-- The reference is spelled here, set off from what is around it. -/
def Reads (p : Position) (r : Reference) : Prop :=
  ∃ text rest, r.Spells text ∧ p.rest = text ++ rest ∧ r.SetOff p.front.getLast? rest

/-- One step to the right: over a string, over a reference, or over a character
    that begins neither. -/
inductive Step : Position → Position → Prop where
  | string {front inside rest : List Char} {quote : Char} (hquote : quote = '\'' ∨ quote = '"')
      (hends : StringEnds quote inside rest) :
      Step ⟨front, quote :: (inside ++ rest)⟩ ⟨front ++ quote :: inside, rest⟩
  | reference {front text rest : List Char} {r : Reference} (hspells : r.Spells text)
      (hset : r.SetOff front.getLast? rest) :
      Step ⟨front, text ++ rest⟩ ⟨front ++ text, rest⟩
  | char {front rest : List Char} {c : Char} (hquote : ¬ (c = '\'' ∨ c = '"'))
      (hplain : ¬ (Opens front.getLast? (c :: rest) ∧ BeginsReference (c :: rest))) :
      Step ⟨front, c :: rest⟩ ⟨front ++ [c], rest⟩

/-- The position comes before the other one. -/
def Before (p q : Position) : Prop :=
  p.front.length < q.front.length

/-! ## Single steps -/

section Steps

variable {front tail rest : List Char} {c : Char} {q : Position}

/-- No spelling begins with a quote. -/
theorem not_quote_of_spells {r : Reference} {text : List Char} (h : r.Spells text)
    (hcs : text ++ rest = c :: tail) : ¬ (c = '\'' ∨ c = '"') := by
  obtain ⟨more, rfl⟩ := h.head
  rw [← (List.cons.inj hcs).1]
  split
  · decide
  · decide

/-- From a quotation mark the only step is over the whole string. -/
theorem step_string_iff (hquote : c = '\'' ∨ c = '"') :
    Step ⟨front, c :: tail⟩ q
      ↔ q = ⟨front ++ c :: (stringRest c tail).1, (stringRest c tail).2⟩ := by
  have hslash : c ≠ '\\' := by
    rcases hquote with rfl | rfl
    · decide
    · decide
  constructor
  · intro h
    generalize hp : (⟨front, c :: tail⟩ : Position) = p at h
    cases h with
    | string _ hends =>
        obtain ⟨rfl, hcs⟩ := Position.mk.inj hp
        obtain ⟨rfl, rfl⟩ := List.cons.inj hcs
        rw [(stringRest_eq_iff hslash).mpr ⟨rfl, hends⟩]
    | reference hspells hset =>
        exact absurd hquote (not_quote_of_spells hspells (Position.mk.inj hp).2.symm)
    | char hnot hplain =>
        rw [← (List.cons.inj (Position.mk.inj hp).2).1] at hnot
        exact absurd hquote hnot
  · rintro rfl
    have hends := stringEnds_stringRest c tail
    have hstep : Step ⟨front, c :: ((stringRest c tail).1 ++ (stringRest c tail).2)⟩ _ :=
      .string hquote hends
    rwa [stringRest_append] at hstep

/-- Where a reference is spelled the step goes over it. -/
theorem step_reference_iff {text : List Char} {r : Reference} (hspells : r.Spells text)
    (hset : r.SetOff front.getLast? rest) :
    Step ⟨front, text ++ rest⟩ q ↔ q = ⟨front ++ text, rest⟩ := by
  have hread := opener?_eq_some_iff.mpr ⟨text, hspells, rfl, hset⟩
  constructor
  · intro hstep
    generalize hp : (⟨front, text ++ rest⟩ : Position) = p at hstep
    cases hstep with
    | string hquote hends =>
        exact absurd hquote (not_quote_of_spells hspells (Position.mk.inj hp).2)
    | reference hspells' hset' =>
        obtain ⟨rfl, hcs⟩ := Position.mk.inj hp
        have hread' := opener?_eq_some_iff.mpr ⟨_, hspells', hcs, hset'⟩
        obtain ⟨rfl, rfl⟩ := Prod.mk.inj (Option.some.inj (Except.ok.inj (hread.symm.trans hread')))
        rw [List.append_cancel_right hcs]
    | char hquote hplain =>
        obtain ⟨rfl, hcs⟩ := Position.mk.inj hp
        rw [hcs] at hread
        exact absurd (exists_opener?_iff.mp ⟨_, hread⟩) hplain
  · rintro rfl
    exact .reference hspells hset

/-- Everywhere else it goes over one character. -/
theorem step_char_iff (hquote : ¬ (c = '\'' ∨ c = '"'))
    (h : ¬ ∃ found, opener? front.getLast? (c :: tail) = .ok (some found)) :
    Step ⟨front, c :: tail⟩ q ↔ q = ⟨front ++ [c], tail⟩ := by
  constructor
  · intro hstep
    generalize hp : (⟨front, c :: tail⟩ : Position) = p at hstep
    cases hstep with
    | string hq hends =>
        rw [← (List.cons.inj (Position.mk.inj hp).2).1] at hq
        exact absurd hq hquote
    | reference hspells hset =>
        obtain ⟨rfl, hcs⟩ := Position.mk.inj hp
        exact absurd ⟨_, opener?_eq_some_iff.mpr ⟨_, hspells, hcs, hset⟩⟩ h
    | char _ hplain =>
        obtain ⟨rfl, hcs⟩ := Position.mk.inj hp
        obtain ⟨rfl, rfl⟩ := List.cons.inj hcs
        rfl
  · rintro rfl
    exact .char hquote (mt exists_opener?_iff.mpr h)

/-- No step leaves the text. -/
theorem Step.text {p q : Position} (h : Step p q) : p.front ++ p.rest = q.front ++ q.rest := by
  cases h with
  | string => simp
  | reference => simp
  | char => simp

/-- Every step goes forward. -/
theorem Step.before {p q : Position} (h : Step p q) : p.Before q := by
  cases h with
  | string => simp [Before]
  | reference hspells =>
      obtain ⟨tail, rfl⟩ := hspells.head
      simp [Before]
  | char => simp [Before]

end Steps

/-! ## Runs -/

/-- The second position is the first one, or to the right of it. -/
def Reaches : Position → Position → Prop :=
  Relation.ReflTransGen Step

/-- The position is reached from the beginning of the text. -/
def Reached (text : String) (p : Position) : Prop :=
  Reaches ⟨[], text.toList⟩ p

theorem Reaches.text {p q : Position} (h : p.Reaches q) :
    p.front ++ p.rest = q.front ++ q.rest := by
  induction h with
  | refl => rfl
  | tail _ hstep ih => exact ih.trans hstep.text

/-- What is reached is never in front of where the steps began. -/
theorem Reaches.not_before {p q : Position} (h : p.Reaches q) : ¬ q.Before p := by
  induction h with
  | refl => exact Nat.lt_irrefl _
  | tail _ hstep ih =>
      intro hbefore
      exact ih (Nat.lt_trans hstep.before hbefore)

/-- A position with one way to go on reaches itself and what comes behind. -/
theorem reaches_iff {p next q : Position} (h : ∀ q, Step p q ↔ q = next) :
    p.Reaches q ↔ q = p ∨ next.Reaches q := by
  rw [Reaches, Relation.ReflTransGen.cases_head_iff]
  constructor
  · rintro (rfl | ⟨between, hstep, hrest⟩)
    · exact .inl rfl
    · rw [(h between).mp hstep] at hrest
      exact .inr hrest
  · rintro (rfl | hrest)
    · exact .inl rfl
    · exact .inr ⟨next, (h next).mpr rfl, hrest⟩

theorem reaches_nil_iff {front : List Char} {q : Position} :
    Reaches ⟨front, []⟩ q ↔ q = ⟨front, []⟩ := by
  constructor
  · intro h
    rcases Relation.ReflTransGen.cases_head_iff.mp h with h | ⟨next, hstep, -⟩
    · exact h.symm
    · have hbefore := hstep.before
      have htext := congrArg List.length hstep.text
      rw [List.length_append, List.length_append] at htext
      simp only [Before, List.length_nil] at hbefore htext
      omega
  · rintro rfl
    exact .refl

/-! ## What is in front -/

section Seen

variable (front : List Char) {rest : List Char} {c : Char}

/-- No word runs on from a string. -/
theorem seen_string {inside : List Char} (hquote : c = '\'' ∨ c = '"')
    (hends : StringEnds c inside rest) :
    opener? none rest = opener? (front ++ c :: inside).getLast? rest := by
  cases hends with
  | @closed inside _ _ =>
      refine opener?_congr ?_ rest
      have hlast : (front ++ c :: (inside ++ [c])).getLast? = some c := by
        rw [← List.cons_append, ← List.append_assoc, List.getLast?_concat]
      rw [hlast]
      rcases hquote with rfl | rfl
      · rfl
      · rfl
  | unclosed => rfl
  | slash => rfl

/-- No word runs on from a reference. -/
theorem seen_reference {r : Reference} {text : List Char} (hspells : r.Spells text)
    (hset : r.SetOff front.getLast? rest) :
    opener? none rest = opener? (front ++ text).getLast? rest := by
  cases hspells with
  | atRule =>
      refine opener?_of_head (fun hhead => ?_) _
      cases stop_of_continuesPath hset 't' hhead
  | @function path before behind quote =>
      refine opener?_congr ?_ rest
      have htext : front ++ (themeWord ++ '(' :: (before ++ quote :: (path ++ quote ::
            (behind ++ [')']))))
          = front ++ (themeWord ++ '(' :: (before ++ quote :: (path ++ quote :: behind)))
            ++ [')'] := by
        simp
      rw [htext, List.getLast?_concat]
      rfl

/-- Whether a word goes on is told by the last character in front. -/
theorem seen_char : opener? (some c) rest = opener? (front ++ [c]).getLast? rest := by
  rw [List.getLast?_concat]

end Seen

/-! ## The scanner -/

section Scanner

variable {before : Option Char} {cs : List Char}

/-- No opener begins with a quote. -/
theorem not_opens_quote {c : Char} (hquote : c = '\'' ∨ c = '"') (tail : List Char) :
    ¬ Opens before (c :: tail) := by
  refine opener?_eq_none_iff.mp ?_
  rcases hquote with rfl | rfl
  · rfl
  · rfl

theorem marks_fault {c : Char} {tail : List Char} (hquote : ¬ (c = '\'' ∨ c = '"'))
    {fault : ReferenceFault} (ho : opener? before (c :: tail) = .error fault) :
    marks before (c :: tail) = .error fault := by
  rw [marks, if_neg hquote]
  split
  · rename_i h
    rw [Except.error.inj (h.symm.trans ho)]
  · rename_i h
    cases h.symm.trans ho
  · rename_i h
    cases h.symm.trans ho

/-- **THE FIRST FAULT**: where the scanner fails it is at the leftmost faulty
    opener. -/
theorem exists_faulty (front : List Char) {fault : ReferenceFault}
    (hseen : opener? before cs = opener? front.getLast? cs) (h : marks before cs = .error fault) :
    ∃ p, Reaches ⟨front, cs⟩ p ∧ p.IsFaulty ∧ Blames p.rest fault
      ∧ ∀ q, Reaches ⟨front, cs⟩ q → q.IsFaulty → ¬ q.Before p := by
  -- What is reached behind a step that leaves no fault behind.
  have hbehind : ∀ {p next : Position}, (∀ q, Step p q ↔ q = next) → ¬ p.IsFaulty →
      (∃ p, next.Reaches p ∧ p.IsFaulty ∧ Blames p.rest fault
        ∧ ∀ q, next.Reaches q → q.IsFaulty → ¬ q.Before p) →
      ∃ q, p.Reaches q ∧ q.IsFaulty ∧ Blames q.rest fault
        ∧ ∀ other, p.Reaches other → other.IsFaulty → ¬ other.Before q := by
    rintro p next hstep hfine ⟨q, hreach, hfaulty, hblames, hleft⟩
    refine ⟨q, (reaches_iff hstep).mpr (.inr hreach), hfaulty, hblames, ?_⟩
    intro other hother hfault
    rcases (reaches_iff hstep).mp hother with rfl | hother
    · exact absurd hfault hfine
    · exact hleft other hother hfault
  induction before, cs using marks.induct generalizing front with
  | case1 before =>
      rw [marks] at h
      cases h
  | case2 before c tail hquote ih =>
      rw [marks_string hquote] at h
      have hnext := ih _ (seen_string front hquote (stringEnds_stringRest c tail))
        (Outcome.map_eq_error.mp h)
      exact hbehind (fun q => step_string_iff hquote) (fun hfaulty => not_opens_quote hquote _
        hfaulty.1) hnext
  | case3 before c tail hquote other ho =>
      obtain rfl : other = fault := Except.error.inj ((marks_fault hquote ho).symm.trans h)
      rw [hseen] at ho
      obtain ⟨hfaulty, hblames⟩ := opener?_eq_error_iff.mp ho
      exact ⟨_, .refl, hfaulty, hblames, fun q hq _ => hq.not_before⟩
  | case4 before c tail hquote r rest ho ih =>
      rw [marks_reference hquote ho] at h
      have hread := ho
      rw [hseen] at hread
      obtain ⟨text, hspells, hcs, hset⟩ := opener?_eq_some_iff.mp hread
      have hnext := ih _ (seen_reference front hspells hset) (Outcome.map_eq_error.mp h)
      rw [hcs]
      refine hbehind (fun q => step_reference_iff hspells hset) ?_ hnext
      exact fun hfaulty => hfaulty.2 ⟨r, text, hspells, rest, rfl⟩
  | case5 before c tail hquote ho ih =>
      rw [marks_char hquote (opener?_eq_none_iff.mp ho)] at h
      have hnext := ih _ (seen_char front) (Outcome.map_eq_error.mp h)
      rw [hseen] at ho
      refine hbehind (fun q => step_char_iff hquote ?_)
        (fun hfaulty => opener?_eq_none_iff.mp ho hfaulty.1) hnext
      rintro ⟨found, hfound⟩
      cases ho.symm.trans hfound

/-- **ALL OPENERS**: where the scanner does not fail it has read a reference at
    each opener, in order. -/
theorem exists_openers (front : List Char) {ms : List Mark}
    (hseen : opener? before cs = opener? front.getLast? cs) (h : marks before cs = .ok ms) :
    ∃ ps, (∀ p, p ∈ ps ↔ Reaches ⟨front, cs⟩ p ∧ p.IsOpener) ∧ ps.Pairwise Before
      ∧ List.Forall₂ Reads ps (ms.filterMap Mark.reference?) := by
  -- A step over no opener leaves all of them behind.
  have hbehind : ∀ {p next : Position} {rs : List Reference}, (∀ q, Step p q ↔ q = next) →
      ¬ p.IsOpener →
      (∃ ps, (∀ q, q ∈ ps ↔ next.Reaches q ∧ q.IsOpener) ∧ ps.Pairwise Before
        ∧ List.Forall₂ Reads ps rs) →
      ∃ ps, (∀ q, q ∈ ps ↔ p.Reaches q ∧ q.IsOpener) ∧ ps.Pairwise Before
        ∧ List.Forall₂ Reads ps rs := by
    rintro p next rs hstep hplain ⟨ps, hmem, hsorted, hreads⟩
    refine ⟨ps, fun q => ?_, hsorted, hreads⟩
    rw [hmem, reaches_iff hstep]
    constructor
    · rintro ⟨hreach, hopens⟩
      exact ⟨.inr hreach, hopens⟩
    · rintro ⟨rfl | hreach, hopens⟩
      · exact absurd hopens hplain
      · exact ⟨hreach, hopens⟩
  induction before, cs using marks.induct generalizing front ms with
  | case1 before =>
      rw [marks] at h
      obtain rfl := Except.ok.inj h
      refine ⟨[], fun p => iff_of_false List.not_mem_nil ?_, .nil, .nil⟩
      rintro ⟨hreach, hopens⟩
      rw [reaches_nil_iff.mp hreach] at hopens
      exact opener?_eq_none_iff.mp rfl hopens
  | case2 before c tail hquote ih =>
      rw [marks_string hquote] at h
      obtain ⟨more, hmore, rfl⟩ := Outcome.map_eq_ok.mp h
      have hnext := ih _ (seen_string front hquote (stringEnds_stringRest c tail)) hmore
      rw [List.filterMap_append, references_chars, List.nil_append]
      exact hbehind (fun q => step_string_iff hquote) (not_opens_quote hquote _) hnext
  | case3 before c tail hquote fault ho => cases (marks_fault hquote ho).symm.trans h
  | case4 before c tail hquote r rest ho ih =>
      rw [marks_reference hquote ho] at h
      obtain ⟨more, hmore, rfl⟩ := Outcome.map_eq_ok.mp h
      have hread := ho
      rw [hseen] at hread
      obtain ⟨text, hspells, hcs, hset⟩ := opener?_eq_some_iff.mp hread
      obtain ⟨ps, hmem, hsorted, hreads⟩ := ih _ (seen_reference front hspells hset) hmore
      have hopens := (exists_opener?_iff.mp ⟨_, hread⟩).1
      rw [hcs] at hopens ⊢
      refine ⟨⟨front, text ++ rest⟩ :: ps, fun q => ?_, List.pairwise_cons.mpr ⟨?_, hsorted⟩,
        .cons ⟨text, rest, hspells, rfl, hset⟩ hreads⟩
      · rw [List.mem_cons, hmem, reaches_iff fun q => step_reference_iff hspells hset]
        constructor
        · rintro (rfl | ⟨hreach, hq⟩)
          · exact ⟨.inl rfl, hopens⟩
          · exact ⟨.inr hreach, hq⟩
        · rintro ⟨rfl | hreach, hq⟩
          · exact .inl rfl
          · exact .inr ⟨hreach, hq⟩
      · intro q hq
        have hstep : Step ⟨front, text ++ rest⟩ ⟨front ++ text, rest⟩ := .reference hspells hset
        exact Nat.lt_of_lt_of_le hstep.before (Nat.not_lt.mp ((hmem q).mp hq).1.not_before)
  | case5 before c tail hquote ho ih =>
      rw [marks_char hquote (opener?_eq_none_iff.mp ho)] at h
      obtain ⟨more, hmore, rfl⟩ := Outcome.map_eq_ok.mp h
      have hnext := ih _ (seen_char front) hmore
      rw [hseen] at ho
      refine hbehind (fun q => step_char_iff hquote ?_) (opener?_eq_none_iff.mp ho) hnext
      rintro ⟨found, hfound⟩
      cases ho.symm.trans hfound

/-- No opener that was read is faulty. -/
theorem not_faulty_of_reads {p : Position} {ps : List Position} {rs : List Reference}
    (h : List.Forall₂ Reads ps rs) (hp : p ∈ ps) : ¬ p.IsFaulty := by
  induction h with
  | nil => cases hp
  | cons hread _ ih =>
      rcases List.mem_cons.mp hp with rfl | hp
      · obtain ⟨text, rest, hspells, hsplit, -⟩ := hread
        exact fun hfaulty => hfaulty.2 ⟨_, text, hspells, rest, hsplit.symm⟩
      · exact ih hp

end Scanner

/-- Two positions of one text are the same if none is before the other. -/
theorem eq_of_not_before {p q start : Position} (hp : start.Reaches p) (hq : start.Reaches q)
    (hpq : ¬ p.Before q) (hqp : ¬ q.Before p) : p = q := by
  have hlen : p.front.length = q.front.length :=
    Nat.le_antisymm (Nat.not_lt.mp hqp) (Nat.not_lt.mp hpq)
  obtain ⟨hfront, hrest⟩ := List.append_inj (hp.text.symm.trans hq.text) hlen
  obtain ⟨front, rest⟩ := p
  obtain ⟨front', rest'⟩ := q
  rw [Position.mk.injEq]
  exact ⟨hfront, hrest⟩

end Position

open Position

/-- A value is rejected for a fault of its marks, with its whole text. -/
theorem parse_eq_error_iff {text : String} {error : ThemeError} :
    ParsedValue.parse text = .error error
      ↔ ∃ fault, marks none text.toList = .error fault
        ∧ error = .malformedReference fault text none := by
  rw [ParsedValue.parse]
  split
  · rename_i ms hms
    refine iff_of_false (fun h => by cases h) ?_
    rintro ⟨fault, hfault, -⟩
    cases hms.symm.trans hfault
  · rename_i fault hfault
    constructor
    · intro h
      exact ⟨fault, hfault, (Except.error.inj h).symm⟩
    · rintro ⟨other, hother, rfl⟩
      rw [Except.error.inj (hfault.symm.trans hother)]

/-- **BLAME**: a value is rejected exactly when some opener in it begins no
    reference.  The error is that of the leftmost such opener.  A value that is
    not rejected has a reference for each opener, in order. -/
theorem parse_blames (text : String) :
    ((∃ error, ParsedValue.parse text = .error error)
        ↔ ∃ p, Reached text p ∧ p.IsFaulty)
      ∧ (∀ error, ParsedValue.parse text = .error error
        ↔ ∃ p fault, (Reached text p ∧ p.IsFaulty)
          ∧ (∀ q, Reached text q → q.IsFaulty → ¬ q.Before p)
          ∧ Blames p.rest fault ∧ error = .malformedReference fault text none)
      ∧ ∀ value, ParsedValue.parse text = .ok value →
        ∃ ps, (∀ p, p ∈ ps ↔ Reached text p ∧ p.IsOpener) ∧ ps.Pairwise Before
          ∧ List.Forall₂ Reads ps value.references := by
  have hopeners : ∀ value, ParsedValue.parse text = .ok value →
      ∃ ps, (∀ p, p ∈ ps ↔ Reached text p ∧ p.IsOpener) ∧ ps.Pairwise Before
        ∧ List.Forall₂ Reads ps value.references := by
    intro value h
    obtain ⟨ms, hms, rfl⟩ := parse_eq_ok h
    rw [ParsedValue.references, references_gather]
    exact exists_openers [] rfl hms
  have hfault : ∀ p, Reached text p → p.IsFaulty →
      ∃ fault, marks none text.toList = .error fault := by
    intro p hp hfaulty
    cases h : ParsedValue.parse text with
    | error error =>
        obtain ⟨fault, hfault, -⟩ := parse_eq_error_iff.mp h
        exact ⟨fault, hfault⟩
    | ok value =>
        obtain ⟨ps, hmem, -, hreads⟩ := hopeners value h
        exact absurd hfaulty (not_faulty_of_reads hreads ((hmem p).mpr ⟨hp, hfaulty.1⟩))
  refine ⟨⟨?_, ?_⟩, fun error => ⟨?_, ?_⟩, hopeners⟩
  · rintro ⟨error, h⟩
    obtain ⟨fault, hfault, -⟩ := parse_eq_error_iff.mp h
    obtain ⟨p, hp, hfaulty, -⟩ := exists_faulty [] rfl hfault
    exact ⟨p, hp, hfaulty⟩
  · rintro ⟨p, hp, hfaulty⟩
    obtain ⟨fault, hfault⟩ := hfault p hp hfaulty
    exact ⟨_, parse_eq_error_iff.mpr ⟨fault, hfault, rfl⟩⟩
  · intro h
    obtain ⟨fault, hfault, rfl⟩ := parse_eq_error_iff.mp h
    obtain ⟨p, hp, hfaulty, hblames, hleft⟩ := exists_faulty [] rfl hfault
    exact ⟨p, fault, ⟨hp, hfaulty⟩, hleft, hblames, rfl⟩
  · rintro ⟨p, fault, ⟨hp, hfaulty⟩, hleft, hblames, rfl⟩
    obtain ⟨other, hother⟩ := hfault p hp hfaulty
    obtain ⟨q, hq, hqfaulty, hqblames, hqleft⟩ := exists_faulty [] rfl hother
    -- Both are the leftmost one.
    obtain rfl := eq_of_not_before hp hq (hqleft p hp hfaulty) (hleft q hq hqfaulty)
    rw [hblames.unique hqblames]
    exact parse_eq_error_iff.mpr ⟨other, hother, rfl⟩

/-- A word that ends like an opener, an opener with a blank too many, and one
    with a blank too few. -/
def misspelled : String := "retheme('a') theme ('b') @themec"

theorem misspelled_blames :
    (∃ p fault, (Reached misspelled p ∧ p.IsFaulty)
      ∧ (∀ q, Reached misspelled q → q.IsFaulty → ¬ q.Before p) ∧ Blames p.rest fault
      ∧ ThemeError.malformedReference .spaceBeforeParenthesis misspelled none
        = .malformedReference fault misspelled none)
    ∧ ∃ value, ParsedValue.parse loose = .ok value
      ∧ ∃ ps, (∀ p, p ∈ ps ↔ Reached loose p ∧ p.IsOpener) ∧ ps.Pairwise Before
        ∧ List.Forall₂ Reads ps value.references := by
  have hrejected : ParsedValue.parse misspelled
      = .error (.malformedReference .spaceBeforeParenthesis misspelled none) := by
    decide +kernel
  have haccepted : (ParsedValue.parse loose).toOption.isSome = true := by
    decide +kernel
  obtain ⟨value, hvalue⟩ := Outcome.exists_ok_of_isSome haccepted
  exact ⟨((parse_blames misspelled).2.1 _).mp hrejected, value, hvalue,
    (parse_blames loose).2.2 value hvalue⟩

end ThemeTokens
