import ThemeTokens.Proofs.Reference.Mention
import ThemeTokens.Reference.Substitute
import ThemeTokens.Stylesheet.Basic

/-! # What substitution writes

    A value with references is the sequence of its segments, so what takes its
    place is the sequence of their texts, and there is one only if every path
    has a text.  Substitution asks for the texts one after the other and may
    fail on the way; where it does not fail it writes just that
    (`substitute_text?`). -/

namespace ThemeTokens

/-- The text of a segment, where `textOf` gives the text of a path. -/
def Segment.spelled? (textOf : TokenPath → Option String) : Segment → Option String
  | .literal text => some text
  | .reference r => textOf r.path

/-- The segments of a value written out, if every path has a text. -/
def Segment.spellAll? (textOf : TokenPath → Option String) (segments : List Segment) :
    Option String :=
  (segments.mapM (Segment.spelled? textOf)).map String.join

/-- A value with a text in the place of each reference. -/
def ParsedValue.spelled? (textOf : TokenPath → Option String) (value : ParsedValue) :
    Option String :=
  Segment.spellAll? textOf value.segments

/-- The text of a segment, where every path has one. -/
def Segment.written (text : TokenPath → String) : Segment → String
  | .literal front => front
  | .reference r => text r.path

/-- A value with a text in the place of each reference, where every path has
    one. -/
def ParsedValue.written (text : TokenPath → String) (value : ParsedValue) : String :=
  String.join (value.segments.map (Segment.written text))

/-- The text of an outcome that has one. -/
def Substituted.text? : Substituted → Option String
  | .text value => some value
  | .dropped _ => none

/-- A declaration with references, read. -/
def Declaration.referring? (d : Declaration) : Option ParsedValue :=
  (ParsedValue.parse d.value).toOption.filter ParsedValue.hasReferences

/-! ## Segments -/

section Segments

variable {textOf : TokenPath → Option String} {segments : List Segment}

theorem spellAll?_cons (segment : Segment) :
    Segment.spellAll? textOf (segment :: segments)
      = (segment.spelled? textOf).bind fun text =>
          (Segment.spellAll? textOf segments).map (text ++ ·) := by
  rw [Segment.spellAll?, Segment.spellAll?, List.mapM_cons]
  cases segment.spelled? textOf with
  | none => rfl
  | some text =>
      cases segments.mapM (Segment.spelled? textOf) with
      | none => rfl
      | some texts =>
          show some (String.join (text :: texts)) = some (text ++ String.join texts)
          rw [String.join_cons]

/-- If every path has a text the segments are written out. -/
theorem spellAll?_some (text : TokenPath → String) :
    Segment.spellAll? (fun path => some (text path)) segments
      = some (String.join (segments.map (Segment.written text))) := by
  induction segments with
  | nil => rfl
  | cons segment segments ih =>
      rw [spellAll?_cons, ih, List.map_cons, String.join_cons]
      cases segment with
      | literal front => rfl
      | reference r => rfl

end Segments

theorem spelled?_some (text : TokenPath → String) (value : ParsedValue) :
    value.spelled? (fun path => some (text path)) = some (value.written text) :=
  spellAll?_some text

/-! ## Filling in -/

section Filling

variable {resolve : Reference → Except ThemeError (Option String)}
  {segments : List Segment} {outcome : Substituted}

/-- How a reference is filled in: its text goes in front of what follows, and
    without a text nothing that follows counts. -/
theorem fill_reference_eq_ok {r : Reference}
    (h : fill resolve (.reference r :: segments) = .ok outcome) :
    (∃ text rest, resolve r = .ok (some text) ∧ fill resolve segments = .ok rest ∧
        outcome = rest.prepend text)
      ∨ (resolve r = .ok none ∧ outcome = .dropped r) := by
  obtain ⟨found, hr, h⟩ := Outcome.bind_eq_ok.mp h
  cases found with
  | none => exact Or.inr ⟨hr, (Except.ok.inj h).symm⟩
  | some text =>
      obtain ⟨rest, hrest, h⟩ := Outcome.bind_eq_ok.mp h
      exact Or.inl ⟨text, rest, hr, hrest, (Except.ok.inj h).symm⟩

theorem fill_literal_eq_ok {text : String}
    (h : fill resolve (.literal text :: segments) = .ok outcome) :
    ∃ rest, fill resolve segments = .ok rest ∧ outcome = rest.prepend text := by
  obtain ⟨rest, hrest, h⟩ := Outcome.bind_eq_ok.mp h
  exact ⟨rest, hrest, (Except.ok.inj h).symm⟩

theorem text?_prepend (text : String) (outcome : Substituted) :
    (outcome.prepend text).text? = outcome.text?.map (text ++ ·) := by
  cases outcome with
  | text value => rfl
  | dropped missing => rfl

/-- What is filled in is what the segments spell. -/
theorem fill_text? {textOf : TokenPath → Option String}
    (hres : ∀ r found, resolve r = .ok found → found = textOf r.path)
    (h : fill resolve segments = .ok outcome) :
    outcome.text? = Segment.spellAll? textOf segments := by
  induction segments generalizing outcome with
  | nil =>
      rw [← Except.ok.inj h]
      rfl
  | cons segment segments ih =>
      rw [spellAll?_cons]
      cases segment with
      | literal text =>
          obtain ⟨rest, hrest, rfl⟩ := fill_literal_eq_ok h
          rw [text?_prepend, ih hrest]
          rfl
      | reference r =>
          rcases fill_reference_eq_ok h with ⟨text, rest, hr, hrest, rfl⟩ | ⟨hr, rfl⟩
          · rw [text?_prepend, ih hrest, Segment.spelled?, ← hres r _ hr]
            rfl
          · rw [Segment.spelled?, ← hres r _ hr]
            rfl

/-- Where everything was filled in every reference had a text. -/
theorem resolved_of_fill {text : String} (h : fill resolve segments = .ok (.text text)) :
    ∀ r ∈ segments.filterMap Segment.reference?,
      ∃ found, resolve r = .ok (some found) := by
  induction segments generalizing text with
  | nil => exact List.forall_mem_nil _
  | cons segment segments ih =>
      -- A text at the end leaves a text behind the first segment.
      have htail : ∀ front rest, fill resolve segments = .ok rest →
          Substituted.text text = rest.prepend front →
          ∀ r ∈ segments.filterMap Segment.reference?,
            ∃ found, resolve r = .ok (some found) := by
        intro front rest hrest hout
        cases rest with
        | text value => exact ih hrest
        | dropped missing => cases hout
      cases segment with
      | literal front =>
          obtain ⟨rest, hrest, hout⟩ := fill_literal_eq_ok h
          exact htail front rest hrest hout
      | reference first =>
          rcases fill_reference_eq_ok h with ⟨front, rest, hr, hrest, hout⟩ | ⟨-, hout⟩
          · intro r hmem
            rcases List.mem_cons.mp hmem with rfl | hmem
            · exact ⟨front, hr⟩
            · exact htail front rest hrest hout r hmem
          · cases hout

/-- What drops a value is the first of its references that has no text. -/
theorem dropped_of_fill {missing : Reference}
    (h : fill resolve segments = .ok (.dropped missing)) :
    ∃ before after, segments.filterMap Segment.reference? = before ++ missing :: after
      ∧ resolve missing = .ok none ∧ ∀ r ∈ before, ∃ text, resolve r = .ok (some text) := by
  induction segments with
  | nil => cases h
  | cons segment segments ih =>
      -- What is dropped in the end was dropped behind the first segment.
      have htail : ∀ front rest, fill resolve segments = .ok rest →
          Substituted.dropped missing = rest.prepend front →
          fill resolve segments = .ok (.dropped missing) := by
        intro front rest hrest hout
        cases rest with
        | text value => cases hout
        | dropped other =>
            rw [hrest, Substituted.dropped.inj hout]
      cases segment with
      | literal front =>
          obtain ⟨rest, hrest, hout⟩ := fill_literal_eq_ok h
          exact ih (htail front rest hrest hout)
      | reference first =>
          rcases fill_reference_eq_ok h with ⟨front, rest, hr, hrest, hout⟩ | ⟨hr, hout⟩
          · obtain ⟨before, after, hrefs, hnone, hbefore⟩ := ih (htail front rest hrest hout)
            refine ⟨first :: before, after, ?_, hnone, List.forall_mem_cons.mpr ⟨⟨front, hr⟩, hbefore⟩⟩
            rw [List.cons_append, ← hrefs]
            rfl
          · rw [Substituted.dropped.inj hout]
            exact ⟨[], segments.filterMap Segment.reference?, rfl, hr, List.forall_mem_nil _⟩

/-- Filling in fails where a reference does. -/
theorem error_of_fill {e : ThemeError} (h : fill resolve segments = .error e) :
    ∃ r ∈ segments.filterMap Segment.reference?, resolve r = .error e := by
  induction segments with
  | nil => cases h
  | cons segment segments ih =>
      cases segment with
      | literal text => exact ih (Outcome.error_of_bind_ok h)
      | reference first =>
          rcases Outcome.bind_eq_error h with hfirst | ⟨found, _, h⟩
          · exact ⟨first, List.mem_cons_self, hfirst⟩
          · cases found with
            | none => cases h
            | some text =>
                obtain ⟨r, hr, hfail⟩ := ih (Outcome.error_of_bind_ok h)
                exact ⟨r, List.mem_cons_of_mem first hr, hfail⟩

/-- Filling in asks for the first reference before anything else. -/
theorem asked_of_fill (h : fill resolve segments = .ok outcome) {r : Reference}
    (hr : r ∈ segments.filterMap Segment.reference?) :
    ∃ first found, resolve first = .ok found := by
  induction segments generalizing outcome with
  | nil => cases hr
  | cons segment segments ih =>
      cases segment with
      | literal text =>
          obtain ⟨rest, hrest, -⟩ := fill_literal_eq_ok h
          exact ih hrest hr
      | reference first =>
          obtain ⟨found, hfound, -⟩ := Outcome.bind_eq_ok.mp h
          exact ⟨first, found, hfound⟩

/-- Only what the references resolve to matters. -/
theorem fill_congr {other : Reference → Except ThemeError (Option String)}
    (h : ∀ r ∈ segments.filterMap Segment.reference?, resolve r = other r) :
    fill resolve segments = fill other segments := by
  induction segments with
  | nil => rfl
  | cons segment segments ih =>
      cases segment with
      | literal text => rw [fill, fill, ih h]
      | reference r =>
          obtain ⟨hr, hrest⟩ := List.forall_mem_cons.mp h
          rw [fill, fill, hr, ih hrest]

theorem substitute_congr {value : ParsedValue}
    {other : Reference → Except ThemeError (Option String)}
    (h : ∀ r ∈ value.references, resolve r = other r) :
    value.substitute resolve = value.substitute other := by
  rw [ParsedValue.substitute, ParsedValue.substitute, fill_congr h]

/-- Where every reference has a text all of them are filled in. -/
theorem fill_eq_text {text : TokenPath → String}
    (h : ∀ r ∈ segments.filterMap Segment.reference?, resolve r = .ok (some (text r.path))) :
    fill resolve segments = .ok (.text (String.join (segments.map (Segment.written text)))) := by
  induction segments with
  | nil => rfl
  | cons segment segments ih =>
      rw [List.map_cons, String.join_cons]
      cases segment with
      | literal front =>
          rw [fill, ih h]
          rfl
      | reference r =>
          obtain ⟨hr, hrest⟩ := List.forall_mem_cons.mp h
          rw [fill, hr, ih hrest]
          rfl

/-- Substitution fills in, and keeps what holds no reference any more. -/
theorem fill_of_substitute {value : ParsedValue}
    (h : value.substitute resolve = .ok outcome) :
    fill resolve value.segments = .ok outcome := by
  obtain ⟨filled, hfill, h⟩ := Outcome.bind_eq_ok.mp h
  -- The check at the end fails or changes nothing.
  have hcheck : ∀ checked, filled.check = .ok checked → checked = filled := by
    intro checked hc
    cases filled with
    | dropped missing => exact (Except.ok.inj hc).symm
    | text value =>
        rw [Substituted.check] at hc
        by_cases hl : hasLeftover value = true
        · rw [if_pos hl] at hc
          cases hc
        · rw [if_neg hl] at hc
          exact (Except.ok.inj hc).symm
  cases hc : filled.check with
  | error e =>
      rw [hc] at h
      cases h
  | ok checked =>
      rw [hc] at h
      rw [hfill, ← hcheck checked hc]
      exact h

/-- Substitution fails where a reference does, or with the text that it put
    together. -/
theorem substitute_eq_error {value : ParsedValue} {e : ThemeError}
    (h : value.substitute resolve = .error e) :
    (∃ r ∈ value.references, resolve r = .error e)
      ∨ ∃ text, fill resolve value.segments = .ok (.text text) ∧ hasLeftover text = true
          ∧ e = .malformedReference .invalidUsage text none := by
  rcases Outcome.bind_eq_error h with hfill | ⟨outcome, hfill, h⟩
  · exact Or.inl (error_of_fill hfill)
  · cases outcome with
    | dropped missing => cases h
    | text text =>
        rw [Substituted.check] at h
        by_cases hl : hasLeftover text = true
        · rw [if_pos hl] at h
          exact Or.inr ⟨text, hfill, hl, (Except.error.inj h).symm⟩
        · rw [if_neg hl] at h
          cases h

/-- Substitution keeps a text in which no reference is left. -/
theorem substitute_eq_text {value : ParsedValue} {text : TokenPath → String}
    (h : ∀ r ∈ value.references, resolve r = .ok (some (text r.path)))
    (hleft : hasLeftover (value.written text) = false) :
    value.substitute resolve = .ok (.text (value.written text)) := by
  rw [ParsedValue.substitute, fill_eq_text h]
  have hcheck : (Substituted.text (value.written text)).check = .ok (.text (value.written text)) :=
    if_neg (Bool.eq_false_iff.mp hleft)
  rw [ParsedValue.written] at hcheck ⊢
  rw [Outcome.ok_bind, hcheck]
  rfl

/-- **SPELLING**: what substitution writes is the value spelled out. -/
theorem substitute_text? {value : ParsedValue} {textOf : TokenPath → Option String}
    (hres : ∀ r found, resolve r = .ok found → found = textOf r.path)
    (h : value.substitute resolve = .ok outcome) :
    outcome.text? = value.spelled? textOf :=
  fill_text? hres (fill_of_substitute h)

end Filling

/-! ## Declarations -/

/-- A declaration has references exactly when its value reads as one with
    references. -/
theorem referring?_eq_some_iff {d : Declaration} {value : ParsedValue} :
    d.referring? = some value
      ↔ ParsedValue.parse d.value = .ok value ∧ value.hasReferences = true := by
  rw [Declaration.referring?, Option.filter_eq_some_iff]
  cases ParsedValue.parse d.value with
  | error e => simp [Except.toOption]
  | ok read => simp [Except.toOption]

theorem referring?_of_no_references {d : Declaration} {value : ParsedValue}
    (hparse : ParsedValue.parse d.value = .ok value) (hr : value.hasReferences = false) :
    d.referring? = none := by
  rw [Declaration.referring?, hparse]
  show (some value).filter _ = none
  rw [Option.filter_some, hr]
  rfl

/-- A value that does not mention the word has no references. -/
theorem referring?_of_not_mentions {d : Declaration} (h : mentionsTheme d.value = false) :
    d.referring? = none := by
  cases hr : d.referring? with
  | none => rfl
  | some value =>
      obtain ⟨hparse, hrefs⟩ := referring?_eq_some_iff.mp hr
      rw [mentionsTheme_of_hasReferences hparse hrefs] at h
      cases h

end ThemeTokens
