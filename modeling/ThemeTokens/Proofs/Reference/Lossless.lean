import Mathlib.Data.List.Chain
import Mathlib.Data.List.Forall2
import ThemeTokens.Proofs.Reference.Respelling

/-! # Values keep their text

    A value that was read is its segments in a row, each reference spelled in
    one of the ways its form allows.  Which of them it was makes no difference:
    `parse_lossless` says that every row of spellings reads as the same value,
    the plainest one among them. -/

namespace ThemeTokens

/-! ## Segments in a row -/

/-- The text of a segment, where `S` says which texts a reference can have. -/
def Segment.SpelledBy (S : Reference → List Char → Prop) : Segment → List Char → Prop
  | .literal text, piece => piece = text.toList
  | .reference r, piece => S r piece

/-- The text is that of the segments, one behind the other. -/
def Segment.RowSpelledBy (S : Reference → List Char → Prop) (segments : List Segment)
    (text : List Char) : Prop :=
  ∃ pieces, List.Forall₂ (Segment.SpelledBy S) segments pieces ∧ text = pieces.flatten

/-- Whether a segment is literal text. -/
def Segment.isLiteral : Segment → Bool
  | .literal _ => true
  | .reference _ => false

/-- No literal is empty, and no two of them are next to each other. -/
structure Segment.Separated (segments : List Segment) : Prop where
  nonempty : ∀ text, .literal text ∈ segments → text ≠ ""
  apart : segments.IsChain fun one next => ¬ (one.isLiteral = true ∧ next.isLiteral = true)

section Rows

variable {S : Reference → List Char → Prop} {segments : List Segment} {text : List Char}

theorem rowSpelledBy_nil : Segment.RowSpelledBy S [] text ↔ text = [] := by
  constructor
  · rintro ⟨pieces, hpieces, rfl⟩
    rw [List.forall₂_nil_left_iff.mp hpieces]
    rfl
  · rintro rfl
    exact ⟨[], .nil, rfl⟩

theorem rowSpelledBy_cons {segment : Segment} :
    Segment.RowSpelledBy S (segment :: segments) text
      ↔ ∃ piece rest, segment.SpelledBy S piece ∧ Segment.RowSpelledBy S segments rest
          ∧ text = piece ++ rest := by
  constructor
  · rintro ⟨pieces, hpieces, rfl⟩
    obtain ⟨piece, more, hpiece, hmore, rfl⟩ := List.forall₂_cons_left_iff.mp hpieces
    exact ⟨piece, more.flatten, hpiece, ⟨more, hmore, rfl⟩, rfl⟩
  · rintro ⟨piece, rest, hpiece, ⟨more, hmore, rfl⟩, rfl⟩
    exact ⟨piece :: more, .cons hpiece hmore, rfl⟩

/-- Texts of the segments make up a text of the row. -/
theorem rowSpelledBy_join {textOf : Segment → String}
    (h : ∀ segment ∈ segments, segment.SpelledBy S (textOf segment).toList) :
    Segment.RowSpelledBy S segments (String.join (segments.map textOf)).toList := by
  induction segments with
  | nil => exact rowSpelledBy_nil.mpr rfl
  | cons segment segments ih =>
      obtain ⟨hhere, hrest⟩ := List.forall_mem_cons.mp h
      rw [List.map_cons, String.join_cons, String.toList_append]
      exact rowSpelledBy_cons.mpr ⟨_, _, hhere, ih hrest, rfl⟩

/-- A character in front of segments is a character in front of their text. -/
theorem rowSpelledBy_prependChar {c : Char} :
    Segment.RowSpelledBy S (prependChar c segments) text
      ↔ ∃ rest, Segment.RowSpelledBy S segments rest ∧ text = c :: rest := by
  have hfront : ∀ front : String, (String.singleton c ++ front).toList = c :: front.toList := by
    intro front
    rw [String.toList_append, String.toList_singleton]
    rfl
  -- The character begins a literal of its own, or goes to the front of one.
  have hown : Segment.RowSpelledBy S (.literal (String.singleton c) :: segments) text
      ↔ ∃ rest, Segment.RowSpelledBy S segments rest ∧ text = c :: rest := by
    rw [rowSpelledBy_cons]
    constructor
    · rintro ⟨piece, rest, hpiece, hrest, rfl⟩
      rw [Segment.SpelledBy, String.toList_singleton] at hpiece
      rw [hpiece]
      exact ⟨rest, hrest, rfl⟩
    · rintro ⟨rest, hrest, rfl⟩
      exact ⟨[c], rest, (String.toList_singleton c).symm, hrest, rfl⟩
  rcases segments with _ | ⟨front | r, segments⟩
  · exact hown
  · rw [prependChar, rowSpelledBy_cons]
    constructor
    · rintro ⟨piece, rest, hpiece, hrest, rfl⟩
      rw [Segment.SpelledBy, hfront] at hpiece
      rw [hpiece]
      exact ⟨front.toList ++ rest, rowSpelledBy_cons.mpr ⟨_, rest, rfl, hrest, rfl⟩, rfl⟩
    · rintro ⟨rest, hrest, rfl⟩
      obtain ⟨piece, more, rfl, hmore, rfl⟩ := rowSpelledBy_cons.mp hrest
      exact ⟨c :: front.toList, more, (hfront front).symm, hmore, rfl⟩
  · exact hown

/-- Gathering characters into literals changes nothing about the text. -/
theorem rowSpelledBy_gather {ms : List Mark} :
    Segment.RowSpelledBy S (gather ms) text ↔ Mark.Respelled S ms text := by
  induction ms generalizing text with
  | nil =>
      rw [gather, rowSpelledBy_nil]
      constructor
      · rintro rfl
        exact .nil
      · intro h
        cases h
        rfl
  | cons m ms ih =>
      cases m with
      | char c =>
          rw [gather, rowSpelledBy_prependChar]
          constructor
          · rintro ⟨rest, hrest, rfl⟩
            exact .char c (ih.mp hrest)
          · intro h
            cases h with
            | char _ behind => exact ⟨_, ih.mpr behind, rfl⟩
      | reference r =>
          rw [gather, rowSpelledBy_cons]
          constructor
          · rintro ⟨piece, rest, hpiece, hrest, rfl⟩
            exact .reference hpiece (ih.mp hrest)
          · intro h
            cases h with
            | reference here behind => exact ⟨_, _, here, ih.mpr behind, rfl⟩

end Rows

/-! ## Literals -/

theorem Segment.Separated.prependChar {segments : List Segment} (h : Segment.Separated segments)
    (c : Char) : Segment.Separated (prependChar c segments) := by
  have hown : String.singleton c ≠ "" := String.singleton_ne_empty
  rcases segments with _ | ⟨front | r, segments⟩
  · refine ⟨?_, List.isChain_singleton _⟩
    intro text hmem
    rw [Segment.literal.inj (List.mem_singleton.mp hmem)]
    exact hown
  · refine ⟨?_, ?_⟩
    · intro text hmem
      rcases List.mem_cons.mp hmem with heq | hmem
      · rw [Segment.literal.inj heq]
        exact fun hempty => hown (String.append_eq_empty_iff.mp hempty).1
      · exact h.nonempty text (List.mem_cons_of_mem _ hmem)
    · obtain ⟨hfirst, hrest⟩ := List.isChain_cons.mp h.apart
      exact List.isChain_cons.mpr ⟨hfirst, hrest⟩
  · refine ⟨?_, List.isChain_cons.mpr ⟨?_, h.apart⟩⟩
    · intro text hmem
      rcases List.mem_cons.mp hmem with heq | hmem
      · rw [Segment.literal.inj heq]
        exact hown
      · exact h.nonempty text hmem
    · intro next hnext hboth
      rw [← Option.some.inj (Option.mem_def.mp hnext)] at hboth
      cases hboth.2

theorem separated_gather (ms : List Mark) : Segment.Separated (gather ms) := by
  induction ms with
  | nil => exact ⟨fun _ h => absurd h List.not_mem_nil, List.isChain_nil⟩
  | cons m ms ih =>
      cases m with
      | char c => exact ih.prependChar c
      | reference r =>
          refine ⟨?_, List.isChain_cons.mpr ⟨?_, ih.apart⟩⟩
          · intro text hmem
            rcases List.mem_cons.mp hmem with heq | hmem
            · cases heq
            · exact ih.nonempty text hmem
          · intro next _ hboth
            cases hboth.1

/-! ## Spellings -/

/-- A reference with a spelling has a path. -/
theorem Reference.Spells.isPath {r : Reference} {text : List Char} (h : r.Spells text) :
    IsPath r.path.text.toList := by
  cases h with
  | atRule dollar hpath =>
      rw [String.toList_ofList]
      exact hpath
  | function hpath =>
      rw [String.toList_ofList]
      exact hpath

/-- Spellings of one reference begin with the same character, which is no
    quote. -/
theorem Reference.Spells.head {r : Reference} {text : List Char} (h : r.Spells text) :
    ∃ tail, text = (if r.form = .atRule then '@' else 't') :: tail := by
  cases h with
  | atRule => exact ⟨_, rfl⟩
  | function => exact ⟨_, rfl⟩

section Stable

variable {ms : List Mark} {cs ds : List Char}

theorem head?_respelled (hcs : Mark.Respelled Reference.Spells ms cs)
    (hds : Mark.Respelled Reference.Spells ms ds) : cs.head? = ds.head? := by
  cases hcs with
  | nil =>
      cases hds
      rfl
  | char c =>
      cases hds
      rfl
  | reference here =>
      cases hds with
      | reference here' =>
          obtain ⟨tail, rfl⟩ := here.head
          obtain ⟨tail', rfl⟩ := here'.head
          rfl

/-- Whether a path goes on is up to the next character, or behind a dot to the
    one after it. -/
theorem continuesPath_eq (cs : List Char) :
    continuesPath cs =
      if cs.head? = some '.' then cs.tail.head?.any isPathChar
      else cs.head?.any isPathChar := by
  cases cs with
  | nil => rfl
  | cons c tail =>
      by_cases hc : c = '.'
      · rw [hc, List.head?_cons, if_pos rfl, List.tail_cons]
        cases tail with
        | nil => rfl
        | cons d tail => rfl
      · rw [continuesPath_cons hc, List.head?_cons, if_neg fun h => hc (Option.some.inj h)]
        rfl

/-- Respelling what is behind a path does not continue it. -/
theorem continuesPath_respelled (hcs : Mark.Respelled Reference.Spells ms cs)
    (hds : Mark.Respelled Reference.Spells ms ds) : continuesPath cs = continuesPath ds := by
  have hhead := head?_respelled hcs hds
  rw [continuesPath_eq, continuesPath_eq, ← hhead]
  by_cases hdot : cs.head? = some '.'
  · rw [if_pos hdot, if_pos hdot]
    -- A dot is no reference, so the texts behind it are respellings as well.
    cases hcs with
    | nil => cases hdot
    | char c behind =>
        cases hds with
        | char _ behind' => rw [List.tail_cons, List.tail_cons, head?_respelled behind behind']
    | reference here =>
        obtain ⟨tail, rfl⟩ := here.head
        have hlead := Option.some.inj hdot
        split at hlead <;> exact absurd hlead (by decide)
  · rw [if_neg hdot, if_neg hdot]

/-- Spellings of references are read as those references. -/
theorem rereads_spells : Rereads Reference.Spells fun r => [.reference r] where
  lead := by
    intro r text h
    cases h with
    | atRule => exact ⟨'@', _, rfl, by decide, by decide, by decide, fun h => absurd h (by decide)⟩
    | function => exact ⟨'t', _, rfl, by decide, by decide, by decide, fun _ => rfl⟩
  marks := by
    intro r text before more rest other found hspells hset hrest hother hfound
    have hset' : r.SetOff before other := by
      rw [Reference.SetOff] at hset ⊢
      rw [← continuesPath_respelled hrest hother]
      exact hset
    have ho := opener?_eq_some_iff.mpr ⟨text, hspells, rfl, hset'⟩
    obtain ⟨tail, rfl⟩ := hspells.head
    rw [List.cons_append] at ho ⊢
    rw [marks_reference ?_ ho, hfound]
    · rfl
    · split <;> decide

end Stable

/-! ## The plainest spelling -/

/-- A reference with one blank or none, and single quotes. -/
def Reference.canonical (r : Reference) : String :=
  match r.form with
  | .atRule => "@theme " ++ (if r.dollar then "$" else "") ++ r.path.text
  | .function => "theme('" ++ r.path.text ++ "')"

/-- A segment in its plainest spelling. -/
def Segment.canonical : Segment → String
  | .literal text => text
  | .reference r => r.canonical

/-- A value with its references in their plainest spelling. -/
def ParsedValue.canonical (value : ParsedValue) : String :=
  String.join (value.segments.map Segment.canonical)

/-- The plainest spelling is one, if there is any. -/
theorem Reference.Spells.canonical {r : Reference} {text : List Char} (h : r.Spells text) :
    r.Spells r.canonical.toList := by
  have hblank : IsBlankRun [' '] := List.forall_mem_singleton.mpr (by decide)
  have hnone : IsBlankRun [] := List.forall_mem_nil _
  cases h with
  | @atRule path blanks dollar hpath =>
      have hplain := Reference.Spells.atRule dollar hpath (List.cons_ne_nil ' ' []) hblank
      have htext : (Reference.canonical ⟨⟨String.ofList path⟩, .atRule, dollar⟩).toList
          = '@' :: (themeWord ++ ([' '] ++ ((if dollar then ['$'] else []) ++ path))) := by
        cases dollar with
        | true => simp [Reference.canonical, themeWord]
        | false => simp [Reference.canonical, themeWord]
      rw [htext]
      exact hplain
  | @function path before behind quote hpath =>
      have hplain := Reference.Spells.function hpath hnone hnone (Or.inl rfl)
      have htext : (Reference.canonical ⟨⟨String.ofList path⟩, .function, false⟩).toList
          = themeWord ++ '(' :: ([] ++ '\'' :: (path ++ '\'' :: ([] ++ [')']))) := by
        simp [Reference.canonical, themeWord]
      rw [htext]
      exact hplain

/-- Every reference of a value that was read has a spelling. -/
theorem exists_spells {segments : List Segment} {text : List Char}
    (h : Segment.RowSpelledBy Reference.Spells segments text) {r : Reference}
    (hr : .reference r ∈ segments) : ∃ piece, r.Spells piece := by
  induction segments generalizing text with
  | nil => cases hr
  | cons segment segments ih =>
      obtain ⟨piece, rest, hpiece, hrest, -⟩ := rowSpelledBy_cons.mp h
      rcases List.mem_cons.mp hr with heq | hmem
      · rw [← heq] at hpiece
        exact ⟨piece, hpiece⟩
      · exact ih hrest hmem

/-- The plainest spelling of a value spells it. -/
theorem rowSpelledBy_canonical {segments : List Segment} {text : List Char}
    (h : Segment.RowSpelledBy Reference.Spells segments text) :
    Segment.RowSpelledBy Reference.Spells segments
      (String.join (segments.map Segment.canonical)).toList := by
  refine rowSpelledBy_join fun segment hmem => ?_
  cases segment with
  | literal text => rfl
  | reference r =>
      obtain ⟨piece, hpiece⟩ := exists_spells h hmem
      exact Reference.Spells.canonical hpiece

/-- A value that was read was read from its marks. -/
theorem parse_eq_ok {text : String} {value : ParsedValue} (h : ParsedValue.parse text = .ok value) :
    ∃ ms, marks none text.toList = .ok ms ∧ value = ⟨gather ms⟩ := by
  rw [ParsedValue.parse] at h
  split at h
  · rename_i ms hms
    exact ⟨ms, hms, (Except.ok.inj h).symm⟩
  · cases h

/-- Every reference of a value that was read has a path. -/
theorem isPath_of_parse {text : String} {value : ParsedValue}
    (h : ParsedValue.parse text = .ok value) :
    ∀ r ∈ value.references, IsPath r.path.text.toList := by
  obtain ⟨ms, hms, rfl⟩ := parse_eq_ok h
  have hrow := rowSpelledBy_gather.mpr (respelled_of_marks hms)
  intro r hr
  obtain ⟨segment, hmem, hsegment⟩ := List.mem_filterMap.mp hr
  cases segment with
  | literal text => cases hsegment
  | reference found =>
      rw [Option.some.inj hsegment] at hmem
      obtain ⟨piece, hpiece⟩ := exists_spells hrow hmem
      exact hpiece.isPath

/-- **LOSSLESS AND STABLE**: a value that was read has no empty literals and no
    two in a row, its paths are names between single dots, and its text is that
    of its segments with each reference in one of its spellings.  Every text
    that spells the segments so is read as the same value, and the plainest
    spelling is one of these. -/
theorem parse_lossless {text : String} {value : ParsedValue}
    (h : ParsedValue.parse text = .ok value) :
    Segment.Separated value.segments
      ∧ (∀ r ∈ value.references, IsPath r.path.text.toList)
      ∧ Segment.RowSpelledBy Reference.Spells value.segments text.toList
      ∧ (∀ other : String, Segment.RowSpelledBy Reference.Spells value.segments other.toList →
          ParsedValue.parse other = .ok value)
      ∧ ParsedValue.parse value.canonical = .ok value := by
  have hpaths := isPath_of_parse h
  obtain ⟨ms, hms, rfl⟩ := parse_eq_ok h
  have hrow := rowSpelledBy_gather.mpr (respelled_of_marks hms)
  have hstable : ∀ other : String,
      Segment.RowSpelledBy Reference.Spells (gather ms) other.toList →
        ParsedValue.parse other = .ok ⟨gather ms⟩ := by
    intro other hother
    have hread := marks_respelled rereads_spells hms (rowSpelledBy_gather.mp hother)
    rw [ParsedValue.parse, hread, Mark.flatMap_reread_reference]
  exact ⟨separated_gather ms, hpaths, hrow, hstable, hstable _ (rowSpelledBy_canonical hrow)⟩

/-- A dot behind a path, blanks where they may be, and a string that nothing
    ends, with what would be a reference inside. -/
def loose : String := "@theme \t$ink.dark. theme( \"gap\" )'theme('"

theorem loose_lossless : ∃ value, ParsedValue.parse loose = .ok value
    ∧ value.segments = [.reference ⟨⟨"ink.dark"⟩, .atRule, true⟩, .literal ". ",
        .reference ⟨⟨"gap"⟩, .function, false⟩, .literal "'theme('"]
    ∧ Segment.RowSpelledBy Reference.Spells value.segments loose.toList
    ∧ value.canonical = "@theme $ink.dark. theme('gap')'theme('"
    ∧ ParsedValue.parse value.canonical = .ok value := by
  have hvalue : (ParsedValue.parse loose).toOption.map
      (fun value => (value.segments, value.canonical))
      = some ([.reference ⟨⟨"ink.dark"⟩, .atRule, true⟩, .literal ". ",
          .reference ⟨⟨"gap"⟩, .function, false⟩, .literal "'theme('"],
        "@theme $ink.dark. theme('gap')'theme('") := by
    decide +kernel
  obtain ⟨value, hread, hshape⟩ := Option.map_eq_some_iff.mp hvalue
  obtain ⟨hsegments, hcanonical⟩ := Prod.mk.inj hshape
  have hok := Outcome.toOption_eq_some_iff.mp hread
  obtain ⟨-, -, hrow, -, hstable⟩ := parse_lossless hok
  exact ⟨value, hok, hsegments, hrow, hcanonical, hstable⟩

end ThemeTokens
