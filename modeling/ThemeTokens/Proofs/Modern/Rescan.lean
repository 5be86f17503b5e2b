import ThemeTokens.Modern.Apply
import ThemeTokens.Proofs.Modern.Replacement
import ThemeTokens.Proofs.Reference.Lossless

/-! # Uses of custom properties hold no reference

    The text put together for a value is read once more, and a reference in it
    is an error.  Uses of custom properties do not lead there, whatever is
    around them and whatever the paths are called: nothing opens inside of a
    use, and nothing opens across its ends (`hasLeftover_written`).  So the
    modern output fails only for the references themselves (`apply_ok_iff`). -/

namespace ThemeTokens

/-! ## Quiet texts -/

/-- Neither a string nor a reference begins with the character: it is no quote
    and no `@`, and a `t` only in the middle of a word. -/
def QuietAt (before : Option Char) (c : Char) : Prop :=
  ¬ (c = '\'' ∨ c = '"') ∧ c ≠ '@' ∧ (c = 't' → before.any isWordChar = true)

/-- Characters with which nothing ever begins. -/
def isInert (c : Char) : Bool :=
  c != '\'' && c != '"' && c != '@' && c != 't'

/-- Nothing begins anywhere in the text. -/
def Quiet : Option Char → List Char → Prop
  | _, [] => True
  | before, c :: cs => QuietAt before c ∧ Quiet (some c) cs

section Scanning

variable {before other : Option Char} {text cs : List Char} {ms : List Mark}

/-- Of the character in front only counts whether a word goes on from it. -/
theorem marks_congr (h : before.any isWordChar = other.any isWordChar)
    (hm : marks before cs = .ok ms) : marks other cs = .ok ms := by
  cases cs with
  | nil =>
      rw [marks] at hm ⊢
      exact hm
  | cons c tail =>
      rcases marks_cons_eq_ok hm with
        ⟨hq, more, hmore, rfl⟩ | ⟨hq, r, rest, more, ho, hmore, rfl⟩ | ⟨hq, ho, more, hmore, rfl⟩
      · rw [marks_string hq, hmore]
        rfl
      · rw [opener?_congr h] at ho
        rw [marks_reference hq ho, hmore]
        rfl
      · rw [opener?_congr h] at ho
        rw [marks_char hq (opener?_eq_none_iff.mp ho), hmore]
        rfl

theorem quiet_cons {c : Char} :
    Quiet before (c :: cs) ↔ QuietAt before c ∧ Quiet (some c) cs :=
  Iff.rfl

/-- Both openers begin with a character that is ruled out. -/
theorem QuietAt.not_opens {c : Char} (h : QuietAt before c) (tail : List Char) :
    ¬ Opens before (c :: tail) := by
  obtain ⟨-, hat, ht⟩ := h
  rintro (hword | ⟨hfree, blanks, -, hword⟩)
  · exact hat (List.cons_prefix_cons.mp hword).1.symm
  · rw [ht (List.cons_prefix_cons.mp hword).1.symm] at hfree
    cases hfree

/-- A quiet text is read as its characters. -/
theorem marks_quiet {last : Char} (h : Quiet before (text ++ [last]))
    (hm : marks (some last) cs = .ok ms) :
    marks before (text ++ last :: cs) = .ok ((text ++ [last]).map Mark.char ++ ms) := by
  induction text generalizing before with
  | nil =>
      obtain ⟨hc, -⟩ := quiet_cons.mp h
      rw [List.nil_append, marks_char hc.1 (hc.not_opens cs), hm]
      rfl
  | cons c text ih =>
      obtain ⟨hc, hrest⟩ := quiet_cons.mp h
      rw [List.cons_append, marks_char hc.1 (hc.not_opens _), ih hrest]
      rfl

/-- An inert character begins no reference, whatever is in front of it. -/
theorem quietAt_of_isInert {c : Char} (h : isInert c = true) : QuietAt before c := by
  simp only [isInert, Bool.and_eq_true, bne_iff_ne] at h
  obtain ⟨⟨⟨hsingle, hdouble⟩, hat⟩, ht⟩ := h
  exact ⟨not_or.mpr ⟨hsingle, hdouble⟩, hat, fun heq => absurd heq ht⟩

/-- A text stays quiet behind inert characters. -/
theorem quiet_append {front rest : List Char} {last : Char}
    (h : ∀ c ∈ front ++ [last], isInert c = true) (hrest : Quiet (some last) rest) :
    Quiet before (front ++ last :: rest) := by
  induction front generalizing before with
  | nil => exact quiet_cons.mpr ⟨quietAt_of_isInert (h last List.mem_cons_self), hrest⟩
  | cons c front ih =>
      obtain ⟨hc, hfront⟩ := List.forall_mem_cons.mp h
      exact quiet_cons.mpr ⟨quietAt_of_isInert hc, ih hfront⟩

/-- Names are quiet behind a character of a word, up to a parenthesis. -/
theorem quiet_name {b : Char} (hb : isWordChar b = true) {name : List Char}
    (h : ∀ c ∈ name, isPathChar c = true) : Quiet (some b) (name ++ [')']) := by
  induction name generalizing b with
  | nil => exact quiet_cons.mpr ⟨quietAt_of_isInert (by decide +kernel), trivial⟩
  | cons c name ih =>
      obtain ⟨hc, hname⟩ := List.forall_mem_cons.mp h
      have hword : isWordChar c = true := by
        rw [isWordChar, hc]
        rfl
      have hsingle : c ≠ '\'' := ne_of_isPathChar hc (by decide +kernel)
      have hdouble : c ≠ '"' := ne_of_isPathChar hc (by decide +kernel)
      have hat : c ≠ '@' := ne_of_isPathChar hc (by decide +kernel)
      exact quiet_cons.mpr
        ⟨⟨not_or.mpr ⟨hsingle, hdouble⟩, hat, fun _ => hb⟩, ih hword hname⟩

/-- Where no reference is read in the places of references there is none. -/
theorem references_reread {read : Reference → List Mark}
    (h : ∀ r, (read r).filterMap Mark.reference? = []) (ms : List Mark) :
    (ms.flatMap (Mark.reread read)).filterMap Mark.reference? = [] := by
  rw [List.filterMap_flatMap, List.flatMap_eq_nil_iff]
  intro m _
  cases m with
  | char c => rfl
  | reference r => exact h r

end Scanning

/-! ## Uses -/

namespace Modern

/-- A use of the custom property that is named for a path. -/
def plainUse (path : TokenPath) : String :=
  useOf ("--" ++ path.variableName) none

theorem toList_plainUse (path : TokenPath) :
    (plainUse path).toList
      = ['v', 'a', 'r', '(', '-'] ++ '-' :: path.variableName.toList ++ [')'] := by
  simp [plainUse, useOf]

/-- Dots become dashes, so only characters of names are left. -/
theorem isPathChar_variableName {path : TokenPath} (h : IsPath path.text.toList) :
    ∀ c ∈ path.variableName.toList, isPathChar c = true := by
  intro c hc
  rw [TokenPath.variableName, String.toList_ofList] at hc
  obtain ⟨d, hd, rfl⟩ := List.mem_map.mp hc
  by_cases hdot : d = '.'
  · rw [if_pos hdot]
    decide
  · rw [if_neg hdot]
    exact (h.mem d hd).resolve_right hdot

/-- A use is quiet: what is no name in it begins no opener. -/
theorem quiet_use {before : Option Char} {name : List Char}
    (h : ∀ c ∈ name, isPathChar c = true) :
    Quiet before (['v', 'a', 'r', '(', '-'] ++ '-' :: name ++ [')']) := by
  have hdash : isWordChar '-' = true := by decide +kernel
  have hfront : (['v', 'a', 'r', '(', '-'] ++ ['-']).all isInert = true := by decide +kernel
  rw [List.append_assoc, List.cons_append]
  exact quiet_append (List.all_eq_true.mp hfront) (quiet_name hdash h)

/-- A use is read as its characters, wherever it stands. -/
theorem rereads_plainUse :
    Rereads (fun r text => IsPath r.path.text.toList ∧ text = (plainUse r.path).toList)
      fun r => (plainUse r.path).toList.map Mark.char where
  lead := by
    intro r text h
    rw [h.2, toList_plainUse]
    exact ⟨'v', _, rfl, by decide, by decide, by decide, fun h => absurd h (by decide)⟩
  marks := by
    intro r text before more rest other found h _ _ _ hfound
    -- The parenthesis at the end is no character of a word.
    have hkind : (none : Option Char).any isWordChar = (some ')').any isWordChar := by decide
    rw [h.2, toList_plainUse, List.append_assoc, List.singleton_append]
    exact marks_quiet (quiet_use (isPathChar_variableName h.1)) (marks_congr hkind hfound)

/-- **NO REFERENCE IS LEFT** in a value whose references became uses of custom
    properties. -/
theorem hasLeftover_written {text : String} {value : ParsedValue}
    (h : ParsedValue.parse text = .ok value) : hasLeftover (value.written plainUse) = false := by
  have hpaths := isPath_of_parse h
  obtain ⟨ms, hms, rfl⟩ := parse_eq_ok h
  have hrow : Segment.RowSpelledBy
      (fun r piece => IsPath r.path.text.toList ∧ piece = (plainUse r.path).toList) (gather ms)
      (ParsedValue.written plainUse ⟨gather ms⟩).toList := by
    refine rowSpelledBy_join fun segment hmem => ?_
    cases segment with
    | literal front => rfl
    | reference r => exact ⟨hpaths r (List.mem_filterMap.mpr ⟨_, hmem, rfl⟩), rfl⟩
  have hread := marks_respelled rereads_plainUse hms (rowSpelledBy_gather.mp hrow)
  have hnone := references_reread (fun r => references_chars (plainUse r.path).toList) ms
  rw [hasLeftover, ParsedValue.parse, hread]
  show (mentionsTheme _ && ParsedValue.hasReferences ⟨gather _⟩) = false
  rw [ParsedValue.hasReferences, ParsedValue.references, references_gather, hnone]
  exact Bool.and_false _

end Modern

/-! ## Success -/

/-- A value that mentions the word is read, and all its references have values
    in the tokens. -/
def Declaration.Answered (tokens : TokenMap) (d : Declaration) : Prop :=
  mentionsTheme d.value = true → ∃ value, ParsedValue.parse d.value = .ok value
    ∧ ∀ r ∈ value.references, (tokens.value? r.path).isSome = true

namespace Modern

namespace Replacement

variable {put : Replacement} (hliteral : put.literal = false) (hinline : put.inline = false)
  (hnaming : put.localizer.naming = none)

include hliteral hinline hnaming

/-- A reference with a value becomes a plain use. -/
theorem resolve_plainUse {r : Reference}
    (h : (put.authority.light.value? r.path).isSome = true) :
    put.resolve r = .ok (some (plainUse r.path)) := by
  have hfallback : put.fallback? r.path = none := by
    rw [fallback?, hinline]
    rfl
  have hproperty : put.property r.path = "--" ++ r.path.variableName := by
    rw [property, Localizer.localize, hnaming]
  rw [resolve_of_isSome hliteral h, hfallback, hproperty, plainUse]

/-- A declaration is kept if all its references are answered. -/
theorem declaration_progress {d : Declaration} (h : d.Answered put.authority.light) :
    ∃ kept, put.declaration d = .ok (.kept kept) := by
  rw [declaration]
  by_cases hm : mentionsTheme d.value = true
  · obtain ⟨value, hparse, hvalues⟩ := h hm
    simp only [if_pos hm, Outcome.located_eq_ok, hparse, Outcome.ok_bind]
    by_cases hr : value.hasReferences = true
    · have huses : ∀ r ∈ value.references, put.resolve r = .ok (some (plainUse r.path)) :=
        fun r hmem => resolve_plainUse hliteral hinline hnaming (hvalues r hmem)
      have hsub : value.substitute put.resolve = .ok (.text (value.written plainUse)) :=
        substitute_eq_text huses (hasLeftover_written hparse)
      rw [if_pos hr, hsub]
      exact ⟨_, rfl⟩
    · rw [if_neg hr]
      exact ⟨_, rfl⟩
  · rw [if_neg hm]
    exact ⟨_, rfl⟩

theorem declarations_progress {ds : List Declaration}
    (h : ∀ d ∈ ds, d.Answered put.authority.light) : ∃ out, put.declarations ds = .ok out := by
  induction ds with
  | nil => exact ⟨[], rfl⟩
  | cons d ds ih =>
      obtain ⟨hd, hds⟩ := List.forall_mem_cons.mp h
      obtain ⟨kept, hkept⟩ := declaration_progress hliteral hinline hnaming hd
      obtain ⟨rest, hrest⟩ := ih hds
      exact ⟨kept :: rest, Outcome.bind_eq_ok.mpr
        ⟨.kept kept, hkept, Outcome.bind_eq_ok.mpr ⟨rest, hrest, rfl⟩⟩⟩

/-- A stylesheet is written if all references of its declarations are answered. -/
theorem sheet_progress {sheet : Stylesheet}
    (h : ∀ d ∈ sheet.declarations, d.Answered put.authority.light) :
    ∃ out, put.sheet sheet = .ok out := by
  refine Stylesheet.mapM_progress (fun r hr => ?_)
    (fun ds hds => declarations_progress hliteral hinline hnaming hds) h
  obtain ⟨out, hout⟩ := declarations_progress hliteral hinline hnaming hr
  exact ⟨_, Outcome.bind_eq_ok.mpr ⟨out, hout, rfl⟩⟩

end Replacement

/-- **SUCCESS**: with custom properties and no fallbacks a stylesheet is written
    exactly when its references are all read and have light values of the
    authority. -/
theorem apply_ok_iff {config : ResolvedConfig} {options : OutputOptions} {localizer : Localizer}
    {sheet : Stylesheet} (hinline : options.inline = false)
    (hliteral : isLiteral options (singleTheme config options (authorityOf config options)) = false)
    (hnaming : localizer.naming = none) :
    (∃ out, apply config options localizer sheet = .ok out)
      ↔ ∀ d ∈ sheet.declarations, d.Answered (authorityOf config options).light := by
  have hnofallback : ∀ usage, (replacement config options localizer usage).inline = false := by
    intro usage
    show (options.inline && _) = false
    rw [hinline]
    rfl
  constructor
  · rintro ⟨out, h⟩ d hd hm
    obtain ⟨usage, -, h⟩ := Outcome.bind_eq_ok.mp h
    obtain ⟨replaced, hsheet, -⟩ := Outcome.bind_eq_ok.mp h
    obtain ⟨value, hparse⟩ := Replacement.readable_of_sheet hsheet d hd hm
    obtain ⟨-, hknown⟩ := Replacement.sheet_eq_ok hliteral hsheet
    refine ⟨value, hparse, fun r hr => ?_⟩
    have hrefs := hasReferences_iff.mpr ⟨r, hr⟩
    exact hknown d hd value (referring?_eq_some_iff.mpr ⟨hparse, hrefs⟩) r hr
  · intro h
    have hreadable : ∀ d ∈ sheet.declarations, d.Readable := by
      intro d hd hm
      obtain ⟨value, hparse, -⟩ := h d hd hm
      exact ⟨value, hparse⟩
    obtain ⟨usage, husage⟩ := VariableUsage.analyze_progress_iff.mpr hreadable
    have hsheet : ∃ replaced,
        (replacement config options localizer usage).sheet sheet = .ok replaced :=
      Replacement.sheet_progress hliteral (hnofallback usage) hnaming h
    obtain ⟨replaced, hsheet⟩ := hsheet
    exact ⟨_, Outcome.bind_eq_ok.mpr
      ⟨usage, husage, Outcome.bind_eq_ok.mpr ⟨replaced, hsheet, rfl⟩⟩⟩

end Modern

end ThemeTokens
