import ThemeTokens.Legacy
import ThemeTokens.Lint.Check
import ThemeTokens.Modern.Apply
import ThemeTokens.Proofs.Reference.Leftover

/-! # Values that are not scanned

    A value without the word that every reference begins with is not scanned at
    all.  It would be read as a value without references
    (`parse_of_not_mentions`), and that comes to the same everywhere.

    To say so of whole passes, each is written down once more with every value
    scanned, the texts put together by a substitution included (`Scanned`).
    These twins leave out the question for the word and differ from the passes
    in nothing else, and they have the same outcome for every input, be it a
    result or a failure (`scanned_everywhere`). -/

namespace ThemeTokens

/-- Without the word a value is read, and there is no reference in it. -/
theorem parse_of_not_mentions {value : String} (h : mentionsTheme value = false) :
    ∃ parsed, ParsedValue.parse value = .ok parsed ∧ parsed.references = [] := by
  obtain ⟨parsed, hparse, hnone⟩ := referenceFree_of_not_mentions h
  rw [ParsedValue.hasReferences, Bool.not_eq_false', List.isEmpty_iff] at hnone
  exact ⟨parsed, hparse, hnone⟩

/-! ## Usage -/

namespace Scanned

/-- The references of a declaration, whatever its value. -/
def references (d : Declaration) : Except ThemeError (List Reference) := do
  let value ← located d.location (ParsedValue.parse d.value)
  return value.references

/-- The use of tokens in declarations that follow others, every value scanned. -/
def ofDeclarations (usage : VariableUsage) :
    List Declaration → Except ThemeError VariableUsage
  | [] => .ok usage
  | d :: ds => do
      let references ← references d
      ofDeclarations (references.foldl VariableUsage.note usage) ds

/-- The use of tokens, every value scanned. -/
def analyze (sheet : Stylesheet) : Except ThemeError VariableUsage :=
  ofDeclarations .empty sheet.declarations

/-- A value that is not scanned has no references to count. -/
theorem references_eq (d : Declaration) : references d = d.references := by
  rw [references, Declaration.references]
  by_cases hm : mentionsTheme d.value = true
  · rw [if_pos hm]
  · obtain ⟨parsed, hparse, hnone⟩ := parse_of_not_mentions (Bool.eq_false_iff.mpr hm)
    rw [if_neg hm, hparse]
    exact congrArg Except.ok hnone

/-- The same references are counted, whatever was counted before. -/
theorem ofDeclarations_eq (usage : VariableUsage) (ds : List Declaration) :
    ofDeclarations usage ds = usage.ofDeclarations ds := by
  induction ds generalizing usage with
  | nil => rfl
  | cons d ds ih =>
      rw [ofDeclarations, VariableUsage.ofDeclarations, references_eq]
      simp only [ih]

theorem analyze_eq (sheet : Stylesheet) : analyze sheet = VariableUsage.analyze sheet :=
  ofDeclarations_eq .empty sheet.declarations

/-! ## Substitution -/

/-- The last look at a text that was put together. -/
def hasLeftover (text : String) : Bool :=
  match ParsedValue.parse text with
  | .ok value => value.hasReferences
  | .error _ => true

/-- A text that was put together is refused if it still has a reference. -/
def check : Substituted → Except ThemeError Substituted
  | .text value =>
      if hasLeftover value then
        .error (.malformedReference .invalidUsage value none)
      else .ok (.text value)
  | .dropped missing => .ok (.dropped missing)

/-- References replaced, and the text looked at once more whatever it holds. -/
def substitute (resolve : Reference → Except ThemeError (Option String))
    (value : ParsedValue) : Except ThemeError Substituted := do
  check (← fill resolve value.segments)

/-- A text without the word has no reference left. -/
theorem hasLeftover_eq (text : String) : hasLeftover text = ThemeTokens.hasLeftover text := by
  rw [hasLeftover, ThemeTokens.hasLeftover]
  cases hm : mentionsTheme text with
  | true => rfl
  | false =>
      obtain ⟨parsed, hparse, hnone⟩ := referenceFree_of_not_mentions hm
      rw [hparse, Bool.false_and]
      exact hnone

/-- Both looks refuse the same texts. -/
theorem check_eq (outcome : Substituted) : check outcome = outcome.check := by
  cases outcome with
  | text value => rw [check, Substituted.check, hasLeftover_eq]
  | dropped missing => rfl

/-- Both substitutions fail alike and put together the same texts. -/
theorem substitute_eq : substitute = ParsedValue.substitute := by
  funext resolve value
  rw [substitute, ParsedValue.substitute]
  congr 1
  funext outcome
  rw [check_eq]
  cases outcome.check with
  | ok passed => rfl
  | error e => rfl

end Scanned

/-! ## Modern output -/

namespace Modern.Scanned

/-- A declaration with its references replaced, whatever its value. -/
def declaration (put : Replacement) (d : Declaration) : Except ThemeError Replaced :=
  located d.location do
    let value ← ParsedValue.parse d.value
    if value.hasReferences then
      match ← ThemeTokens.Scanned.substitute put.resolve value with
      | .text text => return .kept { d with value := text }
      | .dropped missing => return .removed (Replacement.removal d missing)
    else return .kept d

/-- The declarations that are kept, in order. -/
def declarations (put : Replacement) : List Declaration →
    Except ThemeError (List Declaration)
  | [] => .ok []
  | d :: ds => do
      match ← declaration put d with
      | .kept d => return d :: (← declarations put ds)
      | .removed _ => declarations put ds

/-- A rule without markers, its references replaced. -/
def rule (put : Replacement) (r : Rule) : Except ThemeError Rule :=
  return { r with
    selector := Selector.stripThemeRoot r.selector
    declarations := ← declarations put r.declarations }

/-- The warning for a declaration that is removed. -/
def warning? (put : Replacement) (d : Declaration) : Option Warning :=
  match declaration put d with
  | .ok (.removed warning) => some warning
  | _ => none

/-- Modern output, every value scanned. -/
def apply (config : ResolvedConfig) (options : OutputOptions) (localizer : Localizer)
    (sheet : Stylesheet) : Except ThemeError (Stylesheet × List Warning) := do
  let usage ← ThemeTokens.Scanned.analyze sheet
  let put := replacement config options localizer usage
  let replaced ← sheet.mapM (rule put) (declarations put)
  return (replaced.appendRules (blocks config options localizer usage),
    sheet.declarations.filterMap (warning? put))

variable (put : Replacement)

/-- A declaration that is not scanned is kept as it is, and so it is if it is
    scanned. -/
theorem declaration_eq : declaration put = put.declaration := by
  funext d
  rewrite [declaration, Replacement.declaration, ThemeTokens.Scanned.substitute_eq]
  by_cases hm : mentionsTheme d.value = true
  · rewrite [if_pos hm]
    rfl
  · obtain ⟨parsed, hparse, hnone⟩ := referenceFree_of_not_mentions (Bool.eq_false_iff.mpr hm)
    rw [if_neg hm, hparse]
    simp only [Outcome.ok_bind, hnone]
    rfl

/-- The same declarations are kept. -/
theorem declarations_eq : declarations put = put.declarations := by
  funext ds
  induction ds with
  | nil => rfl
  | cons d ds ih =>
      rewrite [declarations, Replacement.declarations, declaration_eq, ih]
      rfl

theorem rule_eq : rule put = put.rule := by
  funext r
  rw [rule, Replacement.rule, declarations_eq]

theorem warning?_eq : warning? put = put.warning? := by
  funext d
  rewrite [warning?, Replacement.warning?, declaration_eq]
  rfl

/-- **MODERN OUTPUT** is the same with every value scanned, with its failures and
    its warnings. -/
theorem apply_eq (config : ResolvedConfig) (options : OutputOptions) (localizer : Localizer)
    (sheet : Stylesheet) :
    apply config options localizer sheet = Modern.apply config options localizer sheet := by
  rewrite [apply, Modern.apply, ThemeTokens.Scanned.analyze_eq]
  simp only [rule_eq, declarations_eq, warning?_eq]
  rfl

end Modern.Scanned

/-! ## Legacy output -/

namespace Legacy.Scanned

/-- A declaration read, whatever its value. -/
def referring? (d : Declaration) : Except ThemeError (Option Referring) := do
  let value ← located d.location (ParsedValue.parse d.value)
  return if value.hasReferences then some ⟨d, value⟩ else none

/-- The declaration with its references replaced for a scheme of a theme, if every
    one of them has a value. -/
def substitute (source : Source) (theme : Option LightDarkTheme) (name : String)
    (scheme : ColorScheme) (item : Referring) : Except ThemeError (Option Declaration) :=
  located item.declaration.location do
    let several := decide (1 < item.value.referenceCount)
    let resolve := source.resolve theme name scheme several
    match ← ThemeTokens.Scanned.substitute resolve item.value with
    | .text value => return some { item.declaration with value }
    | .dropped _ => return none

/-- The declarations of the author, and those that refer to themes. -/
def baseDeclarations (source : Source) :
    List Declaration → Except ThemeError (List Declaration × List Referring)
  | [] => .ok ([], [])
  | d :: ds => do
      match ← referring? d with
      | none =>
          let (kept, referring) ← baseDeclarations source ds
          return (d :: kept, referring)
      | some item =>
          let value ← substitute source source.base source.baseName .light item
          let (kept, referring) ← baseDeclarations source ds
          return (value.toList ++ kept, item :: referring)

/-- The declarations that refer to themes, for one scheme of one theme. -/
def overrideDeclarations (source : Source) (theme : LightDarkTheme) (name : String)
    (scheme : ColorScheme) : List Referring → Except ThemeError (List Declaration)
  | [] => .ok []
  | item :: items => do
      let value ← substitute source (some theme) name scheme item
      let rest ← overrideDeclarations source theme name scheme items
      return value.toList ++ rest

/-- The rules that override another, one for each scheme of each theme. -/
def overrides (source : Source) (selector : String) (location : Location)
    (items : List Referring) :
    List (String × LightDarkTheme × ColorScheme) → Except ThemeError (List Rule)
  | [] => .ok []
  | (name, theme, scheme) :: rest => do
      let declarations ← overrideDeclarations source theme name scheme items
      let rules ← overrides source selector location items rest
      if declarations.isEmpty && !source.options.emptySelectors then return rules
      else
        return ⟨Selector.scope selector (source.className name scheme), declarations,
          location⟩ :: rules

/-- A rule of the author and its overrides. -/
def rule (source : Source) (r : Rule) : Except ThemeError (Rule × List Rule) := do
  let (kept, referring) ← baseDeclarations source r.declarations
  let plain : Rule :=
    { r with selector := Selector.stripThemeRoot r.selector, declarations := kept }
  if source.options.singleTheme.isSome || referring.isEmpty then return (plain, [])
  else
    return (plain, ← overrides source r.selector r.location referring source.variants)

mutual

/-- A node and the overrides that belong behind it. -/
def node (source : Source) : Node → Except ThemeError (Node × List Rule)
  | .rule r => do
      let (plain, overrides) ← rule source r
      return (.rule plain, overrides)
  | .atStatement head => return (.atStatement head, [])
  | .atRules head children => do
      let (kept, overrides) ← nodes source children
      return (.atRules head (kept ++ overrides.map .rule), [])
  | .atDeclarations head ds => do
      let (kept, _) ← baseDeclarations source ds
      return (.atDeclarations head kept, [])

/-- Nodes and the overrides that belong behind them. -/
def nodes (source : Source) : List Node → Except ThemeError (List Node × List Rule)
  | [] => return ([], [])
  | n :: ns => do
      let (kept, overrides) ← node source n
      let (rest, more) ← nodes source ns
      return (kept :: rest, overrides ++ more)

end

/-- Legacy output, every value scanned. -/
def apply (config : ResolvedConfig) (options : OutputOptions) (sheet : Stylesheet) :
    Except ThemeError Stylesheet := do
  let source := Source.of config options
  let (kept, overrides) ← nodes source sheet.nodes
  return (Stylesheet.mk (kept ++ overrides.map .rule)).appendRules source.emptyRules

/-- A declaration that is not scanned refers to no theme, and neither does it if it
    is scanned. -/
theorem referring?_eq : referring? = Source.referring? := by
  funext d
  rw [referring?, Source.referring?]
  by_cases hm : mentionsTheme d.value = true
  · rw [if_pos hm]
  · obtain ⟨parsed, hparse, hnone⟩ := referenceFree_of_not_mentions (Bool.eq_false_iff.mpr hm)
    rw [if_neg hm, hparse]
    show Except.ok (if parsed.hasReferences then _ else none) = _
    rw [hnone]
    rfl

variable (source : Source)

/-- Values of themes are put in alike. -/
theorem substitute_eq : substitute source = source.substitute := by
  funext theme name scheme item
  rewrite [substitute, Source.substitute, ThemeTokens.Scanned.substitute_eq]
  rfl

/-- The same declarations of the author are kept, and the same ones refer to
    themes. -/
theorem baseDeclarations_eq : baseDeclarations source = source.baseDeclarations := by
  funext ds
  induction ds with
  | nil => rfl
  | cons d ds ih =>
      rewrite [baseDeclarations, Source.baseDeclarations, referring?_eq, substitute_eq, ih]
      rfl

/-- What refers to themes is overridden alike for each scheme of a theme. -/
theorem overrideDeclarations_eq : overrideDeclarations source = source.overrideDeclarations := by
  funext theme name scheme items
  induction items with
  | nil => rfl
  | cons item items ih =>
      rw [overrideDeclarations, Source.overrideDeclarations, substitute_eq, ih]

/-- A rule has the same overrides. -/
theorem overrides_eq : overrides source = source.overrides := by
  funext selector location items variants
  induction variants with
  | nil => rfl
  | cons variant variants ih =>
      rw [overrides, Source.overrides, overrideDeclarations_eq, ih]

theorem rule_eq : rule source = source.rule := by
  funext r
  rw [rule, Source.rule, baseDeclarations_eq, overrides_eq]

mutual

theorem node_eq (n : Node) : node source n = source.node n := by
  cases n with
  | rule r => rw [node, Source.node, rule_eq]
  | atStatement head => rfl
  | atRules head children => rw [node, Source.node, nodes_eq children]
  | atDeclarations head ds => rw [node, Source.node, baseDeclarations_eq]

/-- Rules at every depth come out alike, with the same overrides. -/
theorem nodes_eq (ns : List Node) : nodes source ns = source.nodes ns := by
  cases ns with
  | nil => rfl
  | cons n ns => rw [nodes, Source.nodes, node_eq n, nodes_eq ns]

end

/-- **LEGACY OUTPUT** is the same with every value scanned. -/
theorem apply_eq (config : ResolvedConfig) (options : OutputOptions) (sheet : Stylesheet) :
    apply config options sheet = Legacy.apply config options sheet := by
  rw [apply, Legacy.apply]
  simp only [nodes_eq]

end Legacy.Scanned

/-! ## Checking references -/

namespace Lint.Scanned

/-- The first problem with a value, whatever the value. -/
def checkValue (value : String) (tokens : TokenMap) : Option (LintKind × String) :=
  match ParsedValue.parse value with
  | .error (.malformedReference .missingSpace _ _) =>
      some (.spacing, "There needs to be some form of whitespace after @theme")
  | .error e => some (.invalidUsage, e.message)
  | .ok parsed =>
      if parsed.references.any (·.dollar) then
        some (.dollar, "The $ sign is not needed when pulling from a theme")
      else
        (parsed.references.find? fun r => !(tokens.lookup r.path).isValue).map
          fun r => (.variableNotFound, notFoundMessage r.path tokens)

/-- A value that is not scanned has no problem, and scanning finds none. -/
theorem checkValue_eq (value : String) (tokens : TokenMap) :
    checkValue value tokens = Lint.checkValue value tokens := by
  rw [checkValue, Lint.checkValue]
  by_cases hm : mentionsTheme value = true
  · rewrite [if_pos hm]
    rfl
  · obtain ⟨parsed, hparse, hnone⟩ := parse_of_not_mentions (Bool.eq_false_iff.mpr hm)
    rw [if_neg hm, hparse]
    dsimp only
    rw [hnone]
    rfl

end Lint.Scanned

/-! ## Main result -/

/-- **THE SHORTCUT**: a value without the word is read and has no references, and
    with every value scanned all passes come to what they come to otherwise. -/
theorem scanned_everywhere :
    (∀ value, mentionsTheme value = false →
      ∃ parsed, ParsedValue.parse value = .ok parsed ∧ parsed.references = [])
    ∧ (∀ sheet, VariableUsage.analyze sheet = Scanned.analyze sheet)
    ∧ (∀ config options localizer sheet,
        Modern.apply config options localizer sheet
          = Modern.Scanned.apply config options localizer sheet)
    ∧ (∀ config options sheet,
        Legacy.apply config options sheet = Legacy.Scanned.apply config options sheet)
    ∧ (∀ text, hasLeftover text = Scanned.hasLeftover text)
    ∧ ∀ value tokens, Lint.checkValue value tokens = Lint.Scanned.checkValue value tokens := by
  refine ⟨fun value h => parse_of_not_mentions h, fun sheet => ?_, fun _ _ _ _ => ?_,
    fun _ _ _ => ?_, fun text => ?_, fun value tokens => ?_⟩
  · exact (Scanned.analyze_eq sheet).symm
  · exact (Modern.Scanned.apply_eq _ _ _ _).symm
  · exact (Legacy.Scanned.apply_eq _ _ _).symm
  · exact (Scanned.hasLeftover_eq text).symm
  · exact (Lint.Scanned.checkValue_eq value tokens).symm

/-- Letters short of the word, in openers and in strings. -/
def nearMiss : String :=
  "@them e(ink) 'it\\'s @them' them/**/e('ink') \"th"

/-- The word is never complete, so nothing is found that would have to be scanned
    for. -/
theorem nearMiss_scanned :
    mentionsTheme nearMiss = false
      ∧ (∃ parsed, ParsedValue.parse nearMiss = .ok parsed ∧ parsed.references = [])
      ∧ Scanned.hasLeftover nearMiss = false := by
  obtain ⟨hplain, -, -, -, hleftover, -⟩ := scanned_everywhere
  have hm : mentionsTheme nearMiss = false := by decide
  refine ⟨hm, hplain nearMiss hm, ?_⟩
  rw [← hleftover, hasLeftover, hm, Bool.false_and]

end ThemeTokens
