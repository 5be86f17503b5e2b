import ThemeTokens.Proofs.Isolation
import ThemeTokens.Proofs.Reference.Blame
import ThemeTokens.Proofs.Reference.Leftover

/-! # Who is at fault

    Every error of an output comes from one declaration and has its place, at
    whatever depth the declaration is nested and in whichever pass it failed
    (`Declaration.Blamed`).  The declaration refers to the key that the error
    names, or cannot be read, or was left with a reference by the texts put in
    (`Declaration.AtFault`).

    Errors without a place are raised by references and by values; they get it
    where their declaration is known, which `blamed_of_substitute` and
    `blamed_of_parse` say once for both kinds of output.

    Modern output reads all declarations before it replaces anything in one of
    them.  So it fails at the first that cannot be read, even if others before
    it have references that lead nowhere. -/

namespace ThemeTokens

/-! ## Declarations -/

section Faults

variable (spells : ParsedValue → String → Prop)

/-- What a declaration can be at fault for, where `spells` tells the texts that
    may be put together for a value. -/
inductive Declaration.AtFault (d : Declaration) : ThemeError → Prop where
  | unknownToken {key : String} {place : Option Location} (refers : d.RefersTo ⟨key⟩) :
      AtFault d (.unknownToken key place)
  | notAValue {key : String} {place : Option Location} (refers : d.RefersTo ⟨key⟩) :
      AtFault d (.notAValue key place)
  | missingThemeKey {theme key : String} {place : Option Location} (refers : d.RefersTo ⟨key⟩) :
      AtFault d (.missingThemeKey theme key place)
  /-- The value cannot be read. -/
  | rejected {fault : ReferenceFault} {text : String} {place : Option Location}
      (unread : ParsedValue.parse d.value = .error (.malformedReference fault text none)) :
      AtFault d (.malformedReference fault text place)
  /-- The value is read, and there are references in the text put together. -/
  | leftover {value : ParsedValue} {text : String} {place : Option Location}
      (read : d.referring? = some value) (spelled : spells value text)
      (left : ¬ ReferenceFree text) :
      AtFault d (.malformedReference .invalidUsage text place)

/-- The error has the place of the declaration, which is at fault. -/
def Declaration.Blamed (d : Declaration) (e : ThemeError) : Prop :=
  e.location? = some d.location ∧ d.AtFault spells e

variable {spells}

/-- An error that gets the place of a declaration at fault blames it. -/
theorem Declaration.AtFault.blamed {d : Declaration} {e : ThemeError} (h : d.AtFault spells e)
    (hplace : e.location? = none) : d.Blamed spells (e.located d.location) := by
  cases h with
  | unknownToken refers =>
      cases hplace
      exact ⟨rfl, .unknownToken refers⟩
  | notAValue refers =>
      cases hplace
      exact ⟨rfl, .notAValue refers⟩
  | missingThemeKey refers =>
      cases hplace
      exact ⟨rfl, .missingThemeKey refers⟩
  | rejected unread =>
      cases hplace
      exact ⟨rfl, .rejected unread⟩
  | leftover read spelled left =>
      cases hplace
      exact ⟨rfl, .leftover read spelled left⟩

/-- More texts that may be put together are no excuse. -/
theorem Declaration.AtFault.imp {other : ParsedValue → String → Prop} {d : Declaration}
    {e : ThemeError} (h : d.AtFault spells e)
    (himp : ∀ value text, spells value text → other value text) : d.AtFault other e := by
  cases h with
  | unknownToken refers => exact .unknownToken refers
  | notAValue refers => exact .notAValue refers
  | missingThemeKey refers => exact .missingThemeKey refers
  | rejected unread => exact .rejected unread
  | leftover read spelled left => exact .leftover read (himp _ _ spelled) left

/-- A value that cannot be read blames its declaration. -/
theorem blamed_of_parse {d : Declaration} {e : ThemeError}
    (h : located d.location (ParsedValue.parse d.value) = .error e) : d.Blamed spells e := by
  obtain ⟨raised, hparse, rfl⟩ := Outcome.located_eq_error.mp h
  obtain ⟨fault, -, rfl⟩ := parse_eq_error_iff.mp hparse
  have hfault : d.AtFault spells (.malformedReference fault d.value none) := .rejected hparse
  exact hfault.blamed rfl

/-- The error of a reference: it names the path, and has no place. -/
def RaisedFor (r : Reference) (e : ThemeError) : Prop :=
  e = .unknownToken r.path.text none ∨ e = .notAValue r.path.text none
    ∨ ∃ theme, e = .missingThemeKey theme r.path.text none

/-- A substitution that fails blames its declaration. -/
theorem blamed_of_substitute {d : Declaration} {value : ParsedValue} {e : ThemeError}
    {resolve : Reference → Except ThemeError (Option String)} (hd : d.referring? = some value)
    (hraised : ∀ r e, resolve r = .error e → RaisedFor r e)
    (hspells : ∀ text, fill resolve value.segments = .ok (.text text) → spells value text)
    (h : value.substitute resolve = .error e) : d.Blamed spells (e.located d.location) := by
  rcases substitute_eq_error h with ⟨r, hr, hfail⟩ | ⟨text, hfill, hleft, rfl⟩
  · have hrefers : d.RefersTo ⟨r.path.text⟩ := ⟨value, hd, r, hr, rfl⟩
    rcases hraised r e hfail with rfl | rfl | ⟨theme, rfl⟩
    · exact Declaration.AtFault.blamed (.unknownToken hrefers) rfl
    · exact Declaration.AtFault.blamed (.notAValue hrefers) rfl
    · exact Declaration.AtFault.blamed (.missingThemeKey hrefers) rfl
  · have hnotfree : ¬ ReferenceFree text := by
      rw [← hasLeftover_eq_false_iff, hleft]
      exact Bool.noConfusion
    exact Declaration.AtFault.blamed (.leftover hd (hspells text hfill) hnotfree) rfl

end Faults

/-! ## Modern output -/

/-- A value that need not be read could be, so the two are the same. -/
theorem readable_iff {d : Declaration} :
    d.Readable ↔ ∃ value, ParsedValue.parse d.value = .ok value := by
  refine ⟨fun h => ?_, fun h _ => h⟩
  by_cases hm : mentionsTheme d.value = true
  · exact h hm
  · obtain ⟨value, hvalue, -⟩ := referenceFree_of_not_mentions (Bool.eq_false_iff.mpr hm)
    exact ⟨value, hvalue⟩

/-- Where the references of a declaration cannot be counted, its value is
    rejected. -/
theorem parse_of_references {d : Declaration} {e : ThemeError} (h : d.references = .error e) :
    located d.location (ParsedValue.parse d.value) = .error e := by
  rw [Declaration.references] at h
  by_cases hm : mentionsTheme d.value = true
  · rw [if_pos hm] at h
    exact Outcome.error_of_bind_ok h
  · rw [if_neg hm] at h
    cases h

/-- Counting fails at the first declaration whose value is rejected. -/
theorem VariableUsage.analyze_eq_error {sheet : Stylesheet} {e : ThemeError}
    (h : analyze sheet = .error e) :
    ∃ before d after, sheet.declarations = before ++ d :: after
      ∧ (∀ b ∈ before, ∃ value, ParsedValue.parse b.value = .ok value)
      ∧ located d.location (ParsedValue.parse d.value) = .error e := by
  obtain ⟨before, d, after, hsplit, hbefore, hd⟩ := ofDeclarations_eq_error h
  exact ⟨before, d, after, hsplit, fun b hb => readable_iff.mp (hbefore b hb),
    parse_of_references hd⟩

namespace Modern

namespace Replacement

variable {put : Replacement}

/-- What is written for a path. -/
def textOf? (put : Replacement) (path : TokenPath) : Option String :=
  if put.literal then put.values.light.value? path else some (put.varText path)

/-- The text is the value with what is written for its paths. -/
def Spells (put : Replacement) (value : ParsedValue) (text : String) : Prop :=
  value.spelled? put.textOf? = some text

/-- A reference is replaced by what is written for its path, or by nothing. -/
theorem resolve_textOf? {r : Reference} {found : Option String} (h : put.resolve r = .ok found) :
    found = put.textOf? r.path := by
  rw [resolve] at h
  rw [textOf?]
  by_cases hliteral : put.literal = true
  · rw [if_pos hliteral] at h ⊢
    exact (Except.ok.inj h).symm
  · rw [if_neg hliteral] at h ⊢
    cases hl : put.authority.light.lookup r.path with
    | value text =>
        rw [hl] at h
        exact (Except.ok.inj h).symm
    | group =>
        rw [hl] at h
        cases h
    | missing =>
        rw [hl] at h
        cases h

/-- A reference that fails names its path. -/
theorem resolve_raised (r : Reference) (e : ThemeError) (h : put.resolve r = .error e) :
    RaisedFor r e := by
  rw [resolve] at h
  by_cases hliteral : put.literal = true
  · rw [if_pos hliteral] at h
    cases h
  · rw [if_neg hliteral] at h
    cases hl : put.authority.light.lookup r.path with
    | value text =>
        rw [hl] at h
        cases h
    | group =>
        rw [hl] at h
        exact Or.inr (Or.inl (Except.error.inj h).symm)
    | missing =>
        rw [hl] at h
        exact Or.inl (Except.error.inj h).symm

/-- A declaration that fails is to blame itself. -/
theorem declaration_blames {d : Declaration} {e : ThemeError} (h : put.declaration d = .error e) :
    d.Blamed put.Spells e := by
  rw [declaration] at h
  by_cases hm : mentionsTheme d.value = true
  · rw [if_pos hm] at h
    obtain ⟨raised, hraised, rfl⟩ := Outcome.located_eq_error.mp h
    rcases Outcome.bind_eq_error hraised with hparse | ⟨value, hparse, hraised⟩
    · exact blamed_of_parse (Outcome.located_eq_error.mpr ⟨raised, hparse, rfl⟩)
    · by_cases hr : value.hasReferences = true
      · rw [if_pos hr] at hraised
        rcases Outcome.bind_eq_error hraised with hsub | ⟨outcome, -, hret⟩
        · exact blamed_of_substitute (referring?_eq_some_iff.mpr ⟨hparse, hr⟩) resolve_raised
            (fun text hfill => (fill_text? (fun r found => resolve_textOf?) hfill).symm) hsub
        · cases outcome with
          | text text => cases hret
          | dropped missing => cases hret
      · rw [if_neg hr] at hraised
        cases hraised
  · rw [if_neg hm] at h
    cases h

/-- A list of declarations fails because of one of them. -/
theorem declarations_blames {ds : List Declaration} {e : ThemeError}
    (h : put.declarations ds = .error e) : ∃ d ∈ ds, d.Blamed put.Spells e := by
  induction ds with
  | nil => cases h
  | cons d ds ih =>
      rw [List.exists_mem_cons_iff]
      rcases Outcome.bind_eq_error h with hd | ⟨replaced, -, h⟩
      · exact Or.inl (declaration_blames hd)
      · cases replaced with
        | kept kept => exact Or.inr (ih (Outcome.error_of_bind_ok h))
        | removed warning => exact Or.inr (ih h)

/-- So does a stylesheet, at any depth. -/
theorem sheet_blames {sheet : Stylesheet} {e : ThemeError} (h : put.sheet sheet = .error e) :
    ∃ d ∈ sheet.declarations, d.Blamed put.Spells e := by
  refine Stylesheet.mapM_fails (fun r hr => ?_) (fun ds hds => declarations_blames hds) h
  exact declarations_blames (Outcome.error_of_bind_ok hr)

end Replacement

section Output

variable {config : ResolvedConfig} {options : OutputOptions} {localizer : Localizer}
  {sheet : Stylesheet}

/-- The text is the value with what modern output writes for its paths. -/
def Spells (config : ResolvedConfig) (options : OutputOptions) (localizer : Localizer)
    (sheet : Stylesheet) (value : ParsedValue) (text : String) : Prop :=
  ∃ usage, VariableUsage.analyze sheet = .ok usage
    ∧ (replacement config options localizer usage).Spells value text

/-- Modern output that fails blames a declaration of the stylesheet. -/
theorem apply_blames {e : ThemeError} (h : apply config options localizer sheet = .error e) :
    ∃ d ∈ sheet.declarations, d.Blamed (Spells config options localizer sheet) e := by
  rcases apply_eq_error.mp h with hcount | ⟨usage, husage, hput⟩
  · obtain ⟨before, d, after, hsplit, -, hd⟩ := VariableUsage.analyze_eq_error hcount
    refine ⟨d, ?_, blamed_of_parse hd⟩
    rw [hsplit]
    exact List.mem_append_right before List.mem_cons_self
  · obtain ⟨d, hd, hplace, hfault⟩ := Replacement.sheet_blames hput
    exact ⟨d, hd, hplace, hfault.imp fun value text hspells => ⟨usage, husage, hspells⟩⟩

/-- A value that is rejected comes before everything else that may fail. -/
theorem apply_rejects {d : Declaration} (hd : d ∈ sheet.declarations) {raised : ThemeError}
    (hraised : ParsedValue.parse d.value = .error raised) :
    ∃ before first after fault, sheet.declarations = before ++ first :: after
      ∧ (∀ b ∈ before, ∃ value, ParsedValue.parse b.value = .ok value)
      ∧ ParsedValue.parse first.value = .error (.malformedReference fault first.value none)
      ∧ apply config options localizer sheet
        = .error (.malformedReference fault first.value (some first.location)) := by
  cases hcount : VariableUsage.analyze sheet with
  | ok usage =>
      have hreadable := VariableUsage.analyze_progress_iff.mp ⟨usage, hcount⟩
      obtain ⟨value, hvalue⟩ := readable_iff.mp (hreadable d hd)
      cases hraised.symm.trans hvalue
  | error e =>
      obtain ⟨before, first, after, hsplit, hbefore, hfirst⟩ :=
        VariableUsage.analyze_eq_error hcount
      obtain ⟨raised, hparse, rfl⟩ := Outcome.located_eq_error.mp hfirst
      obtain ⟨fault, -, rfl⟩ := parse_eq_error_iff.mp hparse
      exact ⟨before, first, after, fault, hsplit, hbefore, hparse,
        apply_eq_error.mpr (Or.inl hcount)⟩

end Output

end Modern

/-! ## Legacy output -/

namespace Legacy

/-- A scheme of a theme is written: in the author's own rules, or in overrides. -/
def Source.Writes (source : Source) (theme : LightDarkTheme) (scheme : ColorScheme) : Prop :=
  (source.base = some theme ∧ scheme = .light) ∨ ∃ name, (name, theme, scheme) ∈ source.variants

/-- The text is the value with the texts of its paths in a scheme of a theme
    that is written. -/
def Spells (config : ResolvedConfig) (options : OutputOptions) (value : ParsedValue)
    (text : String) : Prop :=
  ∃ theme scheme, (Source.of config options).Writes theme scheme
    ∧ value.spelled? (textOf config options theme scheme (decide (1 < value.referenceCount)))
      = some text

namespace Source

variable {config : ResolvedConfig} {options : OutputOptions} {name : String}
  {scheme : ColorScheme} {e : ThemeError}

/-- In legacy output too a reference that fails names its path. -/
theorem resolve_raised {source : Source} {theme : Option LightDarkTheme} {several : Bool}
    (r : Reference) (e : ThemeError) (h : source.resolve theme name scheme several r = .error e) :
    RaisedFor r e := by
  cases theme with
  | none => exact Or.inr (Or.inr ⟨name, (Except.error.inj h).symm⟩)
  | some theme =>
      rw [resolve] at h
      cases hl : (theme.scheme scheme).lookup r.path with
      | value text =>
          rw [hl] at h
          cases h
      | group =>
          rw [hl] at h
          exact Or.inr (Or.inl (Except.error.inj h).symm)
      | missing =>
          rw [hl] at h
          cases several with
          | true => cases h
          | false => cases h

/-- A substitution for a scheme that is written blames its declaration. -/
theorem substitute_blames {theme : Option LightDarkTheme} {d : Declaration} {value : ParsedValue}
    (hd : d.referring? = some value)
    (hwrites : ∀ written, theme = some written → (of config options).Writes written scheme)
    (h : (of config options).substitute theme name scheme ⟨d, value⟩ = .error e) :
    d.Blamed (Spells config options) e := by
  obtain ⟨raised, hraised, rfl⟩ := Outcome.located_eq_error.mp h
  rcases Outcome.bind_eq_error hraised with hsub | ⟨outcome, -, hret⟩
  · refine blamed_of_substitute hd resolve_raised (fun text hfill => ?_) hsub
    cases theme with
    | some theme =>
        exact ⟨theme, scheme, hwrites theme rfl,
          (fill_text? (fun r found => resolve_eq_ok) hfill).symm⟩
    | none =>
        -- Without a theme not even the first reference has a text.
        obtain ⟨r, hr⟩ := hasReferences_iff.mp (referring?_eq_some_iff.mp hd).2
        obtain ⟨first, found, hfirst⟩ := asked_of_fill hfill hr
        cases hfirst
  · cases outcome with
    | text text => cases hret
    | dropped missing => cases hret

theorem referring?_blames {d : Declaration} (h : Source.referring? d = .error e) :
    d.Blamed (Spells config options) e := by
  rw [Source.referring?] at h
  by_cases hm : mentionsTheme d.value = true
  · rw [if_pos hm] at h
    exact blamed_of_parse (Outcome.error_of_bind_ok h)
  · rw [if_neg hm] at h
    cases h

/-- A list of declarations fails in the author's rules because of one of them. -/
theorem baseDeclarations_blames {ds : List Declaration}
    (h : (of config options).baseDeclarations ds = .error e) :
    ∃ d ∈ ds, d.Blamed (Spells config options) e := by
  induction ds with
  | nil => cases h
  | cons d ds ih =>
      rw [List.exists_mem_cons_iff]
      rcases Outcome.bind_eq_error h with hitem | ⟨item, hitem, h⟩
      · exact Or.inl (referring?_blames hitem)
      · cases item with
        | none => exact Or.inr (ih (Outcome.error_of_bind_ok h))
        | some item =>
            obtain ⟨value, hd, rfl⟩ := Option.map_eq_some_iff.mp (referring?_eq_ok hitem).symm
            rcases Outcome.bind_eq_error h with hsub | ⟨found, -, h⟩
            · exact Or.inl (substitute_blames hd (fun theme hbase => Or.inl ⟨hbase, rfl⟩) hsub)
            · exact Or.inr (ih (Outcome.error_of_bind_ok h))

/-- It fails in an override because of one of them. -/
theorem overrideDeclarations_blames {theme : LightDarkTheme} {ds : List Declaration}
    (hwrites : (of config options).Writes theme scheme)
    (h : (of config options).overrideDeclarations theme name scheme (allReferring ds) = .error e) :
    ∃ d ∈ ds, d.Blamed (Spells config options) e := by
  induction ds with
  | nil => cases h
  | cons d ds ih =>
      rw [List.exists_mem_cons_iff]
      rw [allReferring, List.filterMap_cons] at h
      cases hd : d.referring? with
      | none =>
          rw [hd] at h
          exact Or.inr (ih h)
      | some value =>
          rw [hd] at h
          rcases Outcome.bind_eq_error h with hsub | ⟨_, -, h⟩
          · refine Or.inl (substitute_blames hd (fun written hsome => ?_) hsub)
            rw [← Option.some.inj hsome]
            exact hwrites
          · exact Or.inr (ih (Outcome.error_of_bind_ok h))

/-- Every override is one of a theme that is written, so what blames a declaration
    in it counts. -/
theorem overrides_blames {selector : String} {location : Location} {ds : List Declaration}
    {variants : List (String × LightDarkTheme × ColorScheme)}
    (hwrites : ∀ name theme scheme, (name, theme, scheme) ∈ variants →
      (of config options).Writes theme scheme)
    (h : (of config options).overrides selector location (allReferring ds) variants = .error e) :
    ∃ d ∈ ds, d.Blamed (Spells config options) e := by
  induction variants with
  | nil => cases h
  | cons variant variants ih =>
      obtain ⟨name, theme, scheme⟩ := variant
      rcases Outcome.bind_eq_error h with hfirst | ⟨declarations, -, h⟩
      · exact overrideDeclarations_blames (hwrites name theme scheme List.mem_cons_self) hfirst
      · rcases Outcome.bind_eq_error h with hrest | ⟨rules, -, hret⟩
        · exact ih (fun name theme scheme hmem =>
            hwrites name theme scheme (List.mem_cons_of_mem _ hmem)) hrest
        · split at hret
          · cases hret
          · cases hret

theorem rule_blames {r : Rule} (h : (of config options).rule r = .error e) :
    ∃ d ∈ r.declarations, d.Blamed (Spells config options) e := by
  rcases Outcome.bind_eq_error h with hbase | ⟨⟨kept, items⟩, hbase, h⟩
  · exact baseDeclarations_blames hbase
  · dsimp only at h
    split at h
    · cases h
    · rename_i hmore
      -- Overrides are written only without a single theme.
      have hsingle : options.singleTheme = none := by
        rw [Bool.or_eq_true, not_or] at hmore
        exact Option.not_isSome_iff_eq_none.mp hmore.1
      obtain ⟨-, rfl⟩ := baseDeclarations_eq_ok hsingle hbase
      exact overrides_blames (fun name theme scheme hmem => Or.inr ⟨name, hmem⟩)
        (Outcome.error_of_bind_ok h)

mutual

/-- A node fails because of a declaration in it, at whatever depth. -/
theorem node_blames {node : Node} (h : (of config options).node node = .error e) :
    ∃ d ∈ node.declarations, d.Blamed (Spells config options) e := by
  cases node with
  | rule r => exact rule_blames (Outcome.error_of_bind_ok h)
  | atStatement head => cases h
  | atRules head nodes => exact nodes_blames (Outcome.error_of_bind_ok h)
  | atDeclarations head ds => exact baseDeclarations_blames (Outcome.error_of_bind_ok h)

theorem nodes_blames {nodes : List Node} (h : (of config options).nodes nodes = .error e) :
    ∃ d ∈ Node.declarationsAll nodes, d.Blamed (Spells config options) e := by
  cases nodes with
  | nil => cases h
  | cons node nodes =>
      rcases Outcome.bind_eq_error h with hnode | ⟨_, _, h⟩
      · obtain ⟨d, hd, hblamed⟩ := node_blames hnode
        exact ⟨d, List.mem_append_left _ hd, hblamed⟩
      · obtain ⟨d, hd, hblamed⟩ := nodes_blames (Outcome.error_of_bind_ok h)
        exact ⟨d, List.mem_append_right _ hd, hblamed⟩

end

end Source

/-- Legacy output that fails blames a declaration of the stylesheet. -/
theorem apply_blames {config : ResolvedConfig} {options : OutputOptions} {sheet : Stylesheet}
    {e : ThemeError} (h : apply config options sheet = .error e) :
    ∃ d ∈ sheet.declarations, d.Blamed (Spells config options) e :=
  Source.nodes_blames (Outcome.error_of_bind_ok h)

end Legacy

/-! ## Main result -/

/-- **CULPRIT**: an output that fails blames a declaration of the stylesheet,
    at whose place the error is.  Modern output fails at the first declaration
    whose value is rejected, if there is one. -/
theorem errors_blame (config : ResolvedConfig) (options : OutputOptions) (sheet : Stylesheet) :
    (∀ localizer,
        (∀ e, Modern.apply config options localizer sheet = .error e →
          ∃ d ∈ sheet.declarations,
            d.Blamed (Modern.Spells config options localizer sheet) e)
        ∧ ∀ d ∈ sheet.declarations, (∃ e, ParsedValue.parse d.value = .error e) →
          ∃ before first after fault, sheet.declarations = before ++ first :: after
            ∧ (∀ b ∈ before, ∃ value, ParsedValue.parse b.value = .ok value)
            ∧ ParsedValue.parse first.value = .error (.malformedReference fault first.value none)
            ∧ Modern.apply config options localizer sheet
              = .error (.malformedReference fault first.value (some first.location)))
      ∧ ∀ e, Legacy.apply config options sheet = .error e →
          ∃ d ∈ sheet.declarations, d.Blamed (Legacy.Spells config options) e := by
  refine ⟨fun localizer => ⟨fun e => Modern.apply_blames, ?_⟩, fun e => Legacy.apply_blames⟩
  rintro d hd ⟨e, he⟩
  exact Modern.apply_rejects hd he

/-- A theme with an ink, and one with several. -/
def inkwell : ResolvedConfig := .ofList
  [("default", ⟨TokenMap.empty.insertText "ink" "black", .empty⟩),
   ("ocean", ⟨TokenMap.empty.insertMap "ink" (TokenMap.empty.insertText "deep" "navy"), .empty⟩)]

/-- A reference that leads nowhere, one that has a value in one theme only, and
    a value that cannot be read. -/
def scrawled : Stylesheet := ⟨[
  .rule { selector := ".a", declarations := [⟨"gap", "@theme nowhere", ⟨2, 3⟩⟩] },
  .atRules ⟨"media", "print", .none⟩ [
    .rule { selector := ".b", declarations := [⟨"color", "theme('ink')", ⟨6, 5⟩⟩] }],
  .atDeclarations ⟨"font-face", "", .none⟩ [⟨"src", "theme ('font')", ⟨10, 3⟩⟩]]⟩

/-- Modern output fails at the value that cannot be read, though it is the
    last, and legacy output in the override of the rule in the at-rule. -/
theorem scrawled_blames :
    let unread : ThemeError :=
      .malformedReference .spaceBeforeParenthesis "theme ('font')" (some ⟨10, 3⟩)
    let group : ThemeError := .notAValue "ink" (some ⟨6, 5⟩)
    Modern.apply inkwell {} ⟨none, none, ""⟩ scrawled = .error unread
      ∧ Legacy.apply inkwell {} scrawled = .error group
      ∧ (∃ d ∈ scrawled.declarations,
          d.Blamed (Modern.Spells inkwell {} ⟨none, none, ""⟩ scrawled) unread)
      ∧ (∃ d ∈ scrawled.declarations, d.Blamed (Legacy.Spells inkwell {}) group)
      ∧ ∃ before first after fault, scrawled.declarations = before ++ first :: after
          ∧ (∀ b ∈ before, ∃ value, ParsedValue.parse b.value = .ok value)
          ∧ ParsedValue.parse first.value = .error (.malformedReference fault first.value none)
          ∧ Modern.apply inkwell {} ⟨none, none, ""⟩ scrawled
            = .error (.malformedReference fault first.value (some first.location)) := by
  intro unread group
  have hmodern : Outcome.failure? (Modern.apply inkwell {} ⟨none, none, ""⟩ scrawled)
      = some unread := by
    decide +kernel
  have hlegacy : Outcome.failure? (Legacy.apply inkwell {} scrawled) = some group := by
    decide +kernel
  have hrejected : Outcome.failure? (ParsedValue.parse "theme ('font')")
      = some (.malformedReference .spaceBeforeParenthesis "theme ('font')" none) := by
    decide +kernel
  rw [Outcome.failure?_eq_some_iff] at hmodern hlegacy hrejected
  obtain ⟨hblames, hlegacyBlames⟩ := errors_blame inkwell {} scrawled
  obtain ⟨hmodernBlames, hfirst⟩ := hblames ⟨none, none, ""⟩
  have hlast : ⟨"src", "theme ('font')", ⟨10, 3⟩⟩ ∈ scrawled.declarations := by
    decide
  exact ⟨hmodern, hlegacy, hmodernBlames unread hmodern, hlegacyBlames group hlegacy,
    hfirst _ hlast ⟨_, hrejected⟩⟩

end ThemeTokens
