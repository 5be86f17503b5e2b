import Mathlib.Data.List.Basic
import ThemeTokens.Proofs.Entries
import ThemeTokens.Proofs.Reference.Spelling
import ThemeTokens.Reference.Usage

/-! # Referenced and counted

    A path counts as used exactly when some declaration of the stylesheet, at
    any depth, refers to it. -/

namespace ThemeTokens

/-- The declaration has a reference to the path. -/
def Declaration.RefersTo (d : Declaration) (path : TokenPath) : Prop :=
  ∃ value, d.referring? = some value ∧ ∃ r ∈ value.references, r.path = path

/-- Some declaration of the stylesheet has a reference to the path. -/
def Stylesheet.Referenced (sheet : Stylesheet) (path : TokenPath) : Prop :=
  ∃ d ∈ sheet.declarations, d.RefersTo path

variable {path : TokenPath}

/-- The references read from a declaration lead to the paths it refers to. -/
theorem mem_references_iff {d : Declaration} {references : List Reference}
    (h : d.references = .ok references) :
    (∃ r ∈ references, r.path = path) ↔ d.RefersTo path := by
  rw [Declaration.references] at h
  by_cases hm : mentionsTheme d.value = true
  · rw [if_pos hm] at h
    obtain ⟨value, hparse, h⟩ := Outcome.bind_eq_ok.mp h
    rw [Outcome.located_eq_ok] at hparse
    rw [← Except.ok.inj h]
    constructor
    · rintro ⟨r, hr, hpath⟩
      have hrefs := hasReferences_iff.mpr ⟨r, hr⟩
      exact ⟨value, referring?_eq_some_iff.mpr ⟨hparse, hrefs⟩, r, hr, hpath⟩
    · rintro ⟨other, ho, hr⟩
      obtain ⟨hother, -⟩ := referring?_eq_some_iff.mp ho
      rw [hparse] at hother
      rw [Except.ok.inj hother]
      exact hr
  · rw [if_neg hm] at h
    rw [← Except.ok.inj h]
    constructor
    · rintro ⟨r, hr, -⟩
      cases hr
    · rintro ⟨value, hvalue, -⟩
      rw [referring?_of_not_mentions (Bool.eq_false_iff.mpr hm)] at hvalue
      cases hvalue

/-- The value can be read, or need not be. -/
def Declaration.Readable (d : Declaration) : Prop :=
  mentionsTheme d.value = true → ∃ value, ParsedValue.parse d.value = .ok value

theorem references_progress_iff {d : Declaration} :
    (∃ references, d.references = .ok references) ↔ d.Readable := by
  rw [Declaration.references]
  by_cases hm : mentionsTheme d.value = true
  · rw [if_pos hm]
    constructor
    · rintro ⟨references, h⟩ -
      obtain ⟨value, hparse, -⟩ := Outcome.bind_eq_ok.mp h
      exact ⟨value, Outcome.located_eq_ok.mp hparse⟩
    · intro h
      obtain ⟨value, hparse⟩ := h hm
      exact ⟨_, Outcome.bind_eq_ok.mpr ⟨value, Outcome.located_eq_ok.mpr hparse, rfl⟩⟩
  · rw [if_neg hm]
    exact iff_of_true ⟨[], rfl⟩ fun hyes => absurd hyes hm

namespace VariableUsage

theorem ofDeclarations_progress_iff {usage : VariableUsage} {ds : List Declaration} :
    (∃ found, usage.ofDeclarations ds = .ok found) ↔ ∀ d ∈ ds, d.Readable := by
  induction ds generalizing usage with
  | nil => exact iff_of_true ⟨usage, rfl⟩ (List.forall_mem_nil _)
  | cons d ds ih =>
      rw [List.forall_mem_cons, ← references_progress_iff]
      constructor
      · rintro ⟨found, h⟩
        obtain ⟨references, hrefs, hrest⟩ := Outcome.bind_eq_ok.mp h
        exact ⟨⟨references, hrefs⟩, ih.mp ⟨found, hrest⟩⟩
      · rintro ⟨⟨references, hrefs⟩, hall⟩
        have hprogress : ∃ found, (references.foldl note usage).ofDeclarations ds = .ok found :=
          ih.mpr hall
        obtain ⟨found, hrest⟩ := hprogress
        exact ⟨found, Outcome.bind_eq_ok.mpr ⟨references, hrefs, hrest⟩⟩

/-- Counting succeeds exactly when every value that has to be read can be. -/
theorem analyze_progress_iff {sheet : Stylesheet} :
    (∃ usage, analyze sheet = .ok usage) ↔ ∀ d ∈ sheet.declarations, d.Readable :=
  ofDeclarations_progress_iff

/-- Counting fails at the first declaration that cannot be read. -/
theorem ofDeclarations_eq_error {usage : VariableUsage} {ds : List Declaration} {e : ThemeError}
    (h : usage.ofDeclarations ds = .error e) :
    ∃ before d after, ds = before ++ d :: after ∧ (∀ b ∈ before, b.Readable)
      ∧ d.references = .error e := by
  induction ds generalizing usage with
  | nil => cases h
  | cons d ds ih =>
      rcases Outcome.bind_eq_error h with hd | ⟨references, hrefs, hrest⟩
      · exact ⟨[], d, ds, rfl, List.forall_mem_nil _, hd⟩
      · obtain ⟨before, stop, after, rfl, hbefore, hstop⟩ := ih hrest
        refine ⟨d :: before, stop, after, rfl, ?_, hstop⟩
        exact List.forall_mem_cons.mpr ⟨references_progress_iff.mp ⟨references, hrefs⟩, hbefore⟩

/-- A used path is listed. -/
theorem mem_paths_of_isUsed {usage : VariableUsage} (h : usage.isUsed path = true) :
    path ∈ usage.paths := by
  rw [isUsed, decide_eq_true_iff, count] at h
  refine List.mem_map.mpr ⟨path.text, ?_, rfl⟩
  -- A path that is not listed counts as used zero times.
  cases hget : usage.counts.get? path.text with
  | none =>
      rw [hget] at h
      exact absurd h (Nat.lt_irrefl 0)
  | some n => exact Pairs.mem_keys_of_get? hget

theorem isUsed_note {usage : VariableUsage} {r : Reference} :
    (usage.note r).isUsed path = true ↔ usage.isUsed path = true ∨ r.path = path := by
  rw [isUsed, isUsed, decide_eq_true_iff, decide_eq_true_iff, count, note, Entries.get?_insert]
  by_cases h : r.path.text = path.text
  · -- One use more is at least one.
    rw [if_pos h]
    have hpath : r.path = path := congrArg TokenPath.mk h
    exact iff_of_true (Nat.succ_pos _) (Or.inr hpath)
  · rw [if_neg h]
    constructor
    · exact Or.inl
    · rintro (hused | rfl)
      · exact hused
      · exact absurd rfl h

theorem isUsed_foldl_note {usage : VariableUsage} {references : List Reference} :
    (references.foldl note usage).isUsed path = true
      ↔ usage.isUsed path = true ∨ ∃ r ∈ references, r.path = path := by
  induction references generalizing usage with
  | nil =>
      constructor
      · exact Or.inl
      · rintro (hused | ⟨r, hr, -⟩)
        · exact hused
        · cases hr
  | cons r rs ih => rw [List.foldl_cons, ih, isUsed_note, or_assoc, List.exists_mem_cons_iff]

/-- Counting on from some use finds the paths the declarations refer to. -/
theorem ofDeclarations_isUsed {usage found : VariableUsage} {ds : List Declaration}
    (h : usage.ofDeclarations ds = .ok found) :
    found.isUsed path = true
      ↔ usage.isUsed path = true ∨ ∃ d ∈ ds, d.RefersTo path := by
  induction ds generalizing usage with
  | nil =>
      rw [← Except.ok.inj h]
      constructor
      · exact Or.inl
      · rintro (hused | ⟨d, hd, -⟩)
        · exact hused
        · cases hd
  | cons d ds ih =>
      obtain ⟨references, hrefs, h⟩ := Outcome.bind_eq_ok.mp h
      rw [ih h, isUsed_foldl_note, mem_references_iff hrefs, or_assoc, List.exists_mem_cons_iff]

/-- **USE**: a path is used exactly when the stylesheet refers to it. -/
theorem isUsed_iff {sheet : Stylesheet} {usage : VariableUsage} (h : analyze sheet = .ok usage) :
    usage.isUsed path = true ↔ sheet.Referenced path := by
  rw [ofDeclarations_isUsed h]
  constructor
  · rintro (hempty | href)
    · cases hempty
    · exact href
  · exact Or.inr

/-- Whether a path is referenced can be computed. -/
theorem referenced_of_counted {sheet : Stylesheet}
    (h : (analyze sheet).toOption.map (fun usage => usage.isUsed path) = some true) :
    sheet.Referenced path := by
  obtain ⟨usage, husage, hused⟩ := Option.map_eq_some_iff.mp h
  exact (isUsed_iff (Outcome.toOption_eq_some_iff.mp husage)).mp hused

/-- All paths that are referenced can be computed. -/
theorem mem_paths_of_referenced {sheet : Stylesheet} {paths : List TokenPath}
    (h : (analyze sheet).toOption.map VariableUsage.paths = some paths)
    (href : sheet.Referenced path) : path ∈ paths := by
  obtain ⟨usage, husage, rfl⟩ := Option.map_eq_some_iff.mp h
  exact mem_paths_of_isUsed ((isUsed_iff (Outcome.toOption_eq_some_iff.mp husage)).mpr href)

end VariableUsage

end ThemeTokens
