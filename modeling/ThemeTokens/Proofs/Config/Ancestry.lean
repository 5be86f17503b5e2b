import Mathlib.Logic.Relation
import ThemeTokens.Config.Inherit
import ThemeTokens.Proofs.Outcome

/-! # Who extends whom

    The parents of a configuration form one graph a scheme: a theme points to
    the parent of the whole theme and to the parent of that scheme.  The
    checks that come before any token is computed look at one level of parents
    at a time, so they see only part of each graph:

    * `parentsConfigured_of_checkParents`: what passes them names configured
      parents only;
    * `checkParents_eq_ok`: graphs without circles always pass them.

    Circles that change levels are left to the computation itself. -/

namespace ThemeTokens.ThemeConfig

open Relation (TransGen ReflTransGen)

variable {config : ThemeConfig} {scheme : ColorScheme} {name parent : String}

/-- `parent` is a parent of `name` as far as `scheme` goes: the parent of the
    whole theme, or that of the scheme. -/
def Extends (config : ThemeConfig) (scheme : ColorScheme) (name parent : String) :
    Prop :=
  config.parentOf none name = some parent
    ∨ config.parentOf (some scheme) name = some parent

/-- Every parent that is named, at whatever level, is a configured theme. -/
def ParentsConfigured (config : ThemeConfig) : Prop :=
  ∀ level name parent, config.parentOf level name = some parent →
    parent ∈ config.keys

/-- In neither scheme does a theme extend itself, directly or through others. -/
def Acyclic (config : ThemeConfig) : Prop :=
  ∀ scheme name, ¬ TransGen (config.Extends scheme) name name

/-- The parents in a scheme are configured if those at every level are. -/
theorem ParentsConfigured.mem_keys (hconf : config.ParentsConfigured)
    (h : config.Extends scheme name parent) : parent ∈ config.keys := by
  rcases h with hwhole | hscheme
  · exact hconf none name parent hwhole
  · exact hconf (some scheme) name parent hscheme

/-- A theme with a parent is configured. -/
theorem get?_of_parentOf {level : Option ColorScheme}
    (h : config.parentOf level name = some parent) :
    ∃ theme, config.get? name = some theme ∧ theme.parentAt level = some parent :=
  Option.bind_eq_some_iff.mp h

/-- The parents of a configured theme are those its definition names. -/
theorem parentOf_eq {theme : ThemeDefinition} (h : config.get? name = some theme)
    (level : Option ColorScheme) :
    config.parentOf level name = theme.parentAt level := by
  rw [parentOf, h]
  rfl

/-- The parents of a configured theme in a scheme, by its definition. -/
theorem extends_iff {theme : ThemeDefinition} (h : config.get? name = some theme) :
    config.Extends scheme name parent
      ↔ theme.parent = some parent ∨ (theme.scheme scheme).parent = some parent := by
  rw [Extends, parentOf_eq h, parentOf_eq h]
  rfl

/-- A theme is configured exactly when its name is listed. -/
theorem mem_keys_iff : name ∈ config.keys ↔ ∃ theme, config.get? name = some theme := by
  rw [← Entries.contains_iff, Entries.contains, Option.isSome_iff_exists]

/-- A parent at any level is a parent in some scheme: the parent of a scheme in
    that scheme, the parent of the whole theme in both. -/
theorem extends_of_parentOf {level : Option ColorScheme}
    (h : config.parentOf level name = some parent) :
    config.Extends (level.getD .light) name parent := by
  cases level with
  | none => exact Or.inl h
  | some scheme => exact Or.inr h

/-! ## Walking up one level -/

/-- The walk up one level meets no theme twice where that level has no circle.
    Every theme visited leads to the current one, so the next one, if it had
    been visited, would lead to itself. -/
theorem walkParents_eq_ok {level : Option ColorScheme}
    (hac : ∀ name, ¬ TransGen (config.Extends (level.getD .light)) name name)
    (unvisited visited : List String) (current : String)
    (hreach : ∀ v ∈ visited,
      ReflTransGen (config.Extends (level.getD .light)) v current) :
    config.walkParents level unvisited visited current = .ok () := by
  induction unvisited, visited, current using walkParents.induct config level with
  | case1 unvisited visited current hnone =>
      rw [walkParents]
      simp only [hnone]
  | case2 unvisited visited current next hnext hmem ih =>
      rw [walkParents]
      simp only [hnext, dif_pos hmem]
      refine ih ?_
      -- One step further every theme visited still leads to the current one.
      intro v hv
      rcases List.mem_append.mp hv with hold | hnew
      · exact (hreach v hold).tail (extends_of_parentOf hnext)
      · rw [List.mem_singleton.mp hnew]
  | case3 unvisited visited current next hnext _ hseen =>
      -- The next theme was visited: it leads here, and one step back to itself.
      have hstep := extends_of_parentOf hnext
      exact absurd (TransGen.tail' (hreach next hseen) hstep) (hac next)
  | case4 unvisited visited current next hnext hnot hseen =>
      rw [walkParents]
      simp only [hnext, dif_neg hnot, if_neg hseen]

/-! ## The checks before the computation -/

/-- Every level is among those that are checked. -/
theorem mem_levels (level : Option ColorScheme) : level ∈ levels := by
  rcases level with _ | _ | _ <;> simp [levels]

/-- The checks pass exactly when each theme passes at each level. -/
theorem checkParents_eq_ok_iff :
    config.checkParents = .ok () ↔
      ∀ name theme, config.get? name = some theme →
        ∀ level, config.checkParent name theme level = .ok () := by
  rw [checkParents, Outcome.forM_eq_ok]
  constructor
  · intro h name theme hget level
    have hlevels := h (name, theme) (Entries.mem_toList_iff.mpr hget)
    exact Outcome.forM_eq_ok.mp hlevels level (mem_levels level)
  · rintro h ⟨name, theme⟩ hmem
    refine Outcome.forM_eq_ok.mpr ?_
    intro level _
    exact h name theme (Entries.mem_toList_iff.mp hmem) level

/-- What passes the checks names configured parents only. -/
theorem parentsConfigured_of_checkParents (h : config.checkParents = .ok ()) :
    config.ParentsConfigured := by
  intro level name parent hparent
  obtain ⟨theme, hget, hat⟩ := get?_of_parentOf hparent
  have hcheck := checkParents_eq_ok_iff.mp h name theme hget level
  -- The first thing a check does is to look the parent up.
  by_cases hc : config.contains parent = true
  · exact Entries.contains_iff.mp hc
  · rw [checkParent, hat] at hcheck
    simp only [if_pos hc] at hcheck
    cases hcheck

/-- Configured parents without circles pass the checks. -/
theorem checkParents_eq_ok (hconf : config.ParentsConfigured)
    (hac : config.Acyclic) : config.checkParents = .ok () := by
  refine checkParents_eq_ok_iff.mpr ?_
  intro name theme hget level
  rw [checkParent]
  cases hat : theme.parentAt level with
  | none => rfl
  | some parent =>
      have hparent : config.parentOf level name = some parent := by
        rw [parentOf_eq hget, hat]
      have hc : config.contains parent = true :=
        Entries.contains_iff.mpr (hconf level name parent hparent)
      have hself : parent ≠ name := by
        rintro rfl
        exact hac _ _ (TransGen.single (extends_of_parentOf hparent))
      show (if ¬ config.contains parent = true then _ else _) = _
      rw [if_neg (not_not_intro hc), if_neg hself]
      refine walkParents_eq_ok (hac _) _ _ _ ?_
      intro v hv
      rw [List.mem_singleton.mp hv]

end ThemeTokens.ThemeConfig
