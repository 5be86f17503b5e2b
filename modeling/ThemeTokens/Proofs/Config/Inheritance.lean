import ThemeTokens.Proofs.Config.Termination
import ThemeTokens.Token.Flatten
import ThemeTokens.Proofs.Entries
import ThemeTokens.Proofs.Token.Merge

/-! # Inheritance

    Main results about applying parents.

    * `resolve_eq_ok_iff`: exactly the configurations whose parents are all
      configured and lead in no circle resolve.
    * `resolve_solves_uniquely`: what resolves is the only solution of the
      equations between a theme and its parents. -/

namespace ThemeTokens

/-- The tokens of a theme that is in the result; without any if it is not. -/
def ResolvedConfig.tokensOf (resolved : ResolvedConfig) (name : String)
    (scheme : ColorScheme) : TokenMap :=
  ((resolved.get? name).map (·.scheme scheme)).getD .empty

namespace ThemeConfig

open Relation (TransGen)

variable {config : ThemeConfig} {resolved : ResolvedConfig}

/-- What is remembered belongs to configured themes and is what the result has
    for them. -/
def Caches (config : ThemeConfig) (resolved : ResolvedConfig) (scheme : ColorScheme)
    (known : Entries TokenMap) : Prop :=
  ∀ name tokens, known.get? name = some tokens →
    name ∈ config.keys ∧ tokens = resolved.tokensOf name scheme

/-- A configuration resolves after its checks, theme by theme. -/
theorem resolve_eq_ok (h : config.resolve = .ok resolved) :
    config.checkParents = .ok () ∧
      config.resolveThemes config.keys .empty .empty .empty = .ok resolved := by
  obtain ⟨⟨⟩, hcheck, hthemes⟩ := Outcome.bind_eq_ok.mp h
  exact ⟨hcheck, hthemes⟩

/-- In what resolves every theme has tokens in effect. -/
theorem inEffect_of_resolve (h : config.resolve = .ok resolved) :
    ∀ name ∈ config.keys, ∀ scheme, ∃ tokens, config.InEffect scheme name tokens :=
  resolveThemes_inEffect remembers_empty remembers_empty (resolve_eq_ok h).2

/-- What resolves has no circles: a theme in a circle would have a parent, so
    it would be configured, and have tokens in effect. -/
theorem acyclic_of_resolve (h : config.resolve = .ok resolved) : config.Acyclic := by
  intro scheme name hcircle
  have hkey : name ∈ config.keys := by
    obtain ⟨parent, hstep, -⟩ := TransGen.head'_iff.mp hcircle
    rcases hstep with hp | hp
    · obtain ⟨theme, hget, -⟩ := get?_of_parentOf hp
      exact mem_keys_iff.mpr ⟨theme, hget⟩
    · obtain ⟨theme, hget, -⟩ := get?_of_parentOf hp
      exact mem_keys_iff.mpr ⟨theme, hget⟩
  obtain ⟨tokens, heff⟩ := inEffect_of_resolve h name hkey scheme
  exact heff.not_circular hcircle

/-- Configured parents without circles resolve. -/
theorem resolve_progress (hconf : config.ParentsConfigured) (hac : config.Acyclic) :
    ∃ resolved, config.resolve = .ok resolved := by
  obtain ⟨resolved, h⟩ := resolveThemes_progress hconf hac fun _ h => h
  refine ⟨resolved, ?_⟩
  rw [resolve, checkParents_eq_ok hconf hac]
  exact h

/-- The result lists the themes as configured. -/
theorem keys_resolve (h : config.resolve = .ok resolved) :
    resolved.keys = config.keys :=
  keys_resolveThemes (fun _ _ => List.not_mem_nil) config.nodup (resolve_eq_ok h).2

/-- The result holds the tokens in effect. -/
theorem get?_resolve (h : config.resolve = .ok resolved) {name : String}
    (hname : name ∈ config.keys) :
    resolved.get? name
      = some ⟨config.inEffect name .light, config.inEffect name .dark⟩ := by
  rw [resolveThemes_get? remembers_empty remembers_empty (resolve_eq_ok h).2 name,
    if_pos hname]

theorem tokensOf_resolve (h : config.resolve = .ok resolved) {name : String}
    (hname : name ∈ config.keys) (scheme : ColorScheme) :
    resolved.tokensOf name scheme = config.inEffect name scheme := by
  rw [ResolvedConfig.tokensOf, get?_resolve h hname]
  cases scheme with
  | light => rfl
  | dark => rfl

/-- What is remembered of the result is in effect. -/
theorem Caches.remembers {scheme : ColorScheme} {known : Entries TokenMap}
    (h : config.resolve = .ok resolved) (hk : config.Caches resolved scheme known) :
    config.Remembers scheme known := by
  intro name tokens hfound
  obtain ⟨hname, rfl⟩ := hk name tokens hfound
  obtain ⟨tokens, heff⟩ := inEffect_of_resolve h name hname scheme
  rw [tokensOf_resolve h hname, heff.eq_inEffect]
  exact heff

/-- The result solves the equations between themes and their parents. -/
theorem solves_tokensOf (h : config.resolve = .ok resolved) :
    config.Solves resolved.tokensOf := by
  intro name theme hget scheme
  have hconf := parentsConfigured_of_checkParents (resolve_eq_ok h).1
  rw [tokensOf_resolve h (mem_keys_iff.mpr ⟨theme, hget⟩),
    solves_inEffect (inEffect_of_resolve h) name theme hget scheme]
  -- The parents are configured too, so the result has their tokens in effect.
  refine combined_congr hget ?_
  intro parent hp
  exact (tokensOf_resolve h (hconf.mem_keys hp) scheme).symm

/-- Another order of the themes, or themes known beforehand, change nothing. -/
theorem resolveThemes_order (h : config.resolve = .ok resolved) {names : List String}
    {light dark : Entries TokenMap} (hnames : ∀ name ∈ names, name ∈ config.keys)
    (hl : config.Caches resolved .light light) (hd : config.Caches resolved .dark dark) :
    ∃ other, config.resolveThemes names light dark .empty = .ok other ∧
      ∀ name ∈ names, other.get? name = resolved.get? name := by
  have hconf := parentsConfigured_of_checkParents (resolve_eq_ok h).1
  obtain ⟨other, hother⟩ := resolveThemes_progress hconf (acyclic_of_resolve h) hnames
  refine ⟨other, hother, ?_⟩
  intro name hname
  rw [resolveThemes_get? (hl.remembers h) (hd.remembers h) hother name, if_pos hname,
    get?_resolve h (hnames name hname)]

/-- Without parents the equations give each theme its own tokens. -/
theorem combined_of_no_parent {theme : ThemeDefinition} (scheme : ColorScheme)
    (tokensOf : String → TokenMap) (h : ∀ level, theme.parentAt level = none) :
    theme.combined scheme tokensOf = (theme.scheme scheme).tokens := by
  have hwhole : theme.parent = none := h none
  have hscheme : (theme.scheme scheme).parent = none := h (some scheme)
  rw [ThemeDefinition.combined, hwhole, hscheme]
  exact TokenMap.empty_merge _

/-- A configuration without parents resolves to its own tokens. -/
theorem resolve_of_no_parent (h : ∀ level name, config.parentOf level name = none) :
    config.resolve
      = .ok (config.map fun theme => ⟨theme.light.tokens, theme.dark.tokens⟩) := by
  have hconf : config.ParentsConfigured := by
    intro level name parent hp
    cases ((h level name).symm.trans hp)
  -- A circle needs a first step, and no theme has a parent to step to.
  have hac : config.Acyclic := by
    intro scheme name hcircle
    obtain ⟨parent, hstep, -⟩ := TransGen.head'_iff.mp hcircle
    rcases hstep with hp | hp
    · cases ((h _ name).symm.trans hp)
    · cases ((h _ name).symm.trans hp)
  obtain ⟨resolved, hres⟩ := resolve_progress hconf hac
  rw [hres]
  refine congrArg Except.ok (Entries.ext_get? ?_ ?_)
  · rw [keys_resolve hres, Entries.keys_map]
  · intro name hname
    rw [keys_resolve hres] at hname
    obtain ⟨theme, hget⟩ := mem_keys_iff.mp hname
    have hsolve : ∀ scheme, config.inEffect name scheme = (theme.scheme scheme).tokens := by
      intro scheme
      rw [solves_inEffect (inEffect_of_resolve hres) name theme hget scheme]
      refine combined_of_no_parent scheme _ ?_
      intro level
      rw [← parentOf_eq hget]
      exact h level name
    rw [get?_resolve hres hname, Entries.get?_map, hget, hsolve, hsolve]
    rfl

/-! ## Main results -/

/-- **WHICH CONFIGURATIONS RESOLVE**: exactly those in which every parent is
    configured and, in each scheme, no theme is among its own ancestors.
    Neither recursion on the way goes deeper than there are themes, but for
    one last call.  After the checks no parent is found missing, and what does
    not resolve fails, without any theme as a result. -/
theorem resolve_eq_ok_iff (config : ThemeConfig) :
    ((∃ resolved, config.resolve = .ok resolved)
        ↔ config.ParentsConfigured ∧ config.Acyclic)
      ∧ config.EndsWithin config.keys.length
      ∧ (config.checkParents = .ok () → ∀ theme target,
          config.resolve ≠ .error (.missingExtension theme target))
      ∧ (¬ (config.ParentsConfigured ∧ config.Acyclic) →
          ∃ e, config.resolve = .error e ∧ ∀ resolved, config.resolve ≠ .ok resolved) := by
  have hiff : (∃ resolved, config.resolve = .ok resolved)
      ↔ config.ParentsConfigured ∧ config.Acyclic := by
    constructor
    · rintro ⟨resolved, h⟩
      exact ⟨parentsConfigured_of_checkParents (resolve_eq_ok h).1, acyclic_of_resolve h⟩
    · rintro ⟨hconf, hac⟩
      exact resolve_progress hconf hac
  refine ⟨hiff, endsWithin_size config, ?_, ?_⟩
  · intro hcheck theme target h
    rw [resolve, hcheck, Outcome.ok_bind] at h
    have hconf := parentsConfigured_of_checkParents hcheck
    obtain ⟨chain, he⟩ := resolveThemes_error hconf (fun _ h => h) h
    cases he
  · intro hbad
    cases h : config.resolve with
    | error e =>
        refine ⟨e, rfl, ?_⟩
        intro resolved hr
        cases hr
    | ok resolved => exact absurd (hiff.mp ⟨resolved, h⟩) hbad

/-- **INHERITANCE**: what a configuration resolves to lists its themes in
    their order and is the one solution of the equations between a theme and
    its parents, key order included.  The themes may be computed in any order,
    and with any themes known beforehand, to the same tokens.  Without parents
    every theme keeps its own. -/
theorem resolve_solves_uniquely (config : ThemeConfig) :
    (∀ resolved, config.resolve = .ok resolved →
        resolved.keys = config.keys
          ∧ config.Solves resolved.tokensOf
          ∧ (∀ tokensOf, config.Solves tokensOf → ∀ name ∈ config.keys, ∀ scheme,
              tokensOf name scheme = resolved.tokensOf name scheme)
          ∧ ∀ names light dark, (∀ name ∈ names, name ∈ config.keys) →
              config.Caches resolved .light light → config.Caches resolved .dark dark →
              ∃ other, config.resolveThemes names light dark .empty = .ok other ∧
                ∀ name ∈ names, other.get? name = resolved.get? name)
      ∧ ((∀ level name, config.parentOf level name = none) →
          config.resolve
            = .ok (config.map fun theme => ⟨theme.light.tokens, theme.dark.tokens⟩)) := by
  refine ⟨?_, resolve_of_no_parent⟩
  intro resolved h
  refine ⟨keys_resolve h, solves_tokensOf h, ?_, ?_⟩
  · intro tokensOf hsolves name hname scheme
    obtain ⟨tokens, heff⟩ := inEffect_of_resolve h name hname scheme
    rw [tokensOf_resolve h hname, heff.eq_inEffect]
    exact heff.eq_of_solves hsolves
  · intro names light dark hnames hl hd
    exact resolveThemes_order h hnames hl hd

/-- Two ways lead from the first theme to the last one, a deep merge on the
    one and a shallow one on the other. -/
def diamond : ThemeConfig :=
  let line (name text : String) := TokenMap.empty.insertMap "line"
    (TokenMap.empty.insertText name text)
  .ofList
    [("d", { parent := some "b", light := ⟨some "c", line "width" "4px"⟩ }),
     ("b", { parent := some "a", light := ⟨none, line "style" "dotted"⟩ }),
     ("c", { parent := some "a", light := ⟨none, (line "color" "red").insertText "gap" "3px"⟩ }),
     ("a", { light := ⟨none, TokenMap.empty.insertText "ink" "black"⟩ })]

theorem diamond_inherits : ∃ resolved, diamond.resolve = .ok resolved
    ∧ resolved.keys = ["d", "b", "c", "a"]
    ∧ (resolved.tokensOf "d" .light).flatten = [(⟨"ink"⟩, "black"),
        (⟨"line.style"⟩, "dotted"), (⟨"line.width"⟩, "4px"), (⟨"gap"⟩, "3px")]
    ∧ diamond.Solves resolved.tokensOf := by
  have hvalue : diamond.resolve.toOption.map
      (fun resolved => (resolved.tokensOf "d" .light).flatten) = some
        [(⟨"ink"⟩, "black"), (⟨"line.style"⟩, "dotted"), (⟨"line.width"⟩, "4px"),
          (⟨"gap"⟩, "3px")] := by
    decide +kernel
  obtain ⟨resolved, hres, hflat⟩ := Option.map_eq_some_iff.mp hvalue
  have hok := Outcome.toOption_eq_some_iff.mp hres
  obtain ⟨hkeys, hsolves, -⟩ := (resolve_solves_uniquely diamond).1 resolved hok
  exact ⟨resolved, hok, hkeys.trans (by decide +kernel), hflat, hsolves⟩

end ThemeConfig

end ThemeTokens
