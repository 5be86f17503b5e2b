import ThemeTokens.Proofs.Config.Inheritance

/-! # The order of themes

    The computation begins with the theme that was written first, so another
    order remembers other themes by the time it comes to one, and another
    circle is the first to be met.  The result shows none of it: who extends
    whom and which equations hold is said by name, and what resolves is the
    only solution of its equations.

    * `resolve_perm`: the same themes in another order resolve together or not
      at all, and to the same tokens. -/

namespace ThemeTokens.ThemeConfig

variable {config other : ThemeConfig}

/-- Two configurations find the same theme under every name. -/
def SameThemes (config other : ThemeConfig) : Prop :=
  ∀ name, config.get? name = other.get? name

namespace SameThemes

theorem symm (h : config.SameThemes other) : other.SameThemes config :=
  fun name => (h name).symm

/-- Parents are the same at each level. -/
theorem parentOf_eq (h : config.SameThemes other) (level : Option ColorScheme)
    (name : String) : config.parentOf level name = other.parentOf level name := by
  rw [parentOf, parentOf, h name]

theorem extends_eq (h : config.SameThemes other) (scheme : ColorScheme) :
    config.Extends scheme = other.Extends scheme := by
  funext name parent
  rw [Extends, Extends, h.parentOf_eq, h.parentOf_eq]

theorem mem_keys (h : config.SameThemes other) {name : String}
    (hname : name ∈ config.keys) : name ∈ other.keys := by
  obtain ⟨theme, hget⟩ := mem_keys_iff.mp hname
  exact mem_keys_iff.mpr ⟨theme, (h name).symm.trans hget⟩

/-- If all parents are configured in the one, they are in the other. -/
theorem parentsConfigured (h : config.SameThemes other) (hconf : config.ParentsConfigured) :
    other.ParentsConfigured := by
  intro level name parent hparent
  exact h.mem_keys (hconf level name parent ((h.parentOf_eq level name).trans hparent))

/-- A circle in the one would be one in the other. -/
theorem acyclic (h : config.SameThemes other) (hac : config.Acyclic) : other.Acyclic := by
  intro scheme name hcircle
  rw [← h.extends_eq] at hcircle
  exact hac scheme name hcircle

/-- A solution for the one is a solution for the other. -/
theorem solves (h : config.SameThemes other) {tokensOf : String → ColorScheme → TokenMap}
    (hsolves : config.Solves tokensOf) : other.Solves tokensOf :=
  fun name theme hget => hsolves name theme ((h name).trans hget)

/-- What resolves for the one resolves for the other. -/
theorem resolves (h : config.SameThemes other) {resolved : ResolvedConfig}
    (hres : config.resolve = .ok resolved) : ∃ found, other.resolve = .ok found := by
  have hconf := parentsConfigured_of_checkParents (resolve_eq_ok hres).1
  exact resolve_progress (h.parentsConfigured hconf) (h.acyclic (acyclic_of_resolve hres))

/-- The tokens in effect for the one are those in effect for the other: both
    results solve the same equations. -/
theorem inEffect_eq (h : config.SameThemes other) {resolved found : ResolvedConfig}
    (hres : config.resolve = .ok resolved) (hfound : other.resolve = .ok found)
    {name : String} (hname : name ∈ config.keys) (scheme : ColorScheme) :
    config.inEffect name scheme = other.inEffect name scheme := by
  obtain ⟨tokens, heff⟩ := inEffect_of_resolve hres name hname scheme
  calc config.inEffect name scheme
      = tokens := heff.eq_inEffect
    _ = found.tokensOf name scheme :=
        (heff.eq_of_solves (h.symm.solves (solves_tokensOf hfound))).symm
    _ = other.inEffect name scheme := tokensOf_resolve hfound (h.mem_keys hname) scheme

/-- The results find the same tokens under every name. -/
theorem get?_eq (h : config.SameThemes other) {resolved found : ResolvedConfig}
    (hres : config.resolve = .ok resolved) (hfound : other.resolve = .ok found)
    (name : String) : resolved.get? name = found.get? name := by
  by_cases hname : name ∈ config.keys
  · rw [get?_resolve hres hname, get?_resolve hfound (h.mem_keys hname),
      h.inEffect_eq hres hfound hname, h.inEffect_eq hres hfound hname]
  · -- A name without a theme is in neither result.
    have hother : name ∉ other.keys := fun hmem => hname (h.symm.mem_keys hmem)
    rw [← keys_resolve hres] at hname
    rw [← keys_resolve hfound] at hother
    exact (Pairs.get?_eq_none_iff.mpr hname).trans (Pairs.get?_eq_none_iff.mpr hother).symm

end SameThemes

/-- **ORDER**: the same themes written in another order resolve if the first
    ones do, and every name has the same light and dark tokens in both results,
    down to the order of their keys. -/
theorem resolve_perm {config other : ThemeConfig} (h : config.toList.Perm other.toList) :
    ((∃ resolved, config.resolve = .ok resolved) ↔ ∃ found, other.resolve = .ok found)
      ∧ ∀ resolved found, config.resolve = .ok resolved → other.resolve = .ok found →
          ∀ name, resolved.get? name = found.get? name := by
  have hsame : config.SameThemes other := Entries.get?_perm h
  refine ⟨⟨?_, ?_⟩, ?_⟩
  · rintro ⟨resolved, hres⟩
    exact hsame.resolves hres
  · rintro ⟨found, hfound⟩
    exact hsame.symm.resolves hfound
  · intro resolved found hres hfound name
    exact hsame.get?_eq hres hfound name

/-- The diamond with its ancestor first, so that every parent is computed
    before the theme that names it. -/
def diamondUpwards : ThemeConfig :=
  ⟨diamond.toList.reverse, by decide +kernel⟩

/-- The deep and the shallow merge at the foot of the diamond are the same
    whether its theme or its ancestor is computed first. -/
theorem diamond_in_either_order : ∃ resolved found,
    diamond.resolve = .ok resolved ∧ diamondUpwards.resolve = .ok found
      ∧ found.keys = ["a", "c", "b", "d"]
      ∧ (found.tokensOf "d" .light).flatten = [(⟨"ink"⟩, "black"),
          (⟨"line.style"⟩, "dotted"), (⟨"line.width"⟩, "4px"), (⟨"gap"⟩, "3px")]
      ∧ ∀ name, resolved.get? name = found.get? name := by
  have hvalue : diamondUpwards.resolve.toOption.map
      (fun found => (found.keys, (found.tokensOf "d" .light).flatten))
      = some (["a", "c", "b", "d"], [(⟨"ink"⟩, "black"), (⟨"line.style"⟩, "dotted"),
          (⟨"line.width"⟩, "4px"), (⟨"gap"⟩, "3px")]) := by
    decide +kernel
  obtain ⟨found, hfound, hshape⟩ := Option.map_eq_some_iff.mp hvalue
  obtain ⟨hkeys, hflat⟩ := Prod.mk.inj hshape
  have hok := Outcome.toOption_eq_some_iff.mp hfound
  have hperm : diamond.toList.Perm diamondUpwards.toList :=
    (List.reverse_perm diamond.toList).symm
  obtain ⟨hiff, hsame⟩ := resolve_perm hperm
  obtain ⟨resolved, hres⟩ := hiff.mpr ⟨found, hok⟩
  exact ⟨resolved, found, hres, hok, hkeys, hflat, hsame resolved found hres hok⟩

end ThemeTokens.ThemeConfig
