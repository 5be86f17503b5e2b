import ThemeTokens.Proofs.Config.Circles

/-! # Where a reported circle starts

    Themes are checked and computed in the order in which they are configured,
    and a theme need not be on a circle to lead into one.  The anchor of a
    circle is the first theme whose walk finds it (`IsAnchor`): the first that
    leads into a circle of one level, and if there is none, the first that
    leads into one of some scheme.

    A circle of one level is reported from its anchor on.  A circle that
    changes levels is not: there the report leaves out the way from the anchor
    into the circle, so that it starts with the anchor only if that is on the
    circle (`resolve_anchor`). -/

namespace ThemeTokens.ThemeConfig

open Relation (TransGen ReflTransGen)

variable {config : ThemeConfig} {edge : String → String → Prop} {scheme : ColorScheme}
  {level : Option ColorScheme} {name last : String} {met : List String}

/-- From `name` one comes to a theme that leads back to itself. -/
def ReachesCircle (edge : String → String → Prop) (name : String) : Prop :=
  ∃ other, ReflTransGen edge name other ∧ TransGen edge other other

/-- The parents of one level lead from `name` into a circle. -/
def CirclesAtLevel (config : ThemeConfig) (name : String) : Prop :=
  ∃ level, ReachesCircle (config.NamesAt level) name

/-- The parents of whole themes and those of one scheme lead from `name` into
    a circle. -/
def CirclesInScheme (config : ThemeConfig) (name : String) : Prop :=
  ∃ scheme, ReachesCircle (config.Extends scheme) name

/-- `name` is the first of the configured themes that has the property. -/
def IsFirst (config : ThemeConfig) (property : String → Prop) (name : String) : Prop :=
  ∃ before after, config.keys = before ++ name :: after ∧ property name
    ∧ ∀ other ∈ before, ¬ property other

/-- `name` is the theme whose walk finds a circle: the first that leads into a
    circle of one level, and where no theme does, the first that leads into a
    circle of some scheme. -/
def IsAnchor (config : ThemeConfig) (name : String) : Prop :=
  config.IsFirst config.CirclesAtLevel name
    ∨ (∀ other ∈ config.keys, ¬ config.CirclesAtLevel other)
      ∧ config.IsFirst config.CirclesInScheme name

/-! ## Leading into a circle -/

/-- One leads into a circle exactly if one of one's parents does. -/
theorem reachesCircle_iff_step :
    ReachesCircle edge name ↔ ∃ parent, edge name parent ∧ ReachesCircle edge parent := by
  constructor
  · rintro ⟨other, hreach, hcircle⟩
    rcases ReflTransGen.cases_head hreach with rfl | ⟨parent, hstep, hrest⟩
    · -- On the circle the first step leads back to where it began.
      obtain ⟨parent, hstep, hback⟩ := TransGen.head'_iff.mp hcircle
      exact ⟨parent, hstep, name, hback, hcircle⟩
    · exact ⟨parent, hstep, other, hrest, hcircle⟩
  · rintro ⟨parent, hstep, other, hreach, hcircle⟩
    exact ⟨other, hreach.head hstep, hcircle⟩

/-- Every theme of a closed walk leads into its circle. -/
theorem ClosedWalk.reachesCircle (h : config.ClosedWalk edge met last) (hname : name ∈ met) :
    ReachesCircle edge name := by
  have hsteps : (met ++ [last]).IsChain (TransGen edge) :=
    h.steps.imp fun _ _ hstep => TransGen.single hstep
  have hforward := (List.pairwise_append.mp (List.isChain_iff_pairwise.mp hsteps)).2.2
  have hlast : ∀ other ∈ met, TransGen edge other last :=
    fun other hother => hforward other hother last List.mem_cons_self
  exact ⟨last, (hlast name hname).to_reflTransGen, hlast last h.again⟩

/-- A walk up one level that ends has not come from a circle. -/
theorem not_reachesCircle_of_walkParents {unvisited visited : List String} {current : String}
    (hc : config.Complements unvisited visited)
    (h : config.walkParents level unvisited visited current = .ok ()) :
    ¬ ReachesCircle (config.NamesAt level) current := by
  induction unvisited, visited, current using walkParents.induct config level with
  | case1 unvisited visited current hnone =>
      intro hreach
      obtain ⟨parent, hstep, -⟩ := reachesCircle_iff_step.mp hreach
      cases hnone.symm.trans hstep
  | case2 unvisited visited current next hnext hmem ih =>
      rw [walkParents] at h
      simp only [hnext, dif_pos hmem] at h
      intro hreach
      obtain ⟨parent, hstep, hparent⟩ := reachesCircle_iff_step.mp hreach
      rw [← Option.some.inj (hnext.symm.trans hstep)] at hparent
      exact ih (hc.erase next) h hparent
  | case3 unvisited visited current next hnext hnot hseen =>
      rw [walkParents] at h
      simp only [hnext, dif_neg hnot, if_pos hseen] at h
      cases h
  | case4 unvisited visited current next hnext hnot hseen =>
      -- The next theme is not configured, so it names no parent.
      intro hreach
      obtain ⟨parent, hstep, hparent⟩ := reachesCircle_iff_step.mp hreach
      rw [← Option.some.inj (hnext.symm.trans hstep)] at hparent
      obtain ⟨further, hfurther, -⟩ := reachesCircle_iff_step.mp hparent
      obtain ⟨theme, hget, -⟩ := get?_of_parentOf hfurther
      exact hnot ((hc.2 next).mpr ⟨mem_keys_iff.mpr ⟨theme, hget⟩, hseen⟩)

/-- A theme that passes a check does not lead into a circle of that level. -/
theorem not_reachesCircle_of_checkParent {theme : ThemeDefinition}
    (hget : config.get? name = some theme)
    (h : config.checkParent name theme level = .ok ()) :
    ¬ ReachesCircle (config.NamesAt level) name := by
  rcases checkParent_cases hget level with ⟨parent, hmissing⟩ | hself | hwalk
  · cases hmissing.symm.trans h
  · cases hself.symm.trans h
  · exact not_reachesCircle_of_walkParents (config.complements_keys.erase name)
      (hwalk.symm.trans h)

/-- Configured themes that pass all checks lead into no circle of one level. -/
theorem not_circlesAtLevel_of_checkParents (h : config.checkParents = .ok ()) :
    ∀ name ∈ config.keys, ¬ config.CirclesAtLevel name := by
  rintro name hname ⟨level, hreach⟩
  obtain ⟨theme, hget⟩ := mem_keys_iff.mp hname
  exact not_reachesCircle_of_checkParent hget (checkParents_eq_ok_iff.mp h name theme hget level)
    hreach

/-- A theme with tokens in effect does not lead into a circle. -/
theorem InEffect.not_reachesCircle {tokens : TokenMap} (h : config.InEffect scheme name tokens) :
    ¬ ReachesCircle (config.Extends scheme) name := by
  induction h with
  | theme _ _ _ ih =>
      intro hreach
      obtain ⟨parent, hstep, hparent⟩ := reachesCircle_iff_step.mp hreach
      exact ih parent hstep hparent

/-! ## Main result -/

/-- The first theme that fails its check is the anchor, and the report starts
    with it. -/
theorem anchor_of_checkParents {chain : List String}
    (h : config.checkParents = .error (.circularExtension chain)) :
    ∃ name met last level, config.IsFirst config.CirclesAtLevel name ∧ chain = met ++ [last]
      ∧ config.ClosedWalk (config.NamesAt level) met last ∧ met.head? = some name := by
  obtain ⟨before, name, theme, after, level, hlist, hpass, hfail⟩ := checkParents_error h
  have hget : ∀ p ∈ config.toList, config.get? p.1 = some p.2 :=
    fun _ hp => Entries.mem_toList_iff.mp hp
  rw [hlist] at hget
  obtain ⟨met, last, hchain, hclosed, hhead⟩ :=
    checkParent_circular (hget (name, theme) (List.mem_append_right _ List.mem_cons_self)) hfail
  refine ⟨name, met, last, level, ⟨before.map Prod.fst, after.map Prod.fst, ?_, ?_, ?_⟩, hchain,
    hclosed, hhead⟩
  · show config.toList.map Prod.fst = _
    rw [hlist, List.map_append, List.map_cons]
  · exact ⟨level, hclosed.reachesCircle (List.mem_of_mem_head? hhead)⟩
  · rintro other hother ⟨level, hreach⟩
    obtain ⟨p, hp, rfl⟩ := List.mem_map.mp hother
    exact not_reachesCircle_of_checkParent (hget p (List.mem_append_left _ hp)) (hpass p hp level)
      hreach

/-- The first theme that cannot be computed is the first that leads into a
    circle of some scheme. -/
theorem anchor_of_resolveThemes {chain : List String}
    (h : config.resolveThemes config.keys .empty .empty .empty
      = .error (.circularExtension chain)) :
    ∃ name lead met last scheme, config.IsFirst config.CirclesInScheme name
      ∧ chain = met ++ [last] ∧ config.ClosedWalk (config.Extends scheme) (lead ++ met) last
      ∧ (lead ++ met).head? = some name ∧ met.head? = some last := by
  obtain ⟨before, name, after, scheme, known, hkeys, hpass, hfail⟩ :=
    resolveThemes_stops remembers_empty remembers_empty h
  obtain ⟨lead, met, last, hchain, hhead, hclosed, ⟨rest, hfront⟩⟩ :=
    resolveScheme_circular complements_keys trail_nil (fun _ hnone => by cases hnone) hfail
  have hname : (lead ++ met).head? = some name := by
    cases hall : lead ++ met with
    | nil =>
        have hagain := hclosed.again
        rw [hall] at hagain
        cases hagain
    | cons first others =>
        rw [hall] at hfront
        exact congrArg some (List.cons.inj hfront).1.symm
  refine ⟨name, lead, met, last, scheme, ⟨before, after, hkeys, ?_, ?_⟩, hchain, hclosed, hname,
    hhead⟩
  · exact ⟨scheme, hclosed.reachesCircle (List.mem_of_mem_head? hname)⟩
  · rintro other hother ⟨scheme, hreach⟩
    obtain ⟨tokens, heffect⟩ := hpass other hother scheme
    exact heffect.not_reachesCircle hreach

/-- What is left of a walk from the theme on that it met again starts with the
    first theme of the walk exactly if that theme is still there. -/
theorem ClosedWalk.head?_iff {lead : List String} (h : config.ClosedWalk edge (lead ++ met) last)
    (hname : (lead ++ met).head? = some name) (hhead : met.head? = some last) :
    (met ++ [last]).head? = some name ↔ name ∈ met ++ [last] := by
  refine ⟨List.mem_of_mem_head?, fun hmem => ?_⟩
  have hmet : name ∈ met := by
    rcases List.mem_append.mp hmem with hmet | hlast
    · exact hmet
    · rw [List.mem_singleton.mp hlast]
      exact List.mem_of_mem_head? hhead
  cases lead with
  | nil => exact (List.head?_append_of_ne_nil met (List.ne_nil_of_mem hmet)).trans hname
  | cons first lead =>
      -- Then the first theme would be in the walk twice.
      rw [← Option.some.inj hname] at hmet
      exact absurd (List.mem_append_right lead hmet) (List.nodup_cons.mp h.distinct).1

/-- **THE ANCHOR**: a circle is found on a walk that starts with the anchor, and
    `lead` is the part of the walk that the report leaves out.  It leaves out
    nothing where parents of one level lead into a circle.  Otherwise it starts
    with the anchor exactly if the anchor is on the reported circle. -/
theorem resolve_anchor {chain : List String}
    (h : config.resolve = .error (.circularExtension chain)) :
    ∃ name lead met last scheme, config.IsAnchor name
      ∧ chain = met ++ [last] ∧ config.ClosedWalk (config.Extends scheme) (lead ++ met) last
      ∧ (lead ++ met).head? = some name
      ∧ ((∃ other ∈ config.keys, config.CirclesAtLevel other) → lead = [])
      ∧ (chain.head? = some name ↔ name ∈ chain) := by
  rcases resolve_error h with hcheck | ⟨hcheck, hthemes⟩
  · obtain ⟨name, met, last, level, hfirst, rfl, hclosed, hhead⟩ := anchor_of_checkParents hcheck
    have hstart : (met ++ [last]).head? = some name := by
      rw [List.head?_append, hhead]
      rfl
    exact ⟨name, [], met, last, level.getD .light, Or.inl hfirst, rfl,
      hclosed.imp fun _ _ hnames => extends_of_parentOf hnames, hhead, fun _ => rfl,
      iff_of_true hstart (List.mem_of_mem_head? hstart)⟩
  · obtain ⟨name, lead, met, last, scheme, hfirst, rfl, hclosed, hname, hhead⟩ :=
      anchor_of_resolveThemes hthemes
    have hnone := not_circlesAtLevel_of_checkParents hcheck
    refine ⟨name, lead, met, last, scheme, Or.inr ⟨hnone, hfirst⟩, rfl, hclosed, hname, ?_,
      hclosed.head?_iff hname hhead⟩
    rintro ⟨other, hother, hcircles⟩
    exact absurd hcircles (hnone other hother)

/-- The circle of `eddy` with one of its themes in front. -/
def eddyTurned : ThemeConfig :=
  ⟨eddy.toList.rotate 1, by decide +kernel⟩

theorem eddyTurned_anchor :
    eddyTurned.resolve = .error (.circularExtension ["a", "b", "a"])
      ∧ ∃ name lead met last scheme, eddyTurned.IsAnchor name
          ∧ ["a", "b", "a"] = met ++ [last]
          ∧ eddyTurned.ClosedWalk (eddyTurned.Extends scheme) (lead ++ met) last
          ∧ (lead ++ met).head? = some name
          ∧ ((∃ other ∈ eddyTurned.keys, eddyTurned.CirclesAtLevel other) → lead = [])
          ∧ (["a", "b", "a"].head? = some name ↔ name ∈ ["a", "b", "a"]) := by
  have hfail : Outcome.failure? eddyTurned.resolve
      = some (.circularExtension ["a", "b", "a"]) := by
    decide +kernel
  have hres := Outcome.failure?_eq_some_iff.mp hfail
  exact ⟨hres, resolve_anchor hres⟩

/-- A report need not start with the anchor: from a theme that only leads into
    the circle nothing is left in it. -/
theorem resolve_anchor_fails :
    ¬ ∀ (config : ThemeConfig) (chain : List String),
        config.resolve = .error (.circularExtension chain) →
          ∃ name, config.IsAnchor name ∧ chain.head? = some name := by
  intro h
  obtain ⟨name, hanchor, hname⟩ := h eddy ["a", "b", "a"] eddy_resolve
  obtain rfl : "a" = name := Option.some.inj hname
  have hcheck : eddy.checkParents = .ok () := by decide +kernel
  rcases hanchor with ⟨_, _, hkeys, hcircles, -⟩ | ⟨-, before, after, hkeys, -, hbefore⟩
  · refine not_circlesAtLevel_of_checkParents hcheck "a" ?_ hcircles
    rw [hkeys]
    exact List.mem_append_right _ List.mem_cons_self
  · have hlisted : eddy.keys = ["c", "a", "b"] := by decide +kernel
    rw [hlisted] at hkeys
    cases before with
    | nil => exact absurd (List.cons.inj hkeys).1 (by decide)
    | cons first before =>
        rw [← (List.cons.inj hkeys).1] at hbefore
        refine hbefore "c" List.mem_cons_self ⟨.light, "a", ?_, ?_⟩
        · exact ReflTransGen.single (Or.inl (by decide +kernel))
        · have hout : eddy.Extends .light "a" "b" := Or.inl (by decide +kernel)
          have hback : eddy.Extends .light "b" "a" := Or.inr (by decide +kernel)
          exact (TransGen.single hout).tail hback

end ThemeTokens.ThemeConfig
