import Mathlib.Data.List.Chain
import Mathlib.Data.List.Nodup
import ThemeTokens.Proofs.Config.Termination

/-! # Circles that are reported

    Two walks can come upon a circle of parents.  The check before the
    computation goes up the parents of one level, and the computation goes up
    the parents of one scheme, the themes that wait for others being its way so
    far.  Both have distinct configured themes behind them of which each names
    the next (`Trail`), and both fail where they come to one of these again
    (`ClosedWalk`).

    The check reports its whole walk (`walkParents_circular`).  The computation
    leaves out what lies in front of the theme it met again
    (`resolveScheme_circular`), and what it reports is still such a walk.  So a
    reported circle is there (`resolve_circular`). -/

namespace ThemeTokens.ThemeConfig

variable {config : ThemeConfig} {edge : String → String → Prop} {scheme : ColorScheme}
  {level : Option ColorScheme} {name last : String} {met unvisited : List String}

/-- `parent` is the parent that `name` names at a level. -/
def NamesAt (config : ThemeConfig) (level : Option ColorScheme) (name parent : String) :
    Prop :=
  config.parentOf level name = some parent

/-- Distinct configured themes, each of which leads to the next. -/
structure Trail (config : ThemeConfig) (edge : String → String → Prop)
    (met : List String) : Prop where
  distinct : met.Nodup
  configured : ∀ name ∈ met, name ∈ config.keys
  steps : met.IsChain edge

/-- A walk over distinct configured themes that comes to one of them again. -/
structure ClosedWalk (config : ThemeConfig) (edge : String → String → Prop)
    (met : List String) (last : String) : Prop where
  distinct : met.Nodup
  configured : ∀ name ∈ met, name ∈ config.keys
  again : last ∈ met
  steps : (met ++ [last]).IsChain edge

/-! ## Trails -/

theorem trail_nil : config.Trail edge [] :=
  ⟨List.nodup_nil, List.forall_mem_nil _, .nil⟩

/-- One step on from the last theme. -/
theorem isChain_concat {next : String} (h : met.IsChain edge)
    (hstep : ∀ current ∈ met.getLast?, edge current next) : (met ++ [next]).IsChain edge := by
  refine List.isChain_append.mpr ⟨h, .singleton next, ?_⟩
  intro current hcurrent other hother
  rw [← Option.some.inj hother]
  exact hstep current hcurrent

namespace Trail

/-- A trail goes on to a configured theme that is new. -/
theorem extend {next : String} (h : config.Trail edge met)
    (hstep : ∀ current ∈ met.getLast?, edge current next) (hkey : next ∈ config.keys)
    (hnew : next ∉ met) : config.Trail edge (met ++ [next]) where
  distinct := List.nodup_append_comm.mp (List.nodup_cons.mpr ⟨hnew, h.distinct⟩)
  configured := by
    intro other hother
    rcases List.mem_append.mp hother with hold | hnext
    · exact h.configured other hold
    · rw [List.mem_singleton.mp hnext]
      exact hkey
  steps := isChain_concat h.steps hstep

/-- A trail is closed by a step to one of its themes. -/
theorem close (h : config.Trail edge met)
    (hstep : ∀ current ∈ met.getLast?, edge current last) (hagain : last ∈ met) :
    config.ClosedWalk edge met last :=
  ⟨h.distinct, h.configured, hagain, isChain_concat h.steps hstep⟩

end Trail

namespace ClosedWalk

theorem imp {other : String → String → Prop} (h : config.ClosedWalk edge met last)
    (himp : ∀ name parent, edge name parent → other name parent) :
    config.ClosedWalk other met last :=
  ⟨h.distinct, h.configured, h.again, h.steps.imp himp⟩

/-- What lies in front of the theme that was met again can be left out. -/
theorem right {lead : List String} (h : config.ClosedWalk edge (lead ++ met) last)
    (hagain : last ∈ met) : config.ClosedWalk edge met last where
  distinct := (List.nodup_append.mp h.distinct).2.1
  configured name hname := h.configured name (List.mem_append_right lead hname)
  again := hagain
  steps := by
    have hsteps := h.steps
    rw [List.append_assoc] at hsteps
    exact hsteps.right_of_append

end ClosedWalk

/-! ## The walk up one level -/

/-- The check fails where the walk up a level closes, and reports all of it. -/
theorem walkParents_circular {visited : List String} {current : String} {e : ThemeError}
    (hc : config.Complements unvisited visited)
    (htrail : config.Trail (config.NamesAt level) visited)
    (hlast : visited.getLast? = some current)
    (h : config.walkParents level unvisited visited current = .error e) :
    ∃ met last, e = .circularExtension (met ++ [last])
      ∧ config.ClosedWalk (config.NamesAt level) met last ∧ visited <+: met := by
  induction unvisited, visited, current using walkParents.induct config level with
  | case1 unvisited visited current hnone =>
      rw [walkParents] at h
      simp only [hnone] at h
      cases h
  | case2 unvisited visited current next hnext hmem ih =>
      rw [walkParents] at h
      simp only [hnext, dif_pos hmem] at h
      have hstep : ∀ from' ∈ visited.getLast?, config.NamesAt level from' next := by
        intro from' hfrom
        rw [← Option.some.inj (hlast.symm.trans hfrom)]
        exact hnext
      obtain ⟨hkey, hnew⟩ := (hc.2 next).mp hmem
      obtain ⟨met, last, he, hclosed, hfront⟩ :=
        ih (hc.erase next) (htrail.extend hstep hkey hnew) List.getLast?_concat h
      exact ⟨met, last, he, hclosed, (List.prefix_append visited [next]).trans hfront⟩
  | case3 unvisited visited current next hnext hnot hseen =>
      rw [walkParents] at h
      simp only [hnext, dif_neg hnot, if_pos hseen] at h
      refine ⟨visited, next, (Except.error.inj h).symm, htrail.close ?_ hseen, List.prefix_rfl⟩
      intro from' hfrom
      rw [← Option.some.inj (hlast.symm.trans hfrom)]
      exact hnext
  | case4 unvisited visited current next hnext hnot hseen =>
      rw [walkParents] at h
      simp only [hnext, dif_neg hnot, if_neg hseen] at h
      cases h

/-- What a check does once the parent is known to be another configured theme:
    it walks up the level. -/
theorem checkParent_cases {theme : ThemeDefinition} (hget : config.get? name = some theme)
    (level : Option ColorScheme) :
    (∃ parent, config.checkParent name theme level = .error (.missingExtension name parent))
      ∨ config.checkParent name theme level = .error (.selfExtension name)
      ∨ config.checkParent name theme level
          = config.walkParents level (config.keys.erase name) [name] name := by
  rw [checkParent]
  cases hat : theme.parentAt level with
  | none =>
      -- Without a parent the walk ends where it starts.
      have hnone : config.parentOf level name = none := (parentOf_eq hget level).trans hat
      rw [walkParents]
      simp only [hnone]
      exact Or.inr (Or.inr trivial)
  | some parent =>
      dsimp only
      by_cases hconf : ¬ config.contains parent = true
      · rw [if_pos hconf]
        exact Or.inl ⟨parent, rfl⟩
      · rw [if_neg hconf]
        by_cases hself : parent = name
        · rw [if_pos hself]
          exact Or.inr (Or.inl rfl)
        · rw [if_neg hself]
          exact Or.inr (Or.inr rfl)

/-- A theme that fails its check for a circle is where the reported walk starts. -/
theorem checkParent_circular {theme : ThemeDefinition} {chain : List String}
    (hget : config.get? name = some theme)
    (h : config.checkParent name theme level = .error (.circularExtension chain)) :
    ∃ met last, chain = met ++ [last] ∧ config.ClosedWalk (config.NamesAt level) met last
      ∧ met.head? = some name := by
  rcases checkParent_cases hget level with ⟨parent, hmissing⟩ | hself | hwalk
  · cases hmissing.symm.trans h
  · cases hself.symm.trans h
  · have hstart : config.Trail (config.NamesAt level) [name] :=
      trail_nil.extend (fun _ hnone => by cases hnone) (mem_keys_iff.mpr ⟨theme, hget⟩)
        List.not_mem_nil
    obtain ⟨met, last, he, hclosed, ⟨rest, hmet⟩⟩ :=
      walkParents_circular (config.complements_keys.erase name) hstart rfl (hwalk.symm.trans h)
    refine ⟨met, last, ThemeError.circularExtension.inj he, hclosed, ?_⟩
    rw [← hmet]
    rfl

/-! ## The walk of the computation -/

theorem head?_dropWhile_ne {path : List String} (h : name ∈ path) :
    (path.dropWhile (· ≠ name)).head? = some name := by
  induction path with
  | nil => cases h
  | cons first path ih =>
      by_cases hfirst : first = name
      · rw [List.dropWhile_cons_of_neg (by simp [hfirst]), hfirst]
        rfl
      · rw [List.dropWhile_cons_of_pos (by simp [hfirst])]
        exact ih ((List.mem_cons.mp h).resolve_left fun hname => hfirst hname.symm)

/-- The report of a theme that waits leaves out what waits in front of it. -/
theorem Trail.close_waiting {path : List String} (h : config.Trail edge path)
    (hstep : ∀ waiting ∈ path.getLast?, edge waiting name) (hwaits : name ∈ path) :
    ∃ lead, (path.dropWhile (· ≠ name)).head? = some name
      ∧ config.ClosedWalk edge (lead ++ path.dropWhile (· ≠ name)) name
      ∧ path ++ [name] <+: lead ++ path.dropWhile (· ≠ name) ++ [name] := by
  have hsplit : path.takeWhile (· ≠ name) ++ path.dropWhile (· ≠ name) = path :=
    List.takeWhile_append_dropWhile
  refine ⟨path.takeWhile (· ≠ name), head?_dropWhile_ne hwaits, ?_, ?_⟩
  · rw [hsplit]
    exact h.close hstep hwaits
  · exact ⟨[], by rw [hsplit, List.append_nil]⟩

/-- The computation fails where the themes that wait lead to one of them, and
    reports those from there on. -/
theorem resolveScheme_circular {path chain : List String} {known : Entries TokenMap}
    (hc : config.Complements unvisited path)
    (htrail : config.Trail (config.Extends scheme) path)
    (hstep : ∀ waiting ∈ path.getLast?, config.Extends scheme waiting name)
    (h : config.resolveScheme scheme unvisited path name known
      = .error (.circularExtension chain)) :
    ∃ lead met last, chain = met ++ [last] ∧ met.head? = some last
      ∧ config.ClosedWalk (config.Extends scheme) (lead ++ met) last
      ∧ path ++ [name] <+: lead ++ met ++ [last] := by
  induction hn : unvisited.length using Nat.strongRecOn
      generalizing unvisited path name known with
  | _ n ih =>
      rw [resolveScheme_eq] at h
      cases hk : known.get? name with
      | some tokens =>
          rw [hk] at h
          cases h
      | none =>
          cases hget : config.get? name with
          | none =>
              rw [hk, hget] at h
              cases h
          | some theme =>
              have hkey := mem_keys_iff.mpr ⟨theme, hget⟩
              simp only [hk, hget] at h
              by_cases hmem : name ∈ unvisited
              · rw [if_pos hmem] at h
                have hlt : (unvisited.erase name).length < n := hn ▸ length_erase_lt hmem
                have hnew : name ∉ path := ((hc.2 name).mp hmem).2
                -- A parent continues the walk from the theme at hand.
                have hparent : ∀ parent known, config.Extends scheme name parent →
                    config.resolveScheme scheme (unvisited.erase name) (path ++ [name]) parent
                      known = .error (.circularExtension chain) →
                    ∃ lead met last, chain = met ++ [last] ∧ met.head? = some last
                      ∧ config.ClosedWalk (config.Extends scheme) (lead ++ met) last
                      ∧ path ++ [name] <+: lead ++ met ++ [last] := by
                  intro parent known hp hrun
                  obtain ⟨lead, met, last, hchain, hhead, hclosed, hfront⟩ :=
                    ih _ hlt (hc.erase name) (htrail.extend hstep hkey hnew)
                      (fun waiting hw => by
                        rw [List.getLast?_concat] at hw
                        rw [← Option.some.inj hw]
                        exact hp) hrun rfl
                  exact ⟨lead, met, last, hchain, hhead, hclosed,
                    (List.prefix_append _ [parent]).trans hfront⟩
                rcases Outcome.bind_eq_error h with hwhole | ⟨⟨_, _⟩, _, h⟩
                · obtain ⟨parent, hp, hrun⟩ := resolveParent_error hwhole
                  exact hparent parent _ ((extends_iff hget).mpr (Or.inl hp)) hrun
                · rcases Outcome.bind_eq_error h with hscheme | ⟨_, _, h⟩
                  · obtain ⟨parent, hp, hrun⟩ := resolveParent_error hscheme
                    exact hparent parent _ ((extends_iff hget).mpr (Or.inr hp)) hrun
                  · cases h
              · rw [if_neg hmem] at h
                -- A configured theme that cannot be visited is waiting.
                have hwaits : name ∈ path := by
                  by_contra hnot
                  exact hmem ((hc.2 name).mpr ⟨hkey, hnot⟩)
                obtain ⟨lead, hhead, hclosed, hfront⟩ := htrail.close_waiting hstep hwaits
                exact ⟨lead, _, name,
                  (ThemeError.circularExtension.inj (Except.error.inj h)).symm, hhead, hclosed,
                  hfront⟩

/-! ## Where a configuration stops -/

/-- The checks stop at the first theme that does not pass. -/
theorem checkParents_error {e : ThemeError} (h : config.checkParents = .error e) :
    ∃ before name theme after level, config.toList = before ++ (name, theme) :: after
      ∧ (∀ p ∈ before, ∀ level, config.checkParent p.1 p.2 level = .ok ())
      ∧ config.checkParent name theme level = .error e := by
  obtain ⟨before, ⟨name, theme⟩, after, hlist, hpass, hfail⟩ := Outcome.forM_eq_error.mp h
  obtain ⟨_, level, _, _, _, hlevel⟩ := Outcome.forM_eq_error.mp hfail
  refine ⟨before, name, theme, after, level, hlist, ?_, hlevel⟩
  intro p hp level
  exact Outcome.forM_eq_ok.mp (hpass p hp) level (mem_levels level)

/-- The computation stops at the first theme that is not found in both schemes. -/
theorem resolveThemes_stops {names : List String} {light dark : Entries TokenMap}
    {done : ResolvedConfig} {e : ThemeError} (hl : config.Remembers .light light)
    (hd : config.Remembers .dark dark)
    (h : config.resolveThemes names light dark done = .error e) :
    ∃ before name after scheme known, names = before ++ name :: after
      ∧ (∀ other ∈ before, ∀ scheme, ∃ tokens, config.InEffect scheme other tokens)
      ∧ config.resolveScheme scheme config.keys [] name known = .error e := by
  induction names generalizing light dark done with
  | nil => cases h
  | cons name names ih =>
      rcases Outcome.bind_eq_error h with hlight | ⟨⟨lightTokens, light'⟩, hlight, h⟩
      · exact ⟨[], name, names, .light, light, rfl, List.forall_mem_nil _, hlight⟩
      · rcases Outcome.bind_eq_error h with hdark | ⟨⟨darkTokens, dark'⟩, hdark, h⟩
        · exact ⟨[], name, names, .dark, dark, rfl, List.forall_mem_nil _, hdark⟩
        · obtain ⟨hle, hl'⟩ := resolveScheme_inEffect hl hlight
          obtain ⟨hde, hd'⟩ := resolveScheme_inEffect hd hdark
          obtain ⟨before, stop, after, scheme, known, hnames, hbefore, hfail⟩ := ih hl' hd' h
          refine ⟨name :: before, stop, after, scheme, known, ?_, ?_, hfail⟩
          · rw [hnames]
            rfl
          · refine List.forall_mem_cons.mpr ⟨fun scheme => ?_, hbefore⟩
            cases scheme with
            | light => exact ⟨lightTokens, hle⟩
            | dark => exact ⟨darkTokens, hde⟩

theorem resolve_error {e : ThemeError} (h : config.resolve = .error e) :
    config.checkParents = .error e
      ∨ config.checkParents = .ok ()
        ∧ config.resolveThemes config.keys .empty .empty .empty = .error e := by
  rcases Outcome.bind_eq_error h with hcheck | ⟨⟨⟩, hcheck, hthemes⟩
  · exact Or.inl hcheck
  · exact Or.inr ⟨hcheck, hthemes⟩

/-! ## Main result -/

/-- A reported chain is a closed walk along the parents of one scheme. -/
theorem closedWalk_of_resolve {chain : List String}
    (h : config.resolve = .error (.circularExtension chain)) :
    ∃ met last scheme, chain = met ++ [last]
      ∧ config.ClosedWalk (config.Extends scheme) met last := by
  rcases resolve_error h with hcheck | ⟨-, hthemes⟩
  · obtain ⟨before, name, theme, after, level, hlist, -, hfail⟩ := checkParents_error hcheck
    have hget : config.get? name = some theme := by
      refine Entries.mem_toList_iff.mp ?_
      rw [hlist]
      exact List.mem_append_right before List.mem_cons_self
    obtain ⟨met, last, hchain, hclosed, -⟩ := checkParent_circular hget hfail
    exact ⟨met, last, level.getD .light, hchain,
      hclosed.imp fun _ _ hnames => extends_of_parentOf hnames⟩
  · obtain ⟨before, name, after, scheme, known, -, -, hfail⟩ :=
      resolveThemes_stops remembers_empty remembers_empty hthemes
    obtain ⟨lead, met, last, hchain, hhead, hclosed, -⟩ :=
      resolveScheme_circular complements_keys trail_nil (fun _ hnone => by cases hnone) hfail
    exact ⟨met, last, scheme, hchain, hclosed.right (List.mem_of_mem_head? hhead)⟩

/-- **A REPORTED CIRCLE IS REAL**: all themes of the chain but the last are
    distinct and configured, the last is one of them, and in one scheme each
    names the next as the parent of the whole theme or of that scheme. -/
theorem resolve_circular {chain : List String}
    (h : config.resolve = .error (.circularExtension chain)) :
    ∃ met last, chain = met ++ [last] ∧ met.Nodup ∧ (∀ name ∈ met, name ∈ config.keys)
      ∧ last ∈ met ∧ ∃ scheme, chain.IsChain (config.Extends scheme) := by
  obtain ⟨met, last, scheme, rfl, hclosed⟩ := closedWalk_of_resolve h
  exact ⟨met, last, rfl, hclosed.distinct, hclosed.configured, hclosed.again, scheme,
    hclosed.steps⟩

/-- A circle that changes between the parent of a theme and that of its light
    scheme, and a theme in front that only leads into it. -/
def eddy : ThemeConfig := .ofList
  [("c", { parent := some "a" }), ("a", { parent := some "b" }),
   ("b", { light := ⟨some "a", .empty⟩ })]

theorem eddy_resolve : eddy.resolve = .error (.circularExtension ["a", "b", "a"]) := by
  have hfail : Outcome.failure? eddy.resolve = some (.circularExtension ["a", "b", "a"]) := by
    decide +kernel
  exact Outcome.failure?_eq_some_iff.mp hfail

theorem eddy_circular : ∃ met last, ["a", "b", "a"] = met ++ [last] ∧ met.Nodup
    ∧ (∀ name ∈ met, name ∈ eddy.keys) ∧ last ∈ met
    ∧ ∃ scheme, ["a", "b", "a"].IsChain (eddy.Extends scheme) :=
  resolve_circular eddy_resolve

end ThemeTokens.ThemeConfig
