import ThemeTokens.Proofs.Config.Resolution

/-! # How the walk over parents ends

    The walk ends because the themes that wait for others are configured and
    all different.  `unvisited` counts what is left of them, and this file
    shows that it does nothing else: the same recursions with a plain limit on
    their depth, which know only who is waiting, never reach a limit larger
    than the number of themes, and end as the walk does (`endsWithin`).

    It also separates the two ways the walk can end.  With configured parents
    it fails at a circle and nowhere else (`resolveScheme_error`), and without
    circles it does not fail (`resolveScheme_progress`). -/

namespace ThemeTokens.ThemeConfig

open Relation (TransGen ReflTransGen)

variable {config : ThemeConfig} {scheme : ColorScheme} {name : String}
  {unvisited path names : List String} {known light dark : Entries TokenMap}
  {done : ResolvedConfig}

/-! ## Without circles the walk succeeds -/

theorem resolveParent_progress (known : Entries TokenMap) {parent : Option String}
    (hwalk : ∀ name known, parent = some name →
      ∃ out, config.resolveScheme scheme unvisited path name known = .ok out) :
    ∃ out, config.resolveParent scheme unvisited path parent known = .ok out := by
  cases parent with
  | none => exact ⟨_, rfl⟩
  | some name =>
      obtain ⟨⟨tokens, after⟩, h⟩ := hwalk name known rfl
      refine ⟨(some tokens, after), ?_⟩
      rw [resolveParent, h]
      rfl

/-- **PROGRESS**: where parents are configured and in no circle, every theme
    is found.  Whoever is waiting leads to the theme at hand, which therefore
    is not waiting itself. -/
theorem resolveScheme_progress (hconf : config.ParentsConfigured)
    (hac : config.Acyclic) (hname : name ∈ config.keys)
    (hcover : ∀ other ∈ config.keys, other ∈ path ∨ other ∈ unvisited)
    (hpath : ∀ waiting ∈ path, TransGen (config.Extends scheme) waiting name) :
    ∃ out, config.resolveScheme scheme unvisited path name known = .ok out := by
  induction hn : unvisited.length using Nat.strongRecOn
      generalizing unvisited path name known with
  | _ n ih =>
      rw [resolveScheme_eq]
      cases known.get? name with
      | some tokens => exact ⟨_, rfl⟩
      | none =>
          obtain ⟨theme, hget⟩ := mem_keys_iff.mp hname
          -- A theme that waits would lead to itself.
          have hfree : name ∉ path := fun hmem => hac scheme name (hpath name hmem)
          have hmem : name ∈ unvisited := (hcover name hname).resolve_left hfree
          have hlt : (unvisited.erase name).length < n := hn ▸ length_erase_lt hmem
          -- The theme waits from here on, and everyone who waits leads to its parents.
          have hcover' : ∀ other ∈ config.keys,
              other ∈ path ++ [name] ∨ other ∈ unvisited.erase name := by
            intro other ho
            by_cases hself : other = name
            · exact Or.inl (by simp [hself])
            · rcases hcover other ho with hp | hu
              · exact Or.inl (List.mem_append_left _ hp)
              · exact Or.inr ((List.mem_erase_of_ne hself).mpr hu)
          have hstep : ∀ parent known, config.Extends scheme name parent →
              ∃ out, config.resolveScheme scheme (unvisited.erase name)
                (path ++ [name]) parent known = .ok out := by
            intro parent known hp
            refine ih _ hlt (hconf.mem_keys hp) hcover' ?_ rfl
            intro waiting hw
            rcases List.mem_append.mp hw with hold | hnew
            · exact (hpath waiting hold).tail hp
            · rw [List.mem_singleton.mp hnew]
              exact TransGen.single hp
          simp only [hget, if_pos hmem]
          obtain ⟨⟨inherited, between⟩, hwhole⟩ :=
            resolveParent_progress known fun parent known hp =>
              hstep parent known ((extends_iff hget).mpr (Or.inl hp))
          obtain ⟨⟨base, last⟩, hscheme⟩ :=
            resolveParent_progress between fun parent known hp =>
              hstep parent known ((extends_iff hget).mpr (Or.inr hp))
          rw [hwhole, Outcome.ok_bind, hscheme]
          exact ⟨_, rfl⟩

/-- Without circles all themes are computed, in whatever order they are asked
    for and whatever is remembered. -/
theorem resolveThemes_progress (hconf : config.ParentsConfigured)
    (hac : config.Acyclic) (hnames : ∀ name ∈ names, name ∈ config.keys) :
    ∃ resolved, config.resolveThemes names light dark done = .ok resolved := by
  induction names generalizing light dark done with
  | nil => exact ⟨done, rfl⟩
  | cons name names ih =>
      have hscheme : ∀ scheme known, ∃ out,
          config.resolveScheme scheme config.keys [] name known = .ok out := by
        intro scheme known
        refine resolveScheme_progress hconf hac (hnames name List.mem_cons_self) ?_ ?_
        · exact fun _ ho => Or.inr ho
        · exact List.forall_mem_nil _
      obtain ⟨⟨lightTokens, light'⟩, hl⟩ := hscheme .light light
      obtain ⟨⟨darkTokens, dark'⟩, hd⟩ := hscheme .dark dark
      simp only [resolveThemes, hl, hd, Outcome.ok_bind]
      exact ih fun other ho => hnames other (List.mem_cons_of_mem _ ho)

/-! ## With configured parents only circles fail -/

theorem resolveParent_error {parent : Option String} {e : ThemeError}
    (h : config.resolveParent scheme unvisited path parent known = .error e) :
    ∃ name, parent = some name ∧
      config.resolveScheme scheme unvisited path name known = .error e := by
  cases parent with
  | none => cases h
  | some name =>
      rcases Outcome.bind_eq_error h with hrun | ⟨_, _, hret⟩
      · exact ⟨name, rfl, hrun⟩
      · cases hret

/-- Where every parent is configured, what stops the walk is a circle. -/
theorem resolveScheme_error {e : ThemeError} (hconf : config.ParentsConfigured)
    (hname : name ∈ config.keys)
    (h : config.resolveScheme scheme unvisited path name known = .error e) :
    ∃ chain, e = .circularExtension chain := by
  induction hn : unvisited.length using Nat.strongRecOn
      generalizing unvisited path name known with
  | _ n ih =>
      rw [resolveScheme_eq] at h
      obtain ⟨theme, hget⟩ := mem_keys_iff.mp hname
      cases hk : known.get? name with
      | some tokens =>
          rw [hk] at h
          cases h
      | none =>
          simp only [hk, hget] at h
          by_cases hmem : name ∈ unvisited
          · rw [if_pos hmem] at h
            have hlt : (unvisited.erase name).length < n := hn ▸ length_erase_lt hmem
            have hparent : ∀ level parent, theme.parentAt level = some parent →
                parent ∈ config.keys := by
              intro level parent hp
              exact hconf level name parent ((parentOf_eq hget level).trans hp)
            rcases Outcome.bind_eq_error h with hwhole | ⟨⟨_, _⟩, _, h⟩
            · obtain ⟨parent, hp, hrun⟩ := resolveParent_error hwhole
              exact ih _ hlt (hparent none parent hp) hrun rfl
            · rcases Outcome.bind_eq_error h with hscheme | ⟨_, _, h⟩
              · obtain ⟨parent, hp, hrun⟩ := resolveParent_error hscheme
                exact ih _ hlt (hparent (some scheme) parent hp) hrun rfl
              · cases h
          · rw [if_neg hmem] at h
            exact ⟨_, (Except.error.inj h).symm⟩

/-- The same for all themes in turn. -/
theorem resolveThemes_error {e : ThemeError} (hconf : config.ParentsConfigured)
    (hnames : ∀ name ∈ names, name ∈ config.keys)
    (h : config.resolveThemes names light dark done = .error e) :
    ∃ chain, e = .circularExtension chain := by
  induction names generalizing light dark done with
  | nil => cases h
  | cons name names ih =>
      have hname := hnames name List.mem_cons_self
      rcases Outcome.bind_eq_error h with hl | ⟨_, _, h⟩
      · exact resolveScheme_error hconf hname hl
      · rcases Outcome.bind_eq_error h with hd | ⟨_, _, h⟩
        · exact resolveScheme_error hconf hname hd
        · exact ih (fun other ho => hnames other (List.mem_cons_of_mem _ ho)) h

/-! ## The recursions with a plain limit on their depth

    A limit that is reached is the failure `none`; every other outcome is that
    of the walk itself. -/

/-- The walk up one level that only knows the themes it met. -/
def walkWithin (config : ThemeConfig) (level : Option ColorScheme) :
    (limit : Nat) → (visited : List String) → (current : String) →
      Except (Option ThemeError) Unit
  | 0, _, _ => .error none
  | limit + 1, visited, current =>
      match config.parentOf level current with
      | none => .ok ()
      | some next =>
          if next ∈ visited then .error (some (.circularExtension (visited ++ [next])))
          else walkWithin config level limit (visited ++ [next]) next

/-- The computation of a theme that only knows which themes are waiting. -/
def resolveWithin (config : ThemeConfig) (scheme : ColorScheme) :
    (limit : Nat) → (path : List String) → (name : String) →
      (known : Entries TokenMap) →
        Except (Option ThemeError) (TokenMap × Entries TokenMap)
  | 0, _, _, _ => .error none
  | limit + 1, path, name, known =>
      match known.get? name with
      | some tokens => .ok (tokens, known)
      | none =>
          if name ∈ path then
            .error (some (.circularExtension (path.dropWhile (· ≠ name) ++ [name])))
          else
            match config.get? name with
            | none => .error (some (.missingExtension (path.getLast?.getD "") name))
            | some theme => do
                let parent? : Option String → Entries TokenMap →
                    Except (Option ThemeError) (Option TokenMap × Entries TokenMap)
                  | some parent, known => do
                      let (tokens, known) ←
                        resolveWithin config scheme limit (path ++ [name]) parent known
                      .ok (some tokens, known)
                  | none, known => .ok (none, known)
                let (inherited, known) ← parent? theme.parent known
                let (base, known) ← parent? (theme.scheme scheme).parent known
                let tokens := effective (inherited.getD .empty) base
                  (theme.scheme scheme).tokens
                .ok (tokens, known.insert name tokens)

/-- Neither recursion reaches a limit above `bound`, and each ends as the walk
    does. -/
structure EndsWithin (config : ThemeConfig) (bound : Nat) : Prop where
  walk : ∀ level, ∀ name ∈ config.keys, ∀ limit, bound < limit →
    config.walkWithin level limit [name] name
      = (config.walkParents level (config.keys.erase name) [name] name).mapError some
  resolve : ∀ scheme name known limit, bound < limit →
    config.resolveWithin scheme limit [] name known
      = (config.resolveScheme scheme config.keys [] name known).mapError some

/-- The themes that were not met are the configured ones but for those met. -/
def Complements (config : ThemeConfig) (unvisited met : List String) : Prop :=
  unvisited.Nodup ∧ ∀ name, name ∈ unvisited ↔ name ∈ config.keys ∧ name ∉ met

theorem complements_keys : config.Complements config.keys [] :=
  ⟨config.nodup, fun _ => ⟨fun h => ⟨h, List.not_mem_nil⟩, And.left⟩⟩

/-- One more theme is met. -/
theorem Complements.erase {met : List String} (h : config.Complements unvisited met)
    (name : String) : config.Complements (unvisited.erase name) (met ++ [name]) := by
  refine ⟨h.1.erase name, ?_⟩
  intro other
  rw [h.1.mem_erase_iff, h.2, List.mem_append, List.mem_singleton, not_or]
  constructor
  · rintro ⟨hne, hkey, hnot⟩
    exact ⟨hkey, hnot, hne⟩
  · rintro ⟨hkey, hnot, hne⟩
    exact ⟨hne, hkey, hnot⟩

/-- The walk up one level needs a call for each theme that was not met, one for
    the current theme, and one for a parent that is not configured. -/
theorem walkWithin_eq {level : Option ColorScheme} {visited : List String}
    {current : String} {limit : Nat} (hc : config.Complements unvisited visited)
    (hlimit : unvisited.length + 1 < limit) :
    config.walkWithin level limit visited current
      = (config.walkParents level unvisited visited current).mapError some := by
  induction limit generalizing unvisited visited current with
  | zero => exact absurd hlimit (Nat.not_lt_zero _)
  | succ limit ih =>
      rw [walkWithin, walkParents]
      cases hp : config.parentOf level current with
      | none => rfl
      | some next =>
          by_cases hmem : next ∈ unvisited
          · have hfree : next ∉ visited := ((hc.2 next).mp hmem).2
            have hlen := List.length_erase_of_mem hmem
            have hpos := List.length_pos_of_mem hmem
            simp only [if_neg hfree, dif_pos hmem]
            exact ih (hc.erase next) (by omega)
          · by_cases hseen : next ∈ visited
            · simp only [if_pos hseen, dif_neg hmem]
              rfl
            · -- The parent is not configured, so the next call is the last one.
              have hno : config.parentOf level next = none := by
                cases hn : config.parentOf level next with
                | none => rfl
                | some _ =>
                    obtain ⟨theme, hget, -⟩ := get?_of_parentOf hn
                    have hkey := mem_keys_iff.mpr ⟨theme, hget⟩
                    exact absurd ((hc.2 next).mpr ⟨hkey, hseen⟩) hmem
              obtain ⟨limit, rfl⟩ : ∃ l, limit = l + 1 := ⟨limit - 1, by omega⟩
              simp only [if_neg hseen, dif_neg hmem, walkWithin, hno]
              rfl

/-- The computation of a theme needs a call for each theme that is not waiting,
    and one more for a theme that is. -/
theorem resolveWithin_eq {limit : Nat} (hc : config.Complements unvisited path)
    (hpath : ∀ waiting ∈ path, waiting ∈ config.keys)
    (hlimit : unvisited.length < limit) :
    config.resolveWithin scheme limit path name known
      = (config.resolveScheme scheme unvisited path name known).mapError some := by
  induction limit generalizing unvisited path name known with
  | zero => exact absurd hlimit (Nat.not_lt_zero _)
  | succ limit ih =>
      rw [resolveWithin, resolveScheme_eq]
      cases known.get? name with
      | some tokens => rfl
      | none =>
          cases hget : config.get? name with
          | none =>
              have hfree : name ∉ path := by
                intro hw
                obtain ⟨theme, h⟩ := mem_keys_iff.mp (hpath name hw)
                cases (hget.symm.trans h)
              simp only [if_neg hfree]
              rfl
          | some theme =>
              have hkey := mem_keys_iff.mpr ⟨theme, hget⟩
              -- A theme waits exactly when it is not among the unvisited ones.
              by_cases hw : name ∈ path
              · have hmem : name ∉ unvisited := fun h => ((hc.2 name).mp h).2 hw
                simp only [if_pos hw, if_neg hmem]
                rfl
              · have hmem : name ∈ unvisited := (hc.2 name).mpr ⟨hkey, hw⟩
                have hlen := List.length_erase_of_mem hmem
                have hpos := List.length_pos_of_mem hmem
                have hpath' : ∀ waiting ∈ path ++ [name], waiting ∈ config.keys := by
                  intro waiting h
                  rcases List.mem_append.mp h with hold | hnew
                  · exact hpath waiting hold
                  · rw [List.mem_singleton.mp hnew]
                    exact hkey
                have hstep : ∀ parent known,
                    config.resolveWithin scheme limit (path ++ [name]) parent known
                      = (config.resolveScheme scheme (unvisited.erase name)
                          (path ++ [name]) parent known).mapError some :=
                  fun _ _ => ih (hc.erase name) hpath' (by omega)
                simp only [if_neg hw, if_pos hmem, hstep, Outcome.mapError_bind,
                  resolveParent]
                cases theme.parent with
                | none => cases (theme.scheme scheme).parent <;> simp [Outcome.mapError_bind]
                | some _ => cases (theme.scheme scheme).parent <;> simp [Outcome.mapError_bind]

/-- **TERMINATION**: neither recursion goes deeper than there are themes, but
    for one last call. -/
theorem endsWithin_size (config : ThemeConfig) :
    config.EndsWithin config.keys.length where
  walk level name hname limit hlimit := by
    have hc := config.complements_keys.erase name
    have hlen := List.length_erase_of_mem hname
    have hpos := List.length_pos_of_mem hname
    exact walkWithin_eq hc (by omega)
  resolve scheme name known limit hlimit :=
    resolveWithin_eq complements_keys (List.forall_mem_nil _) hlimit

end ThemeTokens.ThemeConfig
