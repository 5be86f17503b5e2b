import ThemeTokens.Proofs.Config.Ancestry

/-! # What the parents of a theme contribute

    The tokens of a theme in a scheme are a function of those of its parents
    (`combined`).  Read as equations, one for each theme and scheme, this
    leaves open whether there is a solution and whether it is the only one.
    `InEffect` builds a solution from the themes without parents upwards:

    * it gives a theme at most one map (`InEffect.unique`), which every
      solution of the equations has there too (`InEffect.eq_of_solves`);
    * the memoized walk finds nothing else, whatever was remembered before and
      whoever is waiting (`resolveScheme_inEffect`), so neither does the
      computation of all themes in turn (`resolveThemes_get?`). -/

namespace ThemeTokens

open Relation (TransGen ReflTransGen)

/-- The tokens of a theme in a scheme, where `tokensOf` gives those of its
    parents there: its own merged over those of the whole theme's parent, and
    each top-level entry of the result put over those of the scheme's parent. -/
def ThemeDefinition.combined (theme : ThemeDefinition) (scheme : ColorScheme)
    (tokensOf : String → TokenMap) : TokenMap :=
  let merged := ((theme.parent.map tokensOf).getD .empty).merge
    (theme.scheme scheme).tokens
  match (theme.scheme scheme).parent with
  | some parent => (tokensOf parent).overlay merged
  | none => merged

namespace ThemeConfig

variable {config : ThemeConfig} {scheme : ColorScheme} {name : String}
  {theme : ThemeDefinition}

/-- The assignment `tokensOf` gives every configured theme the tokens that
    those of its parents lead to. -/
def Solves (config : ThemeConfig) (tokensOf : String → ColorScheme → TokenMap) :
    Prop :=
  ∀ name theme, config.get? name = some theme → ∀ scheme,
    tokensOf name scheme = theme.combined scheme (tokensOf · scheme)

/-- The tokens of a theme, from the top of its ancestry down. -/
inductive InEffect (config : ThemeConfig) (scheme : ColorScheme) :
    String → TokenMap → Prop where
  | theme {name : String} {theme : ThemeDefinition}
      (configured : config.get? name = some theme) (tokensOf : String → TokenMap)
      (parents : ∀ parent, config.Extends scheme name parent →
        InEffect config scheme parent (tokensOf parent)) :
      InEffect config scheme name (theme.combined scheme tokensOf)

/-- Only the tokens of the parents count. -/
theorem combined_congr {f g : String → TokenMap} (hget : config.get? name = some theme)
    (h : ∀ parent, config.Extends scheme name parent → f parent = g parent) :
    theme.combined scheme f = theme.combined scheme g := by
  have hwhole : theme.parent.map f = theme.parent.map g := by
    cases hp : theme.parent with
    | none => rfl
    | some parent =>
        exact congrArg some (h parent ((extends_iff hget).mpr (Or.inl hp)))
  rw [ThemeDefinition.combined, ThemeDefinition.combined, hwhole]
  cases hp : (theme.scheme scheme).parent with
  | none => rfl
  | some parent =>
      show (f parent).overlay _ = (g parent).overlay _
      rw [h parent ((extends_iff hget).mpr (Or.inr hp))]

/-- The walk combines what it found for the parents. -/
theorem effective_eq_combined (theme : ThemeDefinition) (scheme : ColorScheme)
    (tokensOf : String → TokenMap) :
    effective ((theme.parent.map tokensOf).getD .empty)
        ((theme.scheme scheme).parent.map tokensOf) (theme.scheme scheme).tokens
      = theme.combined scheme tokensOf := by
  unfold effective ThemeDefinition.combined
  cases (theme.scheme scheme).parent with
  | none => rfl
  | some parent => rfl

/-! ## The tokens in effect are the only solution -/

namespace InEffect

variable {tokens : TokenMap}

/-- Every solution agrees with the tokens in effect. -/
theorem eq_of_solves {tokensOf : String → ColorScheme → TokenMap}
    (hsolves : config.Solves tokensOf) (h : config.InEffect scheme name tokens) :
    tokensOf name scheme = tokens := by
  induction h with
  | theme configured f _ ih =>
      rw [hsolves _ _ configured scheme]
      exact combined_congr configured ih

/-- A theme has no two maps of tokens in a scheme. -/
theorem unique {tokens' : TokenMap} (h : config.InEffect scheme name tokens)
    (h' : config.InEffect scheme name tokens') : tokens = tokens' := by
  induction h generalizing tokens' with
  | theme configured f _ ih =>
      cases h' with
      | theme configured' g parents =>
          rw [Option.some.inj (configured'.symm.trans configured)]
          exact combined_congr configured fun parent hp => ih parent hp (parents parent hp)

/-- A theme with tokens in effect is not among its own ancestors: from such a
    circle each of its parents would lead to itself as well. -/
theorem not_circular (h : config.InEffect scheme name tokens) :
    ¬ TransGen (config.Extends scheme) name name := by
  induction h with
  | theme _ _ _ ih =>
      intro hcircle
      obtain ⟨parent, hstep, hback⟩ := TransGen.head'_iff.mp hcircle
      exact ih parent hstep (TransGen.tail' hback hstep)

end InEffect

open Classical in
/-- The tokens in effect, where there are any. -/
noncomputable def inEffect (config : ThemeConfig) (name : String)
    (scheme : ColorScheme) : TokenMap :=
  if h : ∃ tokens, config.InEffect scheme name tokens then h.choose else .empty

theorem InEffect.eq_inEffect {tokens : TokenMap}
    (h : config.InEffect scheme name tokens) : config.inEffect name scheme = tokens := by
  have hex : ∃ tokens, config.InEffect scheme name tokens := ⟨tokens, h⟩
  rw [inEffect, dif_pos hex]
  exact hex.choose_spec.unique h

/-- A theme whose parents have tokens in effect has the combined ones. -/
theorem InEffect.of_parents (hget : config.get? name = some theme)
    (h : ∀ parent, config.Extends scheme name parent →
      ∃ tokens, config.InEffect scheme parent tokens) :
    config.InEffect scheme name (theme.combined scheme (config.inEffect · scheme)) := by
  refine .theme hget _ ?_
  intro parent hp
  obtain ⟨tokens, ht⟩ := h parent hp
  rw [ht.eq_inEffect]
  exact ht

/-- The tokens in effect solve the equations, if every theme has some. -/
theorem solves_inEffect
    (h : ∀ name ∈ config.keys, ∀ scheme, ∃ tokens, config.InEffect scheme name tokens) :
    config.Solves config.inEffect := by
  intro name theme hget scheme
  obtain ⟨tokens, ht⟩ := h name (mem_keys_iff.mpr ⟨theme, hget⟩) scheme
  rw [ht.eq_inEffect]
  cases ht with
  | theme configured f parents =>
      rw [Option.some.inj (configured.symm.trans hget)]
      refine combined_congr hget ?_
      intro parent hp
      exact (parents parent hp).eq_inEffect.symm

/-! ## One node of the walk -/

/-- The tokens of a parent, if there is one, with what is known after them. -/
def resolveParent (config : ThemeConfig) (scheme : ColorScheme)
    (unvisited path : List String) (parent : Option String) (known : Entries TokenMap) :
    Except ThemeError (Option TokenMap × Entries TokenMap) :=
  match parent with
  | some parent => do
      let (tokens, known) ← config.resolveScheme scheme unvisited path parent known
      .ok (some tokens, known)
  | none => .ok (none, known)

/-- A theme that is not known yet takes the tokens of the whole theme's parent,
    then those of the scheme's parent, and combines them. -/
theorem resolveScheme_eq (config : ThemeConfig) (scheme : ColorScheme)
    (unvisited path : List String) (name : String) (known : Entries TokenMap) :
    config.resolveScheme scheme unvisited path name known =
      match known.get? name, config.get? name with
      | some tokens, _ => .ok (tokens, known)
      | none, none => .error (.missingExtension (path.getLast?.getD "") name)
      | none, some theme =>
          if name ∈ unvisited then do
            let (inherited, known) ← config.resolveParent scheme
              (unvisited.erase name) (path ++ [name]) theme.parent known
            let (base, known) ← config.resolveParent scheme
              (unvisited.erase name) (path ++ [name]) (theme.scheme scheme).parent known
            let tokens := effective (inherited.getD .empty) base
              (theme.scheme scheme).tokens
            .ok (tokens, known.insert name tokens)
          else .error (.circularExtension (path.dropWhile (· ≠ name) ++ [name])) := by
  rw [resolveScheme]
  cases known.get? name with
  | some tokens => rfl
  | none =>
      cases config.get? name with
      | none => rfl
      | some theme =>
          -- Each of the two parents is there or not; the chains differ only in form.
          by_cases hmem : name ∈ unvisited
          · simp only [dif_pos hmem, if_pos hmem, resolveParent]
            cases theme.parent with
            | none =>
                cases (theme.scheme scheme).parent <;> simp [bind_assoc]
            | some parent =>
                cases (theme.scheme scheme).parent <;> simp [bind_assoc]
          · simp only [dif_neg hmem, if_neg hmem]

variable {unvisited path : List String} {known after : Entries TokenMap}
  {tokens : TokenMap}

/-- A parent that was found is named, and the walk found it. -/
theorem resolveParent_eq_ok {parent : Option String} {found : Option TokenMap}
    (h : config.resolveParent scheme unvisited path parent known
      = .ok (found, after)) :
    (parent = none ∧ found = none ∧ after = known)
      ∨ ∃ name tokens, parent = some name ∧ found = some tokens ∧
          config.resolveScheme scheme unvisited path name known
            = .ok (tokens, after) := by
  cases parent with
  | none =>
      have hp := Prod.mk.inj (Except.ok.inj h)
      exact Or.inl ⟨rfl, hp.1.symm, hp.2.symm⟩
  | some name =>
      obtain ⟨⟨tokens, last⟩, hrun, hret⟩ := Outcome.bind_eq_ok.mp h
      have hp := Prod.mk.inj (Except.ok.inj hret)
      refine Or.inr ⟨name, tokens, rfl, hp.1.symm, ?_⟩
      rw [← hp.2]
      exact hrun

/-- A theme that was found was known, or its parents were found first. -/
theorem resolveScheme_eq_ok
    (h : config.resolveScheme scheme unvisited path name known = .ok (tokens, after)) :
    (known.get? name = some tokens ∧ after = known)
      ∨ ∃ theme inherited between base last,
          config.get? name = some theme ∧ name ∈ unvisited ∧
          config.resolveParent scheme (unvisited.erase name) (path ++ [name])
            theme.parent known = .ok (inherited, between) ∧
          config.resolveParent scheme (unvisited.erase name) (path ++ [name])
            (theme.scheme scheme).parent between = .ok (base, last) ∧
          tokens = effective (inherited.getD .empty) base (theme.scheme scheme).tokens ∧
          after = last.insert name tokens := by
  rw [resolveScheme_eq] at h
  cases hk : known.get? name with
  | some found =>
      rw [hk] at h
      have hp := Prod.mk.inj (Except.ok.inj h)
      exact Or.inl ⟨congrArg some hp.1, hp.2.symm⟩
  | none =>
      cases hg : config.get? name with
      | none =>
          rw [hk, hg] at h
          cases h
      | some theme =>
          rw [hk, hg] at h
          by_cases hmem : name ∈ unvisited
          · simp only [if_pos hmem] at h
            obtain ⟨⟨inherited, between⟩, hwhole, h⟩ := Outcome.bind_eq_ok.mp h
            obtain ⟨⟨base, last⟩, hscheme, h⟩ := Outcome.bind_eq_ok.mp h
            obtain ⟨ht, ha⟩ := Prod.mk.inj (Except.ok.inj h)
            exact Or.inr ⟨theme, inherited, between, base, last, rfl, hmem, hwhole,
              hscheme, ht.symm, by rw [← ha, ← ht]⟩
          · simp only [if_neg hmem] at h
            cases h

/-! ## The walk finds the tokens in effect -/

/-- What is remembered is in effect. -/
def Remembers (config : ThemeConfig) (scheme : ColorScheme)
    (known : Entries TokenMap) : Prop :=
  ∀ name tokens, known.get? name = some tokens → config.InEffect scheme name tokens

theorem remembers_empty : config.Remembers scheme .empty := by
  intro name tokens h
  cases h

/-- One more theme can be remembered with its tokens. -/
theorem Remembers.insert (hk : config.Remembers scheme known)
    (h : config.InEffect scheme name tokens) :
    config.Remembers scheme (known.insert name tokens) := by
  intro other found hfound
  rw [Entries.get?_insert] at hfound
  by_cases ho : name = other
  · rw [if_pos ho] at hfound
    rw [← ho, ← Option.some.inj hfound]
    exact h
  · rw [if_neg ho] at hfound
    exact hk other found hfound

/-- A parent is found with its tokens in effect, if every theme is. -/
theorem resolveParent_inEffect {parent : Option String} {found : Option TokenMap}
    (hwalk : ∀ name known tokens after, config.Remembers scheme known →
      config.resolveScheme scheme unvisited path name known = .ok (tokens, after) →
      config.InEffect scheme name tokens ∧ config.Remembers scheme after)
    (hk : config.Remembers scheme known)
    (h : config.resolveParent scheme unvisited path parent known = .ok (found, after)) :
    found = parent.map (config.inEffect · scheme)
      ∧ (∀ name, parent = some name → ∃ tokens, config.InEffect scheme name tokens)
      ∧ config.Remembers scheme after := by
  rcases resolveParent_eq_ok h with ⟨rfl, rfl, rfl⟩ | ⟨name, tokens, rfl, rfl, hrun⟩
  · refine ⟨rfl, ?_, hk⟩
    intro name hn
    cases hn
  · obtain ⟨heff, hafter⟩ := hwalk name known tokens after hk hrun
    refine ⟨?_, ?_, hafter⟩
    · rw [Option.map_some, heff.eq_inEffect]
    · intro other ho
      rw [← Option.some.inj ho]
      exact ⟨tokens, heff⟩

/-- A theme that starts to wait leaves fewer to visit. -/
theorem length_erase_lt {l : List String} (h : name ∈ l) :
    (l.erase name).length < l.length := by
  rw [List.length_erase_of_mem h]
  exact Nat.sub_lt (List.length_pos_of_mem h) Nat.one_pos

/-- **THE WALK IS SOUND**: whatever was remembered, whoever is waiting and
    whichever themes are still to be visited, what is found for a theme is in
    effect, and so is all that is remembered afterwards.  Induction on the
    number of themes that are not waiting. -/
theorem resolveScheme_inEffect (hk : config.Remembers scheme known)
    (h : config.resolveScheme scheme unvisited path name known = .ok (tokens, after)) :
    config.InEffect scheme name tokens ∧ config.Remembers scheme after := by
  induction hn : unvisited.length using Nat.strongRecOn
      generalizing unvisited path name known tokens after with
  | _ n ih =>
      rcases resolveScheme_eq_ok h with ⟨hfound, rfl⟩
        | ⟨theme, inherited, between, base, last, hget, hmem, hwhole, hscheme, rfl, rfl⟩
      · exact ⟨hk name tokens hfound, hk⟩
      · have hlt : (unvisited.erase name).length < n := hn ▸ length_erase_lt hmem
        have hwalk : ∀ other known tokens after, config.Remembers scheme known →
            config.resolveScheme scheme (unvisited.erase name) (path ++ [name])
              other known = .ok (tokens, after) →
            config.InEffect scheme other tokens ∧ config.Remembers scheme after :=
          fun _ _ _ _ hk h => ih _ hlt hk h rfl
        -- The scheme's parent starts from what the theme's parent left behind.
        obtain ⟨rfl, hw, hbetween⟩ := resolveParent_inEffect hwalk hk hwhole
        obtain ⟨rfl, hs, hlast⟩ := resolveParent_inEffect hwalk hbetween hscheme
        have heff : config.InEffect scheme name
            (theme.combined scheme (config.inEffect · scheme)) := by
          refine InEffect.of_parents hget ?_
          intro parent hp
          rcases (extends_iff hget).mp hp with hp | hp
          · exact hw parent hp
          · exact hs parent hp
        rw [effective_eq_combined]
        exact ⟨heff, hlast.insert heff⟩

/-! ## All themes in turn -/

variable {names : List String} {light dark : Entries TokenMap}
  {done resolved : ResolvedConfig}

/-- The first theme is computed in both schemes, then the others are. -/
theorem resolveThemes_cons_eq_ok
    (h : config.resolveThemes (name :: names) light dark done = .ok resolved) :
    ∃ lightTokens light' darkTokens dark',
      config.resolveScheme .light config.keys [] name light
        = .ok (lightTokens, light') ∧
      config.resolveScheme .dark config.keys [] name dark = .ok (darkTokens, dark') ∧
      config.resolveThemes names light' dark'
        (done.insert name ⟨lightTokens, darkTokens⟩) = .ok resolved := by
  obtain ⟨⟨lightTokens, light'⟩, hl, h⟩ := Outcome.bind_eq_ok.mp h
  obtain ⟨⟨darkTokens, dark'⟩, hd, h⟩ := Outcome.bind_eq_ok.mp h
  exact ⟨lightTokens, light', darkTokens, dark', hl, hd, h⟩

/-- Every theme computed has tokens in effect in both schemes. -/
theorem resolveThemes_inEffect (hl : config.Remembers .light light)
    (hd : config.Remembers .dark dark)
    (h : config.resolveThemes names light dark done = .ok resolved) :
    ∀ name ∈ names, ∀ scheme, ∃ tokens, config.InEffect scheme name tokens := by
  induction names generalizing light dark done with
  | nil => exact List.forall_mem_nil _
  | cons name names ih =>
      obtain ⟨lightTokens, light', darkTokens, dark', hlight, hdark, h⟩ :=
        resolveThemes_cons_eq_ok h
      obtain ⟨hle, hl'⟩ := resolveScheme_inEffect hl hlight
      obtain ⟨hde, hd'⟩ := resolveScheme_inEffect hd hdark
      intro other ho scheme
      rcases List.mem_cons.mp ho with rfl | ho
      · cases scheme with
        | light => exact ⟨lightTokens, hle⟩
        | dark => exact ⟨darkTokens, hde⟩
      · exact ih hl' hd' h other ho scheme

/-- The themes computed get their tokens in effect; others are as before. -/
theorem resolveThemes_get? (hl : config.Remembers .light light)
    (hd : config.Remembers .dark dark)
    (h : config.resolveThemes names light dark done = .ok resolved) (name : String) :
    resolved.get? name =
      if name ∈ names then
        some ⟨config.inEffect name .light, config.inEffect name .dark⟩
      else done.get? name := by
  induction names generalizing light dark done with
  | nil =>
      rw [Except.ok.inj h, if_neg List.not_mem_nil]
  | cons first names ih =>
      obtain ⟨lightTokens, light', darkTokens, dark', hlight, hdark, h⟩ :=
        resolveThemes_cons_eq_ok h
      obtain ⟨hle, hl'⟩ := resolveScheme_inEffect hl hlight
      obtain ⟨hde, hd'⟩ := resolveScheme_inEffect hd hdark
      rw [ih hl' hd' h, Entries.get?_insert]
      -- A theme that is listed again further on gets the same tokens there.
      by_cases hmem : name ∈ names
      · rw [if_pos hmem, if_pos (List.mem_cons_of_mem _ hmem)]
      · by_cases hfirst : first = name
        · subst hfirst
          rw [if_neg hmem, if_pos rfl, if_pos List.mem_cons_self, hle.eq_inEffect,
            hde.eq_inEffect]
        · have hnot : name ∉ first :: names := by
            intro hn
            rcases List.mem_cons.mp hn with rfl | hn
            · exact hfirst rfl
            · exact hmem hn
          rw [if_neg hmem, if_neg hfirst, if_neg hnot]

/-- Themes computed for the first time are listed in the order computed. -/
theorem keys_resolveThemes (hnew : ∀ name ∈ names, name ∉ done.keys)
    (hnodup : names.Nodup)
    (h : config.resolveThemes names light dark done = .ok resolved) :
    resolved.keys = done.keys ++ names := by
  induction names generalizing light dark done with
  | nil => rw [Except.ok.inj h, List.append_nil]
  | cons first names ih =>
      obtain ⟨lightTokens, light', darkTokens, dark', -, -, h⟩ :=
        resolveThemes_cons_eq_ok h
      obtain ⟨hfirst, hnodup⟩ := List.nodup_cons.mp hnodup
      have hkeys : (done.insert first ⟨lightTokens, darkTokens⟩).keys
          = done.keys ++ [first] := by
        rw [Entries.keys_insert, if_neg (hnew first List.mem_cons_self)]
      rw [ih ?_ hnodup h, hkeys, List.append_assoc, List.singleton_append]
      intro name hn
      rw [hkeys, List.mem_append, List.mem_singleton]
      rintro (hold | rfl)
      · exact hnew name (List.mem_cons_of_mem _ hn) hold
      · exact hfirst hn

end ThemeConfig

end ThemeTokens
