import Mathlib.Data.List.Nodup
import ThemeTokens.Proofs.Modern.Merging
import ThemeTokens.Proofs.Token.Flatten

/-! # What the blocks declare

    Before anything is left out or merged, every theme plans a block for each
    of its selectors.  No two planned blocks have the same selector, so what
    the finished blocks declare under a selector is what the block planned for
    it declares: the value of each used token that the block keeps
    (`declared_themes`), and never two values (`length_declared_themes`). -/

namespace ThemeTokens.Modern

/-- The names of the themes and of the classes of the two schemes can be
    classes, and no two of them are the same. -/
structure NamesApart (config : ResolvedConfig) (lightClass darkClass : String) : Prop where
  classes : ∀ name ∈ config.keys ++ [lightClass, darkClass], Selector.ClassName name
  nodup : (config.keys ++ [lightClass, darkClass]).Nodup

namespace NamesApart

variable {config : ResolvedConfig} {lightClass darkClass : String}
  (h : NamesApart config lightClass darkClass)

include h

/-- The name of a theme can be a class. -/
theorem theme {name : String} (hname : name ∈ config.keys) : Selector.ClassName name :=
  h.classes name (List.mem_append_left _ hname)

theorem light : Selector.ClassName lightClass :=
  h.classes lightClass (List.mem_append_right _ List.mem_cons_self)

theorem dark : Selector.ClassName darkClass :=
  h.classes darkClass (List.mem_append_right _ (List.mem_cons_of_mem _ List.mem_cons_self))

theorem light_ne_dark : lightClass ≠ darkClass := by
  have hpair := (List.nodup_append.mp h.nodup).2.1
  rintro rfl
  exact (List.nodup_cons.mp hpair).1 List.mem_cons_self

theorem theme_ne_dark {name : String} (hname : name ∈ config.keys) : name ≠ darkClass :=
  (List.nodup_append.mp h.nodup).2.2 name hname darkClass
    (List.mem_cons_of_mem _ List.mem_cons_self)

end NamesApart

/-- A block that is written unless nothing is declared in it. -/
structure Plan where
  selector : String
  tokens : TokenMap
  keep : TokenPath → String → Bool

namespace BlockSource

/-- The custom property of a path. -/
def property (source : BlockSource) (path : TokenPath) : String :=
  "--" ++ source.localizer.localize path.variableName

/-- The blocks planned for a theme. -/
def plans (source : BlockSource) (name : String) (theme : LightDarkTheme) : List Plan :=
  if name = source.defaultTheme then
    [⟨":root", theme.light, fun path _ => source.needsRoot path⟩,
     ⟨"." ++ source.darkClass, theme.dark, fun _ _ => true⟩]
  else if !theme.hasDarkMode && !source.authority.hasDarkMode then
    [⟨"." ++ name, theme.light, source.differsLight⟩]
  else
    [⟨"." ++ name ++ "." ++ source.lightClass, theme.light, source.differsLight⟩,
     ⟨"." ++ name ++ "." ++ source.darkClass, theme.dark, source.differsDark⟩]

/-- The blocks planned for all themes. -/
def allPlans (source : BlockSource) : List Plan :=
  source.config.toList.flatMap fun (name, theme) => source.plans name theme

/-- A planned block, unless nothing is declared in it. -/
def build? (source : BlockSource) (plan : Plan) : Option Rule :=
  source.block? plan.selector plan.tokens plan.keep

/-- The blocks of a theme are built from its plans. -/
theorem themeBlocks_eq (source : BlockSource) (name : String) (theme : LightDarkTheme) :
    source.themeBlocks name theme = (source.plans name theme).filterMap source.build? := by
  have hmap : (if name = source.defaultTheme then source.rootBlocks theme
        else source.overrideBlocks name theme)
      = (source.plans name theme).map source.build? := by
    rw [plans]
    by_cases hname : name = source.defaultTheme
    · rw [if_pos hname, if_pos hname]
      rfl
    · rw [if_neg hname, if_neg hname, overrideBlocks]
      by_cases hplain : (!theme.hasDarkMode && !source.authority.hasDarkMode) = true
      · rw [if_pos hplain, if_pos hplain]
        rfl
      · rw [if_neg hplain, if_neg hplain]
        rfl
  rw [themeBlocks, hmap, List.filterMap_map]
  rfl

/-- The blocks of all themes are the planned ones, merged. -/
theorem themes_eq (source : BlockSource) :
    source.themes = mergeIdentical (source.allPlans.filterMap source.build?) := by
  rw [themes, allPlans, List.filterMap_flatMap]
  refine congrArg mergeIdentical (List.flatMap_congr fun entry _ => ?_)
  exact source.themeBlocks_eq entry.1 entry.2

/-! ## The values of a planned block -/

/-- With distinct names, what is listed under a name is the one pair there. -/
theorem filter_fst_eq {α β : Type} [DecidableEq α] {l : List (α × β)} {a : α} {b : β}
    (hnodup : (l.map Prod.fst).Nodup) (hmem : (a, b) ∈ l) :
    l.filter (fun e => e.1 == a) = [(a, b)] := by
  induction l with
  | nil => cases hmem
  | cons e l ih =>
      obtain ⟨hfirst, hnodup⟩ := List.nodup_cons.mp hnodup
      rcases List.mem_cons.mp hmem with rfl | hmem
      · have hrest : l.filter (fun e => e.1 == a) = [] := by
          refine List.filter_eq_nil_iff.mpr fun other ho heq => ?_
          exact hfirst (List.mem_map.mpr ⟨other, ho, beq_iff_eq.mp heq⟩)
        rw [List.filter_cons, hrest]
        exact if_pos (beq_self_eq_true a)
      · have hne : ¬ (e.1 == a) = true := by
          intro heq
          refine hfirst (List.mem_map.mpr ⟨(a, b), hmem, ?_⟩)
          exact (beq_iff_eq.mp heq).symm
        rw [List.filter_cons, if_neg hne, ih hnodup hmem]

/-- Used tokens have custom properties of their own. -/
def Separate (source : BlockSource) : Prop :=
  ∀ path other, source.usage.isUsed path = true → source.usage.isUsed other = true →
    source.property path = source.property other → path = other

section Values

variable {source : BlockSource} {tokens : TokenMap} {keep : TokenPath → String → Bool}

/-- A block declares the value of a used token if it keeps it. -/
theorem valuesFor_declarations (hplain : tokens.PlainKeys) (hsep : source.Separate)
    {path : TokenPath} (hused : source.usage.isUsed path = true) :
    valuesFor (source.property path) (source.declarations tokens keep)
      = ((tokens.value? path).filter (keep path)).toList := by
  -- Among used paths, to look for a property is to look for its path.
  have hvalues : valuesFor (source.property path) (source.declarations tokens keep)
      = ((tokens.flatten.filter fun e => e.1 == path).filter fun e =>
          source.usage.isUsed e.1 && keep e.1 e.2).map Prod.snd := by
    rw [valuesFor, declarations, List.filter_map, List.map_map, List.filter_filter,
      List.filter_filter]
    refine congrArg _ (List.filter_congr ?_)
    rintro ⟨other, value⟩ -
    show ((source.property other == source.property path)
      && (source.usage.isUsed other && keep other value))
        = ((source.usage.isUsed other && keep other value) && (other == path))
    by_cases hother : other = path
    · rw [hother, beq_self_eq_true, beq_self_eq_true, Bool.and_comm]
    · rw [beq_false_of_ne hother, Bool.and_false]
      cases hu : source.usage.isUsed other with
      | false => rw [Bool.false_and, Bool.and_false]
      | true =>
          have hne : source.property other ≠ source.property path :=
            fun heq => hother (hsep other path hu hused heq)
          rw [beq_false_of_ne hne, Bool.false_and]
  -- The path is listed once if it has a value, and otherwise not at all.
  rw [hvalues]
  cases hvalue : tokens.value? path with
  | none =>
      have hnone : tokens.flatten.filter (fun e => e.1 == path) = [] := by
        refine List.filter_eq_nil_iff.mpr ?_
        rintro ⟨other, value⟩ hmem heq
        have hfound := (TokenMap.mem_flatten_iff hplain).mp hmem
        have hother : other = path := beq_iff_eq.mp heq
        rw [hother, hvalue] at hfound
        cases hfound
      rw [hnone]
      rfl
  | some value =>
      rw [filter_fst_eq (TokenMap.nodup_flatten hplain)
        ((TokenMap.mem_flatten_iff hplain).mpr hvalue), List.filter_cons, hused, Bool.true_and,
        Option.filter]
      cases keep path value with
      | true => rfl
      | false => rfl

/-- No block gives a property two values. -/
theorem length_valuesFor_le (hplain : tokens.PlainKeys) (hsep : source.Separate)
    (property : String) :
    (valuesFor property (source.declarations tokens keep)).length ≤ 1 := by
  by_cases hex : ∃ d ∈ source.declarations tokens keep, d.property = property
  · obtain ⟨d, hd, rfl⟩ := hex
    obtain ⟨⟨path, value⟩, hmem, rfl⟩ := List.mem_map.mp hd
    have hused := (Bool.and_eq_true_iff.mp (List.mem_filter.mp hmem).2).1
    show (valuesFor (source.property path) _).length ≤ 1
    rw [valuesFor_declarations hplain hsep hused]
    cases (tokens.value? path).filter (keep path) with
    | none => exact Nat.zero_le 1
    | some value => exact Nat.le_refl 1
  · have hnone : (source.declarations tokens keep).filter (fun d => d.property == property) = [] :=
      List.filter_eq_nil_iff.mpr fun d hd heq => hex ⟨d, hd, beq_iff_eq.mp heq⟩
    rw [valuesFor, hnone]
    exact Nat.zero_le 1

end Values

/-! ## Selectors -/

section Selectors

variable {source : BlockSource} {name : String} {theme : LightDarkTheme}

/-- What a block planned for a theme can be: it has the tokens of one of the
    schemes, and its selector is `:root` or the dark class for the authority
    and begins with the theme's own class for the others. -/
theorem cases_of_mem_plans {plan : Plan} (hplan : plan ∈ source.plans name theme) :
    (∃ scheme, plan.tokens = theme.scheme scheme)
      ∧ ((name = source.defaultTheme
          ∧ (plan.selector = ":root" ∨ plan.selector = "." ++ source.darkClass))
        ∨ (name ≠ source.defaultTheme
          ∧ (plan.selector = "." ++ name
            ∨ plan.selector = "." ++ name ++ "." ++ source.lightClass
            ∨ plan.selector = "." ++ name ++ "." ++ source.darkClass))) := by
  rw [plans] at hplan
  by_cases hdefault : name = source.defaultTheme
  · rw [if_pos hdefault] at hplan
    rcases List.mem_pair.mp hplan with rfl | rfl
    · exact ⟨⟨.light, rfl⟩, Or.inl ⟨hdefault, Or.inl rfl⟩⟩
    · exact ⟨⟨.dark, rfl⟩, Or.inl ⟨hdefault, Or.inr rfl⟩⟩
  · rw [if_neg hdefault] at hplan
    by_cases hplain : (!theme.hasDarkMode && !source.authority.hasDarkMode) = true
    · rw [if_pos hplain] at hplan
      rw [List.mem_singleton.mp hplan]
      exact ⟨⟨.light, rfl⟩, Or.inr ⟨hdefault, Or.inl rfl⟩⟩
    · rw [if_neg hplain] at hplan
      rcases List.mem_pair.mp hplan with rfl | rfl
      · exact ⟨⟨.light, rfl⟩, Or.inr ⟨hdefault, Or.inr (Or.inl rfl)⟩⟩
      · exact ⟨⟨.dark, rfl⟩, Or.inr ⟨hdefault, Or.inr (Or.inr rfl)⟩⟩

variable (hnames : NamesApart source.config source.lightClass source.darkClass)

include hnames

/-- The parts of a selector tell the authority from another theme. -/
theorem parts_of_mem_plans (hname : name ∈ source.config.keys) {plan : Plan}
    (hplan : plan ∈ source.plans name theme) :
    (name = source.defaultTheme ∧ (Selector.parts plan.selector = [":root".toList]
        ∨ Selector.parts plan.selector = [[], source.darkClass.toList]))
      ∨ (name ≠ source.defaultTheme
        ∧ ∃ rest, Selector.parts plan.selector = [] :: name.toList :: rest) := by
  have hclass := hnames.theme hname
  rcases (cases_of_mem_plans hplan).2 with ⟨hdefault, hs | hs⟩ | ⟨hdefault, hs | hs | hs⟩
  · exact Or.inl ⟨hdefault, Or.inl (hs ▸ Selector.parts_root)⟩
  · exact Or.inl ⟨hdefault, Or.inr (hs ▸ Selector.parts_class hnames.dark)⟩
  · exact Or.inr ⟨hdefault, _, hs ▸ Selector.parts_class hclass⟩
  · exact Or.inr ⟨hdefault, _, hs ▸ Selector.parts_classes hclass hnames.light⟩
  · exact Or.inr ⟨hdefault, _, hs ▸ Selector.parts_classes hclass hnames.dark⟩

theorem simple_of_mem_plans (hname : name ∈ source.config.keys) {plan : Plan}
    (hplan : plan ∈ source.plans name theme) : Selector.Simple plan.selector := by
  have hclass := hnames.theme hname
  rcases (cases_of_mem_plans hplan).2 with ⟨-, hs | hs⟩ | ⟨-, hs | hs | hs⟩
  · exact hs ▸ Selector.simple_root
  · exact hs ▸ Selector.simple_class hnames.dark
  · exact hs ▸ Selector.simple_class hclass
  · exact hs ▸ Selector.simple_classes hclass hnames.light
  · exact hs ▸ Selector.simple_classes hclass hnames.dark

/-- A theme plans no two blocks with the same selector. -/
theorem nodup_plans (hname : name ∈ source.config.keys) :
    ((source.plans name theme).map Plan.selector).Nodup := by
  have hpair : ∀ selector other : String, Selector.parts selector ≠ Selector.parts other →
      [selector, other].Nodup := by
    intro selector other hne
    refine List.nodup_cons.mpr ⟨?_, List.pairwise_singleton _ _⟩
    intro hmem
    exact hne (congrArg Selector.parts (List.mem_singleton.mp hmem))
  rw [plans]
  by_cases hdefault : name = source.defaultTheme
  · rw [if_pos hdefault]
    refine hpair _ _ ?_
    rw [Selector.parts_root, Selector.parts_class hnames.dark]
    intro h
    cases h
  · rw [if_neg hdefault]
    have hclass := hnames.theme hname
    by_cases hplain : (!theme.hasDarkMode && !source.authority.hasDarkMode) = true
    · rw [if_pos hplain]
      exact List.pairwise_singleton _ _
    · rw [if_neg hplain]
      refine hpair _ _ ?_
      rw [Selector.parts_classes hclass hnames.light, Selector.parts_classes hclass hnames.dark]
      intro h
      refine hnames.light_ne_dark (String.toList_inj.mp ?_)
      exact (List.cons.inj (List.cons.inj (List.cons.inj h).2).2).1

/-- Two themes plan no blocks with the same selector. -/
theorem selector_ne_of_ne {other : String} {theme' : LightDarkTheme}
    (hname : name ∈ source.config.keys) (hother : other ∈ source.config.keys)
    (hne : name ≠ other) {plan plan' : Plan} (hplan : plan ∈ source.plans name theme)
    (hplan' : plan' ∈ source.plans other theme') : plan.selector ≠ plan'.selector := by
  -- At most one of the two is the authority, and no theme is named like the dark class.
  have hauthority : ∀ {n : String} {rest : List (List Char)} {selector : String},
      n ∈ source.config.keys → Selector.parts selector = [] :: n.toList :: rest →
      ¬ (Selector.parts selector = [":root".toList]
        ∨ Selector.parts selector = [[], source.darkClass.toList]) := by
    intro n rest selector hn hparts
    rw [hparts]
    rintro (h | h)
    · cases ((List.cons.inj h).2)
    · refine hnames.theme_ne_dark hn (String.toList_inj.mp ?_)
      exact (List.cons.inj (List.cons.inj h).2).1
  intro heq
  rcases parts_of_mem_plans hnames hname hplan with ⟨hd, hparts⟩ | ⟨-, rest, hparts⟩
  · rcases parts_of_mem_plans hnames hother hplan' with ⟨hd', -⟩ | ⟨-, rest', hparts'⟩
    · exact hne (hd.trans hd'.symm)
    · rw [heq] at hparts
      exact hauthority hother hparts' hparts
  · rcases parts_of_mem_plans hnames hother hplan' with ⟨-, hparts'⟩ | ⟨-, rest', hparts'⟩
    · rw [← heq] at hparts'
      exact hauthority hname hparts hparts'
    · rw [heq, hparts'] at hparts
      refine hne (String.toList_inj.mp ?_)
      exact (List.cons.inj (List.cons.inj hparts).2).1.symm

/-- **ONE SELECTOR, ONE BLOCK**: no two planned blocks have the same selector. -/
theorem nodup_allPlans : (source.allPlans.map Plan.selector).Nodup := by
  rw [allPlans, List.map_flatMap, List.nodup_flatMap]
  have hkeys : ∀ entry ∈ source.config.toList, entry.1 ∈ source.config.keys :=
    fun entry hentry => List.mem_map.mpr ⟨entry, hentry, rfl⟩
  -- Within a theme no selector comes twice, and between themes none is shared.
  refine ⟨fun entry hentry => nodup_plans hnames (hkeys entry hentry), ?_⟩
  refine List.Pairwise.imp_of_mem ?_ (List.pairwise_map.mp source.config.nodup)
  intro entry other hentry hother hne selector hs hs'
  obtain ⟨plan, hplan, rfl⟩ := List.mem_map.mp hs
  obtain ⟨plan', hplan', heq⟩ := List.mem_map.mp hs'
  exact selector_ne_of_ne hnames (hkeys _ hentry) (hkeys _ hother) hne hplan hplan' heq.symm

/-- The selector of every plan is simple. -/
theorem simple_of_mem_allPlans {plan : Plan} (hplan : plan ∈ source.allPlans) :
    Selector.Simple plan.selector := by
  obtain ⟨⟨name, theme⟩, hentry, hplan⟩ := List.mem_flatMap.mp hplan
  exact simple_of_mem_plans hnames (List.mem_map.mpr ⟨_, hentry, rfl⟩) hplan

end Selectors

/-! ## The finished blocks -/

section Finished

variable {source : BlockSource}

/-- A planned block that is first declares its values under its own selector,
    also if it is left out because there are none. -/
theorem declared_build_cons {plan : Plan} {plans : List Plan}
    (hsimple : Selector.Simple plan.selector) (selector property : String) :
    declared ((plan :: plans).filterMap source.build?) selector property
      = (if selector = plan.selector
          then valuesFor property (source.declarations plan.tokens plan.keep) else [])
        ++ declared (plans.filterMap source.build?) selector property := by
  rw [List.filterMap_cons, build?, block?]
  -- A block that is left out would have declared nothing.
  by_cases hempty : (source.declarations plan.tokens plan.keep).isEmpty = true
  · rw [if_pos hempty, List.isEmpty_iff.mp hempty]
    by_cases hself : selector = plan.selector
    · rw [if_pos hself]
      rfl
    · rw [if_neg hself]
      rfl
  · rw [if_neg hempty, declared_cons, Selector.split_simple hsimple]
    simp only [List.mem_singleton]

/-- Without a plan for a selector nothing is declared for it. -/
theorem declared_build_of_not_mem {plans : List Plan}
    (hsimple : ∀ plan ∈ plans, Selector.Simple plan.selector) {selector : String}
    (hmem : selector ∉ plans.map Plan.selector) (property : String) :
    declared (plans.filterMap source.build?) selector property = [] := by
  induction plans with
  | nil => rfl
  | cons plan plans ih =>
      obtain ⟨hfirst, hsimple⟩ := List.forall_mem_cons.mp hsimple
      obtain ⟨hne, hmem⟩ := not_or.mp (mt List.mem_cons.mpr hmem)
      rw [declared_build_cons hfirst, if_neg hne, ih hsimple hmem, List.append_nil]

/-- What is declared under the selector of a planned block is what it declares. -/
theorem declared_build {plans : List Plan}
    (hsimple : ∀ plan ∈ plans, Selector.Simple plan.selector)
    (hnodup : (plans.map Plan.selector).Nodup) {plan : Plan} (hplan : plan ∈ plans)
    (property : String) :
    declared (plans.filterMap source.build?) plan.selector property
      = valuesFor property (source.declarations plan.tokens plan.keep) := by
  induction plans with
  | nil => cases hplan
  | cons first plans ih =>
      obtain ⟨hfirst, hrest⟩ := List.forall_mem_cons.mp hsimple
      obtain ⟨hnew, hdistinct⟩ := List.nodup_cons.mp hnodup
      rw [declared_build_cons hfirst]
      rcases List.mem_cons.mp hplan with rfl | hplan
      · rw [if_pos rfl, declared_build_of_not_mem hrest hnew, List.append_nil]
      · have hne : plan.selector ≠ first.selector := by
          intro heq
          exact hnew (List.mem_map.mpr ⟨plan, hplan, heq⟩)
        rw [if_neg hne, List.nil_append, ih hrest hdistinct hplan]

/-- The blocks that are written have the selectors of their plans, in order. -/
theorem selectors_build_sublist (source : BlockSource) (plans : List Plan) :
    ((plans.filterMap source.build?).map Rule.selector).Sublist (plans.map Plan.selector) := by
  induction plans with
  | nil => exact .slnil
  | cons plan plans ih =>
      rw [List.filterMap_cons, build?, block?]
      by_cases hempty : (source.declarations plan.tokens plan.keep).isEmpty = true
      · rw [if_pos hempty]
        exact ih.cons _
      · rw [if_neg hempty]
        exact ih.cons_cons _

variable (hnames : NamesApart source.config source.lightClass source.darkClass)
  (hplain : ∀ plan ∈ source.allPlans, plan.tokens.PlainKeys) (hsep : source.Separate)

include hnames

/-- Merging changes nothing about what is declared. -/
theorem declared_themes_eq (selector property : String) :
    declared source.themes selector property
      = declared (source.allPlans.filterMap source.build?) selector property := by
  have hsublist := source.selectors_build_sublist source.allPlans
  rw [themes_eq, declared_mergeIdentical _ (hsublist.nodup (nodup_allPlans hnames))]
  intro block hblock
  obtain ⟨plan, hplan, heq⟩ := List.mem_map.mp
    (hsublist.subset (List.mem_map.mpr ⟨block, hblock, rfl⟩))
  rw [← heq]
  exact simple_of_mem_allPlans hnames hplan

include hplain hsep

/-- **WHAT THE BLOCKS DECLARE**: under the selector of a planned block, for the
    custom property of a used token, the value the block keeps. -/
theorem declared_themes {plan : Plan} (hplan : plan ∈ source.allPlans) {path : TokenPath}
    (hused : source.usage.isUsed path = true) :
    declared source.themes plan.selector (source.property path)
      = ((plan.tokens.value? path).filter (plan.keep path)).toList := by
  rw [declared_themes_eq hnames,
    declared_build (fun _ h => simple_of_mem_allPlans hnames h) (nodup_allPlans hnames) hplan,
    valuesFor_declarations (hplain plan hplan) hsep hused]

/-- Nothing is declared twice. -/
theorem length_declared_themes (selector property : String) :
    (declared source.themes selector property).length ≤ 1 := by
  rw [declared_themes_eq hnames]
  by_cases hmem : selector ∈ source.allPlans.map Plan.selector
  · obtain ⟨plan, hplan, rfl⟩ := List.mem_map.mp hmem
    rw [declared_build (fun _ h => simple_of_mem_allPlans hnames h) (nodup_allPlans hnames) hplan]
    exact length_valuesFor_le (hplain plan hplan) hsep property
  · rw [declared_build_of_not_mem (fun _ h => simple_of_mem_allPlans hnames h) hmem]
    exact Nat.zero_le 1

end Finished

/-! ## The tokens of a block -/

section Tokens

variable {source : BlockSource} {b : Rule}

theorem declarations_of_block? {selector : String} {tokens : TokenMap}
    {keep : TokenPath → String → Bool} (h : source.block? selector tokens keep = some b) :
    b.declarations = source.declarations tokens keep := by
  rw [block?] at h
  split at h
  · cases h
  · rw [← Option.some.inj h]

/-- A block of all themes declares tokens of one scheme of a theme. -/
theorem exists_scheme_of_themes (h : b ∈ source.themes) :
    ∃ name theme scheme keep, source.config.get? name = some theme
      ∧ b.declarations = source.declarations (theme.scheme scheme) keep := by
  rw [themes_eq] at h
  obtain ⟨original, horiginal, heq⟩ := declarations_mergeIdentical h
  obtain ⟨plan, hplan, hbuild⟩ := List.mem_filterMap.mp horiginal
  obtain ⟨⟨name, theme⟩, hentry, hplan⟩ := List.mem_flatMap.mp hplan
  obtain ⟨scheme, htokens⟩ := (cases_of_mem_plans hplan).1
  refine ⟨name, theme, scheme, plan.keep, Entries.mem_toList_iff.mp hentry, ?_⟩
  rw [heq, declarations_of_block? hbuild, htokens]

/-- A block of a single theme declares tokens of one of its schemes. -/
theorem exists_scheme_of_single {theme : LightDarkTheme} {optimize : Bool}
    (h : b ∈ source.single theme optimize) :
    ∃ scheme keep, b.declarations = source.declarations (theme.scheme scheme) keep := by
  have hlight : source.block? ":root" theme.light (fun path _ => source.needsRoot path) = some b →
      ∃ scheme keep, b.declarations = source.declarations (theme.scheme scheme) keep :=
    fun hb => ⟨.light, _, declarations_of_block? hb⟩
  rw [single] at h
  split at h
  · obtain ⟨found, hmem, rfl⟩ := List.mem_filterMap.mp h
    rcases List.mem_pair.mp hmem with hroot | hdark
    · exact hlight hroot.symm
    · exact ⟨.dark, _, declarations_of_block? hdark.symm⟩
  · split at h
    · cases h
    · exact hlight (Option.mem_toList.mp h)

end Tokens

end BlockSource

end ThemeTokens.Modern
