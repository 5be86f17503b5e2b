import ThemeTokens.Proofs.Modern.Output
import ThemeTokens.Proofs.Modern.Reading

/-! # The cascade of modern output

    On the root element, with the classes of a theme and of a scheme, several
    blocks give a custom property a value.  A selector of two classes is
    stronger than one of a single class, which is as strong as `:root`, and of
    equally strong blocks the later one wins.  So the place of a block counts,
    and that depends on the order of the themes and on which blocks happened to
    be merged.

    With the authority written first it makes no difference: `:root` is then
    declared by the very first block, whatever was merged into it, and each of
    the others is one that hides it or is hidden by none (`cascaded_themes`).
    What they declare is a matter of the themes and not of their order, so the
    cascade is the same for every order of the others, provided that themes and
    schemes can be told apart by their classes (`apply_order`).  Behind a theme
    the authority's values win over that theme's (`apply_order_fails`). -/

namespace ThemeTokens.Modern

/-! ## The cascade -/

/-- The values that blocks give a property, in order, where only the blocks
    count that have one of some selectors in their list. -/
def applying (blocks : List Rule) (matching : List String) (property : String) : List String :=
  blocks.flatMap fun b : Rule =>
    if ∃ s ∈ Selector.split b.selector, s ∈ matching then valuesFor property b.declarations
    else []

/-- The selectors as strong as a single class that match the root element with
    the classes of a theme and of a scheme. -/
def weakSelectors (options : OutputOptions) (name : String) : ColorScheme → List String
  | .light => [":root", "." ++ name]
  | .dark => [":root", "." ++ options.darkClass, "." ++ name]

/-- The value of a property on the root element with the classes of a theme and
    of a scheme. -/
def cascaded (options : OutputOptions) (blocks : List Rule) (name : String)
    (scheme : ColorScheme) (property : String) : Option String :=
  (applying blocks ["." ++ name ++ "." ++ schemeClass options scheme] property).getLast?.or
    (applying blocks (weakSelectors options name scheme) property).getLast?

/-- The value that is declared first under the two classes, under the theme's
    class, in the dark scheme under the dark class, and on the root. -/
def layered (options : OutputOptions) (blocks : List Rule) (name : String)
    (scheme : ColorScheme) (property : String) : Option String :=
  (declared blocks ("." ++ name ++ "." ++ schemeClass options scheme) property).getLast?.or
    ((declared blocks ("." ++ name) property).getLast?.or
      ((match scheme with
        | .light => none
        | .dark => (declared blocks ("." ++ options.darkClass) property).getLast?).or
          (declared blocks ":root" property).getLast?))

section Applying

variable {blocks : List Rule} {matching others : List String} {property : String}

theorem applying_cons (b : Rule) :
    applying (b :: blocks) matching property
      = (if ∃ s ∈ Selector.split b.selector, s ∈ matching then valuesFor property b.declarations
          else []) ++ applying blocks matching property := by
  rw [applying, List.flatMap_cons]
  rfl

/-- Under a single selector those blocks apply that have it. -/
theorem applying_singleton (selector : String) :
    applying blocks [selector] property = declared blocks selector property := by
  induction blocks with
  | nil => rfl
  | cons b blocks ih =>
      have hiff : (∃ s ∈ Selector.split b.selector, s ∈ [selector])
          ↔ selector ∈ Selector.split b.selector := by
        simp only [List.mem_singleton, exists_eq_right]
      rw [applying_cons, declared_cons, ih]
      simp only [hiff]

/-- All that counts is which selectors there are. -/
theorem applying_congr (h : ∀ s, s ∈ matching ↔ s ∈ others) :
    applying blocks matching property = applying blocks others property := by
  unfold applying
  simp only [h]

/-- A selector under which nothing is declared does not count. -/
theorem applying_drop {selector : String} (hnone : declared blocks selector property = []) :
    applying blocks (selector :: others) property = applying blocks others property := by
  induction blocks with
  | nil => rfl
  | cons b blocks ih =>
      rw [declared_cons] at hnone
      obtain ⟨hhere, hthere⟩ := List.append_eq_nil_iff.mp hnone
      rw [applying_cons, applying_cons, ih hthere]
      by_cases hother : ∃ s ∈ Selector.split b.selector, s ∈ others
      · obtain ⟨s, hs, hmem⟩ := hother
        rw [if_pos ⟨s, hs, List.mem_cons_of_mem _ hmem⟩, if_pos ⟨s, hs, hmem⟩]
      · rw [if_neg hother]
        by_cases hmatch : ∃ s ∈ Selector.split b.selector, s ∈ selector :: others
        · -- The block applies under the selector that is dropped, and has no value.
          obtain ⟨s, hs, hmem⟩ := hmatch
          have hdropped : s = selector :=
            (List.mem_cons.mp hmem).resolve_right fun hin => hother ⟨s, hs, hin⟩
          rw [hdropped] at hs
          rw [if_pos hs] at hhere
          rw [if_pos ⟨selector, hs, List.mem_cons_self⟩, hhere]
        · rw [if_neg hmatch]

/-- A selector that only the first block has gives its value where no other
    applies. -/
theorem getLast?_applying_first {first : Rule} {root : String}
    (hfirst : root ∈ Selector.split first.selector)
    (hnone : declared blocks root property = []) :
    (applying (first :: blocks) (root :: others) property).getLast?
      = (applying (first :: blocks) others property).getLast?.or
          (declared (first :: blocks) root property).getLast? := by
  rw [applying_cons, applying_cons, declared_cons, applying_drop hnone, hnone, if_pos hfirst,
    if_pos ⟨root, hfirst, List.mem_cons_self⟩, List.append_nil, List.getLast?_append,
    List.getLast?_append, Option.or_assoc]
  -- Under the other selectors the first block applies as well or not at all.
  by_cases hother : ∃ s ∈ Selector.split first.selector, s ∈ others
  · rw [if_pos hother, Option.or_self]
  · rw [if_neg hother]
    rfl

end Applying

/-! ## The first block -/

/-- However blocks are merged, the first one keeps its declarations and its
    selectors. -/
theorem mergeIdentical_first {block : Rule} {blocks : List Rule}
    (hblock : Selector.Flat block.selector) (hblocks : ∀ b ∈ blocks, Selector.Flat b.selector) :
    ∃ first rest, mergeIdentical (block :: blocks) = first :: rest
      ∧ first.declarations = block.declarations
      ∧ ∀ s ∈ Selector.split block.selector, s ∈ Selector.split first.selector := by
  have hfold : ∀ (blocks rest : List Rule) (front : Rule), Selector.Flat front.selector →
      (∀ b ∈ blocks, Selector.Flat b.selector) →
      ∃ first more, blocks.foldl (fun merged b => addBlock b merged) (front :: rest)
          = first :: more ∧ first.declarations = front.declarations
        ∧ ∀ s ∈ Selector.split front.selector, s ∈ Selector.split first.selector := by
    intro blocks
    induction blocks with
    | nil =>
        intro rest front _ _
        exact ⟨front, rest, rfl, rfl, fun _ hs => hs⟩
    | cons b blocks ih =>
        intro rest front hfront hall
        obtain ⟨hb, hall⟩ := List.forall_mem_cons.mp hall
        rw [List.foldl_cons, addBlock]
        by_cases hsame : sameDeclarations front.declarations b.declarations = true
        · rw [if_pos hsame]
          obtain ⟨first, more, heq, hdeclarations, hselectors⟩ :=
            ih rest { front with selector := front.selector ++ ", " ++ b.selector }
              (hfront.joined hb) hall
          refine ⟨first, more, heq, hdeclarations, fun s hs => hselectors s ?_⟩
          rw [Selector.split_append hfront]
          exact List.mem_append_left _ hs
        · rw [if_neg hsame]
          exact ih _ front hfront hall
  exact hfold blocks [] block hblock hblocks

/-- The theme is written before all others, if it is written at all. -/
def WrittenFirst (config : ResolvedConfig) (name : String) : Prop :=
  name ∈ config.keys → config.keys.head? = some name

/-- Tokens in which something is found are not empty. -/
theorem isEmpty_of_isSome {tokens : TokenMap} {path : TokenPath}
    (h : (tokens.value? path).isSome = true) : tokens.isEmpty = false := by
  obtain ⟨entries, hd⟩ := tokens
  cases entries with
  | cons entry entries => rfl
  | nil =>
      rw [TokenMap.value?, TokenMap.lookup] at h
      cases hsegments : path.segments with
      | nil =>
          rw [hsegments] at h
          cases h
      | cons name names =>
          rw [hsegments] at h
          cases h

theorem isEmpty_of_mem_flatten {tokens : TokenMap} {leaf : TokenPath × String}
    (h : leaf ∈ tokens.flatten) : tokens.isEmpty = false := by
  obtain ⟨entries, hd⟩ := tokens
  cases entries with
  | cons entry entries => rfl
  | nil => cases h

namespace BlockSource

variable {source : BlockSource}
  (hnames : NamesApart source.config source.lightClass source.darkClass)

include hnames

/-- Then the first planned block is the one on the root. -/
theorem allPlans_of_first (hfirst : WrittenFirst source.config source.defaultTheme)
    {plan : Plan} (hplan : plan ∈ source.allPlans) (hroot : plan.selector = ":root") :
    ∃ more, source.allPlans = plan :: more := by
  obtain ⟨⟨name, theme⟩, hentry, hmem⟩ := List.mem_flatMap.mp hplan
  have hkeys : name ∈ source.config.keys := List.mem_map.mpr ⟨_, hentry, rfl⟩
  -- No other theme plans a block on the root.
  have hname : name = source.defaultTheme := by
    rcases parts_of_mem_plans hnames hkeys hmem with ⟨hdefault, -⟩ | ⟨-, rest, hparts⟩
    · exact hdefault
    · rw [hroot, Selector.parts_root] at hparts
      cases hparts
  rw [hname] at hkeys
  have hhead := hfirst hkeys
  have hnodup := nodup_allPlans hnames
  rw [allPlans] at hplan hnodup ⊢
  rw [Entries.keys, Pairs.keys] at hhead
  cases hlist : source.config.toList with
  | nil =>
      rw [hlist] at hhead
      cases hhead
  | cons entry entries =>
      obtain ⟨key, first⟩ := entry
      rw [hlist] at hhead hplan hnodup
      have hkey : key = source.defaultTheme := Option.some.inj hhead
      have hplans : source.plans key first
          = [⟨":root", first.light, fun path _ => source.needsRoot path⟩,
             ⟨"." ++ source.darkClass, first.dark, fun _ _ => true⟩] := by
        rw [plans, if_pos hkey]
      rw [List.flatMap_cons] at hplan hnodup ⊢
      dsimp only at hplan hnodup ⊢
      rw [hplans] at hplan hnodup ⊢
      rcases List.mem_cons.mp hplan with rfl | hother
      · exact ⟨_, rfl⟩
      · -- Two planned blocks on the root would have the same selector.
        refine absurd ?_ (List.nodup_cons.mp hnodup).1
        exact List.mem_map.mpr ⟨plan, hother, hroot⟩

/-- A first planned block that declares something becomes the first block. -/
theorem themes_of_first {plan : Plan} {more : List Plan} (hplans : source.allPlans = plan :: more)
    (hfull : source.declarations plan.tokens plan.keep ≠ []) :
    ∃ first rest, source.themes = first :: rest
      ∧ first.declarations = source.declarations plan.tokens plan.keep
      ∧ plan.selector ∈ Selector.split first.selector := by
  have hbuild : ∃ block, source.build? plan = some block ∧ block.selector = plan.selector
      ∧ block.declarations = source.declarations plan.tokens plan.keep :=
    ⟨_, if_neg fun hempty => hfull (List.isEmpty_iff.mp hempty), rfl, rfl⟩
  obtain ⟨block, hbuild, hselector, hblock⟩ := hbuild
  have hsimple : ∀ other ∈ plan :: more, Selector.Simple other.selector := by
    rw [← hplans]
    exact fun _ h => simple_of_mem_allPlans hnames h
  obtain ⟨hplan, hmore⟩ := List.forall_mem_cons.mp hsimple
  have hflat : ∀ b ∈ more.filterMap source.build?, Selector.Flat b.selector := by
    intro b hb
    obtain ⟨other, hother, heq⟩ := List.mem_map.mp
      ((source.selectors_build_sublist more).subset (List.mem_map.mpr ⟨b, hb, rfl⟩))
    rw [← heq]
    exact (hmore other hother).flat
  rw [themes_eq, hplans, List.filterMap_cons, hbuild]
  rw [← hselector] at hplan ⊢
  obtain ⟨first, rest, heq, hdeclarations, hselectors⟩ := mergeIdentical_first hplan.flat hflat
  refine ⟨first, rest, heq, hdeclarations.trans hblock, hselectors _ ?_⟩
  rw [Selector.split_simple hplan]
  exact List.mem_singleton.mpr rfl

/-- What is declared under a selector is what the block planned for it declares. -/
theorem exists_plan_of_declared {selector property : String}
    (h : declared source.themes selector property ≠ []) :
    ∃ plan ∈ source.allPlans, plan.selector = selector
      ∧ declared source.themes selector property
          = valuesFor property (source.declarations plan.tokens plan.keep)
      ∧ source.declarations plan.tokens plan.keep ≠ [] := by
  have hsimple : ∀ plan ∈ source.allPlans, Selector.Simple plan.selector :=
    fun _ hplan => simple_of_mem_allPlans hnames hplan
  rw [declared_themes_eq hnames] at h ⊢
  by_cases hmem : selector ∈ source.allPlans.map Plan.selector
  · obtain ⟨plan, hplan, rfl⟩ := List.mem_map.mp hmem
    have hvalues : declared (source.allPlans.filterMap source.build?) plan.selector property
        = valuesFor property (source.declarations plan.tokens plan.keep) :=
      declared_build hsimple (nodup_allPlans hnames) hplan property
    refine ⟨plan, hplan, rfl, hvalues, fun hempty => h ?_⟩
    rw [hvalues, hempty]
    rfl
  · exact absurd (declared_build_of_not_mem hsimple hmem property) h

/-- Where the authority is written first its light values are hidden by all
    others that apply. -/
theorem getLast?_applying_root (hfirst : WrittenFirst source.config source.defaultTheme)
    (others : List String) (property : String) :
    (applying source.themes (":root" :: others) property).getLast?
      = (applying source.themes others property).getLast?.or
          (declared source.themes ":root" property).getLast? := by
  by_cases hnone : declared source.themes ":root" property = []
  · rw [applying_drop hnone, hnone, List.getLast?_nil, Option.or_none]
  · obtain ⟨plan, hplan, hroot, hvalues, hfull⟩ := exists_plan_of_declared hnames hnone
    obtain ⟨more, hplans⟩ := allPlans_of_first hnames hfirst hplan hroot
    obtain ⟨first, rest, hthemes, hdeclarations, hselector⟩ := themes_of_first hnames hplans hfull
    rw [hroot] at hselector
    -- All that is declared on the root is in the first block.
    have hrest : declared rest ":root" property = [] := by
      rw [hthemes, declared_cons, if_pos hselector, hdeclarations] at hvalues
      exact List.append_right_eq_self.mp hvalues
    rw [hthemes]
    exact getLast?_applying_first hselector hrest

/-! ## Classes -/

/-- A theme has a block under its class alone only where the authority has no
    dark mode. -/
theorem hasDarkMode_of_class {name other : String} {theme : LightDarkTheme}
    (hname : name ∈ source.config.keys) (hother : other ∈ source.config.keys) {plan : Plan}
    (hplan : plan ∈ source.plans other theme) (hclass : plan.selector = "." ++ name) :
    source.authority.hasDarkMode = false := by
  have hparts := Selector.parts_class (hnames.theme hname)
  rw [← hclass] at hparts
  rw [plans] at hplan
  by_cases hdefault : other = source.defaultTheme
  · -- Neither `:root` nor the dark class is the class of a theme.
    rw [if_pos hdefault] at hplan
    rcases List.mem_pair.mp hplan with rfl | rfl
    · rw [Selector.parts_root] at hparts
      cases hparts
    · have hdark : source.darkClass = name := (String.append_right_inj ".").mp hclass
      exact absurd hdark.symm (hnames.theme_ne_dark hname)
  · rw [if_neg hdefault] at hplan
    by_cases hplain : (!theme.hasDarkMode && !source.authority.hasDarkMode) = true
    · rw [Bool.and_eq_true, Bool.not_eq_true', Bool.not_eq_true'] at hplain
      exact hplain.2
    · -- Selectors of two classes have one part more.
      rw [if_neg hplain] at hplan
      rcases List.mem_pair.mp hplan with rfl | rfl
      · rw [Selector.parts_classes (hnames.theme hother) hnames.light] at hparts
        cases (List.cons.inj (List.cons.inj hparts).2).2
      · rw [Selector.parts_classes (hnames.theme hother) hnames.dark] at hparts
        cases (List.cons.inj (List.cons.inj hparts).2).2

/-- The block under the dark class is the authority's. -/
theorem default_of_dark_class {name : String} {theme : LightDarkTheme}
    (hname : name ∈ source.config.keys) {plan : Plan} (hplan : plan ∈ source.plans name theme)
    (hclass : plan.selector = "." ++ source.darkClass) :
    name = source.defaultTheme ∧ plan.tokens = theme.dark := by
  have hdefault : name = source.defaultTheme := by
    rcases parts_of_mem_plans hnames hname hplan with ⟨hdefault, -⟩ | ⟨-, rest, hparts⟩
    · exact hdefault
    · rw [hclass, Selector.parts_class hnames.dark] at hparts
      have hdark := (List.cons.inj (List.cons.inj hparts).2).1
      exact absurd (String.toList_inj.mp hdark).symm (hnames.theme_ne_dark hname)
  refine ⟨hdefault, ?_⟩
  rw [plans, if_pos hdefault] at hplan
  rcases List.mem_pair.mp hplan with rfl | rfl
  · have hparts := Selector.parts_class hnames.dark
    rw [← hclass, Selector.parts_root] at hparts
    cases hparts
  · rfl

/-- On no property does a theme's class compete with the dark class. -/
theorem declared_class_or_dark
    (hauthority : ∀ theme, source.config.get? source.defaultTheme = some theme →
      theme = source.authority)
    (hknown : ∀ path, source.usage.isUsed path = true →
      (source.authority.light.value? path).isSome = true)
    {name : String} (hname : name ∈ source.config.keys) (property : String) :
    declared source.themes ("." ++ name) property = []
      ∨ declared source.themes ("." ++ source.darkClass) property = [] := by
  by_cases hclass : declared source.themes ("." ++ name) property = []
  · exact Or.inl hclass
  · refine Or.inr ?_
    by_contra hdark
    obtain ⟨plan, hplan, hselector, -, -⟩ := exists_plan_of_declared hnames hclass
    obtain ⟨⟨other, theme⟩, hentry, hplan⟩ := List.mem_flatMap.mp hplan
    have hmode := hasDarkMode_of_class hnames hname (List.mem_map.mpr ⟨_, hentry, rfl⟩) hplan
      hselector
    obtain ⟨plan', hplan', hselector', -, hfull⟩ := exists_plan_of_declared hnames hdark
    obtain ⟨⟨key, theme'⟩, hentry', hplan'⟩ := List.mem_flatMap.mp hplan'
    obtain ⟨hdefault, htokens⟩ :=
      default_of_dark_class hnames (List.mem_map.mpr ⟨_, hentry', rfl⟩) hplan' hselector'
    -- The dark class declares a used token, so the authority has tokens in both schemes.
    obtain ⟨d, hd⟩ := List.exists_mem_of_ne_nil _ hfull
    obtain ⟨⟨path, value⟩, hmem, -⟩ := List.mem_map.mp hd
    obtain ⟨hlisted, hkept⟩ := List.mem_filter.mp hmem
    have hused := (Bool.and_eq_true_iff.mp hkept).1
    have htheme : theme' = source.authority := by
      refine hauthority theme' (Entries.mem_toList_iff.mp ?_)
      rw [← hdefault]
      exact hentry'
    rw [htokens, htheme] at hlisted
    have hboth : source.authority.hasDarkMode = true := by
      rw [LightDarkTheme.hasDarkMode, isEmpty_of_isSome (hknown path hused),
        isEmpty_of_mem_flatten hlisted]
      rfl
    cases hmode.symm.trans hboth

/-- **THE CASCADE** where the authority is written first: the value under the
    two classes, or else the one under the theme's class or, in the dark
    scheme, the dark class, or else the one on the root. -/
theorem cascaded_themes
    (hauthority : ∀ theme, source.config.get? source.defaultTheme = some theme →
      theme = source.authority)
    (hknown : ∀ path, source.usage.isUsed path = true →
      (source.authority.light.value? path).isSome = true)
    (hfirst : WrittenFirst source.config source.defaultTheme)
    {options : OutputOptions} (hdark : options.darkClass = source.darkClass) {name : String}
    (hname : name ∈ source.config.keys) (scheme : ColorScheme) (property : String) :
    cascaded options source.themes name scheme property
      = layered options source.themes name scheme property := by
  unfold cascaded layered
  rw [applying_singleton]
  refine congrArg _ ?_
  cases scheme with
  | light =>
      rw [weakSelectors, getLast?_applying_root hnames hfirst, applying_singleton]
      rfl
  | dark =>
      rw [weakSelectors, getLast?_applying_root hnames hfirst, ← Option.or_assoc, hdark]
      refine congrArg (Option.or · _) ?_
      -- One of the two classes declares nothing.
      rcases declared_class_or_dark hnames hauthority hknown hname property with hnone | hnone
      · have hswap : ∀ s, s ∈ ["." ++ source.darkClass, "." ++ name]
            ↔ s ∈ ["." ++ name, "." ++ source.darkClass] :=
          fun _ => (List.Perm.swap _ _ _).mem_iff
        dsimp only
        rw [applying_congr hswap, applying_drop hnone, applying_singleton, hnone]
        rfl
      · dsimp only
        rw [applying_drop hnone, applying_singleton, hnone]
        exact (Option.or_none).symm

/-! ## The order of the themes -/

omit hnames in
/-- Planned blocks declare the same in every order. -/
theorem declared_build_perm {plans others : List Plan}
    (hsimple : ∀ plan ∈ plans, Selector.Simple plan.selector)
    (hnodup : (plans.map Plan.selector).Nodup) (hperm : plans.Perm others)
    (selector property : String) :
    declared (plans.filterMap source.build?) selector property
      = declared (others.filterMap source.build?) selector property := by
  have hsimple' : ∀ plan ∈ others, Selector.Simple plan.selector :=
    fun plan hplan => hsimple plan (hperm.mem_iff.mpr hplan)
  have hselectors := hperm.map Plan.selector
  by_cases hmem : selector ∈ plans.map Plan.selector
  · obtain ⟨plan, hplan, rfl⟩ := List.mem_map.mp hmem
    rw [declared_build hsimple hnodup hplan,
      declared_build hsimple' (hselectors.nodup_iff.mp hnodup) (hperm.mem_iff.mp hplan)]
  · rw [declared_build_of_not_mem hsimple hmem,
      declared_build_of_not_mem hsimple' (fun hout => hmem (hselectors.mem_iff.mpr hout))]

/-- The blocks of all themes declare the same in every order of the themes. -/
theorem declared_themes_perm {other : ResolvedConfig}
    (hperm : source.config.toList.Perm other.toList)
    (hother : NamesApart other source.lightClass source.darkClass) (selector property : String) :
    declared source.themes selector property
      = declared ({ source with config := other } : BlockSource).themes selector property := by
  have hplans : source.allPlans.Perm ({ source with config := other } : BlockSource).allPlans :=
    hperm.flatMap_right _
  rw [declared_themes_eq hnames, declared_themes_eq hother]
  exact declared_build_perm (fun _ hplan => simple_of_mem_allPlans hnames hplan)
    (nodup_allPlans hnames) hplans selector property

end BlockSource

theorem NamesApart.perm {config other : ResolvedConfig} {lightClass darkClass : String}
    (h : NamesApart config lightClass darkClass) (hperm : config.toList.Perm other.toList) :
    NamesApart other lightClass darkClass := by
  have hkeys : (config.keys ++ [lightClass, darkClass]).Perm
      (other.keys ++ [lightClass, darkClass]) :=
    (hperm.map Prod.fst).append_right _
  exact ⟨fun name hname => h.classes name (hkeys.mem_iff.mpr hname), hkeys.nodup_iff.mp h.nodup⟩

/-! ## Main result -/

section Output

variable {config other : ResolvedConfig} {options : OutputOptions} {localizer : Localizer}
  {usage : VariableUsage} (hsingle : options.singleTheme = none)
  (hauthority : authorityOf other options = authorityOf config options)

include hsingle hauthority

/-- What takes the place of references is up to the authority. -/
theorem replacement_eq :
    replacement other options localizer usage = replacement config options localizer usage := by
  unfold replacement
  dsimp only
  rw [hauthority, singleTheme_eq_none hsingle, singleTheme_eq_none hsingle]

/-- What blocks are made from is up to the authority, but for the themes. -/
theorem blockSource_eq :
    blockSource other options localizer usage
      = { blockSource config options localizer usage with config := other } := by
  unfold blockSource
  dsimp only
  rw [hauthority, singleTheme_eq_none hsingle, singleTheme_eq_none hsingle]

end Output

/-- **ORDER**: the same themes in another order, the authority first in both,
    are written alike but for their blocks, and on the root element every
    custom property has the same value in each scheme of each theme.  For that
    the names of the themes and the two scheme classes have to be names of
    classes that need no escapes, no two of them the same (`NamesApart`): the
    classes of an element say which theme and scheme are meant only then. -/
theorem apply_order {config other : ResolvedConfig} {options : OutputOptions}
    {localizer : Localizer} {sheet out : Stylesheet} {warnings : List Warning}
    (h : apply config options localizer sheet = .ok (out, warnings))
    (hperm : config.toList.Perm other.toList) (hsingle : options.singleTheme = none)
    (hnames : NamesApart config options.lightClass options.darkClass)
    (hfirst : WrittenFirst config options.defaultTheme)
    (hfirst' : WrittenFirst other options.defaultTheme) :
    ∃ (usage : VariableUsage) (author : Stylesheet), VariableUsage.analyze sheet = .ok usage
      ∧ out = author.appendRules (blocks config options localizer usage)
      ∧ apply other options localizer sheet
          = .ok (author.appendRules (blocks other options localizer usage), warnings)
      ∧ ∀ name ∈ config.keys, ∀ scheme property,
          cascaded options (blocks config options localizer usage) name scheme property
            = cascaded options (blocks other options localizer usage) name scheme property := by
  obtain ⟨usage, author, husage, hauthor, rfl, rfl⟩ := apply_eq_ok.mp h
  have hget := Entries.get?_perm hperm
  have hauthority : authorityOf other options = authorityOf config options := by
    rw [authorityOf, authorityOf, hget]
  have hput : replacement other options localizer usage
      = replacement config options localizer usage := replacement_eq hsingle hauthority
  refine ⟨usage, author, husage, rfl, ?_, fun name hname scheme property => ?_⟩
  · refine apply_eq_ok.mpr ⟨usage, author, husage, ?_, rfl, ?_⟩
    · rw [hput]
      exact hauthor
    · rw [hput]
  · have hliteral : (replacement config options localizer usage).literal = false :=
      literal_eq_false hsingle localizer usage
    -- A reference without a light value of the authority would have failed.
    have hknown : ∀ path, usage.isUsed path = true →
        ((authorityOf config options).light.value? path).isSome = true := by
      intro path hused
      obtain ⟨d, hd, value, hvalue, r, hr, rfl⟩ := (VariableUsage.isUsed_iff husage).mp hused
      exact (Replacement.sheet_eq_ok hliteral hauthor).2 d hd value hvalue r hr
    have hconfigured : ∀ theme, config.get? options.defaultTheme = some theme →
        theme = authorityOf config options := by
      intro theme htheme
      rw [authorityOf, htheme]
      rfl
    have hconfigured' : ∀ theme, other.get? options.defaultTheme = some theme →
        theme = authorityOf config options := by
      rw [← hget]
      exact hconfigured
    have hnames' := hnames.perm hperm
    have hname' : name ∈ other.keys := (hperm.map Prod.fst).mem_iff.mp hname
    rw [blocks_eq_themes hsingle, blocks_eq_themes hsingle, blockSource_eq hsingle hauthority,
      BlockSource.cascaded_themes hnames hconfigured hknown hfirst rfl hname,
      BlockSource.cascaded_themes hnames' hconfigured' hknown hfirst' rfl hname']
    have hdeclared : ∀ selector,
        declared (blockSource config options localizer usage).themes selector property
          = declared ({ blockSource config options localizer usage with config := other }
              : BlockSource).themes selector property :=
      fun selector => BlockSource.declared_themes_perm hnames hperm hnames' selector property
    unfold layered
    simp only [hdeclared]

/-- An authority without a dark mode. -/
def mainland : LightDarkTheme :=
  ⟨(TokenMap.empty.insertText "ink" "black").insertText "gap" "1px", .empty⟩

/-- A theme that differs from it. -/
def lagoon : LightDarkTheme := ⟨TokenMap.empty.insertText "ink" "teal", .empty⟩

/-- The authority in front of two themes. -/
def islands : ResolvedConfig where
  toList := [("default", mainland), ("ocean", ocean), ("lagoon", lagoon)]
  nodup := by decide +kernel

/-- The two themes in the other order. -/
def islandsTurned : ResolvedConfig where
  toList := [("default", mainland), ("lagoon", lagoon), ("ocean", ocean)]
  nodup := by decide +kernel

theorem islands_in_either_order : ∃ (usage : VariableUsage) (author out : Stylesheet)
      (warnings : List Warning),
    VariableUsage.analyze bordered = .ok usage
      ∧ apply islands {} ⟨none, none, ""⟩ bordered = .ok (out, warnings)
      ∧ apply islandsTurned {} ⟨none, none, ""⟩ bordered
          = .ok (author.appendRules (blocks islandsTurned {} ⟨none, none, ""⟩ usage), warnings)
      ∧ cascaded {} (blocks islandsTurned {} ⟨none, none, ""⟩ usage) "ocean" .light "--ink"
          = some "navy"
      ∧ cascaded {} (blocks islandsTurned {} ⟨none, none, ""⟩ usage) "lagoon" .dark "--ink"
          = some "teal" := by
  have hok : (apply islands {} ⟨none, none, ""⟩ bordered).toOption.isSome = true := by
    decide +kernel
  obtain ⟨⟨out, warnings⟩, happly⟩ := Outcome.exists_ok_of_isSome hok
  have hperm : islands.toList.Perm islandsTurned.toList := (List.Perm.swap _ _ _).cons _
  have hnames : NamesApart islands "light" "dark" := ⟨by decide +kernel, by decide +kernel⟩
  obtain ⟨usage, author, husage, -, hother, hsame⟩ :=
    apply_order happly hperm rfl hnames (fun _ => rfl) (fun _ => rfl)
  have hvalues : (VariableUsage.analyze bordered).toOption.map (fun usage =>
      (cascaded {} (blocks islands {} ⟨none, none, ""⟩ usage) "ocean" .light "--ink",
        cascaded {} (blocks islands {} ⟨none, none, ""⟩ usage) "lagoon" .dark "--ink"))
      = some (some "navy", some "teal") := by
    decide +kernel
  rw [husage] at hvalues
  obtain ⟨hocean, hlagoon⟩ := Prod.mk.inj (Option.some.inj hvalues)
  refine ⟨usage, author, out, warnings, husage, happly, hother, ?_, ?_⟩
  · rw [← hsame "ocean" (by decide +kernel)]
    exact hocean
  · rw [← hsame "lagoon" (by decide +kernel)]
    exact hlagoon

/-- A theme in front of the authority. -/
def adrift : ResolvedConfig where
  toList := [("ocean", ocean), ("default", mainland), ("lagoon", lagoon)]
  nodup := by decide +kernel

/-- In front of the authority a theme's value does not count: `:root` is as
    strong as its class, and comes later. -/
theorem apply_order_fails :
    ¬ (∀ (config other : ResolvedConfig) (options : OutputOptions) (localizer : Localizer)
        (sheet out : Stylesheet) (warnings : List Warning),
        apply config options localizer sheet = .ok (out, warnings) →
        config.toList.Perm other.toList → options.singleTheme = none →
        NamesApart config options.lightClass options.darkClass →
          ∃ (usage : VariableUsage) (author : Stylesheet), VariableUsage.analyze sheet = .ok usage
            ∧ out = author.appendRules (blocks config options localizer usage)
            ∧ apply other options localizer sheet
                = .ok (author.appendRules (blocks other options localizer usage), warnings)
            ∧ ∀ name ∈ config.keys, ∀ scheme property,
                cascaded options (blocks config options localizer usage) name scheme property
                  = cascaded options (blocks other options localizer usage) name scheme
                      property) := by
  intro h
  have hok : (apply adrift {} ⟨none, none, ""⟩ bordered).toOption.isSome = true := by
    decide +kernel
  obtain ⟨⟨out, warnings⟩, happly⟩ := Outcome.exists_ok_of_isSome hok
  have hperm : adrift.toList.Perm islands.toList := .swap _ _ _
  obtain ⟨usage, author, husage, -, -, hsame⟩ :=
    h _ _ _ _ _ _ _ happly hperm rfl ⟨by decide +kernel, by decide +kernel⟩
  have hvalues : (VariableUsage.analyze bordered).toOption.map (fun usage =>
      (cascaded {} (blocks adrift {} ⟨none, none, ""⟩ usage) "ocean" .light "--ink",
        cascaded {} (blocks islands {} ⟨none, none, ""⟩ usage) "ocean" .light "--ink"))
      = some (some "black", some "navy") := by
    decide +kernel
  rw [husage] at hvalues
  obtain ⟨hadrift, hislands⟩ := Prod.mk.inj (Option.some.inj hvalues)
  have hvalue := hsame "ocean" (by decide +kernel) .light "--ink"
  rw [hadrift, hislands] at hvalue
  exact absurd (Option.some.inj hvalue) (by decide)

end ThemeTokens.Modern
