import ThemeTokens.Proofs.Legacy.Overrides
import ThemeTokens.Proofs.Reference.Leftover
import ThemeTokens.Proofs.Stylesheet

/-! # Legacy output is settled

    Values of themes are put between the texts of a declaration, and together
    they may spell a reference that stood in neither.  Every text that is put
    together is looked at once more, be it for the author's own rules, for an
    override or inside an at-rule, so no reference is left at any depth.

    A stylesheet without references and markers gives the pass nothing to do:
    no declaration is read as one with references, so nothing is replaced and
    no rule has overrides (`apply_of_referenceFree`).  Legacy output is such a
    stylesheet, and the pass leaves it as it is, whatever the themes
    (`apply_again`). -/

namespace ThemeTokens.Legacy

namespace Source

variable {source : Source}

/-! ## No reference is left -/

/-- Only a declaration without references is read as one. -/
theorem referring?_eq_none_iff {d : Declaration} :
    referring? d = .ok none ↔ ReferenceFree d.value := by
  rw [referring?]
  by_cases hm : mentionsTheme d.value = true
  · rw [if_pos hm]
    constructor
    · intro h
      obtain ⟨value, hparse, h⟩ := Outcome.bind_eq_ok.mp h
      refine ⟨value, Outcome.located_eq_ok.mp hparse, Bool.eq_false_iff.mpr fun hr => ?_⟩
      rw [if_pos hr] at h
      cases h
    · rintro ⟨value, hparse, hfree⟩
      refine Outcome.bind_eq_ok.mpr ⟨value, Outcome.located_eq_ok.mpr hparse, ?_⟩
      rw [hfree]
      rfl
  · rw [if_neg hm]
    exact iff_of_true rfl (referenceFree_of_not_mentions (Bool.eq_false_iff.mpr hm))

/-- What is written for a scheme of a theme has no reference. -/
theorem referenceFree_of_substitute {theme : Option LightDarkTheme} {name : String}
    {scheme : ColorScheme} {item : Referring} {found : Option Declaration}
    (h : source.substitute theme name scheme item = .ok found) :
    ∀ d ∈ found.toList, ReferenceFree d.value := by
  rw [substitute, Outcome.located_eq_ok] at h
  obtain ⟨outcome, hsub, h⟩ := Outcome.bind_eq_ok.mp h
  cases outcome with
  | text text =>
      rw [← Except.ok.inj h]
      exact List.forall_mem_singleton.mpr (ThemeTokens.referenceFree_of_substitute hsub)
  | dropped missing =>
      rw [← Except.ok.inj h]
      exact List.forall_mem_nil _

/-- A declaration of the author is kept without a reference, or its references are
    replaced. -/
theorem referenceFree_of_baseDeclarations {ds kept : List Declaration} {items : List Referring}
    (h : source.baseDeclarations ds = .ok (kept, items)) : ∀ d ∈ kept, ReferenceFree d.value := by
  induction ds generalizing kept items with
  | nil =>
      rw [← (Prod.mk.inj (Except.ok.inj h)).1]
      exact List.forall_mem_nil _
  | cons d ds ih =>
      obtain ⟨item, hitem, h⟩ := Outcome.bind_eq_ok.mp h
      cases item with
      | none =>
          obtain ⟨⟨rest, more⟩, hrest, h⟩ := Outcome.bind_eq_ok.mp h
          rw [← (Prod.mk.inj (Except.ok.inj h)).1]
          exact List.forall_mem_cons.mpr ⟨referring?_eq_none_iff.mp hitem, ih hrest⟩
      | some item =>
          obtain ⟨found, hfound, h⟩ := Outcome.bind_eq_ok.mp h
          obtain ⟨⟨rest, more⟩, hrest, h⟩ := Outcome.bind_eq_ok.mp h
          rw [← (Prod.mk.inj (Except.ok.inj h)).1]
          exact List.forall_mem_append.mpr ⟨referenceFree_of_substitute hfound, ih hrest⟩

/-- In an override all references have been replaced. -/
theorem referenceFree_of_overrideDeclarations {theme : LightDarkTheme} {name : String}
    {scheme : ColorScheme} {items : List Referring} {found : List Declaration}
    (h : source.overrideDeclarations theme name scheme items = .ok found) :
    ∀ d ∈ found, ReferenceFree d.value := by
  induction items generalizing found with
  | nil =>
      rw [← Except.ok.inj h]
      exact List.forall_mem_nil _
  | cons item items ih =>
      obtain ⟨first, hfirst, h⟩ := Outcome.bind_eq_ok.mp h
      obtain ⟨rest, hrest, h⟩ := Outcome.bind_eq_ok.mp h
      rw [← Except.ok.inj h]
      exact List.forall_mem_append.mpr ⟨referenceFree_of_substitute hfirst, ih hrest⟩

/-- No override of a rule has a reference. -/
theorem referenceFree_of_overrides {selector : String} {location : Location}
    {items : List Referring} {variants : List (String × LightDarkTheme × ColorScheme)}
    {found : List Rule} (h : source.overrides selector location items variants = .ok found) :
    ∀ r ∈ found, ∀ d ∈ r.declarations, ReferenceFree d.value := by
  induction variants generalizing found with
  | nil =>
      rw [← Except.ok.inj h]
      exact List.forall_mem_nil _
  | cons variant variants ih =>
      obtain ⟨name, theme, scheme⟩ := variant
      obtain ⟨declarations, hdecls, h⟩ := Outcome.bind_eq_ok.mp h
      obtain ⟨rules, hrules, h⟩ := Outcome.bind_eq_ok.mp h
      split at h
      · rw [← Except.ok.inj h]
        exact ih hrules
      · rw [← Except.ok.inj h]
        exact List.forall_mem_cons.mpr
          ⟨referenceFree_of_overrideDeclarations hdecls, ih hrules⟩

/-- Neither a rule nor its overrides have one. -/
theorem referenceFree_of_rule {r plain : Rule} {found : List Rule}
    (h : source.rule r = .ok (plain, found)) :
    (∀ d ∈ plain.declarations, ReferenceFree d.value)
      ∧ ∀ r ∈ found, ∀ d ∈ r.declarations, ReferenceFree d.value := by
  obtain ⟨⟨kept, items⟩, hbase, h⟩ := Outcome.bind_eq_ok.mp h
  have hkept := referenceFree_of_baseDeclarations hbase
  dsimp only at h
  split at h
  · obtain ⟨rfl, rfl⟩ := Prod.mk.inj (Except.ok.inj h)
    exact ⟨hkept, List.forall_mem_nil _⟩
  · obtain ⟨rules, hrules, h⟩ := Outcome.bind_eq_ok.mp h
    obtain ⟨rfl, rfl⟩ := Prod.mk.inj (Except.ok.inj h)
    exact ⟨hkept, referenceFree_of_overrides hrules⟩

mutual

/-- At no depth is a reference left in a node or in the overrides behind it. -/
theorem referenceFree_of_node {node out : Node} {found : List Rule}
    (h : source.node node = .ok (out, found)) :
    (∀ d ∈ out.declarations, ReferenceFree d.value)
      ∧ ∀ r ∈ found, ∀ d ∈ r.declarations, ReferenceFree d.value := by
  cases node with
  | rule r =>
      obtain ⟨⟨plain, rules⟩, hrule, h⟩ := Outcome.bind_eq_ok.mp h
      obtain ⟨rfl, rfl⟩ := Prod.mk.inj (Except.ok.inj h)
      exact referenceFree_of_rule hrule
  | atStatement head =>
      obtain ⟨rfl, rfl⟩ := Prod.mk.inj (Except.ok.inj h)
      exact ⟨List.forall_mem_nil _, List.forall_mem_nil _⟩
  | atRules head nodes =>
      obtain ⟨⟨kept, rules⟩, hnodes, h⟩ := Outcome.bind_eq_ok.mp h
      obtain ⟨rfl, rfl⟩ := Prod.mk.inj (Except.ok.inj h)
      obtain ⟨hkept, hrules⟩ := referenceFree_of_nodes hnodes
      -- The overrides found inside are placed inside, behind what was kept.
      refine ⟨?_, List.forall_mem_nil _⟩
      intro d hd
      have hinside : d ∈ ((Stylesheet.mk kept).appendRules rules).declarations := hd
      rw [Stylesheet.declarations_appendRules] at hinside
      rcases List.mem_append.mp hinside with hd | hd
      · exact hkept d hd
      · obtain ⟨r, hr, hd⟩ := List.mem_flatMap.mp hd
        exact hrules r hr d hd
  | atDeclarations head ds =>
      obtain ⟨⟨kept, items⟩, hbase, h⟩ := Outcome.bind_eq_ok.mp h
      obtain ⟨rfl, rfl⟩ := Prod.mk.inj (Except.ok.inj h)
      exact ⟨referenceFree_of_baseDeclarations hbase, List.forall_mem_nil _⟩

theorem referenceFree_of_nodes {nodes out : List Node} {found : List Rule}
    (h : source.nodes nodes = .ok (out, found)) :
    (∀ d ∈ Node.declarationsAll out, ReferenceFree d.value)
      ∧ ∀ r ∈ found, ∀ d ∈ r.declarations, ReferenceFree d.value := by
  cases nodes with
  | nil =>
      obtain ⟨rfl, rfl⟩ := Prod.mk.inj (Except.ok.inj h)
      exact ⟨List.forall_mem_nil _, List.forall_mem_nil _⟩
  | cons node nodes =>
      obtain ⟨⟨kept, rules⟩, hnode, h⟩ := Outcome.bind_eq_ok.mp h
      obtain ⟨⟨rest, more⟩, hnodes, h⟩ := Outcome.bind_eq_ok.mp h
      obtain ⟨rfl, rfl⟩ := Prod.mk.inj (Except.ok.inj h)
      obtain ⟨hkept, hrules⟩ := referenceFree_of_node hnode
      obtain ⟨hrest, hmore⟩ := referenceFree_of_nodes hnodes
      exact ⟨List.forall_mem_append.mpr ⟨hkept, hrest⟩,
        List.forall_mem_append.mpr ⟨hrules, hmore⟩⟩

end

/-! ## Nothing to do -/

/-- Without references all declarations are kept as they are, and none is to be
    overridden. -/
theorem baseDeclarations_of_referenceFree {ds : List Declaration}
    (h : ∀ d ∈ ds, ReferenceFree d.value) : source.baseDeclarations ds = .ok (ds, []) := by
  induction ds with
  | nil => rfl
  | cons d ds ih =>
      obtain ⟨hd, hds⟩ := List.forall_mem_cons.mp h
      rw [baseDeclarations, referring?_eq_none_iff.mpr hd]
      simp only [Outcome.ok_bind, ih hds]
      rfl

/-- Without references and markers a rule stays as it is and has no overrides. -/
theorem rule_of_referenceFree {r : Rule} (hmarker : Selector.hasThemeRoot r.selector = false)
    (h : ∀ d ∈ r.declarations, ReferenceFree d.value) : source.rule r = .ok (r, []) := by
  have hselector : Selector.stripThemeRoot r.selector = r.selector :=
    if_neg (Bool.eq_false_iff.mp hmarker)
  rw [rule, baseDeclarations_of_referenceFree h, Outcome.ok_bind]
  dsimp only
  rw [hselector, List.isEmpty_nil, Bool.or_true, if_pos rfl]
  rfl

mutual

/-- So does a node, at every depth. -/
theorem node_of_referenceFree {node : Node}
    (hmarker : ∀ r ∈ node.rules, Selector.hasThemeRoot r.selector = false)
    (h : ∀ d ∈ node.declarations, ReferenceFree d.value) :
    source.node node = .ok (node, []) := by
  cases node with
  | rule r =>
      rw [node, rule_of_referenceFree (hmarker r List.mem_cons_self) h]
      rfl
  | atStatement head => rfl
  | atRules head nodes =>
      rw [node, nodes_of_referenceFree hmarker h]
      show Except.ok (Node.atRules head (nodes ++ []), []) = _
      rw [List.append_nil]
  | atDeclarations head ds =>
      have hkept : source.baseDeclarations ds = .ok (ds, []) :=
        baseDeclarations_of_referenceFree h
      rw [node, hkept]
      rfl

theorem nodes_of_referenceFree {nodes : List Node}
    (hmarker : ∀ r ∈ Node.rulesAll nodes, Selector.hasThemeRoot r.selector = false)
    (h : ∀ d ∈ Node.declarationsAll nodes, ReferenceFree d.value) :
    source.nodes nodes = .ok (nodes, []) := by
  cases nodes with
  | nil => rfl
  | cons node nodes =>
      obtain ⟨hhere, hthere⟩ := List.forall_mem_append.mp hmarker
      obtain ⟨hfirst, hrest⟩ := List.forall_mem_append.mp h
      rw [Source.nodes, node_of_referenceFree hhere hfirst, nodes_of_referenceFree hthere hrest]
      rfl

end

end Source

/-- **NOTHING TO DO**: a stylesheet without references and markers is left as
    it is, unless empty rules are asked for. -/
theorem apply_of_referenceFree {config : ResolvedConfig} {options : OutputOptions}
    {sheet : Stylesheet} (hempty : options.emptySelectors = false)
    (hmarker : ∀ r ∈ sheet.rules, Selector.hasThemeRoot r.selector = false)
    (h : ∀ d ∈ sheet.declarations, ReferenceFree d.value) :
    apply config options sheet = .ok sheet := by
  have hbare : (Source.of config options).emptyRules = [] := by
    rw [Source.emptyRules]
    exact if_neg (Bool.eq_false_iff.mp hempty)
  rw [apply]
  dsimp only
  rw [Source.nodes_of_referenceFree hmarker h, hbare]
  show Except.ok (Stylesheet.mk ((sheet.nodes ++ []) ++ [])) = _
  rw [List.append_nil, List.append_nil]

/-! ## Main result -/

/-- The empty rules are empty. -/
theorem declarations_emptyRules {source : Source} :
    ∀ r ∈ source.emptyRules, r.declarations = [] := by
  intro r hr
  rw [Source.emptyRules] at hr
  split at hr
  · obtain ⟨name, -, rfl⟩ := List.mem_map.mp hr
    rfl
  · cases hr

/-- **SETTLED**: no declaration of legacy output has a reference, at any depth.
    Where no marker is left either, the output comes out of the pass as it is,
    whatever the themes and the options, unless empty rules are asked for. -/
theorem apply_again {config : ResolvedConfig} {options : OutputOptions} {sheet out : Stylesheet}
    (h : apply config options sheet = .ok out) :
    (∀ d ∈ out.declarations, ReferenceFree d.value)
      ∧ ((∀ r ∈ out.rules, Selector.hasThemeRoot r.selector = false) →
          ∀ (themes : ResolvedConfig) (again : OutputOptions), again.emptySelectors = false →
            apply themes again out = .ok out) := by
  have hfree : ∀ d ∈ out.declarations, ReferenceFree d.value := by
    obtain ⟨⟨kept, found⟩, hnodes, h⟩ := Outcome.bind_eq_ok.mp h
    obtain ⟨hkept, hfound⟩ := Source.referenceFree_of_nodes hnodes
    have hout : ((Stylesheet.mk kept).appendRules found).appendRules
        (Source.of config options).emptyRules = out := Except.ok.inj h
    intro d hd
    rw [← hout, Stylesheet.declarations_appendRules, Stylesheet.declarations_appendRules] at hd
    rcases List.mem_append.mp hd with hd | hd
    · rcases List.mem_append.mp hd with hd | hd
      · exact hkept d hd
      · obtain ⟨r, hr, hd⟩ := List.mem_flatMap.mp hd
        exact hfound r hr d hd
    · -- The rules at the end have no declarations at all.
      obtain ⟨r, hr, hd⟩ := List.mem_flatMap.mp hd
      rw [declarations_emptyRules r hr] at hd
      cases hd
  exact ⟨hfree, fun hmarker _ _ hempty => apply_of_referenceFree hempty hmarker hfree⟩

/-- Without any theme the first pass would have failed. -/
theorem printed_again : ∃ out, apply shoreline {} printed = .ok out
    ∧ out.rules = printedRules
    ∧ (∀ d ∈ out.declarations, ReferenceFree d.value)
    ∧ apply .empty {} out = .ok out := by
  have hrules : (apply shoreline {} printed).toOption.map Stylesheet.rules = some printedRules := by
    decide +kernel
  obtain ⟨out, happly, hrules⟩ := Outcome.exists_ok_of_map hrules
  have hmarker : ∀ r ∈ out.rules, Selector.hasThemeRoot r.selector = false := by
    rw [hrules]
    decide +kernel
  obtain ⟨hfree, hagain⟩ := apply_again happly
  exact ⟨out, happly, hrules, hfree, hagain hmarker .empty {} rfl⟩

end ThemeTokens.Legacy
