import ThemeTokens.Config.Inherit
import ThemeTokens.Proofs.Token.Merge
import ThemeTokens.Token.Flatten

/-! # Themes of a component

    A component's themes go over the global ones as the entries of a group go
    over those of another (`toList_merge`): themes of one side only are kept as
    they are, and where both sides have a theme of a name, each of its parents
    and each of its token trees is merged for itself (`MergeOf`).

    * `merge_theme_by_theme`: what a merge has, in which order, and that a
      component merged twice is merged as well as once. -/

namespace ThemeTokens

/-! ## Schemes and themes -/

namespace SchemeTokens

theorem merge_self (scheme : SchemeTokens) : scheme.merge scheme = scheme :=
  SchemeTokens.ext Option.or_self (TokenMap.merge_self scheme.tokens)

/-- A scheme merged over once more changes nothing. -/
theorem merge_again (scheme upper : SchemeTokens) :
    (scheme.merge upper).merge upper = scheme.merge upper := by
  refine SchemeTokens.ext ?_ (TokenMap.merge_again scheme.tokens upper.tokens)
  show upper.parent.or (upper.parent.or scheme.parent) = upper.parent.or scheme.parent
  rw [← Option.or_assoc, Option.or_self]

end SchemeTokens

namespace ThemeDefinition

/-- The theme has at each level the parent that `top` names, or else the one
    that `base` names, and in each scheme the tokens of `top` merged over those
    of `base`. -/
structure MergeOf (theme base top : ThemeDefinition) : Prop where
  parents : ∀ level, theme.parentAt level = (top.parentAt level).or (base.parentAt level)
  tokens : ∀ scheme, (theme.scheme scheme).tokens
    = (base.scheme scheme).tokens.merge (top.scheme scheme).tokens

/-- A merged theme has the parents and the tokens that both sides give it at each
    level. -/
theorem merge_mergeOf (base top : ThemeDefinition) : (base.merge top).MergeOf base top where
  parents level := by
    match level with
    | none => rfl
    | some .light => rfl
    | some .dark => rfl
  tokens scheme := by
    cases scheme with
    | light => rfl
    | dark => rfl

theorem merge_self (theme : ThemeDefinition) : theme.merge theme = theme :=
  ThemeDefinition.ext Option.or_self theme.light.merge_self theme.dark.merge_self

/-- A theme merged over once more changes nothing. -/
theorem merge_again (theme upper : ThemeDefinition) :
    (theme.merge upper).merge upper = theme.merge upper := by
  refine ThemeDefinition.ext ?_ (theme.light.merge_again upper.light)
    (theme.dark.merge_again upper.dark)
  show upper.parent.or (upper.parent.or theme.parent) = upper.parent.or theme.parent
  rw [← Option.or_assoc, Option.or_self]

/-- A theme put over what there is under its name. -/
def onto : Option ThemeDefinition → ThemeDefinition → ThemeDefinition
  | some theme, upper => theme.merge upper
  | none, upper => upper

/-- A theme put over what it was put over before changes nothing. -/
theorem onto_again (theme : Option ThemeDefinition) (upper : ThemeDefinition) :
    onto (some (onto theme upper)) upper = onto theme upper := by
  cases theme with
  | none => exact upper.merge_self
  | some theme => exact theme.merge_again upper

end ThemeDefinition

/-! ## Configurations -/

namespace ThemeConfig

/-- The themes are merged as the entries of any collection. -/
theorem toList_merge (config upper : ThemeConfig) :
    (config.merge upper).toList
      = Pairs.mergeWith ThemeDefinition.onto config.toList upper.toList := by
  have hone : ∀ (config : ThemeConfig) (name : String) (top : ThemeDefinition),
      (config.mergeTheme name top).toList
        = Pairs.insert name (ThemeDefinition.onto (config.get? name) top) config.toList := by
    intro config name top
    rw [mergeTheme]
    cases config.get? name with
    | none => rfl
    | some theme => rfl
  rw [merge]
  generalize upper.toList = themes
  induction themes generalizing config with
  | nil => rfl
  | cons p themes ih =>
      rw [List.foldl_cons, Pairs.mergeWith_cons, ih, hone]
      rfl

/-- New themes go behind those of the lower side. -/
theorem keys_merge (config upper : ThemeConfig) :
    (config.merge upper).keys = config.keys ++ upper.keys.filter (· ∉ config.keys) := by
  rw [Entries.keys, toList_merge, Pairs.keys_mergeWith upper.nodup]
  rfl

/-- A theme is the one of the upper side put over that of the lower, or that of the
    lower alone. -/
theorem get?_merge (config upper : ThemeConfig) (name : String) :
    (config.merge upper).get? name = match upper.get? name with
      | some top => some (ThemeDefinition.onto (config.get? name) top)
      | none => config.get? name := by
  rw [Entries.get?, toList_merge, Pairs.get?_mergeWith upper.nodup]
  show _ = match Pairs.get? name upper.toList with
    | some top => some (ThemeDefinition.onto (config.get? name) top)
    | none => config.get? name
  cases Pairs.get? name upper.toList with
  | none => rfl
  | some top => rfl

/-- A component merged over once more changes nothing. -/
theorem merge_again (config upper : ThemeConfig) :
    (config.merge upper).merge upper = config.merge upper := by
  refine Entries.ext ?_
  rw [toList_merge, toList_merge]
  exact Pairs.mergeWith_again upper.nodup fun p _ theme => p.2.onto_again theme

theorem merge_self (config : ThemeConfig) : config.merge config = config := by
  refine Entries.ext ?_
  rw [toList_merge]
  exact Pairs.mergeWith_self config.nodup fun p _ => p.2.merge_self

/-- **THEME BY THEME**: a merge has the themes of the lower side in their order
    and the new ones of the upper side behind them in theirs.  A theme of one
    side only is as it is there, and one of both sides has the parents that the
    upper side names, or else its own, and both its token trees merged.  Merging
    the same again changes nothing, nor does merging nothing or the
    configuration itself, so a component that is merged twice resolves, or
    fails, like one that is merged once. -/
theorem merge_theme_by_theme (config upper : ThemeConfig) :
    (config.merge upper).keys = config.keys ++ upper.keys.filter (· ∉ config.keys)
      ∧ (∀ name, name ∉ upper.keys → (config.merge upper).get? name = config.get? name)
      ∧ (∀ name, name ∉ config.keys → (config.merge upper).get? name = upper.get? name)
      ∧ (∀ name base top, config.get? name = some base → upper.get? name = some top →
          ∃ theme, (config.merge upper).get? name = some theme ∧ theme.MergeOf base top)
      ∧ (config.merge upper).merge upper = config.merge upper
      ∧ config.merge .empty = config
      ∧ config.merge config = config
      ∧ ((config.merge upper).merge upper).resolve = (config.merge upper).resolve
      ∧ ∀ raw component : RawConfig, RawConfig.resolve raw (some component)
          = (((RawConfig.normalize raw).merge (RawConfig.normalize component)).merge
              (RawConfig.normalize component)).resolve := by
  refine ⟨keys_merge config upper, fun name hnew => ?_, fun name hnew => ?_,
    fun name base top hbase htop => ?_, merge_again config upper, rfl, merge_self config,
    congrArg resolve (merge_again config upper), fun raw component => ?_⟩
  · have hnone : upper.get? name = none := Pairs.get?_eq_none_iff.mpr hnew
    rw [get?_merge, hnone]
  · have hnone : config.get? name = none := Pairs.get?_eq_none_iff.mpr hnew
    rw [get?_merge, hnone]
    cases upper.get? name with
    | none => rfl
    | some top => rfl
  · refine ⟨base.merge top, ?_, ThemeDefinition.merge_mergeOf base top⟩
    rw [get?_merge, htop, hbase]
    rfl
  · rw [merge_again]
    rfl

/-- A theme with two parents and a token in a group. -/
def mint : ThemeDefinition where
  parent := some "default"
  light := ⟨none, TokenMap.empty.insertMap "line" (TokenMap.empty.insertText "width" "1px")⟩
  dark := ⟨some "default", .empty⟩

/-- The same theme in a component, with a parent at another level and another
    token in the group. -/
def mintOfCard : ThemeDefinition where
  light := ⟨some "coral",
    TokenMap.empty.insertMap "line" (TokenMap.empty.insertText "style" "dotted")⟩

/-- The themes of a site. -/
def site : ThemeConfig := ⟨[("default", {}), ("mint", mint)], by decide⟩

/-- The themes of a component, one of them new. -/
def card : ThemeConfig := ⟨[("coral", {}), ("mint", mintOfCard)], by decide⟩

/-- The shared theme keeps the parents that the component does not name. -/
theorem card_over_site : ∃ theme, (site.merge card).keys = ["default", "mint", "coral"]
    ∧ (site.merge card).get? "default" = site.get? "default"
    ∧ (site.merge card).get? "coral" = card.get? "coral"
    ∧ (site.merge card).get? "mint" = some theme
    ∧ theme.parentAt none = some "default"
    ∧ theme.parentAt (some .light) = some "coral"
    ∧ theme.parentAt (some .dark) = some "default"
    ∧ (theme.scheme .light).tokens.flatten
        = [(⟨"line.width"⟩, "1px"), (⟨"line.style"⟩, "dotted")] := by
  obtain ⟨hkeys, hlower, hupper, hboth, -⟩ := merge_theme_by_theme site card
  obtain ⟨theme, hget, hmerge⟩ := hboth "mint" mint mintOfCard rfl rfl
  refine ⟨theme, hkeys, hlower "default" (by decide), hupper "coral" (by decide), hget,
    hmerge.parents none, hmerge.parents (some .light), hmerge.parents (some .dark), ?_⟩
  rw [hmerge.tokens .light]
  decide

end ThemeConfig

end ThemeTokens
