import ThemeTokens.Config.Normalize
import ThemeTokens.Proofs.Token.Layers
import ThemeTokens.Proofs.Token.Merge

/-! # Normalized themes as they are written

    `ThemeConfig.toRaw` writes every theme with its schemes apart, and a parent
    goes into the same map as the tokens, under the name `extends`.  So a
    scheme is read back as it was exactly when none of its tokens is in the way
    of that name (`SchemeTokens.ofMap_toMap_iff`), and a theme exactly when its
    schemes are (`ThemeDefinition.ofRaw_toRaw_iff`): at its own level there are
    no tokens left, whatever groups are called `light` or `dark` further down.

    * `normalize_toRaw`: without tokens called `extends` nothing is lost.
    * `normalize_toRaw_normalize_iff`: normalizing once more changes a theme
      exactly when both schemes share a group called `extends` and one of them
      names a parent, which that group then hides. -/

namespace ThemeTokens

/-! ## Tokens put over others -/

namespace Pairs

variable {α : Type}

/-- Insertions are found where they put something; the last one counts, and
    distinct names make it the only one. -/
theorem get?_foldl_insert {top : List (String × α)} (hnodup : (keys top).Nodup)
    (base : List (String × α)) (key : String) :
    get? key (top.foldl (fun es p => insert p.1 p.2 es) base)
      = (get? key top).or (get? key base) := by
  refine (@get?_mergeWith _ (fun _ x => x) base top hnodup key).trans ?_
  cases get? key top with
  | none => rfl
  | some x => rfl

/-- Insertions under new names go to the end, in their order. -/
theorem foldl_insert_of_disjoint {top base : List (String × α)} (hnodup : (keys top).Nodup)
    (hnew : ∀ key ∈ keys top, key ∉ keys base) :
    top.foldl (fun es p => insert p.1 p.2 es) base = base ++ top :=
  @mergeWith_of_disjoint _ (fun _ x => x) base top hnodup hnew fun _ _ => rfl

end Pairs

namespace TokenMap

variable {tokens : TokenMap} {key : String}

theorem text?_eq_some_iff {text : String} :
    tokens.text? key = some text ↔ tokens.get? key = some (.value text) := by
  cases hget : tokens.get? key with
  | none => simp [text?, hget]
  | some t =>
      cases t with
      | value found => simp [text?, hget]
      | group entries => simp [text?, hget]

theorem group?_eq_some_iff {group : TokenMap} :
    tokens.group? key = some group ↔ tokens.get? key = some group.toValue := by
  unfold group?
  split
  · rename_i entries hget
    simp [hget, TokenMap.ext_iff, toValue]
  · rename_i hne
    refine iff_of_false nofun ?_
    exact hne group.entries

/-- A text is in the way of a group. -/
theorem group?_eq_none {text : String} (h : tokens.text? key = some text) :
    tokens.group? key = none := by
  refine Option.eq_none_iff_forall_ne_some.mpr fun group hgroup => ?_
  rw [text?_eq_some_iff, group?_eq_some_iff.mp hgroup] at h
  cases h

/-- What is neither a text nor a group is not there. -/
theorem get?_eq_none (htext : tokens.text? key = none) (hgroup : tokens.group? key = none) :
    tokens.get? key = none := by
  cases hget : tokens.get? key with
  | none => rfl
  | some t =>
      cases t with
      | value text =>
          rw [text?_eq_some_iff.mpr hget] at htext
          cases htext
      | group entries =>
          have hfound : tokens.group? key = some ⟨entries, tokens.distinct.of_get? hget⟩ :=
            group?_eq_some_iff.mpr hget
          rw [hfound] at hgroup
          cases hgroup

theorem get?_erase (tokens : TokenMap) (key other : String) :
    (tokens.erase key).get? other = if key = other then none else tokens.get? other :=
  Pairs.get?_erase key other tokens.entries

/-- Erasing one name does not touch the group under another. -/
theorem group?_erase {other : String} (h : other ≠ key) :
    (tokens.erase other).group? key = tokens.group? key := by
  refine Option.ext fun group => ?_
  rw [group?_eq_some_iff, group?_eq_some_iff, get?_erase, if_neg h]

/-- Erasing what is not there changes nothing. -/
theorem erase_of_get? (h : tokens.get? key = none) : tokens.erase key = tokens := by
  refine TokenMap.ext (List.filter_eq_self.mpr fun p hp => decide_eq_true ?_)
  rintro rfl
  exact Pairs.get?_eq_none_iff.mp h (List.mem_map_of_mem hp)

/-- What is put over tokens is found first. -/
theorem get?_overlay (base top : TokenMap) (key : String) :
    (base.overlay top).get? key = (top.get? key).or (base.get? key) :=
  Pairs.get?_foldl_insert top.distinct.nodup base.entries key

theorem empty_overlay (tokens : TokenMap) : empty.overlay tokens = tokens :=
  TokenMap.ext (Pairs.foldl_insert_of_disjoint tokens.distinct.nodup fun _ _ => List.not_mem_nil)

/-- A merge has the token of its upper side put over that of its lower, or that of
    the lower alone. -/
theorem get?_merge (lower upper : TokenMap) (key : String) :
    (lower.merge upper).get? key = match upper.get? key with
      | some t => some (t.onto (lower.get? key))
      | none => lower.get? key :=
  TokenValue.get?_mergeEntries upper.distinct.nodup key

/-- A merge has a text only where one of its sides has one. -/
theorem text?_merge {lower upper : TokenMap} (hl : lower.text? key = none)
    (hu : upper.text? key = none) : (lower.merge upper).text? key = none := by
  refine Option.eq_none_iff_forall_ne_some.mpr fun text htext => ?_
  rw [text?_eq_some_iff, get?_merge] at htext
  cases hget : upper.get? key with
  | none =>
      rw [hget] at htext
      rw [text?_eq_some_iff.mpr htext] at hl
      cases hl
  | some t =>
      cases t with
      | value found =>
          rw [text?_eq_some_iff.mpr hget] at hu
          cases hu
      | group entries =>
          obtain ⟨merged, hmerged⟩ := TokenValue.exists_group_onto (lower.get? key) entries
          rw [hget] at htext
          cases hmerged.symm.trans (Option.some.inj htext)

theorem get?_insertMap (tokens group : TokenMap) (key other : String) :
    (tokens.insertMap key group).get? other
      = if key = other then some group.toValue else tokens.get? other :=
  Pairs.get?_insert key other group.toValue tokens.entries

end TokenMap

/-! ## Schemes -/

/-- A text in its place is the parent, and is taken out. -/
theorem takeParent_text {tokens : TokenMap} {parent : String}
    (h : tokens.text? parentKey = some parent) :
    takeParent tokens = (some parent, tokens.erase parentKey) := by
  rw [takeParent, h]

/-- Without a text in its place there is no parent, and nothing is taken out. -/
theorem takeParent_none {tokens : TokenMap} (h : tokens.text? parentKey = none) :
    takeParent tokens = (none, tokens) := by
  rw [takeParent, h]

/-- What is left behind a parent has no text in its place. -/
theorem text?_takeParent (tokens : TokenMap) :
    (takeParent tokens).2.text? parentKey = none := by
  cases h : tokens.text? parentKey with
  | none => rw [takeParent_none h, h]
  | some parent =>
      refine Option.eq_none_iff_forall_ne_some.mpr fun text htext => ?_
      rw [takeParent_text h, TokenMap.text?_eq_some_iff, TokenMap.get?_erase, if_pos rfl] at htext
      cases htext

/-- The place of a parent is free once the parent is taken, unless a group is in
    it. -/
theorem get?_takeParent_eq_none_iff {tokens : TokenMap} :
    (takeParent tokens).2.get? parentKey = none ↔ tokens.group? parentKey = none := by
  cases h : tokens.text? parentKey with
  | none =>
      rw [takeParent_none h]
      constructor
      · intro hget
        refine Option.eq_none_iff_forall_ne_some.mpr fun group hgroup => ?_
        cases hget.symm.trans (TokenMap.group?_eq_some_iff.mp hgroup)
      · exact TokenMap.get?_eq_none h
  | some parent =>
      rw [takeParent_text h, TokenMap.get?_erase, if_pos rfl]
      exact iff_of_true rfl (TokenMap.group?_eq_none h)

namespace SchemeTokens

/-- Nothing among the tokens is in the way of a parent: a text in its place
    would be read as one, and next to a parent a group would hide it. -/
def LeavesParent (scheme : SchemeTokens) : Prop :=
  scheme.tokens.text? parentKey = none
    ∧ (scheme.parent ≠ none → scheme.tokens.get? parentKey = none)

theorem LeavesParent.of_get? {scheme : SchemeTokens}
    (h : scheme.tokens.get? parentKey = none) : scheme.LeavesParent := by
  refine ⟨?_, fun _ => h⟩
  rw [TokenMap.text?, h]

theorem toMap_of_no_parent (tokens : TokenMap) : toMap ⟨none, tokens⟩ = tokens :=
  TokenMap.empty_overlay tokens

/-- A parent is written in front of tokens that leave it its place. -/
theorem entries_toMap {tokens : TokenMap} (h : tokens.get? parentKey = none) (parent : String) :
    (toMap ⟨some parent, tokens⟩).entries = (parentKey, .value parent) :: tokens.entries := by
  refine Pairs.foldl_insert_of_disjoint tokens.distinct.nodup fun key hkey hlead => ?_
  rw [List.mem_singleton.mp hlead] at hkey
  exact Pairs.get?_eq_none_iff.mp h hkey

/-- **SCHEMES**: a scheme is read back from what it is written as exactly when
    its tokens leave the parent its place. -/
theorem ofMap_toMap_iff {scheme : SchemeTokens} :
    ofMap scheme.toMap = scheme ↔ scheme.LeavesParent := by
  obtain ⟨parent, tokens⟩ := scheme
  constructor
  · intro h
    have htokens : (takeParent (toMap ⟨parent, tokens⟩)).2 = tokens :=
      congrArg SchemeTokens.tokens h
    have htext : tokens.text? parentKey = none := by
      rw [← htokens]
      exact text?_takeParent _
    refine ⟨htext, fun hparent => TokenMap.get?_eq_none htext ?_⟩
    -- A group in the parent's place is what is found there, and names nobody.
    by_contra hgroup
    obtain ⟨group, hgroup⟩ := Option.ne_none_iff_exists'.mp hgroup
    have hwritten : (toMap ⟨parent, tokens⟩).text? parentKey = none := by
      refine Option.eq_none_iff_forall_ne_some.mpr fun text htext => ?_
      rw [TokenMap.text?_eq_some_iff, toMap, TokenMap.get?_overlay,
        TokenMap.group?_eq_some_iff.mp hgroup] at htext
      cases htext
    rw [ofMap, takeParent_none hwritten] at h
    exact hparent (congrArg SchemeTokens.parent h).symm
  · rintro ⟨htext, hfree⟩
    cases parent with
    | none => rw [toMap_of_no_parent, ofMap, takeParent_none htext]
    | some parent =>
        have hget : tokens.get? parentKey = none := hfree nofun
        have hentries := entries_toMap hget parent
        have hwritten : (toMap ⟨some parent, tokens⟩).text? parentKey = some parent := by
          rw [TokenMap.text?_eq_some_iff, TokenMap.get?, hentries, Pairs.get?, if_pos rfl]
        rw [ofMap, takeParent_text hwritten]
        refine SchemeTokens.ext rfl (TokenMap.ext ?_)
        show Pairs.erase parentKey (toMap ⟨some parent, tokens⟩).entries = tokens.entries
        rw [hentries, Pairs.erase, List.filter_cons_of_neg (by simp)]
        exact congrArg TokenMap.entries (TokenMap.erase_of_get? hget)

/-- A scheme as written, over tokens that are shared, leaves a parent its place
    unless it names a parent where a shared group is. -/
theorem leavesParent_withShared {map shared : TokenMap}
    (hshared : shared.text? parentKey = none) :
    ((ofMap map).withShared shared).LeavesParent
      ↔ (map.text? parentKey ≠ none → shared.get? parentKey = none) := by
  cases htext : map.text? parentKey with
  | none =>
      rw [ofMap, takeParent_none htext]
      refine iff_of_true ⟨?_, fun h => absurd rfl h⟩ (fun h => absurd rfl h)
      exact TokenMap.text?_merge hshared htext
  | some parent =>
      rw [ofMap, takeParent_text htext]
      have herased : (map.erase parentKey).get? parentKey = none := by
        rw [TokenMap.get?_erase, if_pos rfl]
      have hget : (shared.merge (map.erase parentKey)).get? parentKey
          = shared.get? parentKey := by
        rw [TokenMap.get?_merge, herased]
      constructor
      · rintro ⟨-, hfree⟩ -
        rw [← hget]
        exact hfree nofun
      · intro hfree
        refine ⟨?_, fun _ => hget.trans (hfree nofun)⟩
        show (shared.merge (map.erase parentKey)).text? parentKey = none
        rw [TokenMap.text?, hget, hfree nofun]

end SchemeTokens

/-! ## Themes -/

namespace ThemeDefinition

/-- The parent of a theme alone in a map. -/
def lead (parent : Option String) : TokenMap :=
  match parent with
  | some parent => TokenMap.empty.insertText parentKey parent
  | none => .empty

/-- The parent alone is taken out whole. -/
theorem takeParent_lead (parent : Option String) :
    takeParent (lead parent) = (parent, .empty) := by
  cases parent with
  | none => rfl
  | some parent => rfl

/-- At its own level a theme is written with a parent and its two schemes, and
    with no tokens that they could share. -/
theorem ofRaw_toRaw (theme : ThemeDefinition) :
    ofRaw theme.toRaw = ⟨theme.parent, .ofMap theme.light.toMap, .ofMap theme.dark.toMap⟩ := by
  have hraw : theme.toRaw = ((lead theme.parent).insertMap lightKey theme.light.toMap).insertMap
      darkKey theme.dark.toMap := rfl
  have hlight : theme.toRaw.group? lightKey = some theme.light.toMap := by
    rw [TokenMap.group?_eq_some_iff, hraw, TokenMap.get?_insertMap, if_neg (by decide),
      TokenMap.get?_insertMap, if_pos rfl]
  have hdark : theme.toRaw.group? darkKey = some theme.dark.toMap := by
    rw [TokenMap.group?_eq_some_iff, hraw, TokenMap.get?_insertMap, if_pos rfl]
  have hrest : (theme.toRaw.erase lightKey).erase darkKey = lead theme.parent := by
    rw [hraw]
    cases theme.parent with
    | none => rfl
    | some parent => rfl
  rw [ofRaw, hlight, hdark]
  dsimp only
  rw [hrest, takeParent_lead]
  dsimp only
  rw [SchemeTokens.withShared, SchemeTokens.withShared, TokenMap.empty_merge,
    TokenMap.empty_merge]

/-- **THEMES**: a theme is read back from what it is written as exactly when its
    schemes are. -/
theorem ofRaw_toRaw_iff {theme : ThemeDefinition} :
    ofRaw theme.toRaw = theme ↔ theme.light.LeavesParent ∧ theme.dark.LeavesParent := by
  rw [ofRaw_toRaw, ThemeDefinition.ext_iff, SchemeTokens.ofMap_toMap_iff,
    SchemeTokens.ofMap_toMap_iff]
  exact and_iff_right rfl

end ThemeDefinition

/-- Both schemes of a theme as written share a group in the place of a parent,
    and one of them names a parent there. -/
def TokenMap.HidesParent (raw : TokenMap) : Prop :=
  ∃ light dark, raw.group? lightKey = some light ∧ raw.group? darkKey = some dark
    ∧ raw.group? parentKey ≠ none
    ∧ (light.text? parentKey ≠ none ∨ dark.text? parentKey ≠ none)

namespace ThemeDefinition

/-- A theme written without its schemes apart is all light. -/
theorem leavesParent_of_light (raw : TokenMap) :
    SchemeTokens.LeavesParent ⟨none, (takeParent raw).2⟩ :=
  ⟨text?_takeParent raw, fun h => absurd rfl h⟩

/-- **HIDDEN PARENTS**: the only themes as written whose schemes do not leave
    their parents a place are those that hide one. -/
theorem leavesParent_ofRaw_iff {raw : TokenMap} :
    (ofRaw raw).light.LeavesParent ∧ (ofRaw raw).dark.LeavesParent ↔ ¬ raw.HidesParent := by
  unfold ofRaw
  split
  · rename_i light dark hlight hdark
    have hfree : (takeParent ((raw.erase lightKey).erase darkKey)).2.get? parentKey = none
        ↔ raw.group? parentKey = none := by
      rw [get?_takeParent_eq_none_iff, TokenMap.group?_erase (by decide),
        TokenMap.group?_erase (by decide)]
    rw [SchemeTokens.leavesParent_withShared (text?_takeParent _),
      SchemeTokens.leavesParent_withShared (text?_takeParent _), hfree, ← or_imp]
    constructor
    · rintro h ⟨light', dark', hlight', hdark', hgroup, hnamed⟩
      rw [hlight] at hlight'
      rw [hdark] at hdark'
      rw [← Option.some.inj hlight', ← Option.some.inj hdark'] at hnamed
      exact hgroup (h hnamed)
    · intro h hnamed
      by_contra hgroup
      exact h ⟨light, dark, hlight, hdark, hgroup, hnamed⟩
  · rename_i hapart
    refine iff_of_true ⟨leavesParent_of_light raw, rfl, fun _ => rfl⟩ ?_
    rintro ⟨light, dark, hlight, hdark, -⟩
    exact hapart light dark hlight hdark

end ThemeDefinition

/-! ## Configurations -/

/-- A change of every value leaves the entries alone exactly when it leaves
    every value alone. -/
theorem Entries.map_eq_self_iff {α : Type} {f : α → α} {es : Entries α} :
    es.map f = es ↔ ∀ p ∈ es.toList, f p.2 = p.2 := by
  have hmap := List.map_inj_left (l := es.toList) (f := fun p => (p.1, f p.2)) (g := id)
  rw [List.map_id] at hmap
  rw [Entries.ext_iff, toList_map, hmap]
  constructor
  · intro h p hp
    exact congrArg Prod.snd (h p hp)
  · intro h p hp
    exact Prod.ext rfl (h p hp)

namespace ThemeConfig

/-- Reading what a configuration is written as changes every theme on its own. -/
theorem normalize_toRaw_eq (config : ThemeConfig) :
    config.toRaw.normalize = config.map fun theme => .ofRaw theme.toRaw :=
  Entries.ext (List.map_map ..)

/-- **LOSSLESS**: written and read again, a configuration is the same if no
    scheme has a token called `extends` at its top: every parent of a theme and
    of a scheme, and all tokens in their order. -/
theorem normalize_toRaw {config : ThemeConfig}
    (h : ∀ p ∈ config.toList, ∀ scheme : ColorScheme,
      parentKey ∉ Pairs.keys (p.2.scheme scheme).tokens.entries) :
    config.toRaw.normalize = config := by
  rw [normalize_toRaw_eq, Entries.map_eq_self_iff]
  intro p hp
  have hfree : ∀ scheme : ColorScheme, (p.2.scheme scheme).LeavesParent := fun scheme =>
    .of_get? (Pairs.get?_eq_none_iff.mpr (h p hp scheme))
  exact ThemeDefinition.ofRaw_toRaw_iff.mpr ⟨hfree .light, hfree .dark⟩

/-- Two themes with groups that are called like schemes, and an empty scheme
    with a parent. -/
def seasons : ThemeConfig :=
  (Entries.empty.insert "spring"
    ⟨none, ⟨none, TokenMap.empty.insertMap lightKey (.insertText .empty "ink" "green")⟩, {}⟩).insert
      "autumn" ⟨some "spring", ⟨some "winter", .empty⟩,
        ⟨none, (TokenMap.empty.insertMap darkKey .empty).insertText lightKey "red"⟩⟩

/-- A parent for the first theme and for its dark scheme. -/
def frost : ThemeConfig :=
  Entries.empty.insert "spring"
    ⟨some "winter", {}, ⟨some "autumn", .insertText .empty "gap" "4px"⟩⟩

/-- Insertions and a merge, with parents at every level, are read back. -/
theorem seasons_normalize_toRaw :
    (∀ p ∈ (seasons.merge frost).toList, ∀ scheme : ColorScheme,
        parentKey ∉ Pairs.keys (p.2.scheme scheme).tokens.entries)
      ∧ (seasons.merge frost).toRaw.normalize = seasons.merge frost := by
  have hfree : ∀ p ∈ (seasons.merge frost).toList, ∀ scheme : ColorScheme,
      parentKey ∉ Pairs.keys (p.2.scheme scheme).tokens.entries := by
    intro p hp scheme
    cases scheme with
    | light => revert p; decide +kernel
    | dark => revert p; decide +kernel
  exact ⟨hfree, normalize_toRaw hfree⟩

end ThemeConfig

/-- **NORMAL FORM**: normalizing what a normalized configuration is written as
    changes nothing exactly when no theme hides a parent. -/
theorem RawConfig.normalize_toRaw_normalize_iff {raw : RawConfig} :
    raw.normalize.toRaw.normalize = raw.normalize ↔ ∀ p ∈ raw.toList, ¬ p.2.HidesParent := by
  rw [ThemeConfig.normalize_toRaw_eq, Entries.map_eq_self_iff]
  constructor
  · intro h p hp
    have hback := h (p.1, .ofRaw p.2) (List.mem_map_of_mem hp)
    exact ThemeDefinition.leavesParent_ofRaw_iff.mp (ThemeDefinition.ofRaw_toRaw_iff.mp hback)
  · intro h p hp
    obtain ⟨q, hq, rfl⟩ := List.mem_map.mp hp
    exact ThemeDefinition.ofRaw_toRaw_iff.mpr
      (ThemeDefinition.leavesParent_ofRaw_iff.mpr (h q hq))

/-- A shared group in the place of a parent that the light scheme names. -/
def hidden : RawConfig :=
  Entries.empty.insert "default" <|
    ((TokenMap.empty.insertMap parentKey (.insertText .empty "gap" "4px")).insertMap lightKey
      (.insertText .empty parentKey "mint")).insertMap darkKey .empty

/-- The parent of the light scheme is written first and the group in its place
    afterwards, so it is lost when the theme is read again. -/
theorem RawConfig.normalize_toRaw_normalize_fails :
    ¬ ∀ raw : RawConfig, raw.normalize.toRaw.normalize = raw.normalize := by
  intro h
  have hparent := congrArg
    (fun config : ThemeConfig => (config.get? "default").map fun theme => theme.light.parent)
    (h hidden)
  exact absurd hparent (by decide +kernel)

end ThemeTokens
