import ThemeTokens.Proofs.Token.Flatten
import ThemeTokens.Proofs.Token.Merge

/-! # What is found in a merge

    Every name and every text in a merge is one of either side.  What names
    lead to in it is up to the upper side, if they lead to something there or
    past a leaf, and to the lower side otherwise, however the two differ in
    shape on the way (`at?_onto`).  Lookups and the names at each level are read
    off that (`lookup_merge`).  So where names lead to a text of the lower side,
    they lead to a text of the merge unless the upper side is of another shape
    there (`leads_onto_iff`). -/

namespace ThemeTokens

namespace TokenValue

/-- The text is at a leaf of the tree. -/
inductive Holds (text : String) : TokenValue → Prop
  | leaf : Holds text (.value text)
  | entry {entries : List (String × TokenValue)} {p : String × TokenValue} (hp : p ∈ entries)
      (h : Holds text p.2) : Holds text (.group entries)

/-- The tree has something else than a leaf at the end of the names: a leaf
    before it, or a group. -/
inductive Obstructs : TokenValue → List String → Prop
  | leaf (text name : String) (names : List String) : Obstructs (.value text) (name :: names)
  | group (entries : List (String × TokenValue)) : Obstructs (.group entries) []
  | step {entries : List (String × TokenValue)} {name : String} {t : TokenValue}
      {names : List String} (here : Pairs.get? name entries = some t)
      (below : Obstructs t names) : Obstructs (.group entries) (name :: names)

/-! ## Names -/

mutual

/-- A plain token put over another keeps names plain. -/
theorem plain_onto {lower : Option TokenValue} (hl : ∀ t, lower = some t → Plain t)
    (upper : TokenValue) (hu : Plain upper) : Plain (upper.onto lower) := by
  match upper, hu with
  | .value text, _ => exact .value text
  | .group entries, hu =>
      rw [onto.eq_def]
      dsimp only
      split
      · exact plain_mergeEntries (hl _ rfl) entries hu
      · exact hu

theorem plain_mergeEntries {lower : List (String × TokenValue)} (hl : Plain (.group lower))
    (upper : List (String × TokenValue)) (hu : Plain (.group upper)) :
    Plain (.group (mergeEntries lower upper)) := by
  match upper, hu with
  | [], _ =>
      rw [mergeEntries]
      exact hl
  | (key, t) :: rest, hu =>
      obtain ⟨hkey, ht⟩ := hu.head
      rw [mergeEntries]
      refine plain_mergeEntries (hl.insert hkey (plain_onto ?_ t ht)) rest hu.tail
      intro s hs
      obtain _ | ⟨-, below⟩ := hl
      exact below _ (Pairs.mem_of_get? hs)

end

/-! ## Texts -/

section Texts

variable {text : String}

theorem Holds.cons {p : String × TokenValue} {rest : List (String × TokenValue)}
    (h : Holds text (.group rest)) : Holds text (.group (p :: rest)) := by
  cases h with
  | entry hp hheld => exact .entry (List.mem_cons_of_mem _ hp) hheld

mutual

/-- What is put over something holds no texts but those of the two. -/
theorem holds_onto {lower : Option TokenValue} (upper : TokenValue)
    (h : Holds text (upper.onto lower)) :
    Holds text upper ∨ ∃ t, lower = some t ∧ Holds text t := by
  match upper, h with
  | .value found, h => exact Or.inl h
  | .group entries, h =>
      rw [onto.eq_def] at h
      dsimp only at h
      split at h
      · rename_i others
        rcases holds_mergeEntries entries h with hupper | hlower
        · exact Or.inl hupper
        · exact Or.inr ⟨_, rfl, hlower⟩
      · exact Or.inl h

theorem holds_mergeEntries {lower : List (String × TokenValue)}
    (upper : List (String × TokenValue)) (h : Holds text (.group (mergeEntries lower upper))) :
    Holds text (.group upper) ∨ Holds text (.group lower) := by
  match upper, h with
  | [], h =>
      rw [mergeEntries] at h
      exact Or.inr h
  | (key, t) :: rest, h =>
      rw [mergeEntries] at h
      rcases holds_mergeEntries rest h with hrest | hinserted
      · exact Or.inl hrest.cons
      · cases hinserted with
        | entry hp hheld =>
            rcases Pairs.mem_insert hp with rfl | hp
            · rcases holds_onto t hheld with hupper | ⟨s, hs, hlower⟩
              · exact Or.inl (.entry List.mem_cons_self hupper)
              · exact Or.inr (.entry (Pairs.mem_of_get? hs) hlower)
            · exact Or.inr (.entry hp hheld)

end

mutual

/-- The listed texts are those at the leaves. -/
theorem exists_mem_leaves_iff (t : TokenValue) (stem : String) :
    (∃ path, (path, text) ∈ t.leaves stem) ↔ Holds text t := by
  match t with
  | .value found =>
      rw [leaves]
      constructor
      · rintro ⟨path, hmem⟩
        rw [(Prod.mk.inj (List.mem_singleton.mp hmem)).2]
        exact .leaf
      · intro h
        cases h
        exact ⟨_, List.mem_singleton.mpr rfl⟩
  | .group entries =>
      rw [leaves]
      exact exists_mem_leavesOf_iff entries stem

theorem exists_mem_leavesOf_iff (entries : List (String × TokenValue)) (stem : String) :
    (∃ path, (path, text) ∈ leavesOf stem entries) ↔ Holds text (.group entries) := by
  match entries with
  | [] =>
      rw [leavesOf]
      constructor
      · rintro ⟨path, hmem⟩
        cases hmem
      · rintro (_ | ⟨hp, -⟩)
        cases hp
  | (name, t) :: rest =>
      simp only [leavesOf, List.mem_append, exists_or, exists_mem_leaves_iff t,
        exists_mem_leavesOf_iff rest]
      constructor
      · rintro (hfirst | hrest)
        · exact .entry List.mem_cons_self hfirst
        · exact hrest.cons
      · rintro (_ | ⟨hp, hheld⟩)
        rcases List.mem_cons.mp hp with rfl | hp
        · exact Or.inl hheld
        · exact Or.inr (.entry hp hheld)

end

end Texts

/-! ## Tokens -/

/-- **DESCENT**: where names lead in the upper side, or end at a leaf on the
    way, the upper side decides what is there, and the lower side elsewhere. -/
theorem at?_onto {upper : TokenValue} (hd : upper.Distinct) (lower : Option TokenValue)
    (names : List String) :
    (upper.onto lower).at? names = match upper.at? names with
      | some t => some (t.onto (lower.bind fun below => below.at? names))
      | none => if upper.LeafBefore names then none
          else lower.bind fun below => below.at? names := by
  induction names generalizing upper lower with
  | nil =>
      have hhere : (lower.bind fun below => below.at? []) = lower := by
        simp only [at?_nil, Option.bind_fun_some]
      rw [at?_nil, at?_nil, hhere]
  | cons name names ih =>
      cases upper with
      | value text =>
          show none = if LeafBefore _ _ then _ else _
          rw [if_pos (leafBefore_value text name names)]
      | group entries =>
          -- Over a leaf, as over nothing, the group is put as a whole.
          have hwhole : (TokenValue.group entries).at? (name :: names)
              = match (TokenValue.group entries).at? (name :: names) with
                | some t => some (t.onto none)
                | none => if (TokenValue.group entries).LeafBefore (name :: names) then none
                    else none := by
            cases (TokenValue.group entries).at? (name :: names) with
            | none => exact (ite_self none).symm
            | some t => exact congrArg some t.onto_none.symm
          match lower with
          | some (.group others) =>
              show (TokenValue.group (mergeEntries others entries)).at? (name :: names) = _
              rw [at?, at?, get?_mergeEntries hd.nodup]
              cases hget : Pairs.get? name entries with
              | none =>
                  -- The upper side leaves the name to the lower one.
                  have hfree : ¬ (TokenValue.group entries).LeafBefore (name :: names) := by
                    rw [leafBefore_group, hget]
                    rintro ⟨t, ht, -⟩
                    cases ht
                  exact (if_neg hfree).symm
              | some t =>
                  have hleaf : (TokenValue.group entries).LeafBefore (name :: names)
                      ↔ t.LeafBefore names := by
                    rw [leafBefore_group, hget]
                    constructor
                    · rintro ⟨other, ho, h⟩
                      rw [Option.some.inj ho]
                      exact h
                    · exact fun h => ⟨t, rfl, h⟩
                  simp only [Option.bind_some, hleaf]
                  exact ih (hd.of_get? hget) (Pairs.get? name others)
          | none =>
              rw [onto_none]
              exact hwhole
          | some (.value text) =>
              rw [onto_value]
              exact hwhole

/-- A tree is of another shape where names lead past a leaf or to a group. -/
theorem obstructs_iff {t : TokenValue} {names : List String} :
    t.Obstructs names ↔ t.LeafBefore names ∨ ∃ entries, t.at? names = some (.group entries) := by
  induction names generalizing t with
  | nil =>
      cases t with
      | value text =>
          refine iff_of_false nofun ?_
          rintro (hleaf | ⟨entries, hat⟩)
          · exact not_leafBefore_nil _ hleaf
          · cases hat
      | group entries => exact iff_of_true (.group entries) (Or.inr ⟨entries, rfl⟩)
  | cons name names ih =>
      cases t with
      | value text =>
          exact iff_of_true (.leaf text name names) (Or.inl (leafBefore_value text name names))
      | group entries =>
          rw [leafBefore_group]
          simp only [at?, Option.bind_eq_some_iff]
          constructor
          · rintro (_ | _ | ⟨here, below⟩)
            rcases ih.mp below with hleaf | ⟨inner, hat⟩
            · exact Or.inl ⟨_, here, hleaf⟩
            · exact Or.inr ⟨inner, _, here, hat⟩
          · rintro (⟨t, here, hleaf⟩ | ⟨inner, t, here, hat⟩)
            · exact .step here (ih.mpr (Or.inl hleaf))
            · exact .step here (ih.mpr (Or.inr ⟨inner, hat⟩))

/-- **SHAPE**: names that lead to a text of the lower side lead to one of the
    merge unless the upper side is of another shape there. -/
theorem leads_onto_iff {lower upper : TokenValue} {names : List String} {text : String}
    (h : lower.Leads names text) (hd : upper.Distinct) :
    (∃ found, (upper.onto (some lower)).Leads names found) ↔ ¬ upper.Obstructs names := by
  simp only [obstructs_iff, leads_iff, at?_onto hd, Option.bind_some, leads_iff.mp h]
  match hat : upper.at? names with
  | none =>
      by_cases hleaf : upper.LeafBefore names
      · refine iff_of_false ?_ (not_not_intro (Or.inl hleaf))
        rintro ⟨found, hfound⟩
        cases (if_pos hleaf).symm.trans hfound
      · refine iff_of_true ⟨text, if_neg hleaf⟩ ?_
        rintro (hyes | ⟨entries, hgroup⟩)
        · exact hleaf hyes
        · cases hgroup
  | some (.value found) =>
      refine iff_of_true ⟨found, rfl⟩ ?_
      rintro (hleaf | ⟨entries, hgroup⟩)
      · cases hat.symm.trans hleaf.at?_eq_none
      · cases hgroup
  | some (.group entries) =>
      refine iff_of_false ?_ (not_not_intro (Or.inr ⟨entries, rfl⟩))
      -- Over a text a group is put as a whole.
      rintro ⟨found, hfound⟩
      cases hfound

end TokenValue

/-! ## Lookups and levels -/

namespace TokenMap

/-- The names of the group at the end of the names, in order. -/
def keysAt (tokens : TokenMap) (names : List String) : Option (List String) :=
  match tokens.toValue.at? names with
  | some (.group entries) => some (Pairs.keys entries)
  | _ => none

theorem at?_merge (lower upper : TokenMap) (names : List String) :
    (lower.merge upper).toValue.at? names = match upper.toValue.at? names with
      | some t => some (t.onto (lower.toValue.at? names))
      | none => if upper.toValue.LeafBefore names then none else lower.toValue.at? names :=
  TokenValue.at?_onto upper.distinct (some lower.toValue) names

/-- No level has a name twice. -/
theorem nodup_keysAt (tokens : TokenMap) (names : List String) :
    ((tokens.keysAt names).getD []).Nodup := by
  rw [keysAt]
  cases hat : tokens.toValue.at? names with
  | none => exact List.nodup_nil
  | some t =>
      cases t with
      | value text => exact List.nodup_nil
      | group entries => exact (tokens.distinct.at? hat).nodup

/-- **LEVEL BY LEVEL**: where the upper side has a group its new names follow
    those of the lower side, if that has a group there as well; where it has
    nothing, and no leaf on the way, the lower side's names are left. -/
theorem keysAt_merge (lower upper : TokenMap) (names : List String) :
    (lower.merge upper).keysAt names = match upper.toValue.at? names with
      | some (.group new) => some ((lower.keysAt names).getD []
          ++ (Pairs.keys new).filter (· ∉ (lower.keysAt names).getD []))
      | some (.value _) => none
      | none => if upper.toValue.LeafBefore names then none else lower.keysAt names := by
  rw [keysAt, at?_merge]
  cases hat : upper.toValue.at? names with
  | none =>
      dsimp only
      by_cases hleaf : upper.toValue.LeafBefore names
      · rw [if_pos hleaf, if_pos hleaf]
      · rw [if_neg hleaf, if_neg hleaf, keysAt]
  | some t =>
      cases t with
      | value text => rfl
      | group new =>
          have hnodup : (Pairs.keys new).Nodup := (upper.distinct.at? hat).nodup
          rw [keysAt]
          match lower.toValue.at? names with
          | some (.group old) => exact congrArg some (TokenValue.keys_mergeEntries hnodup)
          | none => simp [TokenValue.onto_none]
          | some (.value text) => simp [TokenValue.onto_value]

/-- **DEEP MERGE**: a path leads to what it leads to in the upper side, if that
    is anything; past a leaf of the upper side it leads nowhere, and everywhere
    else to what it leads to in the lower side.  At every level the lower names
    stay in front in their order and the new ones follow in theirs, no name
    twice; below what the upper side replaces it has no names of the lower one.
    Merging the same tokens again changes nothing, nor does merging tokens over
    themselves. -/
theorem lookup_merge (lower upper : TokenMap) :
    (∀ path, (lower.merge upper).lookup path
        = if upper.lookup path ≠ .missing then upper.lookup path
          else if upper.toValue.LeafBefore path.segments then .missing
          else lower.lookup path)
      ∧ (∀ names, (lower.merge upper).keysAt names = match upper.toValue.at? names with
          | some (.group new) => some ((lower.keysAt names).getD []
              ++ (Pairs.keys new).filter (· ∉ (lower.keysAt names).getD []))
          | some (.value _) => none
          | none => if upper.toValue.LeafBefore names then none else lower.keysAt names)
      ∧ (∀ names, (((lower.merge upper).keysAt names).getD []).Nodup)
      ∧ (lower.merge upper).merge upper = lower.merge upper
      ∧ lower.merge lower = lower := by
  refine ⟨fun path => ?_, keysAt_merge lower upper, nodup_keysAt (lower.merge upper),
    merge_again lower upper, merge_self lower⟩
  rw [lookup_eq, lookup_eq, lookup_eq, at?_merge]
  cases upper.toValue.at? path.segments with
  | none => exact apply_ite Lookup.ofToken _ none _
  | some t =>
      cases t with
      | value text => rfl
      | group new =>
          -- Whatever the group is put over, a group is what the path leads to.
          obtain ⟨merged, hmerged⟩ :=
            TokenValue.exists_group_onto (lower.toValue.at? path.segments) new
          dsimp only
          rw [hmerged]
          rfl

/-- A leaf goes over a group and a group over a leaf, each in its place. -/
example :
    let lower := (empty.insertMap "line" (empty.insertText "width" "1px")).insertText "gap" "2px"
    let upper := ((empty.insertText "ink" "red").insertMap "gap"
      (empty.insertText "wide" "4px")).insertText "line" "none"
    (lower.merge upper).keysAt [] = some ["line", "gap", "ink"]
      ∧ (lower.merge upper).lookup ⟨"line.width"⟩ = .missing
      ∧ (lower.merge upper).lookup ⟨"gap.wide"⟩ = .value "4px" := by
  decide +kernel

end TokenMap

/-- Plain names stay plain in a merge. -/
theorem TokenMap.PlainKeys.merge {lower upper : TokenMap} (hl : lower.PlainKeys)
    (hu : upper.PlainKeys) : (lower.merge upper).PlainKeys :=
  TokenValue.plain_mergeEntries hl upper.entries hu

end ThemeTokens
