import ThemeTokens.Proofs.Entries
import ThemeTokens.Token.Merge

/-! # Merging level by level

    The entries of a group are merged like those of any collection, a token put
    over what is there under its name (`mergeEntries_eq_mergeWith`).  So merging
    starts from the lower side and adds what only the upper side has behind it;
    over nothing the upper side stays as it is.  Merged over itself a side has
    nothing to add and nothing to replace, and neither has an upper side that
    was merged over before. -/

namespace ThemeTokens

namespace TokenValue

/-- A token put where nothing was stays as it is. -/
theorem onto_none (t : TokenValue) : t.onto none = t := by
  cases t with
  | value text => rfl
  | group entries => rfl

/-- A group replaces a leaf as a whole. -/
theorem onto_value (t : TokenValue) (text : String) : t.onto (some (.value text)) = t := by
  cases t with
  | value found => rfl
  | group entries => rfl

/-- A group put over anything is a group. -/
theorem exists_group_onto (lower : Option TokenValue) (upper : List (String × TokenValue)) :
    ∃ merged, (TokenValue.group upper).onto lower = .group merged := by
  unfold onto
  split
  · exact ⟨_, rfl⟩
  · exact ⟨_, rfl⟩

theorem mergeEntries_eq_mergeWith (lower upper : List (String × TokenValue)) :
    mergeEntries lower upper = Pairs.mergeWith (fun below t => t.onto below) lower upper := by
  induction upper generalizing lower with
  | nil => rw [mergeEntries, Pairs.mergeWith, List.foldl_nil]
  | cons p upper ih => rw [mergeEntries, Pairs.mergeWith_cons, ih]

section Entries

variable {lower upper : List (String × TokenValue)} (hnodup : (Pairs.keys upper).Nodup)

include hnodup

/-- The names of a merge are the lower ones, and behind them the new ones. -/
theorem keys_mergeEntries : Pairs.keys (mergeEntries lower upper)
    = Pairs.keys lower ++ (Pairs.keys upper).filter (· ∉ Pairs.keys lower) := by
  rw [mergeEntries_eq_mergeWith, Pairs.keys_mergeWith hnodup]

/-- **NAME BY NAME**: a merge has under a name what the upper side puts over
    the lower one. -/
theorem get?_mergeEntries (name : String) :
    Pairs.get? name (mergeEntries lower upper) = match Pairs.get? name upper with
      | some t => some (t.onto (Pairs.get? name lower))
      | none => Pairs.get? name lower := by
  rw [mergeEntries_eq_mergeWith, Pairs.get?_mergeWith hnodup]
  cases Pairs.get? name upper with
  | none => rfl
  | some t => rfl

end Entries

/-- A token put over itself stays as it is. -/
theorem Distinct.onto_self {t : TokenValue} (h : t.Distinct) : t.onto (some t) = t := by
  induction h with
  | value text => rfl
  | @group entries here below ih =>
      rw [onto, mergeEntries_eq_mergeWith, Pairs.mergeWith_self here ih]

/-- A token put over what it was put over before changes nothing. -/
theorem Distinct.onto_again {t : TokenValue} (h : t.Distinct) (lower : Option TokenValue) :
    t.onto (some (t.onto lower)) = t.onto lower := by
  induction h generalizing lower with
  | value text => rfl
  | @group entries here below ih =>
      match lower with
      | none =>
          rw [onto_none]
          exact (Distinct.group here below).onto_self
      | some (.value text) =>
          rw [onto_value]
          exact (Distinct.group here below).onto_self
      | some (.group others) =>
          show TokenValue.group (mergeEntries (mergeEntries others entries) entries)
            = .group (mergeEntries others entries)
          simp only [mergeEntries_eq_mergeWith]
          rw [Pairs.mergeWith_again here ih]

end TokenValue

namespace TokenMap

/-- Merged over nothing, tokens stay as they are. -/
theorem empty_merge (tokens : TokenMap) : TokenMap.empty.merge tokens = tokens := by
  refine TokenMap.ext ?_
  show TokenValue.mergeEntries [] tokens.entries = tokens.entries
  rw [TokenValue.mergeEntries_eq_mergeWith]
  exact Pairs.mergeWith_of_disjoint tokens.distinct.nodup (fun _ _ => List.not_mem_nil)
    fun p _ => p.2.onto_none

/-- Merged over themselves, tokens stay as they are. -/
theorem merge_self (tokens : TokenMap) : tokens.merge tokens = tokens :=
  TokenMap.ext (TokenValue.group.inj tokens.distinct.onto_self)

/-- Tokens merged over once more change nothing. -/
theorem merge_again (lower upper : TokenMap) :
    (lower.merge upper).merge upper = lower.merge upper :=
  TokenMap.ext (TokenValue.group.inj (upper.distinct.onto_again (some lower.toValue)))

end TokenMap

end ThemeTokens
