import ThemeTokens.Token.Basic

/-! # Deep merge

    A component's tokens go over the global ones, and a theme's own tokens over
    its parent's.  Where both sides have a group the groups merge, and in every
    other case the upper side replaces the lower one in place.  New names go to
    the end, in the order of the upper side. -/

namespace ThemeTokens

mutual

/-- The upper token put over what the lower side has under the same name. -/
def TokenValue.onto (lower : Option TokenValue) : TokenValue → TokenValue
  | .value text => .value text
  | .group upper =>
      match lower with
      | some (.group entries) => .group (TokenValue.mergeEntries entries upper)
      | _ => .group upper

/-- The upper entries put over the lower ones, one after the other. -/
def TokenValue.mergeEntries (lower : List (String × TokenValue)) :
    List (String × TokenValue) → List (String × TokenValue)
  | [] => lower
  | (key, upper) :: rest =>
      TokenValue.mergeEntries
        (Pairs.insert key (upper.onto (Pairs.get? key lower)) lower) rest

end

namespace TokenValue

mutual

/-- Putting a tree over another keeps names distinct. -/
theorem distinct_onto {lower : Option TokenValue}
    (hl : ∀ t, lower = some t → Distinct t) :
    ∀ {upper : TokenValue}, Distinct upper → Distinct (upper.onto lower)
  | .value text, _ => by
      simpa [onto] using Distinct.value text
  | .group upper, hu => by
      unfold onto
      split
      · rename_i entries
        exact distinct_mergeEntries (hl _ rfl) fun p hp => hu.of_mem hp
      · exact hu

/-- Merging entries keeps names distinct. -/
theorem distinct_mergeEntries {lower : List (String × TokenValue)}
    (hl : Distinct (.group lower)) :
    ∀ {upper : List (String × TokenValue)}, (∀ p ∈ upper, Distinct p.2) →
      Distinct (.group (mergeEntries lower upper))
  | [], _ => by simpa [mergeEntries] using hl
  | (key, t) :: rest, hu => by
      unfold mergeEntries
      have ht : Distinct t := hu (key, t) (by simp)
      refine distinct_mergeEntries (hl.insert key (distinct_onto ?_ ht))
        fun p hp => hu p (List.mem_cons_of_mem _ hp)
      intro s hs
      exact hl.of_get? hs

end

end TokenValue

/-- `upper` merged over `lower`. -/
def TokenMap.merge (lower upper : TokenMap) : TokenMap :=
  ⟨TokenValue.mergeEntries lower.entries upper.entries,
    TokenValue.distinct_mergeEntries lower.distinct
      fun _ hp => upper.distinct.of_mem hp⟩

end ThemeTokens
