import Mathlib.Data.List.Infix
import ThemeTokens.Token.Lookup

/-! # Going down a tree

    Names lead down a tree to a token (`at?`), or nowhere: to a name that is not
    there, or past a leaf (`LeafBefore`).  A lookup says of what kind the token
    is that the parts of a path lead to (`lookup_eq`). -/

namespace ThemeTokens

namespace TokenValue

/-- The token at the end of the names. -/
def at? : TokenValue → List String → Option TokenValue
  | t, [] => some t
  | .value _, _ :: _ => none
  | .group entries, name :: names =>
      (Pairs.get? name entries).bind fun t => t.at? names

/-- A leaf stands before the end of the names. -/
def LeafBefore (t : TokenValue) (names : List String) : Prop :=
  ∃ above, above <+: names ∧ above ≠ names ∧ ∃ text, t.at? above = some (.value text)

theorem at?_nil (t : TokenValue) : t.at? [] = some t := by
  cases t with
  | value text => rfl
  | group entries => rfl

/-- Distinct names stay distinct on the way down. -/
theorem Distinct.at? {t found : TokenValue} {names : List String} (h : t.Distinct)
    (hat : t.at? names = some found) : found.Distinct := by
  induction names generalizing t with
  | nil =>
      rw [at?_nil] at hat
      rw [← Option.some.inj hat]
      exact h
  | cons name names ih =>
      cases t with
      | value text => cases hat
      | group entries =>
          obtain ⟨below, hget, hat⟩ := Option.bind_eq_some_iff.mp hat
          exact ih (h.of_get? hget) hat

/-! ## Leaves on the way -/

theorem not_leafBefore_nil (t : TokenValue) : ¬ t.LeafBefore [] := by
  rintro ⟨above, habove, hne, -⟩
  exact hne (List.prefix_nil.mp habove)

/-- At a leaf every name leads past it. -/
theorem leafBefore_value (text name : String) (names : List String) :
    (TokenValue.value text).LeafBefore (name :: names) :=
  ⟨[], List.nil_prefix, (List.cons_ne_nil name names).symm, text, rfl⟩

/-- Below a group the first name is passed. -/
theorem leafBefore_group {entries : List (String × TokenValue)} {name : String}
    {names : List String} :
    (TokenValue.group entries).LeafBefore (name :: names)
      ↔ ∃ t, Pairs.get? name entries = some t ∧ t.LeafBefore names := by
  constructor
  · rintro ⟨above, habove, hne, text, hat⟩
    cases above with
    | nil => cases hat
    | cons first above =>
        obtain ⟨rfl, hbelow⟩ := List.cons_prefix_cons.mp habove
        obtain ⟨t, hget, hat⟩ := Option.bind_eq_some_iff.mp hat
        exact ⟨t, hget, above, hbelow, fun heq => hne (congrArg _ heq), text, hat⟩
  · rintro ⟨t, hget, above, habove, hne, text, hat⟩
    refine ⟨name :: above, List.cons_prefix_cons.mpr ⟨rfl, habove⟩,
      fun heq => hne (List.cons.inj heq).2, text, ?_⟩
    rw [at?, hget]
    exact hat

/-- Past a leaf there is nothing. -/
theorem LeafBefore.at?_eq_none {t : TokenValue} {names : List String} (h : t.LeafBefore names) :
    t.at? names = none := by
  induction names generalizing t with
  | nil => exact absurd h t.not_leafBefore_nil
  | cons name names ih =>
      cases t with
      | value text => rfl
      | group entries =>
          obtain ⟨below, hget, hleaf⟩ := leafBefore_group.mp h
          rw [at?, hget, Option.bind_some, ih hleaf]

/-- Whether a leaf is passed is seen by trying all the names in front. -/
instance (t : TokenValue) (names : List String) : Decidable (t.LeafBefore names) :=
  decidable_of_iff
    (∃ above ∈ names.inits, above ≠ names ∧ ((t.at? above).bind text?).isSome = true) <| by
    refine exists_congr fun above => ?_
    rw [List.mem_inits]
    refine and_congr_right fun _ => and_congr_right fun _ => ?_
    cases t.at? above with
    | none => exact ⟨nofun, nofun⟩
    | some found =>
        cases found with
        | value text => exact ⟨fun _ => ⟨text, rfl⟩, fun _ => rfl⟩
        | group entries => exact ⟨nofun, nofun⟩

end TokenValue

/-! ## Lookups -/

/-- What a lookup says of the token that it ends at. -/
def Lookup.ofToken : Option TokenValue → Lookup
  | some (.value text) => .value text
  | some (.group _) => .group
  | none => .missing

/-- A lookup ends at a text exactly where it ends at a leaf. -/
theorem Lookup.ofToken_eq_value_iff {token : Option TokenValue} {text : String} :
    Lookup.ofToken token = .value text ↔ token = some (.value text) := by
  match token with
  | none => exact ⟨nofun, nofun⟩
  | some (.group entries) => exact ⟨nofun, nofun⟩
  | some (.value found) =>
      constructor
      · intro h
        rw [Lookup.value.inj h]
      · intro h
        rw [TokenValue.value.inj (Option.some.inj h)]
        rfl

namespace TokenMap

/-- To follow names from a group is to go down to the end of them. -/
theorem follow_eq {entries : List (String × TokenValue)} {names : List String}
    (hne : names ≠ []) :
    follow entries names = .ofToken ((TokenValue.group entries).at? names) := by
  induction names generalizing entries with
  | nil => exact absurd rfl hne
  | cons name names ih =>
      unfold follow
      rw [TokenValue.at?]
      cases Pairs.get? name entries with
      | none => rfl
      | some t =>
          cases names with
          | nil =>
              cases t with
              | value text => rfl
              | group inner => rfl
          | cons second rest =>
              cases t with
              | value text => rfl
              | group inner => exact ih (List.cons_ne_nil second rest)

/-- A lookup goes down to the end of the path. -/
theorem lookup_eq (tokens : TokenMap) (path : TokenPath) :
    tokens.lookup path = .ofToken (tokens.toValue.at? path.segments) := by
  refine follow_eq fun h => ?_
  exact Text.splitAt_ne_nil '.' path.text.toList (List.map_eq_nil_iff.mp h)

end TokenMap

end ThemeTokens
