import ThemeTokens.Entries

/-! # Entries by order and content

    What a collection of named values holds is its names in order and the value
    under each of them; nothing else tells two collections apart.  Tokens and
    themes are merged alike, each value of one collection put over what the
    other has under its name (`mergeWith`), so what a merge does to names and
    values is said here once. -/

namespace ThemeTokens

variable {α β : Type}

namespace Pairs

/-- A name that is not there yet is added at the end. -/
theorem insert_of_not_mem {key : String} {value : α} {ps : List (String × α)}
    (h : key ∉ keys ps) : insert key value ps = ps ++ [(key, value)] := by
  induction ps with
  | nil => rfl
  | cons p ps ih =>
      obtain ⟨k, x⟩ := p
      rw [keys_cons, List.mem_cons, not_or] at h
      rw [insert, if_neg (Ne.symm h.1), ih h.2]
      rfl

/-- Inserting what is there changes nothing. -/
theorem insert_of_get? {key : String} {value : α} {ps : List (String × α)}
    (h : get? key ps = some value) : insert key value ps = ps := by
  induction ps with
  | nil => cases h
  | cons p ps ih =>
      obtain ⟨k, x⟩ := p
      rw [get?] at h
      by_cases hk : k = key
      · rw [if_pos hk] at h
        rw [insert, if_pos hk, hk, Option.some.inj h]
      · rw [if_neg hk] at h
        rw [insert, if_neg hk, ih h]

/-- A name with a value is listed. -/
theorem mem_keys_of_get? {key : String} {x : α} {ps : List (String × α)}
    (h : get? key ps = some x) : key ∈ keys ps :=
  get?_isSome.mp (Option.isSome_iff_exists.mpr ⟨x, h⟩)

/-- **CONTENT**: distinct names in the same order, with the same values, make
    the same list. -/
theorem ext_get? {ps qs : List (String × α)} (hnodup : (keys ps).Nodup)
    (hkeys : keys ps = keys qs)
    (hget : ∀ key ∈ keys ps, get? key ps = get? key qs) : ps = qs := by
  induction ps generalizing qs with
  | nil =>
      cases qs with
      | nil => rfl
      | cons q qs => cases hkeys
  | cons p ps ih =>
      cases qs with
      | nil => cases hkeys
      | cons q qs =>
          obtain ⟨k, x⟩ := p
          obtain ⟨l, y⟩ := q
          obtain ⟨hk, htail⟩ : k = l ∧ keys ps = keys qs := List.cons.inj hkeys
          subst hk
          obtain ⟨hfirst, hnodup⟩ := List.nodup_cons.mp hnodup
          -- Under the first name both have their first value, and further on none.
          have hx := hget k List.mem_cons_self
          rw [get?, if_pos rfl, get?, if_pos rfl] at hx
          rw [Option.some.inj hx, ih hnodup htail]
          intro key hmem
          have hne : k ≠ key := by
            rintro rfl
            exact hfirst hmem
          have hrest := hget key (List.mem_cons_of_mem _ hmem)
          rw [get?, if_neg hne, get?, if_neg hne] at hrest
          exact hrest

/-- A changed value is found where the value was. -/
theorem get?_map (f : α → β) (key : String) (ps : List (String × α)) :
    get? key (ps.map fun p => (p.1, f p.2)) = (get? key ps).map f := by
  induction ps with
  | nil => rfl
  | cons p ps ih =>
      obtain ⟨k, x⟩ := p
      rw [List.map_cons, get?, get?]
      by_cases h : k = key
      · rw [if_pos h, if_pos h]
        rfl
      · rw [if_neg h, if_neg h]
        exact ih

/-! ## One collection over another -/

/-- Values put over what is there under their names, one after the other. -/
def mergeWith (put : Option α → α → α) (lower upper : List (String × α)) :
    List (String × α) :=
  upper.foldl (fun ps p => insert p.1 (put (get? p.1 ps) p.2) ps) lower

section MergeWith

variable {put : Option α → α → α} {lower upper : List (String × α)}

theorem mergeWith_cons (p : String × α) :
    mergeWith put lower (p :: upper)
      = mergeWith put (insert p.1 (put (get? p.1 lower) p.2) lower) upper := rfl

/-- **ORDER**: the lower names stay where they are, and the new ones follow in
    their own order. -/
theorem keys_mergeWith (hnodup : (keys upper).Nodup) :
    keys (mergeWith put lower upper)
      = keys lower ++ (keys upper).filter (· ∉ keys lower) := by
  induction upper generalizing lower with
  | nil => exact (List.append_nil _).symm
  | cons p upper ih =>
      obtain ⟨hfirst, hnodup⟩ := List.nodup_cons.mp hnodup
      rw [mergeWith_cons, ih hnodup, keys_insert, keys_cons]
      by_cases hold : p.1 ∈ keys lower
      · rw [if_pos hold, List.filter_cons_of_neg (by simp [hold])]
      · rw [if_neg hold, List.filter_cons_of_pos (by simp [hold]), List.append_assoc,
          List.singleton_append]
        -- The name is new once only, so that it was added keeps no other one back.
        refine congrArg (fun more => keys lower ++ p.1 :: more) (List.filter_congr ?_)
        intro key hkey
        have hne : key ≠ p.1 := fun heq => hfirst (heq ▸ hkey)
        simp [hne]

/-- **NAME BY NAME**: under a name is what the upper value makes of the lower
    one. -/
theorem get?_mergeWith (hnodup : (keys upper).Nodup) (key : String) :
    get? key (mergeWith put lower upper) = match get? key upper with
      | some x => some (put (get? key lower) x)
      | none => get? key lower := by
  induction upper generalizing lower with
  | nil => rfl
  | cons p upper ih =>
      obtain ⟨k, x⟩ := p
      obtain ⟨hfirst, hnodup⟩ := List.nodup_cons.mp hnodup
      rw [mergeWith_cons, ih hnodup, get?_insert, get?]
      by_cases hkey : k = key
      · -- The upper side has each name once, so nothing comes over it again.
        rw [hkey] at hfirst ⊢
        rw [get?_eq_none_iff.mpr hfirst, if_pos rfl, if_pos rfl]
      · rw [if_neg hkey, if_neg hkey]

/-- Under new names the upper values are added in their order. -/
theorem mergeWith_of_disjoint (hnodup : (keys upper).Nodup)
    (hnew : ∀ key ∈ keys upper, key ∉ keys lower) (hput : ∀ p ∈ upper, put none p.2 = p.2) :
    mergeWith put lower upper = lower ++ upper := by
  induction upper generalizing lower with
  | nil => exact (List.append_nil _).symm
  | cons p upper ih =>
      obtain ⟨hfirst, hnodup⟩ := List.nodup_cons.mp hnodup
      obtain ⟨hhere, hput⟩ := List.forall_mem_cons.mp hput
      have hkey : p.1 ∉ keys lower := hnew p.1 List.mem_cons_self
      rw [mergeWith_cons, get?_eq_none_iff.mpr hkey, hhere, insert_of_not_mem hkey,
        ih hnodup ?_ hput, List.append_assoc]
      · rfl
      · intro key hmem
        rw [keys_append, List.mem_append]
        rintro (hold | hself)
        · exact hnew key (List.mem_cons_of_mem _ hmem) hold
        · rw [List.mem_singleton.mp hself] at hmem
          exact hfirst hmem

/-- Values that leave what is under their names as it is change nothing. -/
theorem mergeWith_of_get? (h : ∀ p ∈ upper, ∃ x, get? p.1 lower = some x ∧ put (some x) p.2 = x) :
    mergeWith put lower upper = lower := by
  induction upper with
  | nil => rfl
  | cons p upper ih =>
      obtain ⟨⟨x, hx, hput⟩, h⟩ := List.forall_mem_cons.mp h
      rw [mergeWith_cons, hx, hput, insert_of_get? hx, ih h]

/-- What was merged once does not change when the same is merged again. -/
theorem mergeWith_again (hnodup : (keys upper).Nodup)
    (hput : ∀ p ∈ upper, ∀ x, put (some (put x p.2)) p.2 = put x p.2) :
    mergeWith put (mergeWith put lower upper) upper = mergeWith put lower upper := by
  refine mergeWith_of_get? fun p hp => ⟨put (get? p.1 lower) p.2, ?_, hput p hp _⟩
  rw [get?_mergeWith hnodup, get?_of_mem hnodup hp]

theorem mergeWith_self (hnodup : (keys lower).Nodup)
    (hput : ∀ p ∈ lower, put (some p.2) p.2 = p.2) : mergeWith put lower lower = lower :=
  mergeWith_of_get? fun p hp => ⟨p.2, get?_of_mem hnodup hp, hput p hp⟩

end MergeWith

end Pairs

namespace Entries

theorem ext_get? {es fs : Entries α} (hkeys : es.keys = fs.keys)
    (hget : ∀ key ∈ es.keys, es.get? key = fs.get? key) : es = fs :=
  Entries.ext (Pairs.ext_get? es.nodup hkeys hget)

/-- Listed in another order, every value is found as before. -/
theorem get?_perm {es fs : Entries α} (h : es.toList.Perm fs.toList) (key : String) :
    es.get? key = fs.get? key := by
  refine Option.ext fun value => ?_
  rw [← mem_toList_iff, ← mem_toList_iff, h.mem_iff]

theorem get?_map (f : α → β) (es : Entries α) (key : String) :
    (es.map f).get? key = (es.get? key).map f :=
  Pairs.get?_map f key es.toList

theorem keys_map (f : α → β) (es : Entries α) : (es.map f).keys = es.keys := by
  rw [keys, keys, toList_map, Pairs.keys, List.map_map]
  rfl

end Entries

end ThemeTokens
