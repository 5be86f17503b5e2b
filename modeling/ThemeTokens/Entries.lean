/-! # Ordered entries

    Themes and tokens are named, and the order in which names were written is
    kept all the way to the output.  `Pairs` holds the operations on plain
    lists of named values, which a nested tree needs; `Entries` bundles such a
    list with the fact that no name occurs twice.

    Inserting an existing name replaces its value and keeps its place; a new
    name goes to the end. -/

namespace ThemeTokens

universe u v

namespace Pairs

variable {α : Type u} {β : Type v}

/-- The names, in order. -/
def keys (ps : List (String × α)) : List String :=
  ps.map Prod.fst

/-- The value under the first pair named `key`. -/
def get? (key : String) : List (String × α) → Option α
  | [] => none
  | (k, x) :: rest => if k = key then some x else get? key rest

/-- Replaces the value under `key` in place, or adds it at the end. -/
def insert (key : String) (value : α) : List (String × α) → List (String × α)
  | [] => [(key, value)]
  | (k, x) :: rest =>
      if k = key then (key, value) :: rest else (k, x) :: insert key value rest

/-- Drops what is named `key` and keeps the order of the rest. -/
def erase (key : String) (ps : List (String × α)) : List (String × α) :=
  ps.filter fun p => decide (p.1 ≠ key)

@[simp] theorem keys_nil : keys ([] : List (String × α)) = [] := rfl

@[simp] theorem keys_cons (p : String × α) (ps : List (String × α)) :
    keys (p :: ps) = p.1 :: keys ps := rfl

@[simp] theorem keys_append (ps qs : List (String × α)) :
    keys (ps ++ qs) = keys ps ++ keys qs := by
  simp [keys]

/-- **ORDER**: an insertion keeps the names, or adds one at the end. -/
theorem keys_insert (key : String) (value : α) (ps : List (String × α)) :
    keys (insert key value ps)
      = if key ∈ keys ps then keys ps else keys ps ++ [key] := by
  induction ps with
  | nil => simp [insert, keys]
  | cons p ps ih =>
      obtain ⟨k, x⟩ := p
      by_cases h : k = key
      · simp [insert, h]
      · simp only [insert, if_neg h, keys_cons, ih, List.mem_cons, Ne.symm h,
          false_or]
        split <;> simp

/-- An insertion is seen under its own name and nowhere else. -/
theorem get?_insert (key other : String) (value : α) (ps : List (String × α)) :
    get? other (insert key value ps)
      = if key = other then some value else get? other ps := by
  induction ps with
  | nil => simp [insert, get?]
  | cons p ps ih =>
      obtain ⟨k, x⟩ := p
      by_cases h : k = key
      · subst h
        by_cases ho : k = other <;> simp [insert, get?, ho]
      · simp only [insert, if_neg h, get?, ih]
        by_cases hk : k = other
        · subst hk
          simp [Ne.symm h]
        · simp [hk]

/-- A name is present exactly when it has a value. -/
theorem get?_isSome {key : String} {ps : List (String × α)} :
    (get? key ps).isSome = true ↔ key ∈ keys ps := by
  induction ps with
  | nil => simp [get?]
  | cons p ps ih =>
      obtain ⟨k, x⟩ := p
      by_cases h : k = key
      · simp [get?, h]
      · simp [get?, h, Ne.symm h, ih]

/-- A name without a value is not present. -/
theorem get?_eq_none_iff {key : String} {ps : List (String × α)} :
    get? key ps = none ↔ key ∉ keys ps := by
  rw [← get?_isSome]
  cases get? key ps <;> simp

/-- What is found was listed. -/
theorem mem_of_get? {key : String} {value : α} {ps : List (String × α)}
    (h : get? key ps = some value) : (key, value) ∈ ps := by
  induction ps with
  | nil => simp [get?] at h
  | cons p ps ih =>
      obtain ⟨k, x⟩ := p
      by_cases hk : k = key
      · simp [get?, hk] at h
        simp [hk, h]
      · simp only [get?, if_neg hk] at h
        exact List.mem_cons_of_mem _ (ih h)

/-- With distinct names, what is listed is found. -/
theorem get?_of_mem {key : String} {value : α} {ps : List (String × α)}
    (hd : (keys ps).Nodup) (h : (key, value) ∈ ps) :
    get? key ps = some value := by
  induction ps with
  | nil => simp at h
  | cons p ps ih =>
      obtain ⟨k, x⟩ := p
      simp only [keys_cons, List.nodup_cons] at hd
      rcases List.mem_cons.mp h with h | h
      · simp only [Prod.mk.injEq] at h
        simp [get?, h]
      · have hk : k ≠ key := by
          rintro rfl
          exact hd.1 (List.mem_map.mpr ⟨_, h, rfl⟩)
        simp only [get?, if_neg hk]
        exact ih hd.2 h

/-- What an insertion holds was there before or is the new pair. -/
theorem mem_insert {key : String} {value : α} {ps : List (String × α)}
    {p : String × α} (h : p ∈ insert key value ps) :
    p = (key, value) ∨ p ∈ ps := by
  induction ps with
  | nil => simpa [insert] using h
  | cons q ps ih =>
      obtain ⟨k, x⟩ := q
      by_cases hk : k = key
      · simp only [insert, if_pos hk, List.mem_cons] at h
        rcases h with h | h
        · exact Or.inl h
        · exact Or.inr (List.mem_cons_of_mem _ h)
      · simp only [insert, if_neg hk, List.mem_cons] at h
        rcases h with h | h
        · exact Or.inr (by simp [h])
        · rcases ih h with h | h
          · exact Or.inl h
          · exact Or.inr (List.mem_cons_of_mem _ h)

/-- An insertion keeps names distinct. -/
theorem nodup_insert {key : String} {value : α} {ps : List (String × α)}
    (h : (keys ps).Nodup) : (keys (insert key value ps)).Nodup := by
  rw [keys_insert]
  split
  · exact h
  · rename_i hk
    rw [List.nodup_append]
    refine ⟨h, by simp, ?_⟩
    intro a ha b hb hab
    simp only [List.mem_singleton] at hb
    exact hk (by rw [← hb, ← hab]; exact ha)

/-- Erasing a name keeps the others in order. -/
theorem keys_erase (key : String) (ps : List (String × α)) :
    keys (erase key ps) = (keys ps).filter fun k => decide (k ≠ key) := by
  simp [keys, erase, List.filter_map, Function.comp_def]

/-- So does erasing. -/
theorem nodup_erase {key : String} {ps : List (String × α)}
    (h : (keys ps).Nodup) : (keys (erase key ps)).Nodup := by
  rw [keys_erase]
  exact h.filter _

theorem mem_erase {key : String} {ps : List (String × α)} {p : String × α}
    (h : p ∈ erase key ps) : p ∈ ps :=
  (List.mem_filter.mp h).1

/-- Erasing a name hides it and nothing else. -/
theorem get?_erase (key other : String) (ps : List (String × α)) :
    get? other (erase key ps) = if key = other then none else get? other ps := by
  induction ps with
  | nil => simp [erase, get?]
  | cons p ps ih =>
      obtain ⟨k, x⟩ := p
      have ih' : get? other (ps.filter fun p => decide (p.1 ≠ key))
          = if key = other then none else get? other ps := ih
      by_cases hk : k = key
      · subst hk
        simp only [erase, List.filter_cons, ne_eq, not_true_eq_false,
          decide_false, Bool.false_eq_true, if_false, get?]
        rw [ih']
        split <;> rfl
      · simp only [erase, List.filter_cons, ne_eq, hk, not_false_eq_true,
          decide_true, if_true, get?]
        rw [ih']
        by_cases ho : k = other
        · subst ho
          simp [Ne.symm hk]
        · simp [ho]

end Pairs

/-- Named values in order, no name twice. -/
@[ext] structure Entries (α : Type u) where
  /-- The names and values, in order. -/
  toList : List (String × α)
  /-- No name occurs twice. -/
  nodup : (Pairs.keys toList).Nodup := by simp

namespace Entries

variable {α : Type u} {β : Type v}

/-- No entries. -/
def empty : Entries α := ⟨[], by simp⟩

instance : EmptyCollection (Entries α) := ⟨empty⟩

instance : Inhabited (Entries α) := ⟨empty⟩

/-- The value named `key`. -/
def get? (es : Entries α) (key : String) : Option α :=
  Pairs.get? key es.toList

/-- Whether there is a value named `key`. -/
def contains (es : Entries α) (key : String) : Bool :=
  (es.get? key).isSome

/-- Replaces the value of `key` in place, or adds it at the end. -/
def insert (es : Entries α) (key : String) (value : α) : Entries α :=
  ⟨Pairs.insert key value es.toList, Pairs.nodup_insert es.nodup⟩

/-- The names, in order. -/
def keys (es : Entries α) : List String :=
  Pairs.keys es.toList

/-- How many entries there are. -/
def size (es : Entries α) : Nat :=
  es.toList.length

/-- Whether there is no entry. -/
def isEmpty (es : Entries α) : Bool :=
  es.toList.isEmpty

/-- The entries inserted one after the other. -/
def ofList (ps : List (String × α)) : Entries α :=
  ps.foldl (fun es p => es.insert p.1 p.2) empty

/-- Every value changed, names and order kept. -/
def map (f : α → β) (es : Entries α) : Entries β :=
  ⟨es.toList.map fun p => (p.1, f p.2), by
    have h : Pairs.keys (es.toList.map fun p => (p.1, f p.2))
        = Pairs.keys es.toList := by
      simp [Pairs.keys, Function.comp_def]
    rw [h]
    exact es.nodup⟩

/-- Whether two collections have the same names with the same values, whatever
    the order. -/
def same {α : Type} (same : α → α → Bool) (es others : Entries α) : Bool :=
  es.size == others.size && es.toList.all fun (key, x) =>
    match others.get? key with
    | some y => same x y
    | none => false

@[simp] theorem toList_map (f : α → β) (es : Entries α) :
    (es.map f).toList = es.toList.map fun p => (p.1, f p.2) := rfl

/-- An insertion is seen under its own name and nowhere else. -/
theorem get?_insert (es : Entries α) (key other : String) (value : α) :
    (es.insert key value).get? other
      = if key = other then some value else es.get? other :=
  Pairs.get?_insert key other value es.toList

/-- An insertion keeps the names, or adds one at the end. -/
theorem keys_insert (es : Entries α) (key : String) (value : α) :
    (es.insert key value).keys
      = if key ∈ es.keys then es.keys else es.keys ++ [key] :=
  Pairs.keys_insert key value es.toList

@[simp] theorem contains_iff {es : Entries α} {key : String} :
    es.contains key = true ↔ key ∈ es.keys :=
  Pairs.get?_isSome

/-- **VIEW**: an entry is listed exactly when it is found. -/
theorem mem_toList_iff {es : Entries α} {key : String} {value : α} :
    (key, value) ∈ es.toList ↔ es.get? key = some value :=
  ⟨Pairs.get?_of_mem es.nodup, Pairs.mem_of_get?⟩

end Entries

end ThemeTokens
