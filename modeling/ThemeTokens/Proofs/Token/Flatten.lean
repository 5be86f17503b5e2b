import Mathlib.Data.List.Nodup
import ThemeTokens.Proofs.Entries
import ThemeTokens.Proofs.Text.Search
import ThemeTokens.Proofs.Token.Descent
import ThemeTokens.Token.Flatten

/-! # Listing and looking up

    A leaf is listed under the dotted path that leads to it, and a lookup
    follows the parts of a path.  Both are read off one relation, `Leads`,
    between a tree, the names on the way down and the text at the end: a lookup
    goes where the parts of its path lead, and the listing has the ways to the
    leaves, each once, with the names on them put together (`spelled`).  So the
    two agree on a leaf exactly if its path can be taken apart into its names
    again (`segments_spelled_iff`).  In a tree without empty names and dots in
    names that is so for every leaf, and no path is listed twice.  In other
    trees the listing has at least what lookups find by names that are not empty
    (`flatten_eq_lookups`). -/

namespace ThemeTokens

namespace TokenValue

/-- The names lead from the top of the tree to a leaf with the text. -/
inductive Leads : TokenValue → List String → String → Prop
  | leaf (text : String) : Leads (.value text) [] text
  | step {entries : List (String × TokenValue)} {name : String} {t : TokenValue}
      {names : List String} {text : String} (here : Pairs.get? name entries = some t)
      (below : Leads t names text) : Leads (.group entries) (name :: names) text

/-- A name that is not empty and has no dot in it. -/
def PlainName (name : String) : Prop :=
  name ≠ "" ∧ '.' ∉ name.toList

instance (name : String) : Decidable (PlainName name) :=
  inferInstanceAs (Decidable (name ≠ "" ∧ '.' ∉ name.toList))

/-- Every name in the tree is plain. -/
inductive Plain : TokenValue → Prop
  | value (text : String) : Plain (.value text)
  | group {entries : List (String × TokenValue)}
      (here : ∀ name ∈ Pairs.keys entries, PlainName name)
      (below : ∀ p ∈ entries, Plain p.2) : Plain (.group entries)

end TokenValue

/-- No name in the map, at any level, is empty or has a dot in it. -/
def TokenMap.PlainKeys (tokens : TokenMap) : Prop :=
  tokens.toValue.Plain

open TokenValue (Leads Plain PlainName)

/-- Without tokens there are no names. -/
theorem TokenMap.PlainKeys.empty : TokenMap.empty.PlainKeys :=
  .group (List.forall_mem_nil _) (List.forall_mem_nil _)

/-- A plain tree put into another under a plain name leaves it plain. -/
theorem TokenValue.Plain.insert {entries : List (String × TokenValue)}
    (h : (TokenValue.group entries).Plain) {key : String} (hkey : PlainName key) {t : TokenValue}
    (ht : t.Plain) : (TokenValue.group (Pairs.insert key t entries)).Plain := by
  obtain _ | ⟨here, below⟩ := h
  refine .group ?_ ?_
  · intro name hname
    obtain ⟨p, hp, rfl⟩ := List.mem_map.mp hname
    rcases Pairs.mem_insert hp with rfl | hp
    · exact hkey
    · exact here p.1 (List.mem_map.mpr ⟨p, hp, rfl⟩)
  · intro p hp
    rcases Pairs.mem_insert hp with rfl | hp
    · exact ht
    · exact below p hp

theorem TokenMap.PlainKeys.insertText {tokens : TokenMap} (h : tokens.PlainKeys)
    {key : String} (hkey : PlainName key) (text : String) :
    (tokens.insertText key text).PlainKeys :=
  TokenValue.Plain.insert h hkey (.value text)

theorem TokenMap.PlainKeys.insertMap {tokens group : TokenMap} (h : tokens.PlainKeys)
    {key : String} (hkey : PlainName key) (hgroup : group.PlainKeys) :
    (tokens.insertMap key group).PlainKeys :=
  TokenValue.Plain.insert h hkey hgroup

/-! ## Dotted paths -/

/-- Names joined by dots. -/
def dotted (names : List String) : String :=
  String.ofList (Text.joinWith ['.'] (names.map String.toList))

/-- Names without dots are told by the path. -/
theorem segments_dotted {names : List String} (hne : names ≠ [])
    (h : ∀ name ∈ names, '.' ∉ name.toList) :
    (TokenPath.mk (dotted names)).segments = names := by
  have hid : String.ofList ∘ String.toList = id := funext fun _ => String.ofList_toList
  rw [TokenPath.segments, dotted, String.toList_ofList, Text.splitAt_joinWith, List.map_map, hid]
  · exact List.map_id names
  · exact fun hnil => hne (List.map_eq_nil_iff.mp hnil)
  · intro piece hpiece
    obtain ⟨name, hname, rfl⟩ := List.mem_map.mp hpiece
    exact h name hname

/-- The parts of a path with dots between them are the path. -/
theorem dotted_segments (path : TokenPath) : dotted path.segments = path.text := by
  have hid : String.toList ∘ String.ofList = id := funext fun _ => String.toList_ofList
  rw [TokenPath.segments, dotted, List.map_map, hid, List.map_id, Text.joinWith_splitAt,
    String.ofList_toList]

theorem dotted_ne_empty {name : String} (hne : name ≠ "") (names : List String) :
    dotted (name :: names) ≠ "" := by
  intro h
  have hnil : Text.joinWith ['.'] (name.toList :: names.map String.toList) = [] := by
    rw [← String.toList_ofList (l := Text.joinWith _ _)]
    exact congrArg String.toList h
  refine hne (String.toList_inj.mp ?_)
  cases names with
  | nil => exact hnil
  | cons second rest =>
      rw [List.map_cons, Text.joinWith_cons _ (List.cons_ne_nil _ _), List.append_assoc] at hnil
      exact List.append_eq_nil_iff.mp hnil |>.1

/-- A path is extended by putting one more name at the end. -/
theorem extend_dotted {name : String} (hne : name ≠ "") (names : List String) (last : String) :
    TokenPath.extend (dotted (name :: names)) last = dotted (name :: names ++ [last]) := by
  rw [TokenPath.extend,
    if_neg fun hempty => dotted_ne_empty hne names (String.isEmpty_iff.mp hempty)]
  refine String.toList_inj.mp ?_
  have hcons : (name :: names).map String.toList ≠ [] := List.cons_ne_nil _ _
  rw [dotted, dotted, List.map_append, String.toList_ofList, List.map_singleton,
    Text.joinWith_concat _ hcons]
  simp only [String.toList_append, String.toList_ofList]
  rfl

/-! ## Listed paths -/

/-- The path that a leaf is listed under, put together from the names on the way
    to it. -/
def spelled (names : List String) : String :=
  names.foldl TokenPath.extend ""

/-- Names that can be read off their path: no dot is in any of them, and none
    comes behind an empty one at the front. -/
def Legible (names : List String) : Prop :=
  (∀ name ∈ names, '.' ∉ name.toList) ∧ (names.head? = some "" → names = [""])

instance (names : List String) : Decidable (Legible names) :=
  inferInstanceAs (Decidable (_ ∧ _))

/-- Plain names can be read off their path. -/
theorem Legible.of_plain {names : List String} (h : ∀ name ∈ names, PlainName name) :
    Legible names := by
  refine ⟨fun name hname => (h name hname).2, fun hempty => ?_⟩
  exact absurd rfl (h "" (List.mem_of_head? hempty)).1

/-- From a name on the names are joined by dots. -/
theorem spelled_cons {name : String} (hne : name ≠ "") (names : List String) :
    spelled (name :: names) = dotted (name :: names) := by
  have hfold : ∀ stem : List String,
      names.foldl TokenPath.extend (dotted (name :: stem)) = dotted (name :: stem ++ names) := by
    induction names with
    | nil =>
        intro stem
        rw [List.append_nil]
        rfl
    | cons second names ih =>
        intro stem
        rw [List.foldl_cons, extend_dotted hne, List.cons_append, ih]
        exact congrArg dotted (List.append_cons (name :: stem) second names).symm
  have hfirst : TokenPath.extend "" name = dotted [name] := String.ofList_toList.symm
  rw [spelled, List.foldl_cons, hfirst, hfold]
  rfl

/-- An empty name at the front leaves nothing behind. -/
theorem spelled_empty_cons (names : List String) : spelled ("" :: names) = spelled names := rfl

/-- Names that can be read off their path come back from it. -/
theorem segments_spelled {names : List String} (hne : names ≠ []) (h : Legible names) :
    (TokenPath.mk (spelled names)).segments = names := by
  obtain ⟨hdots, hempty⟩ := h
  cases names with
  | nil => exact absurd rfl hne
  | cons name names =>
      by_cases hname : name = ""
      · subst hname
        rw [hempty rfl]
        decide
      · rw [spelled_cons hname, segments_dotted hne hdots]

/-- What is lost of names without dots is at the front. -/
theorem length_segments_spelled {names : List String} (hne : names ≠ [])
    (hdots : ∀ name ∈ names, '.' ∉ name.toList) :
    (TokenPath.mk (spelled names)).segments.length ≤ names.length := by
  induction names with
  | nil => exact absurd rfl hne
  | cons name names ih =>
      by_cases hname : name = ""
      · subst hname
        rw [spelled_empty_cons]
        cases names with
        | nil => decide
        | cons second rest =>
            exact Nat.le_succ_of_le (ih (List.cons_ne_nil _ _) (List.forall_mem_cons.mp hdots).2)
      · rw [spelled_cons hname, segments_dotted hne hdots]

/-- **LEGIBLE NAMES**: names are the parts of their path exactly if none has a dot
    and an empty one at the front is alone. -/
theorem segments_spelled_iff {names : List String} (hne : names ≠ []) :
    (TokenPath.mk (spelled names)).segments = names ↔ Legible names := by
  refine ⟨fun h => ?_, segments_spelled hne⟩
  have hdots : ∀ name ∈ names, '.' ∉ name.toList := by
    intro name hname
    rw [← h] at hname
    obtain ⟨piece, hpiece, rfl⟩ := List.mem_map.mp hname
    rw [String.toList_ofList]
    exact Text.not_mem_of_mem_splitAt hpiece
  refine ⟨hdots, fun hempty => ?_⟩
  obtain ⟨rest, rfl⟩ := List.head?_eq_some_iff.mp hempty
  cases rest with
  | nil => rfl
  | cons second rest =>
      -- The empty name in front is lost.
      have hlen := length_segments_spelled (List.cons_ne_nil second rest)
        (List.forall_mem_cons.mp hdots).2
      rw [← spelled_empty_cons, h] at hlen
      exact absurd hlen (Nat.not_succ_le_self _)

/-! ## Lookups -/

/-- A path has a text exactly when a lookup ends at a leaf. -/
theorem value?_eq_some_iff {tokens : TokenMap} {path : TokenPath} {text : String} :
    tokens.value? path = some text ↔ tokens.lookup path = .value text := by
  rw [TokenMap.value?]
  cases tokens.lookup path with
  | value found =>
      constructor
      · intro h
        exact congrArg Lookup.value (Option.some.inj h)
      · intro h
        exact congrArg some (Lookup.value.inj h)
  | group =>
      constructor
      · intro h
        cases h
      · intro h
        cases h
  | missing =>
      constructor
      · intro h
        cases h
      · intro h
        cases h

/-- Names lead to a text where a leaf with it is at their end. -/
theorem TokenValue.leads_iff {t : TokenValue} {names : List String} {text : String} :
    Leads t names text ↔ t.at? names = some (.value text) := by
  induction names generalizing t with
  | nil =>
      rw [at?_nil]
      constructor
      · rintro (_ | _)
        rfl
      · intro h
        rw [Option.some.inj h]
        exact .leaf text
  | cons name names ih =>
      cases t with
      | value found => exact ⟨nofun, nofun⟩
      | group entries =>
          rw [at?, Option.bind_eq_some_iff]
          constructor
          · rintro (_ | ⟨here, below⟩)
            exact ⟨_, here, ih.mp below⟩
          · rintro ⟨t, here, hat⟩
            exact .step here (ih.mpr hat)

/-- Following names finds what they lead to. -/
theorem follow_eq_value_iff {entries : List (String × TokenValue)} {names : List String}
    {text : String} :
    TokenMap.follow entries names = .value text ↔ Leads (.group entries) names text := by
  cases names with
  | nil => exact ⟨nofun, nofun⟩
  | cons name names =>
      rw [TokenMap.follow_eq (List.cons_ne_nil name names), Lookup.ofToken_eq_value_iff,
        TokenValue.leads_iff]

/-- The names on the way to a leaf are names of the tree. -/
theorem TokenValue.Leads.plain_names {t : TokenValue} {names : List String} {text : String}
    (h : Leads t names text) (hp : t.Plain) :
    ∀ name ∈ names, PlainName name := by
  induction h with
  | leaf text => exact List.forall_mem_nil _
  | step here below ih =>
      obtain _ | ⟨hnames, hbelow⟩ := hp
      intro other ho
      rcases List.mem_cons.mp ho with rfl | ho
      · exact hnames other (Pairs.mem_keys_of_get? here)
      · exact ih (hbelow _ (Pairs.mem_of_get? here)) other ho

theorem TokenValue.Plain.head {name : String} {t : TokenValue}
    {rest : List (String × TokenValue)} (h : (TokenValue.group ((name, t) :: rest)).Plain) :
    PlainName name ∧ t.Plain := by
  obtain _ | ⟨here, below⟩ := h
  exact ⟨here name List.mem_cons_self, below (name, t) List.mem_cons_self⟩

theorem TokenValue.Plain.tail {p : String × TokenValue} {rest : List (String × TokenValue)}
    (h : (TokenValue.group (p :: rest)).Plain) : (TokenValue.group rest).Plain := by
  obtain _ | ⟨here, below⟩ := h
  exact .group (fun name hname => here name (List.mem_cons_of_mem _ hname))
    fun q hq => below q (List.mem_cons_of_mem _ hq)

/-! ## Ways to leaves -/

mutual

/-- The names on the way to each leaf, and its text, in the order of the tree. -/
def TokenValue.ways : TokenValue → List (List String × String)
  | .value text => [([], text)]
  | .group entries => TokenValue.waysOf entries

/-- The names on the way to each leaf of some entries. -/
def TokenValue.waysOf : List (String × TokenValue) → List (List String × String)
  | [] => []
  | (name, t) :: rest =>
      t.ways.map (fun (names, text) => (name :: names, text)) ++ TokenValue.waysOf rest

end

mutual

/-- The leaves of a tree are its ways, each with its names put behind the stem. -/
theorem leaves_eq_ways (t : TokenValue) (stem : String) :
    t.leaves stem
      = t.ways.map fun (names, text) => (⟨names.foldl TokenPath.extend stem⟩, text) := by
  cases t with
  | value text => rfl
  | group entries => exact leavesOf_eq_ways entries stem

theorem leavesOf_eq_ways (entries : List (String × TokenValue)) (stem : String) :
    TokenValue.leavesOf stem entries
      = (TokenValue.waysOf entries).map fun (names, text) =>
          (⟨names.foldl TokenPath.extend stem⟩, text) := by
  match entries with
  | [] => rfl
  | (name, t) :: rest =>
      rw [TokenValue.leavesOf, TokenValue.waysOf, List.map_append, List.map_map, leaves_eq_ways t,
        leavesOf_eq_ways rest]
      rfl

end

/-- **LISTING**: the leaves are listed under the paths that their ways spell. -/
theorem TokenMap.flatten_eq_ways (tokens : TokenMap) :
    tokens.flatten = tokens.toValue.ways.map fun (names, text) => (⟨spelled names⟩, text) :=
  leavesOf_eq_ways tokens.entries ""

/-- A name leads below one of the entries, the first or one of the others. -/
theorem leads_cons_iff {name : String} {t : TokenValue} {rest : List (String × TokenValue)}
    (hd : (TokenValue.group ((name, t) :: rest)).Distinct) {names : List String}
    {text : String} :
    Leads (.group ((name, t) :: rest)) names text
      ↔ (∃ below, names = name :: below ∧ Leads t below text)
        ∨ Leads (.group rest) names text := by
  constructor
  · rintro (_ | ⟨here, below⟩)
    rename_i other found inner
    rw [Pairs.get?] at here
    by_cases hn : name = other
    · rw [if_pos hn] at here
      rw [← hn, Option.some.inj here]
      exact Or.inl ⟨inner, rfl, below⟩
    · rw [if_neg hn] at here
      exact Or.inr (.step here below)
  · rintro (⟨below, rfl, hbelow⟩ | h)
    · exact .step (if_pos rfl) hbelow
    · obtain _ | ⟨here, below⟩ := h
      rename_i other found inner
      refine .step ?_ below
      have hn : name ≠ other := by
        rintro rfl
        exact (List.nodup_cons.mp hd.nodup).1 (Pairs.mem_keys_of_get? here)
      rw [Pairs.get?, if_neg hn]
      exact here

theorem TokenValue.Distinct.tail {p : String × TokenValue} {rest : List (String × TokenValue)}
    (h : (TokenValue.group (p :: rest)).Distinct) : (TokenValue.group rest).Distinct :=
  .group (List.nodup_cons.mp h.nodup).2 fun _ hq => h.of_mem (List.mem_cons_of_mem _ hq)

mutual

/-- A way is listed exactly if it leads to its text. -/
theorem mem_ways_iff (t : TokenValue) (hd : t.Distinct) {names : List String} {text : String} :
    (names, text) ∈ t.ways ↔ Leads t names text := by
  cases t with
  | value found =>
      rw [TokenValue.ways, List.mem_singleton, Prod.mk.injEq]
      constructor
      · rintro ⟨rfl, rfl⟩
        exact .leaf text
      · intro h
        cases h
        exact ⟨rfl, rfl⟩
  | group entries => exact mem_waysOf_iff entries hd

theorem mem_waysOf_iff (entries : List (String × TokenValue))
    (hd : (TokenValue.group entries).Distinct) {names : List String} {text : String} :
    (names, text) ∈ TokenValue.waysOf entries ↔ Leads (.group entries) names text := by
  match entries, hd with
  | [], _ =>
      refine iff_of_false List.not_mem_nil ?_
      rintro (_ | ⟨here, -⟩)
      cases here
  | (name, t) :: rest, hd =>
      rw [TokenValue.waysOf, List.mem_append, leads_cons_iff hd, mem_waysOf_iff rest hd.tail,
        List.mem_map]
      refine or_congr_left ⟨?_, ?_⟩
      · rintro ⟨⟨below, found⟩, hmem, heq⟩
        obtain ⟨rfl, rfl⟩ := Prod.mk.inj heq
        exact ⟨below, rfl, (mem_ways_iff t (hd.of_mem List.mem_cons_self)).mp hmem⟩
      · rintro ⟨below, rfl, hbelow⟩
        exact ⟨(below, text), (mem_ways_iff t (hd.of_mem List.mem_cons_self)).mpr hbelow, rfl⟩

end

mutual

/-- No way is listed twice. -/
theorem nodup_ways (t : TokenValue) (hd : t.Distinct) : (t.ways.map Prod.fst).Nodup := by
  cases t with
  | value found => exact List.nodup_singleton _
  | group entries => exact nodup_waysOf entries hd

/-- No two leaves have the same way. -/
theorem nodup_waysOf (entries : List (String × TokenValue))
    (hd : (TokenValue.group entries).Distinct) :
    ((TokenValue.waysOf entries).map Prod.fst).Nodup := by
  match entries, hd with
  | [], _ => exact List.nodup_nil
  | (name, t) :: rest, hd =>
      have hfirst : (t.ways.map (fun (names, text) => (name :: names, text))).map Prod.fst
          = (t.ways.map Prod.fst).map (name :: ·) := by
        rw [List.map_map, List.map_map]
        rfl
      rw [TokenValue.waysOf, List.map_append, hfirst]
      refine List.Nodup.append ?_ (nodup_waysOf rest hd.tail) ?_
      · exact List.Nodup.map (fun _ _ h => (List.cons.inj h).2)
          (nodup_ways t (hd.of_mem List.mem_cons_self))
      · -- A way below the first name begins with it, and no other does.
        intro names hhere hthere
        obtain ⟨below, -, rfl⟩ := List.mem_map.mp hhere
        obtain ⟨⟨_, text⟩, hmem, rfl⟩ := List.mem_map.mp hthere
        obtain _ | ⟨here, -⟩ := (mem_waysOf_iff rest hd.tail).mp hmem
        exact (List.nodup_cons.mp hd.nodup).1 (Pairs.mem_keys_of_get? here)

end

/-- There is a name on every way through a group. -/
theorem TokenValue.Leads.ne_nil {entries : List (String × TokenValue)} {names : List String}
    {text : String} (h : Leads (.group entries) names text) : names ≠ [] := by
  rintro rfl
  cases h

/-- A leaf is listed under what its names spell. -/
theorem TokenMap.mem_flatten_iff_leads {tokens : TokenMap} {path : TokenPath} {text : String} :
    (path, text) ∈ tokens.flatten
      ↔ ∃ names, spelled names = path.text ∧ Leads tokens.toValue names text := by
  rw [flatten_eq_ways, List.mem_map]
  constructor
  · rintro ⟨⟨names, found⟩, hmem, heq⟩
    obtain ⟨rfl, rfl⟩ := Prod.mk.inj heq
    exact ⟨names, rfl, (mem_ways_iff _ tokens.distinct).mp hmem⟩
  · rintro ⟨names, hpath, hleads⟩
    exact ⟨(names, text), (mem_ways_iff _ tokens.distinct).mpr hleads,
      congrArg (fun s => (TokenPath.mk s, text)) hpath⟩

/-- A lookup finds a leaf where the parts of its path lead. -/
theorem TokenMap.value?_eq_some_iff_leads {tokens : TokenMap} {path : TokenPath}
    {text : String} :
    tokens.value? path = some text ↔ Leads tokens.toValue path.segments text := by
  rw [value?_eq_some_iff, TokenMap.lookup, follow_eq_value_iff]
  rfl

/-- A leaf whose names are legible is found by its listed path. -/
theorem TokenMap.value?_spelled {tokens : TokenMap} {names : List String} {text : String}
    (h : Leads tokens.toValue names text) (hlegible : Legible names) :
    tokens.value? ⟨spelled names⟩ = some text := by
  rwa [value?_eq_some_iff_leads, segments_spelled h.ne_nil hlegible]

/-- A path that only legible leaves are listed under is listed once at most. -/
theorem TokenMap.count_flatten_le_one {tokens : TokenMap} {path : TokenPath}
    (h : ∀ names text, Leads tokens.toValue names text → spelled names = path.text →
      Legible names) : (tokens.flatten.map Prod.fst).count path ≤ 1 := by
  have hpaths : tokens.flatten.map Prod.fst
      = (tokens.toValue.ways.map Prod.fst).map fun names => ⟨spelled names⟩ := by
    rw [flatten_eq_ways, List.map_map, List.map_map]
    rfl
  -- The names of such a leaf are the parts of the path, and no two leaves have the same.
  have hparts : ∀ names ∈ tokens.toValue.ways.map Prod.fst,
      (TokenPath.mk (spelled names) == path) = true → (names == path.segments) = true := by
    intro names hnames heq
    obtain ⟨⟨_, text⟩, hmem, rfl⟩ := List.mem_map.mp hnames
    have hleads := (mem_ways_iff _ tokens.distinct).mp hmem
    have hpath := eq_of_beq heq
    rw [beq_iff_eq, ← hpath,
      segments_spelled hleads.ne_nil (h _ _ hleads (congrArg TokenPath.text hpath))]
  rw [hpaths, List.count, List.countP_map]
  exact (List.countP_mono_left hparts).trans
    (List.nodup_iff_count_le_one.mp (nodup_ways _ tokens.distinct) _)

/-- A value that a lookup finds is listed. -/
theorem TokenMap.mem_flatten_of_value? {tokens : TokenMap} {path : TokenPath} {text : String}
    (hnames : ∀ n ∈ path.segments, n ≠ "") (h : tokens.value? path = some text) :
    (path, text) ∈ tokens.flatten := by
  refine mem_flatten_iff_leads.mpr ⟨path.segments, ?_, value?_eq_some_iff_leads.mp h⟩
  cases hsegments : path.segments with
  | nil => exact absurd hsegments (value?_eq_some_iff_leads.mp h).ne_nil
  | cons name names =>
      rw [spelled_cons (hnames name (hsegments ▸ List.mem_cons_self)), ← hsegments,
        dotted_segments]

/-! ## Main results -/

section Tokens

variable {tokens : TokenMap} (h : tokens.PlainKeys)

include h

/-- All ways in the tree are legible. -/
theorem TokenMap.PlainKeys.legible {names : List String} {text : String}
    (hleads : Leads tokens.toValue names text) : Legible names :=
  .of_plain (hleads.plain_names h)

/-- **LISTING AND LOOKUP AGREE**: the listed leaves are those that lookups find. -/
theorem TokenMap.mem_flatten_iff {path : TokenPath} {text : String} :
    (path, text) ∈ tokens.flatten ↔ tokens.value? path = some text := by
  constructor
  · intro hmem
    obtain ⟨names, hpath, hleads⟩ := mem_flatten_iff_leads.mp hmem
    have hvalue := value?_spelled hleads (h.legible hleads)
    rwa [hpath] at hvalue
  · intro hvalue
    refine mem_flatten_of_value? (fun name hname => ?_) hvalue
    exact ((value?_eq_some_iff_leads.mp hvalue).plain_names h name hname).1

/-- No path is listed twice. -/
theorem TokenMap.nodup_flatten : (tokens.flatten.map Prod.fst).Nodup :=
  List.nodup_iff_count_le_one.mpr fun _ =>
    count_flatten_le_one fun _ _ hleads _ => h.legible hleads

end Tokens

/-- **SAME TOKENS**: what a lookup finds by names that are not empty is listed
    under its path, whatever the other names in the tree.  Where all names are
    plain the listing has nothing else, and each path once. -/
theorem TokenMap.flatten_eq_lookups (tokens : TokenMap) :
    (∀ path text, (∀ name ∈ path.segments, name ≠ "") → tokens.lookup path = .value text →
        (path, text) ∈ tokens.flatten)
      ∧ (tokens.PlainKeys →
          (∀ path text, (path, text) ∈ tokens.flatten ↔ tokens.lookup path = .value text)
            ∧ (tokens.flatten.map Prod.fst).Nodup) := by
  refine ⟨fun path text hnames hfound => ?_, fun hplain => ⟨fun path text => ?_, ?_⟩⟩
  · exact mem_flatten_of_value? hnames (value?_eq_some_iff.mpr hfound)
  · rw [mem_flatten_iff hplain, value?_eq_some_iff]
  · exact nodup_flatten hplain

/-- Groups within groups, under plain names. -/
def swatches : TokenMap :=
  (TokenMap.empty.insertText "color" "red").insertMap "colors"
    ((TokenMap.empty.insertText "purple" "plum").insertMap "deep"
      (TokenMap.empty.insertText "blue" "navy"))

/-- A group without a name, and a name with a dot in it. -/
def smudged : TokenMap :=
  ((TokenMap.empty.insertMap "" (TokenMap.empty.insertText "ink" "gray")).insertText
    "line.width" "1px").insertText "ink" "black"

theorem swatches_plainKeys : swatches.PlainKeys := by
  have hdeep : (TokenMap.empty.insertText "blue" "navy").PlainKeys :=
    TokenMap.PlainKeys.empty.insertText (by decide) "navy"
  have hcolors : ((TokenMap.empty.insertText "purple" "plum").insertMap "deep"
      (TokenMap.empty.insertText "blue" "navy")).PlainKeys :=
    (TokenMap.PlainKeys.empty.insertText (by decide) "plum").insertMap (by decide) hdeep
  exact (TokenMap.PlainKeys.empty.insertText (by decide) "red").insertMap (by decide) hcolors

/-- A token is listed beside others that no lookup finds, and where there are
    none the listing is the lookups. -/
theorem smudged_and_swatches :
    (⟨"ink"⟩, "black") ∈ smudged.flatten
      ∧ (∀ path text, (path, text) ∈ swatches.flatten ↔ swatches.lookup path = .value text)
      ∧ (swatches.flatten.map Prod.fst).Nodup :=
  ⟨(TokenMap.flatten_eq_lookups smudged).1 ⟨"ink"⟩ "black" (by decide) (by decide),
    (TokenMap.flatten_eq_lookups swatches).2 swatches_plainKeys⟩

/-- Without plain names a path can be listed twice, or lead nowhere. -/
example :
    smudged.flatten = [(⟨"ink"⟩, "gray"), (⟨"line.width"⟩, "1px"), (⟨"ink"⟩, "black")]
      ∧ smudged.lookup ⟨"line.width"⟩ = .missing := by
  decide

end ThemeTokens
