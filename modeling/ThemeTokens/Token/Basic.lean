import ThemeTokens.Entries
import ThemeTokens.Text.Search

/-! # Token trees

    A theme's tokens form a tree: a leaf is a text put into stylesheets, an
    inner node is an ordered group of named tokens.  A `TokenMap` is such a
    group in which no name occurs twice at any level; every operation on it
    keeps that fact, so nobody has to assume it. -/

namespace ThemeTokens

/-- A node of a token tree. -/
inductive TokenValue where
  /-- A text that is substituted into stylesheets. -/
  | value (text : String)
  /-- Named tokens, in order. -/
  | group (entries : List (String × TokenValue))
  deriving Inhabited

namespace TokenValue

/-- No name occurs twice in any group of the tree. -/
inductive Distinct : TokenValue → Prop
  | value (text : String) : Distinct (.value text)
  | group {entries : List (String × TokenValue)}
      (here : (Pairs.keys entries).Nodup)
      (below : ∀ p ∈ entries, Distinct p.2) : Distinct (.group entries)

/-- The text of a leaf. -/
def text? : TokenValue → Option String
  | .value text => some text
  | .group _ => none

theorem Distinct.nodup {entries : List (String × TokenValue)}
    (h : Distinct (.group entries)) : (Pairs.keys entries).Nodup := by
  cases h
  assumption

/-- Names are distinct in all that a group holds. -/
theorem Distinct.of_mem {entries : List (String × TokenValue)}
    (h : Distinct (.group entries)) {p : String × TokenValue}
    (hp : p ∈ entries) : Distinct p.2 := by
  cases h with
  | group _ below => exact below p hp

/-- Names are distinct in what is found in a group. -/
theorem Distinct.of_get? {entries : List (String × TokenValue)}
    (h : Distinct (.group entries)) {key : String} {t : TokenValue}
    (ht : Pairs.get? key entries = some t) : Distinct t :=
  h.of_mem (Pairs.mem_of_get? ht)

/-- A tree with distinct names can be put into another under any name. -/
theorem Distinct.insert {entries : List (String × TokenValue)}
    (h : Distinct (.group entries)) (key : String) {t : TokenValue}
    (ht : Distinct t) : Distinct (.group (Pairs.insert key t entries)) := by
  refine .group (Pairs.nodup_insert h.nodup) ?_
  intro p hp
  rcases Pairs.mem_insert hp with rfl | hp
  · exact ht
  · exact h.of_mem hp

/-- Erasing keeps names distinct. -/
theorem Distinct.erase {entries : List (String × TokenValue)}
    (h : Distinct (.group entries)) (key : String) :
    Distinct (.group (Pairs.erase key entries)) :=
  .group (Pairs.nodup_erase h.nodup) fun _ hp => h.of_mem (Pairs.mem_erase hp)

theorem Distinct.nil : Distinct (.group []) :=
  .group (by simp) (by simp)

end TokenValue

/-- Named tokens in order, no name twice at any level. -/
@[ext] structure TokenMap where
  /-- The names and tokens, in order. -/
  entries : List (String × TokenValue)
  /-- No name occurs twice at any level. -/
  distinct : TokenValue.Distinct (.group entries)

namespace TokenMap

/-- The map without tokens. -/
def empty : TokenMap := ⟨[], .nil⟩

instance : EmptyCollection TokenMap := ⟨empty⟩

instance : Inhabited TokenMap := ⟨empty⟩

/-- The token under a single name. -/
def get? (tokens : TokenMap) (key : String) : Option TokenValue :=
  Pairs.get? key tokens.entries

/-- Whether there is no token. -/
def isEmpty (tokens : TokenMap) : Bool :=
  tokens.entries.isEmpty

/-- The map as an inner node of a tree. -/
def toValue (tokens : TokenMap) : TokenValue :=
  .group tokens.entries

/-- Sets a token whose names are distinct. -/
def insert (tokens : TokenMap) (key : String) (t : TokenValue) (h : t.Distinct) :
    TokenMap :=
  ⟨Pairs.insert key t tokens.entries, tokens.distinct.insert key h⟩

/-- Sets a leaf. -/
def insertText (tokens : TokenMap) (key text : String) : TokenMap :=
  tokens.insert key (.value text) (.value text)

/-- Sets an inner node. -/
def insertMap (tokens : TokenMap) (key : String) (group : TokenMap) : TokenMap :=
  tokens.insert key group.toValue group.distinct

/-- Drops the token under a single name. -/
def erase (tokens : TokenMap) (key : String) : TokenMap :=
  ⟨Pairs.erase key tokens.entries, tokens.distinct.erase key⟩

/-- The text under a single name, if that is a leaf. -/
def text? (tokens : TokenMap) (key : String) : Option String :=
  match tokens.get? key with
  | some (.value text) => some text
  | _ => none

/-- The group under a single name, if that is an inner node. -/
def group? (tokens : TokenMap) (key : String) : Option TokenMap :=
  match h : tokens.get? key with
  | some (.group entries) => some ⟨entries, tokens.distinct.of_get? h⟩
  | _ => none

/-- The tokens of `top` put over those of `base`: a name of `top` replaces
    the whole token that `base` has there. -/
def overlay (base top : TokenMap) : TokenMap :=
  ⟨top.entries.foldl (fun es p => Pairs.insert p.1 p.2 es) base.entries, by
    have step : ∀ (ps es : List (String × TokenValue)),
        TokenValue.Distinct (.group es) → (∀ p ∈ ps, p.2.Distinct) →
        TokenValue.Distinct
          (.group (ps.foldl (fun es p => Pairs.insert p.1 p.2 es) es)) := by
      intro ps
      induction ps with
      | nil => intro es h _; exact h
      | cons p ps ih =>
          intro es h hp
          exact ih _ (h.insert p.1 (hp p (by simp)))
            fun q hq => hp q (List.mem_cons_of_mem _ hq)
    exact step top.entries base.entries base.distinct
      fun p hp => top.distinct.of_mem hp⟩

end TokenMap

/-- A dotted path that addresses a token, such as `colors.purple`. -/
structure TokenPath where
  text : String
  deriving DecidableEq, Inhabited, Repr

namespace TokenPath

/-- The parts between the dots. -/
def segments (path : TokenPath) : List String :=
  (Text.splitAt '.' path.text.toList).map String.ofList

/-- The stem of the custom property for a path: dots become dashes. -/
def variableName (path : TokenPath) : String :=
  String.ofList (path.text.toList.map fun c => if c = '.' then '-' else c)

end TokenPath

end ThemeTokens
