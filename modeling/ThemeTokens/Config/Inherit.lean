import ThemeTokens.Config.Normalize
import ThemeTokens.Error

/-! # Applying parents

    A theme may extend another as a whole, and each of its schemes may extend
    the same scheme of a third.  The tokens in effect in a scheme are the
    theme's own merged over those of its parent, and these put over those of
    the scheme's parent, a name replacing the whole token of the same name.

    Parents are checked before anything is computed: each must be configured,
    none may be the theme itself, and following the parents of one level must
    not lead in a circle.  Circles that go through a theme's parent and a
    scheme's parent in turn are found while the tokens are computed. -/

namespace ThemeTokens

namespace ThemeConfig

/-- The parent a theme names at a level, if the theme is configured. -/
def parentOf (config : ThemeConfig) (level : Option ColorScheme) (name : String) :
    Option String :=
  (config.get? name).bind (·.parentAt level)

/-- Follows the parents of one level from `current`.  `visited` are the themes
    met so far, in order; `unvisited` the configured ones that were not met.
    The walk ends quietly at a theme that is not configured. -/
def walkParents (config : ThemeConfig) (level : Option ColorScheme)
    (unvisited visited : List String) (current : String) : Except ThemeError Unit :=
  match config.parentOf level current with
  | none => .ok ()
  | some next =>
      if _h : next ∈ unvisited then
        walkParents config level (unvisited.erase next) (visited ++ [next]) next
      else if next ∈ visited then .error (.circularExtension (visited ++ [next]))
      else .ok ()
termination_by unvisited.length
decreasing_by
  rw [List.length_erase_of_mem _h]
  have := List.length_pos_of_mem _h
  omega

/-- The levels at which a parent can be named, in the order checked. -/
def levels : List (Option ColorScheme) := [none, some .light, some .dark]

/-- Checks the parent that a theme names at a level. -/
def checkParent (config : ThemeConfig) (name : String) (theme : ThemeDefinition)
    (level : Option ColorScheme) : Except ThemeError Unit :=
  match theme.parentAt level with
  | none => .ok ()
  | some parent =>
      if ¬ config.contains parent then .error (.missingExtension name parent)
      else if parent = name then .error (.selfExtension name)
      else walkParents config level (config.keys.erase name) [name] name

/-- Checks all parents, theme by theme. -/
def checkParents (config : ThemeConfig) : Except ThemeError Unit :=
  config.toList.forM fun (name, theme) =>
    levels.forM fun level => config.checkParent name theme level

/-- The tokens of a theme in a scheme, given those of the theme's parent and
    of the scheme's parent. -/
def effective (inherited : TokenMap) (base : Option TokenMap) (own : TokenMap) :
    TokenMap :=
  let merged := inherited.merge own
  match base with
  | some tokens => tokens.overlay merged
  | none => merged

/-- The tokens of the theme `name` in a scheme, with what is known after
    computing them.  `known` holds the themes already computed, `path` the
    themes that are waiting for this one, outermost first, and `unvisited` the
    configured themes that are not waiting. -/
def resolveScheme (config : ThemeConfig) (scheme : ColorScheme)
    (unvisited path : List String) (name : String) (known : Entries TokenMap) :
    Except ThemeError (TokenMap × Entries TokenMap) :=
  match known.get? name with
  | some tokens => .ok (tokens, known)
  | none =>
      match config.get? name with
      | none => .error (.missingExtension (path.getLast?.getD "") name)
      | some theme =>
          if _h : name ∈ unvisited then do
            let (inherited, known) ← match theme.parent with
              | some parent =>
                  resolveScheme config scheme (unvisited.erase name)
                    (path ++ [name]) parent known
              | none => .ok (.empty, known)
            let (base, known) ← match (theme.scheme scheme).parent with
              | some parent => do
                  let (tokens, known) ← resolveScheme config scheme
                    (unvisited.erase name) (path ++ [name]) parent known
                  .ok (some tokens, known)
              | none => .ok (none, known)
            let tokens := effective inherited base (theme.scheme scheme).tokens
            .ok (tokens, known.insert name tokens)
          else .error (.circularExtension (path.dropWhile (· ≠ name) ++ [name]))
termination_by unvisited.length
decreasing_by
  all_goals
    rw [List.length_erase_of_mem _h]
    have := List.length_pos_of_mem _h
    omega

/-- Computes the light and dark tokens of each theme in turn. -/
def resolveThemes (config : ThemeConfig) :
    (names : List String) → (light dark : Entries TokenMap) →
      (done : ResolvedConfig) → Except ThemeError ResolvedConfig
  | [], _, _, done => .ok done
  | name :: names, light, dark, done => do
      let (lightTokens, light) ← config.resolveScheme .light config.keys [] name light
      let (darkTokens, dark) ← config.resolveScheme .dark config.keys [] name dark
      resolveThemes config names light dark
        (done.insert name ⟨lightTokens, darkTokens⟩)

/-- Applies every parent. -/
def resolve (config : ThemeConfig) : Except ThemeError ResolvedConfig := do
  config.checkParents
  resolveThemes config config.keys .empty .empty .empty

end ThemeConfig

/-- The configuration in effect where a component may override the themes. -/
def RawConfig.resolve (raw : RawConfig) (component : Option RawConfig) :
    Except ThemeError ResolvedConfig :=
  let config := match component with
    | some upper => (RawConfig.normalize raw).merge (RawConfig.normalize upper)
    | none => RawConfig.normalize raw
  ThemeConfig.resolve config

end ThemeTokens
