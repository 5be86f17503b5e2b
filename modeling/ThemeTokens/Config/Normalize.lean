import ThemeTokens.Config.Theme

/-! # Normalizing themes

    A theme is written in one of three ways.  With groups `light` and `dark`
    it gives its schemes apart, and all its other tokens are shared by both;
    otherwise all its tokens are light.  A text under `extends` names a parent,
    at the top of the theme and at the top of each scheme.  `ThemeConfig.toRaw`
    writes every theme in the first way. -/

namespace ThemeTokens

/-- The name under which a parent is written. -/
def parentKey : String := "extends"

/-- The names of the two schemes. -/
def lightKey : String := "light"

def darkKey : String := "dark"

/-- Splits a parent off a token map.  Only a text names a parent. -/
def takeParent (tokens : TokenMap) : Option String × TokenMap :=
  match tokens.text? parentKey with
  | some parent => (some parent, tokens.erase parentKey)
  | none => (none, tokens)

namespace SchemeTokens

/-- A scheme as written. -/
def ofMap (tokens : TokenMap) : SchemeTokens :=
  let (parent, own) := takeParent tokens
  ⟨parent, own⟩

/-- A scheme as it is written: the parent, then the tokens. -/
def toMap (scheme : SchemeTokens) : TokenMap :=
  let lead := match scheme.parent with
    | some parent => TokenMap.empty.insertText parentKey parent
    | none => .empty
  lead.overlay scheme.tokens

/-- A scheme over tokens that both schemes share. -/
def withShared (shared : TokenMap) (scheme : SchemeTokens) : SchemeTokens :=
  { scheme with tokens := shared.merge scheme.tokens }

/-- A scheme with another merged over it; the other's parent goes first. -/
def merge (scheme upper : SchemeTokens) : SchemeTokens :=
  ⟨upper.parent.or scheme.parent, scheme.tokens.merge upper.tokens⟩

end SchemeTokens

namespace ThemeDefinition

/-- A theme as written. -/
def ofRaw (raw : TokenMap) : ThemeDefinition :=
  match raw.group? lightKey, raw.group? darkKey with
  | some light, some dark =>
      let (parent, shared) := takeParent ((raw.erase lightKey).erase darkKey)
      ⟨parent, (SchemeTokens.ofMap light).withShared shared,
        (SchemeTokens.ofMap dark).withShared shared⟩
  | _, _ =>
      let (parent, tokens) := takeParent raw
      ⟨parent, { tokens }, {}⟩

/-- A theme as it is written, its schemes apart. -/
def toRaw (theme : ThemeDefinition) : TokenMap :=
  let lead := match theme.parent with
    | some parent => TokenMap.empty.insertText parentKey parent
    | none => .empty
  (lead.insertMap lightKey theme.light.toMap).insertMap darkKey theme.dark.toMap

/-- A theme with another merged over it. -/
def merge (theme upper : ThemeDefinition) : ThemeDefinition :=
  ⟨upper.parent.or theme.parent, theme.light.merge upper.light,
    theme.dark.merge upper.dark⟩

end ThemeDefinition

/-- Every theme normalized. -/
def RawConfig.normalize (raw : RawConfig) : ThemeConfig :=
  raw.map ThemeDefinition.ofRaw

namespace ThemeConfig

/-- Every theme as it is written. -/
def toRaw (config : ThemeConfig) : RawConfig :=
  config.map ThemeDefinition.toRaw

/-- One theme merged over the theme of that name, or added. -/
def mergeTheme (config : ThemeConfig) (name : String) (upper : ThemeDefinition) :
    ThemeConfig :=
  config.insert name <|
    match config.get? name with
    | some theme => theme.merge upper
    | none => upper

/-- The themes of another configuration merged over the ones here. -/
def merge (config upper : ThemeConfig) : ThemeConfig :=
  upper.toList.foldl (fun config p => mergeTheme config p.1 p.2) config

end ThemeConfig

end ThemeTokens
