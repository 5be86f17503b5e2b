import ThemeTokens.Location

/-! # Stylesheets

    A stylesheet is a list of rules and at-rules.  Selectors, preludes and
    values are kept as written.  An at-rule ends with a semicolon, wraps more
    rules, or holds declarations itself. -/

namespace ThemeTokens

/-- A property with its value. -/
structure Declaration where
  property : String
  value : String
  location : Location := .none
  deriving DecidableEq, Inhabited, Repr

/-- A selector with its declarations. -/
structure Rule where
  selector : String
  declarations : List Declaration := []
  location : Location := .none
  deriving DecidableEq, Inhabited, Repr

/-- The name and prelude of an at-rule. -/
structure AtHead where
  name : String
  prelude : String
  location : Location := .none
  deriving DecidableEq, Inhabited, Repr

/-- A rule or at-rule. -/
inductive Node where
  | rule (rule : Rule)
  /-- An at-rule without a block, such as `@import`. -/
  | atStatement (head : AtHead)
  /-- An at-rule around more rules, such as `@media`. -/
  | atRules (head : AtHead) (nodes : List Node)
  /-- An at-rule around declarations, such as `@font-face`. -/
  | atDeclarations (head : AtHead) (declarations : List Declaration)
  deriving Inhabited

/-- At-rules whose block holds declarations. -/
def declarationAtRules : List String :=
  ["font-face", "page", "property", "counter-style", "font-palette-values",
   "viewport"]

/-- Whether the block of an at-rule holds declarations. -/
def holdsDeclarations (name : String) : Bool :=
  declarationAtRules.any fun n => n.toList == name.toList.map Char.toLower

mutual

/-- The rules of a node, in order, those nested in at-rules included. -/
def Node.rules : Node → List Rule
  | .rule r => [r]
  | .atRules _ nodes => Node.rulesAll nodes
  | .atStatement _ => []
  | .atDeclarations _ _ => []

/-- The rules of all nodes, in order. -/
def Node.rulesAll : List Node → List Rule
  | [] => []
  | n :: ns => n.rules ++ Node.rulesAll ns

end

mutual

/-- The declarations of a node, in order, at every depth. -/
def Node.declarations : Node → List Declaration
  | .rule r => r.declarations
  | .atRules _ nodes => Node.declarationsAll nodes
  | .atStatement _ => []
  | .atDeclarations _ ds => ds

/-- The declarations of all nodes, in order. -/
def Node.declarationsAll : List Node → List Declaration
  | [] => []
  | n :: ns => n.declarations ++ Node.declarationsAll ns

end

mutual

/-- Changes every rule, and the declarations that at-rules hold. -/
def Node.mapM {m : Type → Type} [Monad m] (rule : Rule → m Rule)
    (held : List Declaration → m (List Declaration)) : Node → m Node
  | .rule r => return .rule (← rule r)
  | .atStatement head => return .atStatement head
  | .atRules head nodes => return .atRules head (← Node.mapAllM rule held nodes)
  | .atDeclarations head ds => return .atDeclarations head (← held ds)

/-- Changes every rule of all nodes, one after the other. -/
def Node.mapAllM {m : Type → Type} [Monad m] (rule : Rule → m Rule)
    (held : List Declaration → m (List Declaration)) : List Node → m (List Node)
  | [] => return []
  | n :: ns => return (← n.mapM rule held) :: (← Node.mapAllM rule held ns)

end

/-- A list of rules and at-rules. -/
structure Stylesheet where
  nodes : List Node
  deriving Inhabited

namespace Stylesheet

/-- The stylesheet without rules. -/
def empty : Stylesheet := ⟨[]⟩

/-- All rules, in order. -/
def rules (sheet : Stylesheet) : List Rule :=
  Node.rulesAll sheet.nodes

/-- All declarations, in order. -/
def declarations (sheet : Stylesheet) : List Declaration :=
  Node.declarationsAll sheet.nodes

/-- Adds nodes at the end. -/
def append (sheet : Stylesheet) (nodes : List Node) : Stylesheet :=
  ⟨sheet.nodes ++ nodes⟩

/-- Adds rules at the end. -/
def appendRules (sheet : Stylesheet) (rules : List Rule) : Stylesheet :=
  sheet.append (rules.map .rule)

/-- Changes every rule, and the declarations that at-rules hold. -/
def mapM {m : Type → Type} [Monad m] (rule : Rule → m Rule)
    (held : List Declaration → m (List Declaration)) (sheet : Stylesheet) :
    m Stylesheet :=
  return ⟨← Node.mapAllM rule held sheet.nodes⟩

/-- Changes every rule, and the declarations that at-rules hold. -/
def map (rule : Rule → Rule) (held : List Declaration → List Declaration)
    (sheet : Stylesheet) : Stylesheet :=
  sheet.mapM (m := Id) rule held

end Stylesheet

end ThemeTokens
