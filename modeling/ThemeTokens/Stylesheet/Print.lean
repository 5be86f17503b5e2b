import ThemeTokens.Stylesheet.Basic

/-! # Printing stylesheets

    Two spaces a level, one declaration a line, an empty line between the nodes
    of a list. -/

namespace ThemeTokens

/-- The indentation of a level. -/
def indent (depth : Nat) : List Char :=
  List.replicate (2 * depth) ' '

/-- A declaration on its line. -/
def Declaration.print (depth : Nat) (d : Declaration) : List Char :=
  indent depth ++ d.property.toList ++ [':', ' '] ++ d.value.toList ++ [';', '\n']

/-- The line before a block. -/
def openLine (depth : Nat) (head : List Char) : List Char :=
  indent depth ++ head ++ [' ', '\x7b', '\n']

/-- The line after a block. -/
def closeLine (depth : Nat) : List Char :=
  indent depth ++ ['\x7d', '\n']

/-- A rule and its block. -/
def Rule.print (depth : Nat) (r : Rule) : List Char :=
  openLine depth r.selector.toList
    ++ r.declarations.flatMap (Declaration.print (depth + 1)) ++ closeLine depth

/-- The name of an at-rule, and its prelude if it has one. -/
def AtHead.print (head : AtHead) : List Char :=
  '@' :: head.name.toList
    ++ if head.prelude.isEmpty then [] else ' ' :: head.prelude.toList

mutual

/-- A node at some depth. -/
def Node.print (depth : Nat) : Node → List Char
  | .rule r => r.print depth
  | .atStatement head => indent depth ++ head.print ++ [';', '\n']
  | .atRules head nodes =>
      openLine depth head.print ++ Node.printAll (depth + 1) nodes ++ closeLine depth
  | .atDeclarations head ds =>
      openLine depth head.print ++ ds.flatMap (Declaration.print (depth + 1))
        ++ closeLine depth

/-- Nodes with an empty line between them. -/
def Node.printAll (depth : Nat) : List Node → List Char
  | [] => []
  | [n] => n.print depth
  | n :: ns => n.print depth ++ '\n' :: Node.printAll depth ns

end

/-- The text of a stylesheet. -/
def Stylesheet.print (sheet : Stylesheet) : String :=
  String.ofList (Node.printAll 0 sheet.nodes)

end ThemeTokens
