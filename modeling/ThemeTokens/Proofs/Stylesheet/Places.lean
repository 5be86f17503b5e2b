import ThemeTokens.Proofs.Css.Nesting
import ThemeTokens.Proofs.Outcome
import ThemeTokens.Proofs.Stylesheet.Reading

/-! # Stylesheets without places

    A stylesheet says where each of its parts was read.  What the parts are
    does not depend on it: components without their places are read to the
    same stylesheet without its places, and are at fault together
    (`nodesOf_unplaced`). -/

namespace ThemeTokens

open Css (Component Lexeme Token)
open Css.Component (unplacedAll)

/-! ## Leaving places out -/

/-- The declaration without its place. -/
def Declaration.unplaced (d : Declaration) : Declaration :=
  { d with location := .none }

/-- The rule without places. -/
def Rule.unplaced (r : Rule) : Rule :=
  ⟨r.selector, r.declarations.map Declaration.unplaced, .none⟩

/-- The head without its place. -/
def AtHead.unplaced (head : AtHead) : AtHead :=
  { head with location := .none }

mutual

/-- The node without places. -/
def Node.unplaced : Node → Node
  | .rule r => .rule r.unplaced
  | .atStatement head => .atStatement head.unplaced
  | .atRules head nodes => .atRules head.unplaced (Node.unplacedAll nodes)
  | .atDeclarations head ds => .atDeclarations head.unplaced (ds.map Declaration.unplaced)

/-- The nodes without places. -/
def Node.unplacedAll : List Node → List Node
  | [] => []
  | n :: ns => n.unplaced :: Node.unplacedAll ns

end

/-- The stylesheet without places. -/
def Stylesheet.unplaced (sheet : Stylesheet) : Stylesheet :=
  ⟨Node.unplacedAll sheet.nodes⟩

/-- What has been read of a declaration, without places. -/
def OpenDeclaration.unplaced : OpenDeclaration → OpenDeclaration
  | .between => .between
  | .named property _ => .named property .none
  | .valued property _ value => .valued property .none value

/-- What has been read of a rule, without places. -/
def OpenRule.unplaced : OpenRule → OpenRule
  | .between first => .between first
  | .charset => .charset
  | .atRule name _ prelude => .atRule name .none prelude
  | .qualified _ selector => .qualified .none selector

/-! ## Outcomes that differ in places -/

namespace Outcome

variable {ε α β α' β' : Type}

/-- Both outcomes are failures, or both are results and `f` takes the one to the
    other. -/
def Alike (f : α → β) (x : Except ε α) (y : Except ε β) : Prop :=
  x.toOption.map f = y.toOption

theorem Alike.error {f : α → β} (e e' : ε) : Alike f (.error e) (.error e') := rfl

theorem Alike.ok {f : α → β} {a : α} {b : β} (h : f a = b) : Alike (ε := ε) f (.ok a) (.ok b) :=
  congrArg some h

/-- Chains whose steps are alike are. -/
theorem Alike.bind {f : α → β} {g : α' → β'} {x : Except ε α} {y : Except ε β}
    {k : α → Except ε α'} {m : β → Except ε β'} (h : Alike f x y)
    (hk : ∀ a, Alike g (k a) (m (f a))) : Alike g (x >>= k) (y >>= m) := by
  cases x with
  | error e =>
      cases y with
      | error e' => rfl
      | ok b => cases h
  | ok a =>
      cases y with
      | error e' => cases h
      | ok b =>
          have hb : f a = b := Option.some.inj h
          rw [← hb]
          exact hk a

end Outcome

open Outcome (Alike)

/-! ## Reading -/

/-- Components are read to the same declarations, up to their places, wherever they
    stand. -/
theorem declarationsOf_unplaced (stop : Location) (state : OpenDeclaration)
    (cs : List Component) :
    Alike (List.map Declaration.unplaced) (declarationsOf stop state cs)
      (declarationsOf .none state.unplaced (unplacedAll cs)) := by
  fun_induction declarationsOf stop state cs with
  | case1 => exact .ok rfl
  | case2 => exact .error _ _
  | case3 => exact .ok rfl
  | case4 => exact .error _ _
  | case5 cs l name h ih =>
      rwa [unplacedAll, Component.unplaced, OpenDeclaration.unplaced,
        declarationsOf_ident (l := l.unplaced) h]
  | case6 cs l name h =>
      rw [unplacedAll, Component.unplaced, OpenDeclaration.unplaced,
        declarationsOf_atKeyword (l := l.unplaced) h]
      exact .error _ _
  | case7 cs l _ _ h ih =>
      rwa [unplacedAll, Component.unplaced, OpenDeclaration.unplaced,
        declarationsOf_skip (l := l.unplaced) h]
  | case8 cs l hident hat h =>
      rw [unplacedAll, Component.unplaced, OpenDeclaration.unplaced,
        declarationsOf_unexpected (l := l.unplaced) hident hat h]
      exact .error _ _
  | case9 => exact .error _ _
  | case10 property behind cs l h ih =>
      rwa [unplacedAll, Component.unplaced, OpenDeclaration.unplaced,
        declarationsOf_colon (l := l.unplaced) h]
  | case11 property behind cs l h =>
      rw [unplacedAll, Component.unplaced, OpenDeclaration.unplaced,
        declarationsOf_ended (l := l.unplaced) h]
      exact .error _ _
  | case12 property behind cs l _ _ h ih =>
      rwa [unplacedAll, Component.unplaced, OpenDeclaration.unplaced,
        declarationsOf_blank (l := l.unplaced) h]
  | case13 property behind cs l hcolon hsemicolon h =>
      rw [unplacedAll, Component.unplaced, OpenDeclaration.unplaced,
        declarationsOf_uncoloned (l := l.unplaced) hcolon hsemicolon h]
      exact .error _ _
  | case14 property behind value c cs h ih =>
      rw [← Component.isSemicolon_unplaced] at h
      rw [unplacedAll, OpenDeclaration.unplaced, declarationsOf_semicolon h]
      exact ih.bind fun ds => .ok rfl
  | case15 property behind value c cs h ih =>
      rw [← Component.isSemicolon_unplaced] at h
      rwa [unplacedAll, OpenDeclaration.unplaced, declarationsOf_value h,
        Component.raw_unplaced]

/-- So is a block of declarations. -/
theorem declarationsIn_unplaced (stop : Location) (c : Component) :
    Alike (List.map Declaration.unplaced) (declarationsIn stop c)
      (declarationsIn .none c.unplaced) := by
  cases c with
  | token l => exact declarationsOf_unplaced stop .between []
  | block opening content closing =>
      cases closing with
      | none => exact declarationsOf_unplaced stop .between content
      | some l => exact declarationsOf_unplaced l.start .between content

mutual

/-- A block of rules is read to the same nodes wherever it stands. -/
theorem nodesIn_unplaced (stop : Location) (c : Component) :
    Alike Node.unplacedAll (nodesIn stop c) (nodesIn .none c.unplaced) := by
  cases c with
  | token l => exact .ok rfl
  | block opening content closing =>
      cases closing with
      | none => exact nodesOf_unplaced stop stop (.between true) content
      | some l => exact nodesOf_unplaced stop l.start (.between true) content

/-- **PLACES**: components are read to the same nodes, up to their places,
    wherever they stand. -/
theorem nodesOf_unplaced (stop here : Location) (state : OpenRule) (cs : List Component) :
    Alike Node.unplacedAll (nodesOf stop here state cs)
      (nodesOf .none .none state.unplaced (unplacedAll cs)) := by
  cases cs with
  | nil =>
      cases state with
      | between first => exact .ok rfl
      | charset => exact .ok rfl
      | atRule name start text => exact .ok rfl
      | qualified start text => exact .error _ _
  | cons c cs =>
      have hdeclarations := declarationsIn_unplaced stop c
      have hnodes := nodesIn_unplaced stop c
      have hbetween := fun first => nodesOf_unplaced stop here (.between first) cs
      rw [unplacedAll]
      cases state with
      | between first =>
          rw [OpenRule.unplaced]
          by_cases hsep : separatesRules c.head = true
          · rw [nodesOf_separator hsep, nodesOf_separator (by rwa [Component.head_unplaced])]
            exact hbetween first
          have hsep' : ¬ separatesRules c.unplaced.head = true := by
            rwa [Component.head_unplaced]
          by_cases hcurly : c.isCurly = true
          · rw [nodesOf_block hsep hcurly,
              nodesOf_block hsep' (by rwa [Component.isCurly_unplaced])]
            refine hdeclarations.bind fun ds => (hbetween false).bind fun ns => .ok ?_
            rw [Node.unplacedAll, Component.start_unplaced]
            rfl
          have hcurly' : ¬ c.unplaced.isCurly = true := by rwa [Component.isCurly_unplaced]
          by_cases hat : ∃ name, c.head = .atKeyword name
          · obtain ⟨name, hname⟩ := hat
            rw [nodesOf_atKeyword hname, nodesOf_atKeyword (c.head_unplaced.trans hname)]
            by_cases hcharset : (first && isCharset name) = true
            · rw [if_pos hcharset, if_pos hcharset]
              exact nodesOf_unplaced stop here .charset cs
            · rw [if_neg hcharset, if_neg hcharset, Component.start_unplaced]
              exact nodesOf_unplaced stop here (.atRule name c.start []) cs
          · have hnot : ∀ name, c.head = .atKeyword name → False := fun name h => hat ⟨name, h⟩
            rw [nodesOf_qualified hsep hcurly hnot,
              nodesOf_qualified hsep' hcurly' (by rwa [Component.head_unplaced]),
              Component.start_unplaced, Component.raw_unplaced]
            exact nodesOf_unplaced stop here (.qualified c.start c.raw) cs
      | charset =>
          rw [OpenRule.unplaced, nodesOf_charset, nodesOf_charset, Component.isSemicolon_unplaced,
            Component.isCurly_unplaced]
          split
          · exact hbetween false
          · exact nodesOf_unplaced stop here .charset cs
      | atRule name start text =>
          rw [OpenRule.unplaced]
          by_cases hsemicolon : c.isSemicolon = true
          · rw [nodesOf_statement hsemicolon,
              nodesOf_statement (by rwa [Component.isSemicolon_unplaced])]
            exact (hbetween false).bind fun ns => .ok rfl
          by_cases hcurly : c.isCurly = true
          · have hcurly' : c.unplaced.isCurly = true := by rwa [Component.isCurly_unplaced]
            by_cases hholds : holdsDeclarations name = true
            · rw [nodesOf_atDeclarations hcurly hholds, nodesOf_atDeclarations hcurly' hholds]
              exact hdeclarations.bind fun ds => (hbetween false).bind fun ns => .ok rfl
            · rw [nodesOf_atRules hcurly hholds, nodesOf_atRules hcurly' hholds]
              exact hnodes.bind fun inner => (hbetween false).bind fun ns => .ok rfl
          · rw [nodesOf_prelude hsemicolon hcurly,
              nodesOf_prelude (by rwa [Component.isSemicolon_unplaced])
                (by rwa [Component.isCurly_unplaced]), Component.raw_unplaced]
            exact nodesOf_unplaced stop here (.atRule name start (text ++ c.raw)) cs
      | qualified start text =>
          rw [OpenRule.unplaced]
          by_cases hcurly : c.isCurly = true
          · rw [nodesOf_rule hcurly, nodesOf_rule (by rwa [Component.isCurly_unplaced])]
            exact hdeclarations.bind fun ds => (hbetween false).bind fun ns => .ok rfl
          · rw [nodesOf_selector hcurly, nodesOf_selector (by rwa [Component.isCurly_unplaced]),
              Component.raw_unplaced]
            exact nodesOf_unplaced stop here (.qualified start (text ++ c.raw)) cs

end

/-- The nodes of a text, without places. -/
def nodesWithin (text : List Char) : Except ThemeError (List Node) :=
  nodesOf .none .none (.between true) (Css.assemble [] [] (Css.cut text))

/-- A stylesheet is read as its tokens are without their places, and is rejected
    where they are. -/
theorem Stylesheet.parse_alike (css : String) :
    Alike (fun sheet => sheet.unplaced.nodes) (Stylesheet.parse css)
      (nodesWithin css.toList) := by
  have halike := nodesOf_unplaced (Location.start.advance css.toList)
    (Location.start.advance css.toList) (.between true) (Css.components css.toList)
  rw [Css.unplacedAll_components] at halike
  have hbind := halike.bind (k := fun ns => .ok (Stylesheet.mk ns)) (m := .ok)
    (g := fun sheet => sheet.unplaced.nodes) fun ns => .ok rfl
  have hok : ∀ x : Except ThemeError (List Node), (x >>= .ok) = x := by
    intro x
    cases x with
    | error e => rfl
    | ok ns => rfl
  rwa [hok] at hbind

/-- **PLACES**: what a text is read to, up to places, is said by its tokens alone. -/
theorem Stylesheet.parse_eq_ok_iff {css : String} {nodes : List Node} :
    (∃ sheet, Stylesheet.parse css = .ok sheet ∧ sheet.unplaced = ⟨nodes⟩)
      ↔ nodesWithin css.toList = .ok nodes := by
  have halike := Stylesheet.parse_alike css
  rw [← Outcome.toOption_eq_some_iff, ← halike, Option.map_eq_some_iff]
  constructor
  · rintro ⟨sheet, hparse, hsheet⟩
    exact ⟨sheet, Outcome.toOption_eq_some_iff.mpr hparse, congrArg Stylesheet.nodes hsheet⟩
  · rintro ⟨sheet, hparse, hsheet⟩
    exact ⟨sheet, Outcome.toOption_eq_some_iff.mp hparse, congrArg Stylesheet.mk hsheet⟩

end ThemeTokens
