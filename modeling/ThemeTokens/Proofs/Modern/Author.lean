import ThemeTokens.Proofs.Modern.Output
import ThemeTokens.Proofs.Modern.Replacement
import ThemeTokens.Proofs.Reference.Leftover

/-! # The author's part of modern output

    Outside of literal mode nothing that the author wrote is lost or moved.  A
    declaration can get another value, if there are references in it
    (`ThemedDeclaration`), and a rule another selector, if there is a marker in
    it (`ThemedRule`).  All else, at whatever depth, is as it was, and what is
    added comes behind it (`apply_keeps_author`). -/

namespace ThemeTokens.Modern

/-- What modern output has for a declaration: the value may be another one if
    there are references in it. -/
structure ThemedDeclaration (d out : Declaration) : Prop where
  property : out.property = d.property
  location : out.location = d.location
  value : ReferenceFree d.value → out.value = d.value

/-- What modern output has for a rule: a selector with markers loses them, and
    each declaration has its own place in the list. -/
structure ThemedRule (r out : Rule) : Prop where
  unmarked : ¬ Selector.rootMarker <:+: r.selector.toList → out.selector = r.selector
  marked : Selector.rootMarker <:+: r.selector.toList →
    out.selector = Selector.stripThemeRoot r.selector
  declarations : List.Forall₂ ThemedDeclaration r.declarations out.declarations
  location : out.location = r.location

/-- A value that is read without references is not written anew. -/
theorem written_themed (property : TokenPath → String) (fallback : TokenPath → Option String)
    (d : Declaration) : ThemedDeclaration d (written property fallback d) := by
  rw [written]
  cases hd : d.referring? with
  | none => exact ⟨rfl, rfl, fun _ => rfl⟩
  | some value =>
      refine ⟨rfl, rfl, ?_⟩
      rintro ⟨other, hparse, hnone⟩
      cases hd.symm.trans (referring?_of_no_references hparse hnone)

namespace Replacement

variable {put : Replacement} (hliteral : put.literal = false)

include hliteral

theorem declarations_themed {ds out : List Declaration} (h : put.declarations ds = .ok out) :
    List.Forall₂ ThemedDeclaration ds out := by
  rw [(declarations_eq_ok hliteral h).1, List.forall₂_map_right_iff, List.forall₂_same]
  exact fun d _ => written_themed put.property put.fallback? d

theorem rule_themed {r out : Rule} (h : put.rule r = .ok out) : ThemedRule r out := by
  obtain ⟨ds, hds, h⟩ := Outcome.bind_eq_ok.mp h
  rw [← Except.ok.inj h]
  refine ⟨fun hnone => ?_, fun _ => rfl, declarations_themed hliteral hds, rfl⟩
  show Selector.stripThemeRoot r.selector = r.selector
  rw [Selector.stripThemeRoot, if_neg]
  exact fun hroot => hnone (Text.occurs_iff_isInfix.mp hroot)

/-- Where no declaration is removed there is nothing to warn of. -/
theorem warnings_eq_nil (sheet : Stylesheet) : put.warnings sheet = [] := by
  refine List.filterMap_eq_nil_iff.mpr fun d _ => ?_
  rw [warning?]
  cases hd : put.declaration d with
  | error e => rfl
  | ok replaced =>
      rw [(declaration_eq_ok hliteral hd).1]

end Replacement

/-- **THE AUTHOR'S PART**: outside of literal mode the author's nodes are all
    there in their order and of their shape, and rules are added behind them.
    At-rules keep their heads and what kind of block they have, rules and
    declarations their places and locations; only values with references and
    selectors with markers are written anew.  There are no warnings. -/
theorem apply_keeps_author {config : ResolvedConfig} {options : OutputOptions}
    {localizer : Localizer} {sheet out : Stylesheet} {warnings : List Warning}
    (h : apply config options localizer sheet = .ok (out, warnings))
    (hliteral : isLiteral options (singleTheme config options (authorityOf config options)) = false) :
    (∃ (nodes : List Node) (added : List Rule), out.nodes = nodes ++ added.map .rule
        ∧ List.Forall₂ (Node.SameShape ThemedRule (List.Forall₂ ThemedDeclaration))
            sheet.nodes nodes)
      ∧ warnings = [] := by
  obtain ⟨usage, author, -, hauthor, rfl, rfl⟩ := apply_eq_ok.mp h
  refine ⟨⟨author.nodes, blocks config options localizer usage, rfl, ?_⟩,
    Replacement.warnings_eq_nil hliteral sheet⟩
  exact Stylesheet.mapM_sameShape (fun _ _ hr => Replacement.rule_themed hliteral hr)
    (fun _ _ hds => Replacement.declarations_themed hliteral hds) hauthor

/-- Rules and declarations in at-rules of every kind. -/
def leaflet : Stylesheet := ⟨[
  .atStatement ⟨"import", "\"base.css\"", ⟨1, 1⟩⟩,
  .atRules ⟨"media", "print", ⟨2, 1⟩⟩ [
    .atRules ⟨"supports", "(gap: 1px)", ⟨3, 3⟩⟩ [
      .rule ⟨":theme-root(.a) b", [
        ⟨"color", "@theme ink", ⟨5, 7⟩⟩,
        ⟨"margin", "0", ⟨6, 7⟩⟩], ⟨4, 5⟩⟩],
    .atDeclarations ⟨"page", ":first", ⟨9, 3⟩⟩ [⟨"border-color", "theme('ink')", ⟨10, 5⟩⟩]],
  .rule ⟨".c", [⟨"margin", "2px", ⟨13, 3⟩⟩], ⟨12, 1⟩⟩]⟩

/-- An authority with the token that is referenced. -/
def blackInk : ResolvedConfig where
  toList := [("default", ⟨TokenMap.empty.insertText "ink" "black", .empty⟩)]
  nodup := by decide

/-- The marker is dropped and the references are written anew, and a block
    follows. -/
theorem leaflet_kept : ∃ out, apply blackInk {} ⟨none, none, ""⟩ leaflet = .ok (out, [])
    ∧ out.rules.map Rule.selector = [".a b", ".c", ":root"]
    ∧ out.declarations.map Declaration.value
        = ["var(--ink)", "0", "var(--ink)", "2px", "black"]
    ∧ ∃ (nodes : List Node) (added : List Rule), out.nodes = nodes ++ added.map .rule
        ∧ List.Forall₂ (Node.SameShape ThemedRule (List.Forall₂ ThemedDeclaration))
            leaflet.nodes nodes := by
  have hvalue : (apply blackInk {} ⟨none, none, ""⟩ leaflet).toOption.map
      (fun (out, _) => (out.rules.map Rule.selector, out.declarations.map Declaration.value))
      = some ([".a b", ".c", ":root"], ["var(--ink)", "0", "var(--ink)", "2px", "black"]) := by
    decide +kernel
  obtain ⟨⟨out, warnings⟩, happly, hshape⟩ := Outcome.exists_ok_of_map hvalue
  obtain ⟨hselectors, hvalues⟩ := Prod.mk.inj hshape
  obtain ⟨hkept, rfl⟩ := apply_keeps_author happly (by decide +kernel)
  exact ⟨out, happly, hselectors, hvalues, hkept⟩

end ThemeTokens.Modern
