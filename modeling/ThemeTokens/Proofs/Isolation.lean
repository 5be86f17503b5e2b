import ThemeTokens.Proofs.Legacy.Overrides
import ThemeTokens.Proofs.Modern.Cascade
import ThemeTokens.Proofs.Stylesheet

/-! # What other themes cannot change

    Both kinds of output add to a stylesheet: modern output its blocks at the
    end, legacy output overrides behind the rules of every container and empty
    rules at the end.  What is left when all of that is taken away again are
    the stylesheet's own nodes (`Stylesheet.originals`).

    Counting, checking and the choice of fallbacks all have the whole
    configuration at hand, but what they do to the nodes of the author is up to
    the authority theme.  So two configurations with the same authority have
    the same errors in modern output, and in both kinds of output the same
    original nodes (`originals_of_same_authority`). -/

namespace ThemeTokens

/-! ## Original nodes -/

mutual

/-- The node of an output that stands for a node, without what was appended
    inside of it. -/
def Node.original : Node → Node → Node
  | .atRules _ nodes, .atRules head outs => .atRules head (Node.originals nodes outs)
  | _, out => out

/-- The first nodes of a container in an output, one for each of the nodes that
    were there before; what was appended comes behind them. -/
def Node.originals : List Node → List Node → List Node
  | node :: nodes, out :: outs => node.original out :: Node.originals nodes outs
  | _, _ => []

end

/-- An output without what was appended to the stylesheet and to the at-rules
    in it. -/
def Stylesheet.originals (sheet out : Stylesheet) : Stylesheet :=
  ⟨Node.originals sheet.nodes out.nodes⟩

theorem Node.originals_nil (outs : List Node) : Node.originals [] outs = [] := by
  cases outs with
  | nil => rfl
  | cons out outs => rfl

section Changes

variable {ε : Type} {rule : Rule → Except ε Rule}
  {held : List Declaration → Except ε (List Declaration)}

mutual

/-- Changing rules and declarations appends nothing. -/
theorem Node.original_of_mapM {node out : Node} (h : node.mapM rule held = .ok out) :
    node.original out = out := by
  cases node with
  | rule r =>
      obtain ⟨changed, -, h⟩ := Outcome.bind_eq_ok.mp h
      rw [← Except.ok.inj h]
      rfl
  | atStatement head =>
      rw [← Except.ok.inj h]
      rfl
  | atRules head nodes =>
      obtain ⟨changed, hnodes, h⟩ := Outcome.bind_eq_ok.mp h
      have hinside := Node.originals_of_mapAllM hnodes []
      rw [List.append_nil] at hinside
      rw [← Except.ok.inj h, Node.original, hinside]
  | atDeclarations head ds =>
      obtain ⟨changed, -, h⟩ := Outcome.bind_eq_ok.mp h
      rw [← Except.ok.inj h]
      rfl

/-- Of the nodes that were changed all are originals, and nothing behind them is. -/
theorem Node.originals_of_mapAllM {nodes outs : List Node}
    (h : Node.mapAllM rule held nodes = .ok outs) (more : List Node) :
    Node.originals nodes (outs ++ more) = outs := by
  cases nodes with
  | nil => rw [← Except.ok.inj h, Node.originals_nil]
  | cons node nodes =>
      obtain ⟨first, hnode, h⟩ := Outcome.bind_eq_ok.mp h
      obtain ⟨rest, hnodes, h⟩ := Outcome.bind_eq_ok.mp h
      rw [← Except.ok.inj h, List.cons_append, Node.originals, Node.original_of_mapM hnode,
        Node.originals_of_mapAllM hnodes more]

end

end Changes

/-! ## Modern output -/

namespace Modern

variable {config other : ResolvedConfig} {options : OutputOptions} {localizer : Localizer}
  {sheet : Stylesheet}

/-- The author's rules are the original nodes. -/
theorem originals_appendRules {put : Replacement} {author : Stylesheet}
    (h : put.sheet sheet = .ok author) (rules : List Rule) :
    sheet.originals (author.appendRules rules) = author := by
  obtain ⟨nodes, hnodes, h⟩ := Outcome.bind_eq_ok.mp h
  rw [← Except.ok.inj h]
  exact congrArg Stylesheet.mk (Node.originals_of_mapAllM hnodes _)

/-- Modern output fails where its references cannot be counted or cannot be
    replaced. -/
theorem apply_eq_error {e : ThemeError} :
    apply config options localizer sheet = .error e
      ↔ VariableUsage.analyze sheet = .error e
        ∨ ∃ usage, VariableUsage.analyze sheet = .ok usage
            ∧ (replacement config options localizer usage).sheet sheet = .error e := by
  rw [apply, Outcome.bind_eq_error_iff]
  refine or_congr_right (exists_congr fun usage => and_congr_right fun _ => ?_)
  dsimp only
  rw [Outcome.bind_eq_error_iff]
  -- Once the references are replaced nothing can fail any more.
  refine or_iff_left ?_
  rintro ⟨author, -, h⟩
  cases h

theorem authorityOf_congr
    (h : config.get? options.defaultTheme = other.get? options.defaultTheme) :
    authorityOf other options = authorityOf config options := by
  rw [authorityOf, authorityOf, h]

end Modern

/-! ## Legacy output -/

namespace Legacy

variable {config other : ResolvedConfig} {options : OutputOptions}

mutual

/-- Without its overrides a node is the author's own. -/
theorem original_of_authored {node out : Node} (h : Authored config options node out) :
    node.original out
      = node.mapM (m := Id) (authoredRule config options)
          (List.filterMap (authored? config options)) := by
  cases node with
  | rule r =>
      cases h
      rfl
  | atStatement head =>
      cases h
      rfl
  | atRules head nodes =>
      cases h with
      | atRules _ inside =>
          cases inside with
          | container kept =>
              rw [Node.original, originals_of_authored kept]
              rfl
  | atDeclarations head ds =>
      cases h
      rfl

/-- The originals are the author's nodes as the authority alone has them written. -/
theorem originals_of_authored {nodes kept more : List Node}
    (h : AuthoredAll config options nodes kept) :
    Node.originals nodes (kept ++ more)
      = Node.mapAllM (m := Id) (authoredRule config options)
          (List.filterMap (authored? config options)) nodes := by
  cases nodes with
  | nil => exact Node.originals_nil _
  | cons node nodes =>
      cases h with
      | cons first rest =>
          rw [List.cons_append, Node.originals, original_of_authored first,
            originals_of_authored rest]
          rfl

end

/-- **THE AUTHOR'S OWN**: taken without what was appended, legacy output without
    a single theme is the stylesheet with the authority's light values. -/
theorem originals_apply {sheet out : Stylesheet} (h : apply config options sheet = .ok out)
    (hsingle : options.singleTheme = none) :
    sheet.originals out
      = sheet.map (authoredRule config options) (List.filterMap (authored? config options)) := by
  obtain ⟨⟨kept, found⟩, hnodes, h⟩ := Outcome.bind_eq_ok.mp h
  obtain ⟨hkept, -⟩ := Source.nodes_eq_ok hsingle hnodes
  rw [← Except.ok.inj h, Stylesheet.originals]
  show Stylesheet.mk (Node.originals sheet.nodes ((kept ++ _) ++ _)) = _
  rw [List.append_assoc, originals_of_authored hkept]
  rfl

/-- What becomes of a declaration of the author's is up to the authority. -/
theorem authored?_congr (h : config.get? options.defaultTheme = other.get? options.defaultTheme) :
    authored? config options = authored? other options := by
  funext d
  unfold authored? keptFor? textOf
  rw [h]

theorem authoredRule_congr
    (h : config.get? options.defaultTheme = other.get? options.defaultTheme) :
    authoredRule config options = authoredRule other options := by
  funext r
  rw [authoredRule, authoredRule, authored?_congr h]

end Legacy

/-! ## Main result -/

/-- **ISOLATION**: without a single theme, configurations with the same
    authority write the original nodes alike.  Modern output fails for one as
    for the other, and where it does not, the same original nodes stand in
    front of the blocks of each.  In legacy output the original nodes are the
    same wherever both can be written. -/
theorem originals_of_same_authority {config other : ResolvedConfig} {options : OutputOptions}
    {sheet : Stylesheet} (hsingle : options.singleTheme = none)
    (hauthority : config.get? options.defaultTheme = other.get? options.defaultTheme) :
    (∀ localizer,
        (∀ e, Modern.apply config options localizer sheet = .error e
          ↔ Modern.apply other options localizer sheet = .error e)
        ∧ ∀ out warnings, Modern.apply config options localizer sheet = .ok (out, warnings) →
            ∃ usage out', VariableUsage.analyze sheet = .ok usage
              ∧ Modern.apply other options localizer sheet = .ok (out', warnings)
              ∧ sheet.originals out = sheet.originals out'
              ∧ out = (sheet.originals out).appendRules
                  (Modern.blocks config options localizer usage)
              ∧ out' = (sheet.originals out').appendRules
                  (Modern.blocks other options localizer usage))
      ∧ ∀ out out', Legacy.apply config options sheet = .ok out →
          Legacy.apply other options sheet = .ok out' →
            sheet.originals out = sheet.originals out' := by
  have hput : ∀ localizer usage, Modern.replacement other options localizer usage
      = Modern.replacement config options localizer usage :=
    fun _ _ => Modern.replacement_eq hsingle (Modern.authorityOf_congr hauthority)
  refine ⟨fun localizer => ⟨fun e => ?_, fun out warnings h => ?_⟩, fun out out' h h' => ?_⟩
  · rw [Modern.apply_eq_error, Modern.apply_eq_error]
    simp only [hput]
  · obtain ⟨usage, author, husage, hauthor, rfl, rfl⟩ := Modern.apply_eq_ok.mp h
    refine ⟨usage, author.appendRules (Modern.blocks other options localizer usage), husage,
      Modern.apply_eq_ok.mpr ⟨usage, author, husage, ?_, rfl, ?_⟩, ?_⟩
    · rw [hput]
      exact hauthor
    · rw [hput]
    · rw [Modern.originals_appendRules hauthor, Modern.originals_appendRules hauthor]
      exact ⟨rfl, rfl, rfl⟩
  · rw [Legacy.originals_apply h hsingle, Legacy.originals_apply h' hsingle,
      Legacy.authored?_congr hauthority, Legacy.authoredRule_congr hauthority]

/-- The authority of `shoreline` beside other themes. -/
def cove : ResolvedConfig := .ofList
  [("reed", ⟨TokenMap.empty.insertText "gap" "2px", TokenMap.empty.insertText "ink" "olive"⟩),
   ("default", ⟨(TokenMap.empty.insertText "ink" "black").insertText "gap" "1px",
      TokenMap.empty.insertText "ink" "white"⟩)]

/-- The outputs differ in what is appended, also inside of the at-rule. -/
theorem printed_originals : ∃ out out' modern modern' warnings,
    Legacy.apply Legacy.shoreline {} Legacy.printed = .ok out
      ∧ Legacy.apply cove {} Legacy.printed = .ok out'
      ∧ out.rules.map Rule.selector = [".a", ".dark .a", ".ocean .a", ".b"]
      ∧ out'.rules.map Rule.selector
          = [".a", ".reed .a", ".reed.dark .a", ".dark .a", ".b", ".reed .b"]
      ∧ Legacy.printed.originals out = Legacy.printed.originals out'
      ∧ Modern.apply Legacy.shoreline {} ⟨none, none, ""⟩ Legacy.printed = .ok (modern, warnings)
      ∧ Modern.apply cove {} ⟨none, none, ""⟩ Legacy.printed = .ok (modern', warnings)
      ∧ Legacy.printed.originals modern = Legacy.printed.originals modern' := by
  obtain ⟨hmodern, hlegacy⟩ :=
    @originals_of_same_authority Legacy.shoreline cove {} Legacy.printed rfl rfl
  have hselectors : (Legacy.apply Legacy.shoreline {} Legacy.printed).toOption.map
      (fun out => out.rules.map Rule.selector) = some [".a", ".dark .a", ".ocean .a", ".b"] := by
    decide +kernel
  have hselectors' : (Legacy.apply cove {} Legacy.printed).toOption.map
      (fun out => out.rules.map Rule.selector)
      = some [".a", ".reed .a", ".reed.dark .a", ".dark .a", ".b", ".reed .b"] := by
    decide +kernel
  have hok : (Modern.apply Legacy.shoreline {} ⟨none, none, ""⟩ Legacy.printed
      ).toOption.isSome = true := by
    decide +kernel
  obtain ⟨out, hout, hrules⟩ := Outcome.exists_ok_of_map hselectors
  obtain ⟨out', hout', hrules'⟩ := Outcome.exists_ok_of_map hselectors'
  obtain ⟨⟨modern, warnings⟩, happly⟩ := Outcome.exists_ok_of_isSome hok
  obtain ⟨usage, modern', -, happly', hsame, -⟩ := (hmodern _).2 modern warnings happly
  exact ⟨out, out', modern, modern', warnings, hout, hout', hrules, hrules',
    hlegacy out out' hout hout', happly, happly', hsame⟩

end ThemeTokens
