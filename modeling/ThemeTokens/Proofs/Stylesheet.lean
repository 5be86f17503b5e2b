import Mathlib.Data.List.Forall2
import ThemeTokens.Proofs.Outcome
import ThemeTokens.Stylesheet.Basic

/-! # Changing stylesheets

    Where each rule and each list of declarations is changed by a step that
    can fail, the stylesheet is changed as if no step could, and every
    declaration in it has met what a step asks for.  What the steps leave
    behind is then all that the changed stylesheet has, and it stands where it
    stood: what steps cannot reach is as it was (`SameShape`). -/

namespace ThemeTokens

/-- Adding no rules changes nothing. -/
theorem Stylesheet.appendRules_nil (sheet : Stylesheet) : sheet.appendRules [] = sheet :=
  congrArg Stylesheet.mk (List.append_nil sheet.nodes)

theorem Node.declarationsAll_append (nodes others : List Node) :
    Node.declarationsAll (nodes ++ others)
      = Node.declarationsAll nodes ++ Node.declarationsAll others := by
  induction nodes with
  | nil => rfl
  | cons node nodes ih =>
      rw [List.cons_append, Node.declarationsAll, Node.declarationsAll, ih, List.append_assoc]

theorem Node.rulesAll_append (nodes others : List Node) :
    Node.rulesAll (nodes ++ others) = Node.rulesAll nodes ++ Node.rulesAll others := by
  induction nodes with
  | nil => rfl
  | cons node nodes ih =>
      rw [List.cons_append, Node.rulesAll, Node.rulesAll, ih, List.append_assoc]

/-- Behind the rules of a stylesheet come those added to it. -/
theorem Stylesheet.rules_appendRules (sheet : Stylesheet) (rules : List Rule) :
    (sheet.appendRules rules).rules = sheet.rules ++ rules := by
  have hrules : Node.rulesAll (rules.map Node.rule) = rules := by
    induction rules with
    | nil => rfl
    | cons r rules ih =>
        rw [List.map_cons, Node.rulesAll, ih]
        rfl
  rw [Stylesheet.rules, Stylesheet.appendRules, Stylesheet.append, Node.rulesAll_append, hrules]
  rfl

/-- Behind the declarations of a stylesheet come those of the rules added to it. -/
theorem Stylesheet.declarations_appendRules (sheet : Stylesheet) (rules : List Rule) :
    (sheet.appendRules rules).declarations
      = sheet.declarations ++ rules.flatMap Rule.declarations := by
  have hrules : Node.declarationsAll (rules.map Node.rule) = rules.flatMap Rule.declarations := by
    induction rules with
    | nil => rfl
    | cons r rules ih =>
        rw [List.map_cons, List.flatMap_cons, ← ih]
        rfl
  rw [← hrules]
  exact Node.declarationsAll_append sheet.nodes _

section Changes

variable {ε : Type} {rule : Rule → Except ε Rule}
  {held : List Declaration → Except ε (List Declaration)} {f : Rule → Rule}
  {g : List Declaration → List Declaration} {P : Declaration → Prop}

mutual

/-- A node that was changed is changed as the steps change its parts, at every
    depth, and has what they ask for. -/
theorem Node.mapM_eq_ok {node out : Node}
    (hrule : ∀ r out, rule r = .ok out → out = f r ∧ ∀ d ∈ r.declarations, P d)
    (hheld : ∀ ds out, held ds = .ok out → out = g ds ∧ ∀ d ∈ ds, P d)
    (h : node.mapM rule held = .ok out) :
    out = node.mapM (m := Id) f g ∧ ∀ d ∈ node.declarations, P d := by
  cases node with
  | rule r =>
      obtain ⟨changed, hr, h⟩ := Outcome.bind_eq_ok.mp h
      obtain ⟨heq, hall⟩ := hrule r changed hr
      rw [← Except.ok.inj h, heq]
      exact ⟨rfl, hall⟩
  | atStatement head =>
      rw [← Except.ok.inj h]
      exact ⟨rfl, List.forall_mem_nil _⟩
  | atRules head nodes =>
      obtain ⟨changed, hnodes, h⟩ := Outcome.bind_eq_ok.mp h
      obtain ⟨heq, hall⟩ := Node.mapAllM_eq_ok hrule hheld hnodes
      rw [← Except.ok.inj h, heq]
      exact ⟨rfl, hall⟩
  | atDeclarations head ds =>
      obtain ⟨changed, hds, h⟩ := Outcome.bind_eq_ok.mp h
      obtain ⟨heq, hall⟩ := hheld ds changed hds
      rw [← Except.ok.inj h, heq]
      exact ⟨rfl, hall⟩

theorem Node.mapAllM_eq_ok {nodes out : List Node}
    (hrule : ∀ r out, rule r = .ok out → out = f r ∧ ∀ d ∈ r.declarations, P d)
    (hheld : ∀ ds out, held ds = .ok out → out = g ds ∧ ∀ d ∈ ds, P d)
    (h : Node.mapAllM rule held nodes = .ok out) :
    out = Node.mapAllM (m := Id) f g nodes ∧ ∀ d ∈ Node.declarationsAll nodes, P d := by
  cases nodes with
  | nil =>
      rw [← Except.ok.inj h]
      exact ⟨rfl, List.forall_mem_nil _⟩
  | cons node nodes =>
      obtain ⟨first, hnode, h⟩ := Outcome.bind_eq_ok.mp h
      obtain ⟨rest, hnodes, h⟩ := Outcome.bind_eq_ok.mp h
      obtain ⟨hfirst, hhere⟩ := Node.mapM_eq_ok hrule hheld hnode
      obtain ⟨hrest, hthere⟩ := Node.mapAllM_eq_ok hrule hheld hnodes
      rw [← Except.ok.inj h, hfirst, hrest]
      refine ⟨rfl, fun d hd => ?_⟩
      rcases List.mem_append.mp hd with hd | hd
      · exact hhere d hd
      · exact hthere d hd

end

/-- **CHANGES THAT CAN FAIL**: a stylesheet that was changed is changed as the
    steps change their parts. -/
theorem Stylesheet.mapM_eq_ok {sheet out : Stylesheet}
    (hrule : ∀ r out, rule r = .ok out → out = f r ∧ ∀ d ∈ r.declarations, P d)
    (hheld : ∀ ds out, held ds = .ok out → out = g ds ∧ ∀ d ∈ ds, P d)
    (h : sheet.mapM rule held = .ok out) :
    out = sheet.map f g ∧ ∀ d ∈ sheet.declarations, P d := by
  obtain ⟨nodes, hnodes, h⟩ := Outcome.bind_eq_ok.mp h
  obtain ⟨heq, hall⟩ := Node.mapAllM_eq_ok hrule hheld hnodes
  rw [← Except.ok.inj h, heq]
  exact ⟨rfl, hall⟩

/-- What the steps ask for holds throughout a stylesheet that was changed. -/
theorem Stylesheet.mapM_holds {sheet out : Stylesheet}
    (hrule : ∀ r out, rule r = .ok out → ∀ d ∈ r.declarations, P d)
    (hheld : ∀ ds out, held ds = .ok out → ∀ d ∈ ds, P d)
    (h : sheet.mapM rule held = .ok out) : ∀ d ∈ sheet.declarations, P d := by
  -- Each step changes its part into what it has for an outcome.
  refine (Stylesheet.mapM_eq_ok (f := fun r => (rule r).toOption.getD r)
    (g := fun ds => (held ds).toOption.getD ds) (fun r out hr => ⟨?_, hrule r out hr⟩)
    (fun ds out hds => ⟨?_, hheld ds out hds⟩) h).2
  · rw [hr]
    rfl
  · rw [hds]
    rfl

mutual

/-- A changed node has nothing but what the steps leave behind. -/
theorem Node.mapM_leaves {node out : Node}
    (hrule : ∀ r out, rule r = .ok out → ∀ d ∈ out.declarations, P d)
    (hheld : ∀ ds out, held ds = .ok out → ∀ d ∈ out, P d)
    (h : node.mapM rule held = .ok out) : ∀ d ∈ out.declarations, P d := by
  cases node with
  | rule r =>
      obtain ⟨changed, hr, h⟩ := Outcome.bind_eq_ok.mp h
      rw [← Except.ok.inj h]
      exact hrule r changed hr
  | atStatement head =>
      rw [← Except.ok.inj h]
      exact List.forall_mem_nil _
  | atRules head nodes =>
      obtain ⟨changed, hnodes, h⟩ := Outcome.bind_eq_ok.mp h
      rw [← Except.ok.inj h]
      exact Node.mapAllM_leaves hrule hheld hnodes
  | atDeclarations head ds =>
      obtain ⟨changed, hds, h⟩ := Outcome.bind_eq_ok.mp h
      rw [← Except.ok.inj h]
      exact hheld ds changed hds

theorem Node.mapAllM_leaves {nodes out : List Node}
    (hrule : ∀ r out, rule r = .ok out → ∀ d ∈ out.declarations, P d)
    (hheld : ∀ ds out, held ds = .ok out → ∀ d ∈ out, P d)
    (h : Node.mapAllM rule held nodes = .ok out) : ∀ d ∈ Node.declarationsAll out, P d := by
  cases nodes with
  | nil =>
      rw [← Except.ok.inj h]
      exact List.forall_mem_nil _
  | cons node nodes =>
      obtain ⟨first, hnode, h⟩ := Outcome.bind_eq_ok.mp h
      obtain ⟨rest, hnodes, h⟩ := Outcome.bind_eq_ok.mp h
      rw [← Except.ok.inj h]
      exact List.forall_mem_append.mpr
        ⟨Node.mapM_leaves hrule hheld hnode, Node.mapAllM_leaves hrule hheld hnodes⟩

end

/-- What the steps leave behind is all that a changed stylesheet has. -/
theorem Stylesheet.mapM_leaves {sheet out : Stylesheet}
    (hrule : ∀ r out, rule r = .ok out → ∀ d ∈ out.declarations, P d)
    (hheld : ∀ ds out, held ds = .ok out → ∀ d ∈ out, P d)
    (h : sheet.mapM rule held = .ok out) : ∀ d ∈ out.declarations, P d := by
  obtain ⟨nodes, hnodes, h⟩ := Outcome.bind_eq_ok.mp h
  rw [← Except.ok.inj h]
  exact Node.mapAllM_leaves hrule hheld hnodes

section Shape

variable {R : Rule → Rule → Prop} {H : List Declaration → List Declaration → Prop}

/-- Nodes of the same kind, with nodes of the same shapes inside in the same
    order and with the same heads.  Rules are related by `R`, and what at-rules
    declare by `H`. -/
inductive Node.SameShape (R : Rule → Rule → Prop)
    (H : List Declaration → List Declaration → Prop) : Node → Node → Prop where
  | rule {r out : Rule} (h : R r out) : SameShape R H (.rule r) (.rule out)
  | atStatement (head : AtHead) : SameShape R H (.atStatement head) (.atStatement head)
  | atRules (head : AtHead) {nodes outs : List Node}
      (inside : List.Forall₂ (SameShape R H) nodes outs) :
      SameShape R H (.atRules head nodes) (.atRules head outs)
  | atDeclarations (head : AtHead) {ds outs : List Declaration} (h : H ds outs) :
      SameShape R H (.atDeclarations head ds) (.atDeclarations head outs)

mutual

/-- A changed node has the shape that it had. -/
theorem Node.mapM_sameShape {node out : Node} (hrule : ∀ r out, rule r = .ok out → R r out)
    (hheld : ∀ ds out, held ds = .ok out → H ds out) (h : node.mapM rule held = .ok out) :
    node.SameShape R H out := by
  cases node with
  | rule r =>
      obtain ⟨changed, hr, h⟩ := Outcome.bind_eq_ok.mp h
      rw [← Except.ok.inj h]
      exact .rule (hrule r changed hr)
  | atStatement head =>
      rw [← Except.ok.inj h]
      exact .atStatement head
  | atRules head nodes =>
      obtain ⟨changed, hnodes, h⟩ := Outcome.bind_eq_ok.mp h
      rw [← Except.ok.inj h]
      exact .atRules head (Node.mapAllM_sameShape hrule hheld hnodes)
  | atDeclarations head ds =>
      obtain ⟨changed, hds, h⟩ := Outcome.bind_eq_ok.mp h
      rw [← Except.ok.inj h]
      exact .atDeclarations head (hheld ds changed hds)

theorem Node.mapAllM_sameShape {nodes outs : List Node}
    (hrule : ∀ r out, rule r = .ok out → R r out)
    (hheld : ∀ ds out, held ds = .ok out → H ds out)
    (h : Node.mapAllM rule held nodes = .ok outs) :
    List.Forall₂ (Node.SameShape R H) nodes outs := by
  cases nodes with
  | nil =>
      rw [← Except.ok.inj h]
      exact .nil
  | cons node nodes =>
      obtain ⟨first, hnode, h⟩ := Outcome.bind_eq_ok.mp h
      obtain ⟨rest, hnodes, h⟩ := Outcome.bind_eq_ok.mp h
      rw [← Except.ok.inj h]
      exact .cons (Node.mapM_sameShape hrule hheld hnode)
        (Node.mapAllM_sameShape hrule hheld hnodes)

end

mutual

/-- Nodes of the same shape have their rules in the same order. -/
theorem Node.SameShape.rules {node out : Node} (h : node.SameShape R H out) :
    List.Forall₂ R node.rules out.rules := by
  cases node with
  | rule r =>
      cases h with
      | rule hr => exact .cons hr .nil
  | atStatement head =>
      cases h
      exact .nil
  | atRules head nodes =>
      cases h with
      | atRules _ inside => exact Node.SameShape.rulesAll inside
  | atDeclarations head ds =>
      cases h
      exact .nil

theorem Node.SameShape.rulesAll {nodes outs : List Node}
    (h : List.Forall₂ (Node.SameShape R H) nodes outs) :
    List.Forall₂ R (Node.rulesAll nodes) (Node.rulesAll outs) := by
  cases nodes with
  | nil =>
      cases h
      exact .nil
  | cons node nodes =>
      cases h with
      | cons hnode hnodes =>
          exact List.rel_append (Node.SameShape.rules hnode) (Node.SameShape.rulesAll hnodes)

end

/-- **SHAPE**: steps change rules and lists of declarations in their places. -/
theorem Stylesheet.mapM_sameShape {sheet out : Stylesheet}
    (hrule : ∀ r out, rule r = .ok out → R r out)
    (hheld : ∀ ds out, held ds = .ok out → H ds out) (h : sheet.mapM rule held = .ok out) :
    List.Forall₂ (Node.SameShape R H) sheet.nodes out.nodes := by
  obtain ⟨nodes, hnodes, h⟩ := Outcome.bind_eq_ok.mp h
  rw [← Except.ok.inj h]
  exact Node.mapAllM_sameShape hrule hheld hnodes

/-- Each rule has its own place among the changed ones. -/
theorem Stylesheet.mapM_rules {sheet out : Stylesheet} (hrule : ∀ r out, rule r = .ok out → R r out)
    (h : sheet.mapM rule held = .ok out) : List.Forall₂ R sheet.rules out.rules :=
  Node.SameShape.rulesAll
    (Stylesheet.mapM_sameShape (H := fun _ _ => True) hrule (fun _ _ _ => trivial) h)

end Shape

mutual

/-- A node is changed if all its declarations have what the steps ask for. -/
theorem Node.mapM_progress {node : Node}
    (hrule : ∀ r : Rule, (∀ d ∈ r.declarations, P d) → ∃ out, rule r = .ok out)
    (hheld : ∀ ds : List Declaration, (∀ d ∈ ds, P d) → ∃ out, held ds = .ok out)
    (h : ∀ d ∈ node.declarations, P d) : ∃ out, node.mapM rule held = .ok out := by
  cases node with
  | rule r =>
      obtain ⟨changed, hr⟩ := hrule r h
      exact ⟨_, Outcome.bind_eq_ok.mpr ⟨changed, hr, rfl⟩⟩
  | atStatement head => exact ⟨_, rfl⟩
  | atRules head nodes =>
      obtain ⟨changed, hnodes⟩ := Node.mapAllM_progress hrule hheld h
      exact ⟨_, Outcome.bind_eq_ok.mpr ⟨changed, hnodes, rfl⟩⟩
  | atDeclarations head ds =>
      obtain ⟨changed, hds⟩ := hheld ds h
      exact ⟨_, Outcome.bind_eq_ok.mpr ⟨changed, hds, rfl⟩⟩

theorem Node.mapAllM_progress {nodes : List Node}
    (hrule : ∀ r : Rule, (∀ d ∈ r.declarations, P d) → ∃ out, rule r = .ok out)
    (hheld : ∀ ds : List Declaration, (∀ d ∈ ds, P d) → ∃ out, held ds = .ok out)
    (h : ∀ d ∈ Node.declarationsAll nodes, P d) :
    ∃ out, Node.mapAllM rule held nodes = .ok out := by
  cases nodes with
  | nil => exact ⟨_, rfl⟩
  | cons node nodes =>
      obtain ⟨hhere, hthere⟩ := List.forall_mem_append.mp h
      obtain ⟨first, hnode⟩ := Node.mapM_progress hrule hheld hhere
      obtain ⟨rest, hnodes⟩ := Node.mapAllM_progress hrule hheld hthere
      exact ⟨_, Outcome.bind_eq_ok.mpr
        ⟨first, hnode, Outcome.bind_eq_ok.mpr ⟨rest, hnodes, rfl⟩⟩⟩

end

/-- **NO CHANGE FAILS** where every declaration has what the steps ask for. -/
theorem Stylesheet.mapM_progress {sheet : Stylesheet}
    (hrule : ∀ r : Rule, (∀ d ∈ r.declarations, P d) → ∃ out, rule r = .ok out)
    (hheld : ∀ ds : List Declaration, (∀ d ∈ ds, P d) → ∃ out, held ds = .ok out)
    (h : ∀ d ∈ sheet.declarations, P d) : ∃ out, sheet.mapM rule held = .ok out := by
  obtain ⟨nodes, hnodes⟩ := Node.mapAllM_progress hrule hheld h
  exact ⟨_, Outcome.bind_eq_ok.mpr ⟨nodes, hnodes, rfl⟩⟩

mutual

/-- A change of a node that fails does so at one of its declarations. -/
theorem Node.mapM_fails {node : Node} {e : ε}
    (hrule : ∀ r, rule r = .error e → ∃ d ∈ r.declarations, P d)
    (hheld : ∀ ds, held ds = .error e → ∃ d ∈ ds, P d)
    (h : node.mapM rule held = .error e) : ∃ d ∈ node.declarations, P d := by
  cases node with
  | rule r => exact hrule r (Outcome.error_of_bind_ok h)
  | atStatement head => cases h
  | atRules head nodes => exact Node.mapAllM_fails hrule hheld (Outcome.error_of_bind_ok h)
  | atDeclarations head ds => exact hheld ds (Outcome.error_of_bind_ok h)

theorem Node.mapAllM_fails {nodes : List Node} {e : ε}
    (hrule : ∀ r, rule r = .error e → ∃ d ∈ r.declarations, P d)
    (hheld : ∀ ds, held ds = .error e → ∃ d ∈ ds, P d)
    (h : Node.mapAllM rule held nodes = .error e) : ∃ d ∈ Node.declarationsAll nodes, P d := by
  cases nodes with
  | nil => cases h
  | cons node nodes =>
      rcases Outcome.bind_eq_error h with hnode | ⟨_, _, h⟩
      · obtain ⟨d, hd, hp⟩ := Node.mapM_fails hrule hheld hnode
        exact ⟨d, List.mem_append_left _ hd, hp⟩
      · obtain ⟨d, hd, hp⟩ := Node.mapAllM_fails hrule hheld (Outcome.error_of_bind_ok h)
        exact ⟨d, List.mem_append_right _ hd, hp⟩

end

/-- A change of a stylesheet that fails does so at one of its declarations, if
    that is where the steps fail. -/
theorem Stylesheet.mapM_fails {sheet : Stylesheet} {e : ε}
    (hrule : ∀ r, rule r = .error e → ∃ d ∈ r.declarations, P d)
    (hheld : ∀ ds, held ds = .error e → ∃ d ∈ ds, P d)
    (h : sheet.mapM rule held = .error e) : ∃ d ∈ sheet.declarations, P d :=
  Node.mapAllM_fails hrule hheld (Outcome.error_of_bind_ok h)

end Changes

end ThemeTokens
