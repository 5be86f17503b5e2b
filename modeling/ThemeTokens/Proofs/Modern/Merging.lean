import ThemeTokens.Modern.Blocks
import ThemeTokens.Proofs.Selector

/-! # Merging blocks

    Blocks with the same declarations become one that lists their selectors.
    What is declared for a property under a selector does not change by that,
    as long as no two blocks had the same selector (`declared_mergeIdentical`).
    And whatever the selectors are, each block is found again in the one that it
    was joined to (`carried_mergeIdentical`). -/

namespace ThemeTokens.Modern

/-- The values that declarations give a property, in order. -/
def valuesFor (property : String) (ds : List Declaration) : List String :=
  (ds.filter fun d => d.property == property).map Declaration.value

/-- The values that blocks declare for a property under a selector: those of
    every block that has the selector in its list. -/
def declared (blocks : List Rule) (selector property : String) : List String :=
  blocks.flatMap fun b =>
    if selector ∈ Selector.split b.selector then valuesFor property b.declarations else []

section Values

variable {selector property : String}

/-- A block declares what it does in front of the others, if the selector is one of
    its list. -/
theorem declared_cons (block : Rule) (blocks : List Rule) :
    declared (block :: blocks) selector property
      = (if selector ∈ Selector.split block.selector
          then valuesFor property block.declarations else [])
        ++ declared blocks selector property := by
  rw [declared, List.flatMap_cons]
  rfl

theorem declared_append (blocks others : List Rule) :
    declared (blocks ++ others) selector property
      = declared blocks selector property ++ declared others selector property :=
  List.flatMap_append

/-- The same declarations give every property the same values. -/
theorem valuesFor_of_same {ds es : List Declaration} (h : sameDeclarations ds es = true) :
    valuesFor property ds = valuesFor property es := by
  induction ds generalizing es with
  | nil =>
      cases es with
      | nil => rfl
      | cons e es => cases h
  | cons d ds ih =>
      cases es with
      | nil => cases h
      | cons e es =>
          rw [sameDeclarations, Bool.and_eq_true, Bool.and_eq_true, beq_iff_eq, beq_iff_eq] at h
          obtain ⟨⟨hproperty, hvalue⟩, hrest⟩ := h
          have hvalues := ih hrest
          rw [valuesFor, valuesFor, List.filter_cons, List.filter_cons, hproperty]
          by_cases he : (e.property == property) = true
          · rw [if_pos he, if_pos he, List.map_cons, List.map_cons, hvalue]
            exact congrArg _ hvalues
          · rw [if_neg he, if_neg he]
            exact hvalues

end Values

theorem sameDeclarations_self (ds : List Declaration) : sameDeclarations ds ds = true := by
  induction ds with
  | nil => rfl
  | cons d ds ih =>
      rw [sameDeclarations, ih, beq_self_eq_true, beq_self_eq_true]
      rfl

/-- One of the blocks has the selector of a block in its list, and the same
    declarations. -/
def Carried (block : Rule) (blocks : List Rule) : Prop :=
  ∃ b ∈ blocks, Selector.Lists b.selector block.selector
    ∧ sameDeclarations b.declarations block.declarations = true

/-- A block in front takes away nothing. -/
theorem Carried.cons {block : Rule} {blocks : List Rule} (h : Carried block blocks)
    (first : Rule) : Carried block (first :: blocks) := by
  obtain ⟨b, hb, hcarries⟩ := h
  exact ⟨b, List.mem_cons_of_mem first hb, hcarries⟩

/-! ## One block more -/

theorem flat_addBlock {block : Rule} {merged : List Rule}
    (h : ∀ b ∈ merged, Selector.Flat b.selector) (hblock : Selector.Flat block.selector) :
    ∀ b ∈ addBlock block merged, Selector.Flat b.selector := by
  induction merged with
  | nil =>
      intro b hb
      rw [List.mem_singleton.mp hb]
      exact hblock
  | cons first rest ih =>
      obtain ⟨hfirst, hrest⟩ := List.forall_mem_cons.mp h
      rw [addBlock]
      split
      · exact List.forall_mem_cons.mpr ⟨hfirst.joined hblock, hrest⟩
      · exact List.forall_mem_cons.mpr ⟨hfirst, ih hrest⟩

/-- A block that is added declares its values under its own selectors, whether
    it is joined to another or not. -/
theorem declared_addBlock {block : Rule} {merged : List Rule} {selector property : String}
    (hflat : ∀ b ∈ merged, Selector.Flat b.selector)
    (hnew : selector ∈ Selector.split block.selector → declared merged selector property = []) :
    declared (addBlock block merged) selector property
      = declared merged selector property ++ declared [block] selector property := by
  induction merged with
  | nil => rfl
  | cons first rest ih =>
      obtain ⟨hfirst, hrest⟩ := List.forall_mem_cons.mp hflat
      rw [addBlock]
      by_cases hsame : sameDeclarations first.declarations block.declarations = true
      · -- The joined block has the values of both under the selectors of both.
        rw [if_pos hsame, declared_cons, declared_cons, declared_cons,
          Selector.split_append hfirst]
        by_cases hmem : selector ∈ Selector.split block.selector
        · have hnone := hnew hmem
          rw [declared_cons] at hnone
          obtain ⟨hhere, hthere⟩ := List.append_eq_nil_iff.mp hnone
          rw [if_pos (List.mem_append_right _ hmem), if_pos hmem, hhere, hthere,
            valuesFor_of_same hsame]
          rfl
        · rw [if_neg hmem]
          have hiff : selector ∈ Selector.split first.selector ++ Selector.split block.selector
              ↔ selector ∈ Selector.split first.selector :=
            List.mem_append.trans (or_iff_left hmem)
          simp only [hiff]
          exact (List.append_nil _).symm
      · rw [if_neg hsame, declared_cons, declared_cons, ih hrest, List.append_assoc]
        intro hmem
        have hnone := hnew hmem
        rw [declared_cons] at hnone
        exact (List.append_eq_nil_iff.mp hnone).2

/-- A block that is added has its own declarations, or leaves others what they
    are. -/
theorem declarations_addBlock {block b : Rule} {merged : List Rule}
    (h : b ∈ addBlock block merged) :
    b.declarations = block.declarations
      ∨ ∃ original ∈ merged, b.declarations = original.declarations := by
  induction merged with
  | nil => exact Or.inl (congrArg Rule.declarations (List.mem_singleton.mp h))
  | cons first rest ih =>
      rw [addBlock] at h
      split at h
      · rcases List.mem_cons.mp h with rfl | h
        · exact Or.inr ⟨first, List.mem_cons_self, rfl⟩
        · exact Or.inr ⟨b, List.mem_cons_of_mem _ h, rfl⟩
      · rcases List.mem_cons.mp h with rfl | h
        · exact Or.inr ⟨b, List.mem_cons_self, rfl⟩
        · rcases ih h with hnew | ⟨original, hmem, heq⟩
          · exact Or.inl hnew
          · exact Or.inr ⟨original, List.mem_cons_of_mem _ hmem, heq⟩

/-- A block that is added is found again. -/
theorem carried_addBlock (block : Rule) (merged : List Rule) :
    Carried block (addBlock block merged) := by
  induction merged with
  | nil =>
      exact ⟨block, List.mem_singleton_self block, Selector.lists_self _, sameDeclarations_self _⟩
  | cons first rest ih =>
      rw [addBlock]
      by_cases hsame : sameDeclarations first.declarations block.declarations = true
      · rw [if_pos hsame]
        exact ⟨_, List.mem_cons_self, Selector.lists_joined _ _, hsame⟩
      · rw [if_neg hsame]
        exact ih.cons first

/-- What was found before is found when another block is added. -/
theorem Carried.addBlock {block : Rule} {merged : List Rule} (h : Carried block merged)
    (other : Rule) : Carried block (Modern.addBlock other merged) := by
  induction merged with
  | nil =>
      obtain ⟨b, hb, -⟩ := h
      cases hb
  | cons first rest ih =>
      obtain ⟨b, hb, hlists, hsame⟩ := h
      rw [Modern.addBlock]
      rcases List.mem_cons.mp hb with rfl | hb
      · -- The first block may get one selector more, and keeps those it has.
        split
        · exact ⟨_, List.mem_cons_self, hlists.joined other.selector, hsame⟩
        · exact ⟨b, List.mem_cons_self, hlists, hsame⟩
      · split
        · exact ⟨b, List.mem_cons_of_mem _ hb, hlists, hsame⟩
        · exact (ih ⟨b, hb, hlists, hsame⟩).cons first

/-! ## All blocks -/

/-- **NOTHING IS LOST**: every block is found again among the merged ones. -/
theorem carried_mergeIdentical {blocks : List Rule} {block : Rule} (h : block ∈ blocks) :
    Carried block (mergeIdentical blocks) := by
  have hstays : ∀ blocks merged : List Rule, Carried block merged →
      Carried block (blocks.foldl (fun merged block => addBlock block merged) merged) := by
    intro blocks
    induction blocks with
    | nil => exact fun merged hcarried => hcarried
    | cons other blocks ih => exact fun merged hcarried => ih _ (hcarried.addBlock other)
  -- What comes before the block does not matter to it, and what follows keeps it.
  obtain ⟨before, after, rfl⟩ := List.append_of_mem h
  rw [mergeIdentical, List.foldl_append, List.foldl_cons]
  exact hstays after _ (carried_addBlock block _)

/-- Merged blocks have the declarations of blocks that were merged. -/
theorem declarations_mergeIdentical {blocks : List Rule} {b : Rule}
    (h : b ∈ mergeIdentical blocks) :
    ∃ original ∈ blocks, b.declarations = original.declarations := by
  have hfold : ∀ blocks merged : List Rule,
      b ∈ blocks.foldl (fun merged block => addBlock block merged) merged →
      ∃ original ∈ merged ++ blocks, b.declarations = original.declarations := by
    intro blocks
    induction blocks with
    | nil =>
        intro merged h
        exact ⟨b, List.mem_append_left _ h, rfl⟩
    | cons block blocks ih =>
        intro merged h
        obtain ⟨original, hmem, heq⟩ := ih _ h
        rcases List.mem_append.mp hmem with hadded | hrest
        · rcases declarations_addBlock hadded with hnew | ⟨first, hfirst, hold⟩
          · exact ⟨block, List.mem_append_right _ List.mem_cons_self, heq.trans hnew⟩
          · exact ⟨first, List.mem_append_left _ hfirst, heq.trans hold⟩
        · exact ⟨original, List.mem_append_right _ (List.mem_cons_of_mem _ hrest), heq⟩
  exact hfold blocks [] h

/-- Blocks with selectors of their own are added one after the other. -/
theorem declared_foldl {blocks merged : List Rule} {property : String}
    (hflat : ∀ b ∈ merged, Selector.Flat b.selector)
    (hsimple : ∀ b ∈ blocks, Selector.Simple b.selector)
    (hnodup : (blocks.map Rule.selector).Nodup)
    (hnew : ∀ b ∈ blocks, declared merged b.selector property = []) (selector : String) :
    declared (blocks.foldl (fun merged block => addBlock block merged) merged) selector property
      = declared merged selector property ++ declared blocks selector property := by
  induction blocks generalizing merged with
  | nil => exact (List.append_nil _).symm
  | cons block blocks ih =>
      obtain ⟨hblock, hsimple⟩ := List.forall_mem_cons.mp hsimple
      obtain ⟨hhere, hnew⟩ := List.forall_mem_cons.mp hnew
      obtain ⟨hfirst, hnodup⟩ := List.nodup_cons.mp hnodup
      have hsplit : ∀ s, s ∈ Selector.split block.selector ↔ s = block.selector := by
        intro s
        rw [Selector.split_simple hblock, List.mem_singleton]
      -- The blocks still to come have other selectors than this one.
      have hadd : ∀ s, declared (addBlock block merged) s property
          = declared merged s property ++ declared [block] s property := by
        intro s
        refine declared_addBlock hflat fun hmem => ?_
        rw [(hsplit s).mp hmem]
        exact hhere
      rw [List.foldl_cons, ih (flat_addBlock hflat hblock.flat) hsimple hnodup, hadd,
        List.append_assoc, ← declared_append, List.singleton_append]
      intro b hb
      rw [hadd, hnew b hb, declared_cons, if_neg]
      · rfl
      · rw [hsplit]
        intro heq
        exact hfirst (List.mem_map.mpr ⟨b, hb, heq⟩)

/-- **MERGING**: blocks with selectors of their own declare the same when they
    are merged. -/
theorem declared_mergeIdentical {blocks : List Rule}
    (hsimple : ∀ b ∈ blocks, Selector.Simple b.selector)
    (hnodup : (blocks.map Rule.selector).Nodup) (selector property : String) :
    declared (mergeIdentical blocks) selector property = declared blocks selector property :=
  declared_foldl (List.forall_mem_nil _) hsimple hnodup (fun _ _ => rfl) selector

end ThemeTokens.Modern
