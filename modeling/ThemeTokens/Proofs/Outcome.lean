import ThemeTokens.Error

/-! # Outcomes of steps that can fail

    Nearly every operation of the library is a chain of steps of which each
    may fail.  The chain has a result exactly when every step has one; these
    lemmas take a chain apart, so that no proof about an operation has to look
    into the chaining itself. -/

namespace ThemeTokens.Outcome

variable {ε α β : Type}

/-- An outcome has a result exactly when it is a success. -/
theorem toOption_eq_some_iff {x : Except ε α} {a : α} :
    x.toOption = some a ↔ x = .ok a := by
  cases x with
  | error e =>
      constructor
      · intro h
        cases h
      · intro h
        cases h
  | ok a' =>
      constructor
      · intro h
        exact congrArg Except.ok (Option.some.inj h)
      · intro h
        exact congrArg some (Except.ok.inj h)

/-- What is known of the result of a chain that was run holds of a success. -/
theorem exists_ok_of_map {x : Except ε α} {f : α → β} {b : β} (h : x.toOption.map f = some b) :
    ∃ a, x = .ok a ∧ f a = b := by
  obtain ⟨a, ha, hf⟩ := Option.map_eq_some_iff.mp h
  exact ⟨a, toOption_eq_some_iff.mp ha, hf⟩

/-- A chain that was run to a result is a success. -/
theorem exists_ok_of_isSome {x : Except ε α} (h : x.toOption.isSome = true) :
    ∃ a, x = .ok a := by
  obtain ⟨a, ha⟩ := Option.isSome_iff_exists.mp h
  exact ⟨a, toOption_eq_some_iff.mp ha⟩

/-- After a success the chain goes on. -/
@[simp] theorem ok_bind (a : α) (f : α → Except ε β) : (.ok a >>= f) = f a := rfl

/-- A success has no failure to rename. -/
@[simp] theorem mapError_ok {ε' : Type} (g : ε → ε') (a : α) :
    (Except.ok a : Except ε α).mapError g = .ok a := rfl

/-- Failures renamed at the end of a chain are renamed at each step. -/
theorem mapError_bind {ε' : Type} (g : ε → ε') (x : Except ε α) (f : α → Except ε β) :
    (x >>= f).mapError g = (x.mapError g >>= fun a => (f a).mapError g) := by
  cases x with
  | error e => rfl
  | ok a => rfl

/-- A chain of two steps succeeds exactly when both do. -/
theorem bind_eq_ok {x : Except ε α} {f : α → Except ε β} {b : β} :
    (x >>= f) = .ok b ↔ ∃ a, x = .ok a ∧ f a = .ok b := by
  cases x with
  | error e =>
      constructor
      · intro h
        cases h
      · rintro ⟨a, h, -⟩
        cases h
  | ok a =>
      constructor
      · intro h
        exact ⟨a, rfl, h⟩
      · rintro ⟨a', h, hf⟩
        rw [Except.ok.inj h]
        exact hf

/-- A chain that puts one thing in front of the rest succeeds exactly when the rest
    does. -/
theorem bind_cons_eq_ok {x : Except ε (List α)} {a : α} {all : List α} :
    (do
        let rest ← x
        return a :: rest) = .ok all ↔ ∃ rest, x = .ok rest ∧ a :: rest = all := by
  rw [bind_eq_ok]
  exact exists_congr fun rest => and_congr_right fun _ => ⟨Except.ok.inj, congrArg Except.ok⟩

/-- A changed result comes from a result. -/
theorem map_eq_ok {x : Except ε α} {f : α → β} {b : β} :
    (f <$> x) = .ok b ↔ ∃ a, x = .ok a ∧ f a = b := by
  cases x with
  | error e =>
      constructor
      · intro h
        cases h
      · rintro ⟨a, h, -⟩
        cases h
  | ok a =>
      constructor
      · intro h
        exact ⟨a, rfl, Except.ok.inj h⟩
      · rintro ⟨a', h, hf⟩
        rw [Except.ok.inj h, ← hf]
        rfl

/-- What is done to a result does not change a failure. -/
theorem map_eq_error {x : Except ε α} {f : α → β} {e : ε} : f <$> x = .error e ↔ x = .error e := by
  cases x with
  | error e' =>
      constructor
      · intro h
        exact congrArg Except.error (Except.error.inj h)
      · intro h
        exact congrArg Except.error (Except.error.inj h)
  | ok a =>
      constructor
      · intro h
        cases h
      · intro h
        cases h

/-- A chain of two steps fails with what the first of them that fails does. -/
theorem bind_eq_error_iff {x : Except ε α} {f : α → Except ε β} {e : ε} :
    (x >>= f) = .error e ↔ x = .error e ∨ ∃ a, x = .ok a ∧ f a = .error e := by
  cases x with
  | error e' =>
      constructor
      · intro h
        have he : e' = e := Except.error.inj h
        exact Or.inl (congrArg Except.error he)
      · rintro (h | ⟨a, h, -⟩)
        · rw [Except.error.inj h]
          rfl
        · cases h
  | ok a =>
      constructor
      · intro h
        exact Or.inr ⟨a, rfl, h⟩
      · rintro (h | ⟨a', h, hf⟩)
        · cases h
        · rw [Except.ok.inj h]
          exact hf

/-- What a chain of two steps fails with is a failure of one of them. -/
theorem bind_eq_error {x : Except ε α} {f : α → Except ε β} {e : ε}
    (h : (x >>= f) = .error e) :
    x = .error e ∨ ∃ a, x = .ok a ∧ f a = .error e :=
  bind_eq_error_iff.mp h

/-- A chain that ends with a result of its first step fails where that does. -/
theorem error_of_bind_ok {x : Except ε α} {f : α → β} {e : ε}
    (h : (x >>= fun a => .ok (f a)) = .error e) : x = .error e := by
  rcases bind_eq_error h with hx | ⟨a, -, hret⟩
  · exact hx
  · cases hret

/-- A check of every member of a list succeeds exactly when each check does. -/
theorem forM_eq_ok {f : α → Except ε Unit} {l : List α} :
    l.forM f = .ok () ↔ ∀ a ∈ l, f a = .ok () := by
  induction l with
  | nil =>
      constructor
      · intro _ a ha
        cases ha
      · intro _
        rfl
  | cons a l ih =>
      show (f a >>= fun _ => l.forM f) = .ok () ↔ _
      rw [bind_eq_ok, List.forall_mem_cons, ← ih]
      constructor
      · rintro ⟨⟨⟩, ha, hl⟩
        exact ⟨ha, hl⟩
      · rintro ⟨ha, hl⟩
        exact ⟨(), ha, hl⟩

/-- A check of every member of a list fails at the first member that does. -/
theorem forM_eq_error {f : α → Except ε Unit} {l : List α} {e : ε} :
    l.forM f = .error e ↔ ∃ before a after, l = before ++ a :: after
      ∧ (∀ b ∈ before, f b = .ok ()) ∧ f a = .error e := by
  induction l with
  | nil =>
      constructor
      · intro h
        cases h
      · rintro ⟨before, a, after, h, -⟩
        cases before with
        | nil => cases h
        | cons b before => cases h
  | cons first l ih =>
      show (f first >>= fun _ => l.forM f) = .error e ↔ _
      rw [bind_eq_error_iff]
      constructor
      · rintro (hfirst | ⟨⟨⟩, hfirst, hrest⟩)
        · exact ⟨[], first, l, rfl, List.forall_mem_nil _, hfirst⟩
        · obtain ⟨before, a, after, rfl, hpass, hfail⟩ := ih.mp hrest
          exact ⟨first :: before, a, after, rfl, List.forall_mem_cons.mpr ⟨hfirst, hpass⟩, hfail⟩
      · rintro ⟨before, a, after, hl, hpass, hfail⟩
        cases before with
        | nil =>
            rw [(List.cons.inj hl).1]
            exact Or.inl hfail
        | cons b before =>
            obtain ⟨hb, hbefore⟩ := List.forall_mem_cons.mp hpass
            rw [(List.cons.inj hl).1]
            exact Or.inr ⟨(), hb, ih.mpr ⟨before, a, after, (List.cons.inj hl).2, hbefore, hfail⟩⟩

/-- Giving a failure a place leaves a success as it is. -/
theorem located_eq_ok {here : Location} {x : Except ThemeError α} {a : α} :
    located here x = .ok a ↔ x = .ok a := by
  cases x with
  | error e =>
      constructor
      · intro h
        cases h
      · intro h
        cases h
  | ok a' => exact Iff.rfl

/-- What fails in a place fails with the failure that it had, at that place. -/
theorem located_eq_error {here : Location} {x : Except ThemeError α} {e : ThemeError} :
    located here x = .error e ↔ ∃ e', x = .error e' ∧ e'.located here = e := by
  cases x with
  | error e' =>
      constructor
      · intro h
        exact ⟨e', rfl, Except.error.inj h⟩
      · rintro ⟨other, hother, rfl⟩
        rw [Except.error.inj hother]
        rfl
  | ok a =>
      constructor
      · intro h
        cases h
      · rintro ⟨e', h, -⟩
        cases h

/-- The failure of an outcome, if it is one. -/
def failure? : Except ε α → Option ε
  | .error e => some e
  | .ok _ => none

theorem failure?_eq_some_iff {x : Except ε α} {e : ε} : failure? x = some e ↔ x = .error e := by
  cases x with
  | error e' =>
      constructor
      · intro h
        exact congrArg Except.error (Option.some.inj h)
      · intro h
        exact congrArg some (Except.error.inj h)
  | ok a =>
      constructor
      · intro h
        cases h
      · intro h
        cases h

end ThemeTokens.Outcome
