/-! How a computation ended: what it gave, or what stopped it, and what that says of its parts. -/
namespace StateTransition

variable {ε σ α β : Type} {e : ε} {r : EStateM.Result ε σ α}

/-- A computation came to an end, and what it gave passes a test. -/
def endsWith (test : α → σ → Bool) : EStateM.Result ε σ α → Bool
  | .ok a s => test a s
  | .error _ _ => false

/-- A computation was stopped, and what stopped it passes a test. -/
def stopsWith (test : ε → Bool) : EStateM.Result ε σ α → Bool
  | .ok _ _ => false
  | .error e _ => test e

theorem exists_of_endsWith {test : α → σ → Bool} (h : endsWith test r) :
    ∃ a s, r = .ok a s ∧ test a s := by
  cases r with
  | ok a s => exact ⟨a, s, rfl, h⟩
  | error e s => cases h

theorem exists_of_stopsWith {test : ε → Bool} (h : stopsWith test r) :
    ∃ e s, r = .error e s ∧ test e := by
  cases r with
  | ok a s => cases h
  | error e s => exact ⟨e, s, rfl, h⟩

theorem ok_of_bind {x : Except ε α} {f : α → Except ε β} {b : β} (h : (x >>= f) = .ok b) :
    ∃ a, x = .ok a ∧ f a = .ok b := by
  cases x with
  | error e => cases h
  | ok a => exact ⟨a, rfl, h⟩

theorem error_of_bind {x : Except ε α} {f : α → Except ε β} (h : (x >>= f) = .error e) :
    x = .error e ∨ ∃ a, x = .ok a ∧ f a = .error e := by
  cases x with
  | error cause =>
    cases h
    exact .inl rfl
  | ok a => exact .inr ⟨a, rfl, h⟩

/-- Two computations one after the other come to an end if both do. -/
theorem bind_eq_ok_iff {x : Except ε α} {f : α → Except ε β} {b : β} :
    (x >>= f) = .ok b ↔ ∃ a, x = .ok a ∧ f a = .ok b := by
  refine ⟨ok_of_bind, ?_⟩
  rintro ⟨a, rfl, h⟩
  exact h

theorem pure_eq_ok_iff {a b : α} : (pure a : Except ε α) = .ok b ↔ a = b :=
  ⟨Except.ok.inj, congrArg _⟩

theorem ok_bind (a : α) (f : α → Except ε β) : (Except.ok a >>= f) = f a := rfl

/-- A check that was passed. -/
theorem ok_of_guard {c : Prop} [Decidable c] {x : Unit → Except ε α} {a : α}
    (h : (if c then throw e >>= x else x ()) = .ok a) : ¬ c ∧ x () = .ok a := by
  split at h
  · cases h
  · next hc => exact ⟨hc, h⟩

/-- Checks of all elements of a list that were passed. -/
theorem ok_of_forM {xs : List α} {check : α → Except ε Unit} (h : xs.forM check = .ok ()) :
    ∀ x ∈ xs, check x = .ok () := by
  induction xs with
  | nil => simp
  | cons x rest ih =>
    obtain ⟨⟨⟩, hx, hrest⟩ := ok_of_bind h
    exact List.forall_mem_cons.mpr ⟨hx, ih hrest⟩

end StateTransition
