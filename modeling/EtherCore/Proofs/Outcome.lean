import EtherCore.Error

/-!
Outcomes of steps in sequence: the whole succeeds exactly if every step does, and its errors are
those of the steps (`FailsOnly.bind`).
-/

namespace EtherCore.Outcome

variable {α β : Type}

theorem bind_eq_ok_iff {x : Outcome α} {f : α → Outcome β} {b : β} :
    (x >>= f) = .ok b ↔ ∃ a, x = .ok a ∧ f a = .ok b := by
  cases x <;> simp [bind, Except.bind]

theorem bind_eq_error_iff {x : Outcome α} {f : α → Outcome β} {e : Error} :
    (x >>= f) = .error e ↔ x = .error e ∨ ∃ a, x = .ok a ∧ f a = .error e := by
  cases x <;> simp [bind, Except.bind]

theorem bind_of_eq_ok {x : Outcome α} {a : α} (h : x = .ok a) (f : α → Outcome β) :
    (x >>= f) = f a := by
  rw [h]
  rfl

theorem pure_eq_ok_iff {a b : α} : (pure a : Outcome α) = .ok b ↔ a = b := by
  simp [pure, Except.pure]

theorem map_eq_ok_iff {x : Outcome α} {f : α → β} {b : β} :
    x.map f = .ok b ↔ ∃ a, x = .ok a ∧ f a = b := by
  cases x <;> simp [Except.map]

theorem map_eq_error_iff {x : Outcome α} {f : α → β} {e : Error} :
    x.map f = .error e ↔ x = .error e := by
  cases x <;> simp [Except.map]

theorem map_bind {γ : Type} (x : Outcome α) (f : α → Outcome β) (g : β → γ) :
    (x >>= f).map g = x >>= fun a => (f a).map g := by
  cases x <;> rfl

/-- Outcomes that a function does not tell apart fail with one error or have such values. -/
theorem cases_of_map_eq {x y : Outcome α} {f : α → β} (h : x.map f = y.map f) :
    (∃ e, x = .error e ∧ y = .error e) ∨ ∃ v w, x = .ok v ∧ y = .ok w ∧ f v = f w := by
  rcases x with e | v <;> rcases y with e' | w
  · cases h
    exact Or.inl ⟨e, rfl, rfl⟩
  · cases h
  · cases h
  · exact Or.inr ⟨v, w, rfl, rfl, Except.ok.inj h⟩

theorem exists_of_isOk {x : Outcome α} (h : x.isOk = true) : ∃ a, x = .ok a := by
  cases x with
  | error e => cases h
  | ok a => exact ⟨a, rfl⟩

/-- If a check says so, a run has a value, which passes the check. -/
theorem exists_of_any {γ : Type} {x : Outcome α × γ} {p : α → Bool}
    (h : x.1.toOption.any p = true) : ∃ a g, x = (.ok a, g) ∧ p a = true := by
  obtain ⟨o, g⟩ := x
  cases o with
  | error e => cases h
  | ok a => exact ⟨a, g, rfl, h⟩

/-! ### Errors of a kind -/

/-- The errors of an outcome are all of a kind. -/
def FailsOnly (Q : Error → Prop) (x : Outcome α) : Prop := ∀ e, x = .error e → Q e

namespace FailsOnly

variable {Q R : Error → Prop} {x : Outcome α}

theorem ok (v : α) : FailsOnly Q (.ok v) := by
  intro e he
  cases he

theorem fail {e : Error} (h : Q e) : FailsOnly Q (.error e : Outcome α) := by
  intro e' he
  cases he
  exact h

theorem mono (hx : FailsOnly Q x) (h : ∀ e, Q e → R e) : FailsOnly R x :=
  fun e he => h e (hx e he)

/-- The error of an outcome goes on as that of another. -/
theorem error (hx : FailsOnly Q x) {e : Error} (h : x = .error e) :
    FailsOnly Q (.error e : Outcome β) :=
  fail (hx e h)

theorem bind {f : α → Outcome β} (hx : FailsOnly Q x) (hf : ∀ v, x = .ok v → FailsOnly Q (f v)) :
    FailsOnly Q (x >>= f) := by
  intro e he
  rcases bind_eq_error_iff.1 he with h | ⟨v, hv, h⟩
  · exact hx e h
  · exact hf v hv e h

theorem map (hx : FailsOnly Q x) (f : α → β) : FailsOnly Q (f <$> x) := by
  cases h : x with
  | ok v => exact ok _
  | error e => exact hx.error h

end FailsOnly

end EtherCore.Outcome
