/-!
# Steps that may fail

A step ends in a result or in an error, and the first error ends a sequence of steps.

* `toOption_eq_some_iff`, `exists_of_isOk` — a success, and what shows it;
* `bind_eq_ok_iff`, `mapError_eq_ok_iff` — two steps, and a step whose error is worded differently;
* `foldlM_invariant` — what every step of a fold keeps, up to the end or to the first error.
-/

namespace EventSchema

variable {ε ε' α β : Type}

/-- A result that is kept as an option was a success. -/
theorem toOption_eq_some_iff {result : Except ε α} {a : α} :
    result.toOption = some a ↔ result = .ok a := by
  cases result <;> simp [Except.toOption]

/-- What is not an error is a success. -/
theorem exists_of_isOk {result : Except ε α} (h : result.isOk = true) :
    ∃ a, result = .ok a := by
  cases result with
  | ok a => exact ⟨a, rfl⟩
  | error e => cases h

/-- Two steps succeed if the first one does, and the second one does with its result. -/
theorem bind_eq_ok_iff {step : Except ε α} {next : α → Except ε β} {b : β} :
    (do next (← step)) = .ok b ↔ ∃ a, step = .ok a ∧ next a = .ok b := by
  cases step with
  | error e => simp [bind, Except.bind]
  | ok a => simp [bind, Except.bind]

/-- A result whose error is worded differently is a success if it was one. -/
theorem mapError_eq_ok_iff {f : ε → ε'} {result : Except ε α} {a : α} :
    result.mapError f = .ok a ↔ result = .ok a := by
  cases result with
  | error e => exact ⟨nofun, nofun⟩
  | ok b =>
    constructor
    · intro h
      rw [Except.ok.inj h]
    · intro h
      rw [Except.ok.inj h]
      rfl

/-- What each step of a fold keeps holds at its end, or up to the first element that fails. -/
theorem foldlM_invariant {σ : Type} {f : σ → α → Except ε σ} {P : List α → σ → Prop}
    (hstep : ∀ done s x s', P done s → f s x = .ok s' → P (done ++ [x]) s') (xs done : List α)
    (s : σ) (hs : P done s) :
    (∃ s', xs.foldlM f s = .ok s' ∧ P (done ++ xs) s') ∨
      ∃ e before x rest s', xs.foldlM f s = .error e ∧ xs = before ++ x :: rest ∧
        P (done ++ before) s' ∧ f s' x = .error e := by
  induction xs generalizing done s with
  | nil => exact .inl ⟨s, rfl, by simpa using hs⟩
  | cons x xs ih =>
    rw [List.foldlM_cons]
    cases hx : f s x with
    | error e => exact .inr ⟨e, [], x, xs, s, rfl, rfl, by simpa using hs, hx⟩
    | ok s₁ =>
      rcases ih (done ++ [x]) s₁ (hstep done s x s₁ hs hx) with
        ⟨s', hok, hs'⟩ | ⟨e, before, y, rest, s', herror, rfl, hs', hy⟩
      · exact .inl ⟨s', hok, by simpa using hs'⟩
      · exact .inr ⟨e, x :: before, y, rest, s', herror, rfl, by simpa using hs', hy⟩

end EventSchema
