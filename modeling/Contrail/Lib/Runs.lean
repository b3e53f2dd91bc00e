import Mathlib

/-! Runs of a step function that may fail: the steps one after another up to
the first failure, what every step keeps holding at the end of a run, and the
state a run that did not fail ends in, read off a view of it that can be
computed. -/
namespace Runs

variable {σ α ε β : Type*}

/-- The steps one after another, up to the first failure. -/
def runAll (step : σ → α → Except ε σ) : σ → List α → Except ε σ
  | s, [] => .ok s
  | s, a :: rest => (step s a).bind fun next => runAll step next rest

/-- A computation followed by another that succeeds: both succeed. -/
theorem exists_of_bind_eq_ok {x : Except ε σ} {f : σ → Except ε β} {b : β} (ran : x.bind f = .ok b) :
    ∃ s, x = .ok s ∧ f s = .ok b := by
  cases x with
  | error fault => cases ran
  | ok s => exact ⟨s, rfl, ran⟩

/-- What every step keeps, a run keeps; the induction is on the steps. -/
theorem runAll_induction {step : σ → α → Except ε σ} {P : σ → Prop}
    (kept : ∀ s a next, P s → step s a = .ok next → P next) :
    ∀ {steps : List α} {s last : σ}, P s → runAll step s steps = .ok last → P last := by
  intro steps
  induction steps with
  | nil =>
    intro s last holds ran
    cases ran
    exact holds
  | cons a rest ih =>
    intro s last holds ran
    obtain ⟨next, stepped, later⟩ := exists_of_bind_eq_ok ran
    exact ih (kept s a next holds stepped) later

/-- A computation that succeeds as seen through `view` succeeds with a value
that `view` sees so. -/
theorem exists_of_map_eq_ok {x : Except ε σ} {view : σ → β} {v : β} (ran : x.map view = .ok v) :
    ∃ s, x = .ok s ∧ view s = v := by
  cases x with
  | error fault => simp [Except.map] at ran
  | ok s =>
    simp only [Except.map, Except.ok.injEq] at ran
    exact ⟨s, rfl, ran⟩

end Runs
