import Mathlib

/-!
# Runs of a partial step function

A system given by a set of initial states and a partial step function
`step : σ → α → Except ε σ`: an action either moves the system to its next
state, or fails with an error (an action that is not enabled, a check that
rejects it, a panic), and then the state does not change.

* `Reachable`: the states reached from an initial state by successful steps;
* `run`: the state after a list of actions, failing at the first failing one;
* `Reachable.run`, `Reachable.induction`: a run stays reachable, and a
  property that holds initially and is kept by every successful step holds in
  every reachable state;
* `Allowed`, `run_induction`: a property kept by every step that a condition
  on the state allows holds at the end of a run of allowed steps;
* `Reachable.of_run_test`: a concrete run, evaluated, gives a reachable state.
-/

namespace Transition

variable {σ α ε : Type*} (init : σ → Prop) (step : σ → α → Except ε σ)

/-- The states reached from an initial state by successful steps. -/
inductive Reachable : σ → Prop
  | init {s : σ} : init s → Reachable s
  | step {s s' : σ} {a : α} : Reachable s → step s a = .ok s' → Reachable s'

/-- The state after the actions `l` in turn, or the error of the first one
    that fails. -/
def run : σ → List α → Except ε σ
  | s, [] => .ok s
  | s, a :: l => (step s a).bind fun s' => run s' l

/-- The actions `l`, in turn from `s`, each allowed by `ok` in the state it
    is taken in. -/
def Allowed (ok : σ → α → Prop) : σ → List α → Prop
  | _, [] => True
  | s, a :: l => ok s a ∧ ∀ s', step s a = .ok s' → Allowed ok s' l

variable {init step}

@[simp]
theorem run_nil (s : σ) : run step s [] = .ok s := rfl

theorem run_cons (s : σ) (a : α) (l : List α) :
    run step s (a :: l) = (step s a).bind fun s' => run step s' l := rfl

/-- A successful run is a successful step followed by a successful run. -/
theorem run_cons_ok {s s' : σ} {a : α} {l : List α} (h : run step s (a :: l) = .ok s') :
    ∃ s₁, step s a = .ok s₁ ∧ run step s₁ l = .ok s' := by
  rw [run_cons] at h
  cases hs : step s a with
  | error e => rw [hs] at h; cases h
  | ok s₁ => rw [hs] at h; exact ⟨s₁, rfl, h⟩

/-- A successful run from a reachable state ends in a reachable state. -/
theorem Reachable.run {s s' : σ} {l : List α} (hs : Reachable init step s)
    (h : Transition.run step s l = .ok s') : Reachable init step s' := by
  induction l generalizing s with
  | nil => cases h; exact hs
  | cons a l ih =>
    obtain ⟨s₁, h₁, h'⟩ := run_cons_ok h
    exact ih (hs.step h₁) h'

/-- The induction principle for invariants: a property of the initial states
    kept by every successful step holds in every reachable state. -/
theorem Reachable.induction {P : σ → Prop} (h₀ : ∀ s, init s → P s)
    (h₁ : ∀ s a s', P s → step s a = .ok s' → P s') {s : σ} (hs : Reachable init step s) :
    P s := by
  induction hs with
  | init hi => exact h₀ _ hi
  | step _ hst ih => exact h₁ _ _ _ ih hst

/-- A property kept by every successful step that `ok` allows holds at the
    end of a successful run of allowed actions. -/
theorem run_induction {ok : σ → α → Prop} {P : σ → Prop}
    (h : ∀ s a s', P s → ok s a → step s a = .ok s' → P s') :
    ∀ {l : List α} {s s' : σ}, P s → Allowed step ok s l → run step s l = .ok s' → P s'
  | [], s, s', hs, _, hrun => by
    cases hrun
    exact hs
  | a :: l, s, s', hs, ⟨hok, hl⟩, hrun => by
    obtain ⟨s₁, h₁, hrun⟩ := run_cons_ok hrun
    exact run_induction h (h s a s₁ hs hok h₁) (hl s₁ h₁) hrun

/-- A state reachable from one initial state is reachable. -/
theorem Reachable.of_init {s₀ s : σ} (h₀ : init s₀) (hs : Reachable (· = s₀) step s) :
    Reachable init step s := by
  induction hs with
  | init h => exact .init (h ▸ h₀)
  | step _ hst ih => exact ih.step hst

/-- A run from the result of a successful start whose last state passes a
    Boolean test, as `decide` checks it: the test holds of a state reachable
    from the start. -/
theorem Reachable.of_run_test {start : Except ε σ} {l : List α} {p : σ → σ → Bool}
    (h : (start.toOption.bind fun s₀ => (Transition.run step s₀ l).toOption.map (p s₀)) = some true) :
    ∃ s₀ s, start = .ok s₀ ∧ Reachable (· = s₀) step s ∧ p s₀ s = true := by
  cases hs₀ : start with
  | error e => simp [hs₀, Except.toOption] at h
  | ok s₀ =>
    cases hs : Transition.run step s₀ l with
    | error e => simp [hs₀, hs, Except.toOption] at h
    | ok s =>
      simp only [hs₀, hs, Except.toOption, Option.bind_some, Option.map_some, Option.some.injEq] at h
      have h₀ : Reachable (· = s₀) step s₀ := .init rfl
      exact ⟨s₀, s, rfl, h₀.run hs, h⟩

end Transition
