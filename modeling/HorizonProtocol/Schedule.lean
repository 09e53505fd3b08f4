import Mathlib.Data.List.Basic
import Mathlib.Data.List.Induction

/-!
# Systems under a scheduler

A `Schedule` is a state and a step for each action, which may be impossible in a state. A run is the
list of the actions a scheduler chose, so what holds of all runs holds of every interleaving.

* `Reachable.induction` — the invariant rule.
* `length_le` — a measure that every step lowers bounds the length of every run.
* `finishes` — a system with such a measure that is only stuck when it is done gets done, however it
  is scheduled.
-/

/-- A system that takes one of several actions at a time. -/
structure Schedule (σ α : Type*) where
  init : σ
  step : σ → α → Option σ

namespace Schedule

variable {σ α : Type*} (M : Schedule σ α)

/-- The state after the actions `as`, when each was possible in its turn. -/
def run (as : List α) : Option σ := as.foldlM M.step M.init

@[simp] theorem run_nil : M.run [] = some M.init := rfl

theorem run_append (as bs : List α) :
    M.run (as ++ bs) = (M.run as).bind fun s => bs.foldlM M.step s := by
  unfold run
  rw [List.foldlM_append]
  rfl

theorem run_concat (as : List α) (a : α) :
    M.run (as ++ [a]) = (M.run as).bind fun s => M.step s a := by
  rw [run_append]
  simp

/-- The state `s` ends some run. -/
def Reachable (s : σ) : Prop := ∃ as, M.run as = some s

/-- No action is possible. -/
def Stuck (s : σ) : Prop := ∀ a, M.step s a = none

variable {M} {s s' : σ} {P : σ → Prop} {μ : σ → ℕ}

/-- What holds initially and is kept by every step holds after every run. -/
theorem run_induction (init : P M.init)
    (step : ∀ s a s', P s → M.step s a = some s' → P s') {as : List α} (h : M.run as = some s) :
    P s := by
  induction as using List.reverseRecOn generalizing s with
  | nil =>
      obtain rfl : M.init = s := by simpa using h
      exact init
  | append_singleton as a ih =>
      rw [run_concat] at h
      obtain ⟨r, hr, hstep⟩ := Option.bind_eq_some_iff.mp h
      exact step r a s (ih hr) hstep

/-- **The invariant rule.** -/
theorem Reachable.induction (h : M.Reachable s) (init : P M.init)
    (step : ∀ s a s', P s → M.step s a = some s' → P s') : P s := by
  obtain ⟨as, has⟩ := h
  exact run_induction init step has

/-- **Every run is finite** when, under an invariant, every step lowers a measure. -/
theorem length_le (init : P M.init)
    (step : ∀ s a s', P s → M.step s a = some s' → P s' ∧ μ s' < μ s) {as : List α}
    (h : M.run as = some s) : as.length + μ s ≤ μ M.init := by
  induction as using List.reverseRecOn generalizing s with
  | nil =>
      obtain rfl : M.init = s := by simpa using h
      simp
  | append_singleton as a ih =>
      rw [run_concat] at h
      obtain ⟨r, hr, hstep⟩ := Option.bind_eq_some_iff.mp h
      have hP : P r := run_induction init (fun s a s' hs h => (step s a s' hs h).1) hr
      have hlt := (step r a s hP hstep).2
      have hlen := ih hr
      rw [List.length_append, List.length_singleton]
      omega

/-- **However it is scheduled, it finishes**: a run of such a system can be continued until nothing
is possible, and it is then done if only done states are stuck. -/
theorem finishes {Done : σ → Prop} (init : P M.init)
    (step : ∀ s a s', P s → M.step s a = some s' → P s' ∧ μ s' < μ s)
    (progress : ∀ s, P s → M.Stuck s → Done s) {as : List α} (h : M.run as = some s) :
    ∃ bs s', M.run (as ++ bs) = some s' ∧ Done s' := by
  induction hn : μ s using Nat.strongRecOn generalizing s as with
  | ind n ih =>
      have hP : P s := run_induction init (fun s a s' hs h => (step s a s' hs h).1) h
      by_cases hstuck : M.Stuck s
      · refine ⟨[], s, ?_, progress s hP hstuck⟩
        rw [List.append_nil]
        exact h
      · obtain ⟨a, ha⟩ := not_forall.mp hstuck
        obtain ⟨r, hr⟩ := Option.ne_none_iff_exists'.mp ha
        have hrun : M.run (as ++ [a]) = some r := by
          rw [run_concat, h]
          exact hr
        obtain ⟨bs, s', hbs, hdone⟩ := ih (μ r) (hn ▸ (step s a r hP hr).2) hrun rfl
        refine ⟨a :: bs, s', ?_, hdone⟩
        rw [← hbs, List.append_assoc]
        rfl

end Schedule
