import Mathlib.Data.List.Basic
import Mathlib.Data.List.Infix

/-!
# Machines that answer one call at a time

A `Machine` is a state, and a step that takes a call to the next state and an answer. Nothing is
assumed about the calls: a run is any finite list of them, including calls the machine refuses.

* `run_induction` — what holds initially and survives every step holds after every run.
* `trace` — the calls of a run, each with the state it met and the answer it got.
* `forall_reached_iff` — a property that one call keeps exactly under a condition holds throughout a
  run exactly when all its calls meet the condition.
-/

/-- A state machine whose step answers the call it is given. -/
structure Machine (σ ι ω : Type*) where
  init : σ
  step : σ → ι → σ × ω

namespace Machine

variable {σ ι ω : Type*} (M : Machine σ ι ω)

/-- The state after one call. -/
def next (s : σ) (i : ι) : σ := (M.step s i).1

/-- The answer to one call. -/
def answer (s : σ) (i : ι) : ω := (M.step s i).2

/-- The state after the calls `is`, starting from `s`. -/
def runFrom (s : σ) (is : List ι) : σ := is.foldl M.next s

/-- The state after the calls `is`, starting from the initial state. -/
def run (is : List ι) : σ := M.runFrom M.init is

/-- One call of a run: the state it met, the call and the answer. -/
structure Entry (σ ι ω : Type*) where
  state : σ
  call : ι
  answer : ω

/-- The calls of a run from `s`, in order. -/
def traceFrom : σ → List ι → List (Entry σ ι ω)
  | _, [] => []
  | s, i :: is => ⟨s, i, M.answer s i⟩ :: traceFrom (M.next s i) is

/-- The calls of a run, in order. -/
def trace (is : List ι) : List (Entry σ ι ω) := M.traceFrom M.init is

@[simp] theorem runFrom_nil (s : σ) : M.runFrom s [] = s := rfl

@[simp] theorem runFrom_cons (s : σ) (i : ι) (is : List ι) :
    M.runFrom s (i :: is) = M.runFrom (M.next s i) is := rfl

theorem runFrom_append (s : σ) (is js : List ι) :
    M.runFrom s (is ++ js) = M.runFrom (M.runFrom s is) js := by
  simp [runFrom, List.foldl_append]

@[simp] theorem run_nil : M.run [] = M.init := rfl

theorem run_append (is js : List ι) : M.run (is ++ js) = M.runFrom (M.run is) js :=
  M.runFrom_append _ is js

@[simp] theorem run_concat (is : List ι) (i : ι) : M.run (is ++ [i]) = M.next (M.run is) i := by
  rw [run_append, runFrom_cons, runFrom_nil]

@[simp] theorem trace_nil : M.trace [] = [] := rfl

theorem traceFrom_append (s : σ) (is js : List ι) :
    M.traceFrom s (is ++ js) = M.traceFrom s is ++ M.traceFrom (M.runFrom s is) js := by
  induction is generalizing s with
  | nil => rfl
  | cons i is ih => simp [traceFrom, ih]

@[simp] theorem trace_concat (is : List ι) (i : ι) :
    M.trace (is ++ [i]) = M.trace is ++ [⟨M.run is, i, M.answer (M.run is) i⟩] := by
  unfold trace
  rw [traceFrom_append]
  rfl

/-- **The invariant rule**: what holds initially and is kept by every step holds after every run. -/
theorem run_induction {P : σ → Prop} (init : P M.init) (step : ∀ s i, P s → P (M.next s i))
    (is : List ι) : P (M.run is) := by
  induction is using List.reverseRecOn with
  | nil => exact init
  | append_singleton is i ih =>
      rw [run_concat]
      exact step _ _ ih

/-- The invariant rule from any state. -/
theorem runFrom_induction {P : σ → Prop} {s : σ} (init : P s)
    (step : ∀ s i, P s → P (M.next s i)) (is : List ι) : P (M.runFrom s is) := by
  induction is generalizing s with
  | nil => exact init
  | cons i is ih => exact ih (step s i init)

/-- **The exactness rule**: when one call keeps a property exactly under a condition on the state it
meets, the states a run passes through all have the property exactly when its calls all meet the
condition. -/
theorem forall_reached_iff {P : σ → Prop} {C : σ → ι → Prop} (init : P M.init)
    (step : ∀ pre i, P (M.run pre) → (P (M.next (M.run pre) i) ↔ C (M.run pre) i))
    (is : List ι) :
    (∀ pre, pre <+: is → P (M.run pre)) ↔ ∀ e ∈ M.trace is, C e.state e.call := by
  induction is using List.reverseRecOn with
  | nil =>
      constructor
      · intro _ e he
        cases he
      · intro _ pre hpre
        rw [List.prefix_nil.mp hpre]
        exact init
  | append_singleton is i ih =>
      rw [trace_concat, List.forall_mem_append, ← ih, List.forall_mem_singleton]
      constructor
      · intro h
        have hold : ∀ pre, pre <+: is → P (M.run pre) :=
          fun pre hpre => h pre (hpre.trans (List.prefix_append _ _))
        refine ⟨hold, (step is i (hold is (List.prefix_refl _))).mp ?_⟩
        rw [← run_concat]
        exact h _ (List.prefix_refl _)
      · intro h pre hpre
        rcases List.prefix_concat_iff.mp hpre with hlast | hold
        · rw [hlast, run_concat]
          exact (step is i (h.1 is (List.prefix_refl _))).mpr h.2
        · exact h.1 pre hold

end Machine
