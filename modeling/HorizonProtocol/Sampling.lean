import Mathlib.Data.List.Basic
import Mathlib.Data.Nat.Basic

/-!
# Programs that draw random numbers

A program draws from a generator and may raise. What a test of random inputs can find is a question
about every state of every generator: `Always` says that a program answers, and of what kind its
answer is, whatever is drawn. Its rules go along the program, and `always_trials` is the one for a
loop of trials that collects what each of them found.
-/

namespace HorizonProtocol.Sampling

/-- A generator of random numbers below a bound. -/
structure Generator (σ : Type) where
  below : Nat → σ → Nat × σ
  below_lt : ∀ {n : Nat} (s : σ), 0 < n → (below n s).1 < n

inductive DrawError (ε : Type) where
  /-- `ValueError`, of a range with nothing in it. -/
  | emptyRange
  /-- `IndexError`, of a sequence with nothing in it. -/
  | emptySequence
  | raised (e : ε)

/-- A program that draws from a generator in state `σ`. -/
abbrev Draws (σ ε : Type) (α : Type) := StateT σ (Except (DrawError ε)) α

variable {σ ε α β : Type}

def raise (e : ε) : Draws σ ε α := throw (.raised e)

/-- The answer of a call that draws nothing. -/
def ofExcept : Except ε α → Draws σ ε α
  | .ok a => pure a
  | .error e => raise e

/-- The same program among others, which raise more. -/
def mapError {ε' : Type} (f : ε → ε') (x : Draws σ ε α) : Draws σ ε' α := fun s =>
  match x.run s with
  | .ok r => .ok r
  | .error .emptyRange => .error .emptyRange
  | .error .emptySequence => .error .emptySequence
  | .error (.raised e) => .error (.raised (f e))

variable (g : Generator σ)

/-- A number from `0` on, below `n`. -/
def randrange (n : Nat) : Draws σ ε Nat :=
  if n = 0 then throw .emptyRange else modifyGet (g.below n)

/-- A number from `a` to `b`, with both. -/
def randint (a b : Int) : Draws σ ε Int := do
  let k ← randrange g (b - a + 1).toNat
  pure (a + k)

def choice (l : List α) : Draws σ ε α := do
  if l.isEmpty then throw .emptySequence
  let i ← randrange g l.length
  match l[i]? with
  | some a => pure a
  | none => throw .emptySequence

/-- One trial after the other, with what they found in this order. -/
def collect (body : Nat → Draws σ ε (List β)) : List Nat → Draws σ ε (List β)
  | [] => pure []
  | i :: is => do
      let found ← body i
      let rest ← collect body is
      pure (found ++ rest)

/-- `for i in range(n)`. -/
def trials (n : Nat) (body : Nat → Draws σ ε (List β)) : Draws σ ε (List β) :=
  collect body (List.range n)

/-! ## What holds whatever is drawn -/

/-- From every state the program answers, and the answer satisfies `P`. -/
def Always (x : Draws σ ε α) (P : α → Prop) : Prop :=
  ∀ s, ∃ a s', x.run s = .ok (a, s') ∧ P a

variable {g} {P : α → Prop} {Q : β → Prop}

theorem always_pure {a : α} (h : P a) : Always (pure a : Draws σ ε α) P :=
  fun s => ⟨a, s, rfl, h⟩

theorem always_bind {x : Draws σ ε α} {f : α → Draws σ ε β}
    (h : Always x fun a => Always (f a) Q) : Always (x >>= f) Q := by
  intro s
  obtain ⟨a, s', hrun, hf⟩ := h s
  obtain ⟨b, s'', hrun', hb⟩ := hf s'
  refine ⟨b, s'', ?_, hb⟩
  rw [StateT.run_bind, hrun]
  exact hrun'

theorem Always.mono {P' : α → Prop} {x : Draws σ ε α} (hx : Always x P) (h : ∀ a, P a → P' a) :
    Always x P' := by
  intro s
  obtain ⟨a, s', hrun, ha⟩ := hx s
  exact ⟨a, s', hrun, h a ha⟩

theorem always_ofExcept {x : Except ε α} {a : α} (hx : x = .ok a) (h : P a) :
    Always (ofExcept x : Draws σ ε α) P := by
  rw [hx]
  exact always_pure h

theorem always_mapError {ε' : Type} {f : ε → ε'} {x : Draws σ ε α} (hx : Always x P) :
    Always (mapError f x) P := by
  intro s
  obtain ⟨a, s', hrun, ha⟩ := hx s
  refine ⟨a, s', ?_, ha⟩
  show mapError f x s = _
  rw [mapError, hrun]

theorem always_ite {c : Prop} [Decidable c] {x y : Draws σ ε α} (hx : c → Always x P)
    (hy : ¬ c → Always y P) : Always (if c then x else y) P := by
  by_cases hc : c
  · rw [if_pos hc]
    exact hx hc
  · rw [if_neg hc]
    exact hy hc

theorem always_randrange {n : Nat} {P : Nat → Prop} (hn : 0 < n) (h : ∀ k < n, P k) :
    Always (randrange g n : Draws σ ε Nat) P := by
  intro s
  refine ⟨(g.below n s).1, (g.below n s).2, ?_, h _ (g.below_lt s hn)⟩
  rw [randrange, if_neg (Nat.pos_iff_ne_zero.mp hn)]
  rfl

theorem always_randint {a b : Int} {P : Int → Prop} (hab : a ≤ b)
    (h : ∀ n, a ≤ n → n ≤ b → P n) : Always (randint g a b : Draws σ ε Int) P := by
  refine always_bind (always_randrange (by omega) fun k hk => always_pure ?_)
  apply h <;> omega

theorem always_choice {l : List α} (hl : l ≠ []) (h : ∀ a ∈ l, P a) :
    Always (choice g l : Draws σ ε α) P := by
  have hempty : ¬ l.isEmpty := by rwa [List.isEmpty_iff]
  rw [choice, if_neg hempty]
  refine always_bind (always_randrange (List.length_pos_iff.mpr hl) fun i hi => ?_)
  rw [List.getElem?_eq_getElem hi]
  exact always_pure (h _ (List.getElem_mem hi))

theorem always_collect {body : Nat → Draws σ ε (List β)} {is : List Nat}
    (h : ∀ i ∈ is, Always (body i) fun found => found = []) :
    Always (collect body is) fun found => found = [] := by
  induction is with
  | nil => exact always_pure rfl
  | cons i is ih =>
      rw [List.forall_mem_cons] at h
      refine always_bind (h.1.mono fun found hfound => always_bind ((ih h.2).mono ?_))
      intro rest hrest
      rw [hfound, hrest]
      exact always_pure rfl

/-- **Trials that never find anything** have nothing to report. -/
theorem always_trials {n : Nat} {body : Nat → Draws σ ε (List β)}
    (h : ∀ i < n, Always (body i) fun found => found = []) :
    Always (trials n body) fun found => found = [] :=
  always_collect fun i hi => h i (List.mem_range.mp hi)

end HorizonProtocol.Sampling
