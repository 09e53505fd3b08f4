import Mathlib.Algebra.Ring.Basic
import Mathlib.Data.List.Basic
import Mathlib.Tactic.LinearCombination

/-!
# Chains of masked answers

In a commutative ring, a round is a challenge `r` and an answer `y`, and a secret `a` answers it when
`a + prev * r = y` for the secret `prev` of the round before. A list of secrets opens a list of rounds
from a first mask when each answers its round. Rounds can be solved one after another, so from every
first mask there is one opening.

* `opens_iff` — the openings of a chain are its solution.
* `solve_ne` — in a domain, with no challenge zero, different first masks differ in every secret.
-/

namespace MaskedChain

variable {R : Type*} [CommRing R]

/-- Each secret answers its round. -/
def Opens (prev : R) : List (R × R) → List R → Prop
  | [], [] => True
  | (r, y) :: rounds, a :: secrets => a + prev * r = y ∧ Opens a rounds secrets
  | [], _ :: _ => False
  | _ :: _, [] => False

/-- The rounds solved one after another. -/
def solve (prev : R) : List (R × R) → List R
  | [] => []
  | (r, y) :: rounds => (y - prev * r) :: solve (y - prev * r) rounds

variable {prev prev' : R} {rounds : List (R × R)} {secrets : List R}

/-- **A chain has one opening from each first mask.** -/
theorem opens_iff : Opens prev rounds secrets ↔ secrets = solve prev rounds := by
  induction rounds generalizing prev secrets with
  | nil => cases secrets <;> simp [Opens, solve]
  | cons round rounds ih =>
      cases secrets with
      | nil => simp [Opens, solve]
      | cons a secrets =>
          show a + prev * round.1 = round.2 ∧ Opens a rounds secrets ↔ _
          rw [ih, solve, List.cons_eq_cons, ← eq_sub_iff_add_eq]
          constructor
          · rintro ⟨rfl, hrest⟩
            exact ⟨rfl, hrest⟩
          · rintro ⟨rfl, hrest⟩
            exact ⟨rfl, hrest⟩

/-- **Two openings differ throughout**: from one round to the next the difference of the secrets is
multiplied by the challenge, up to sign, and never vanishes. -/
theorem solve_ne [IsDomain R] (hrounds : ∀ round ∈ rounds, round.1 ≠ 0) (hne : prev ≠ prev') :
    List.Forall₂ (fun a a' => a ≠ a') (solve prev rounds) (solve prev' rounds) := by
  induction rounds generalizing prev prev' with
  | nil => exact List.Forall₂.nil
  | cons round rounds ih =>
      have hstep : round.2 - prev * round.1 ≠ round.2 - prev' * round.1 := by
        intro heq
        have hmul : (prev - prev') * round.1 = 0 := by linear_combination -heq
        rcases mul_eq_zero.mp hmul with hprev | hround
        · exact hne (sub_eq_zero.mp hprev)
        · exact hrounds round List.mem_cons_self hround
      exact List.Forall₂.cons hstep (ih (fun x hx => hrounds x (List.mem_cons_of_mem _ hx)) hstep)

end MaskedChain
