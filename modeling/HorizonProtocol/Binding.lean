import Mathlib.Tactic.TypeStar

/-!
# Evidence that binds a claim

A verifier accepts some of its inputs. An input carries evidence, which others have authenticated,
and makes a claim. Evidence binds the claim when all accepted inputs with this evidence make the
same one, which compares two runs of the verifier and is no property of either.

* `bindsAt_iff_of_shift` — a verifier that still accepts after its claim has been moved binds only
  evidence on which it accepts nothing at all.
-/

namespace Binding

variable {A E C : Type*}

/-- All accepted inputs with this evidence make the same claim. -/
def BindsAt (accepts : A → Prop) (evidence : A → E) (claim : A → C) (e : E) : Prop :=
  ∀ a b, accepts a → accepts b → evidence a = e → evidence b = e → claim a = claim b

variable {accepts : A → Prop} {evidence : A → E} {claim : A → C} {e : E}

/-- **A claim that can be moved is not bound.** -/
theorem bindsAt_iff_of_shift (shift : A → A) (haccepts : ∀ a, accepts a → accepts (shift a))
    (hevidence : ∀ a, evidence (shift a) = evidence a) (hclaim : ∀ a, claim (shift a) ≠ claim a) :
    BindsAt accepts evidence claim e ↔ ∀ a, evidence a = e → ¬ accepts a := by
  constructor
  · intro h a ha hacc
    apply hclaim a
    exact h (shift a) a (haccepts a hacc) hacc ((hevidence a).trans ha) ha
  · intro h a b hacc _ ha _
    exact absurd hacc (h a ha)

end Binding
