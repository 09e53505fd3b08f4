import Mathlib.Analysis.Normed.Group.Basic
import Mathlib.Logic.Relation
import Mathlib.Tactic.Linarith

/-!
# The causal order of a light cone

Points of `ℝ × E` are events: a time and a place in a normed group. `Reaches c p q` says that `q`
lies in the closed future light cone of `p` when nothing travels faster than `c`. For `0 < c` it is
a partial order, and transitivity is the triangle inequality of the norm.
-/

namespace LightCone

variable {E : Type*} [NormedAddCommGroup E] {c : ℝ} {p q o : ℝ × E}

/-- `q` lies in the closed future light cone of `p`. -/
def Reaches (c : ℝ) (p q : ℝ × E) : Prop := ‖q.2 - p.2‖ ≤ c * (q.1 - p.1)

theorem Reaches.refl (c : ℝ) (p : ℝ × E) : Reaches c p p := by
  simp [Reaches]

theorem Reaches.trans (hpq : Reaches c p q) (hqo : Reaches c q o) : Reaches c p o := by
  unfold Reaches at *
  calc ‖o.2 - p.2‖ = ‖(o.2 - q.2) + (q.2 - p.2)‖ := by rw [sub_add_sub_cancel]
    _ ≤ ‖o.2 - q.2‖ + ‖q.2 - p.2‖ := norm_add_le _ _
    _ ≤ c * (o.1 - q.1) + c * (q.1 - p.1) := add_le_add hqo hpq
    _ = c * (o.1 - p.1) := by ring

/-- **No detour reaches farther than light goes straight**, through whatever events. -/
theorem Reaches.of_chain (h : Relation.ReflTransGen (Reaches c) p q) : Reaches c p q := by
  induction h with
  | refl => exact Reaches.refl c p
  | tail _ hstep ih => exact ih.trans hstep

/-- A signal does not arrive before it leaves. -/
theorem Reaches.time_le (hc : 0 < c) (h : Reaches c p q) : p.1 ≤ q.1 := by
  have hmul : 0 ≤ c * (q.1 - p.1) := (norm_nonneg _).trans h
  have hsub : 0 ≤ q.1 - p.1 := nonneg_of_mul_nonneg_right hmul hc
  linarith

/-- Leaving earlier and arriving later is no harder. -/
theorem Reaches.mono (hc : 0 ≤ c) (h : Reaches c p q) {s t : ℝ} (hs : s ≤ p.1) (ht : q.1 ≤ t) :
    Reaches c (s, p.2) (t, q.2) := by
  have hle : q.1 - p.1 ≤ t - s := by linarith
  exact le_trans h (mul_le_mul_of_nonneg_left hle hc)

theorem Reaches.antisymm (hc : 0 < c) (hpq : Reaches c p q) (hqp : Reaches c q p) : p = q := by
  have htime : p.1 = q.1 := le_antisymm (hpq.time_le hc) (hqp.time_le hc)
  have hplace : p.2 = q.2 := by
    have hle : ‖q.2 - p.2‖ ≤ 0 := by simpa [Reaches, htime] using hpq
    exact (sub_eq_zero.mp (norm_le_zero_iff.mp hle)).symm
  exact Prod.ext htime hplace

/-- The cone condition on squares, which needs no root. -/
theorem reaches_iff_sq (hc : 0 < c) :
    Reaches c p q ↔ 0 ≤ q.1 - p.1 ∧ ‖q.2 - p.2‖ ^ 2 ≤ (c * (q.1 - p.1)) ^ 2 := by
  constructor
  · intro h
    exact ⟨sub_nonneg.mpr (h.time_le hc), pow_le_pow_left₀ (norm_nonneg _) h 2⟩
  · rintro ⟨hdt, hsq⟩
    exact le_of_sq_le_sq hsq (mul_nonneg hc.le hdt)

end LightCone
