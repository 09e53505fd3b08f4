import Mathlib.Analysis.Convex.Segment
import Mathlib.Analysis.InnerProductSpace.Basic
import Mathlib.Tactic.FieldSimp
import Mathlib.Tactic.Linarith
import Mathlib.Tactic.Module

/-!
# Lines of sight

The shadow of a set seen from a point `a` holds every point whose segment to `a` meets the set. A
convex set has a convex shadow, and a ball has one that the coordinates of its center along the
segment decide.

* `convex_shadow` — the shadow of a convex set is convex.
* `mem_shadow_of_near` — moving a point by `δ` is made good by `δ` more of the ball.
* `mem_shadow_closedBall_iff` — the closest point of a segment, with no root and no division.
-/

namespace LineOfSight

open Metric

variable {E : Type*} [NormedAddCommGroup E] [InnerProductSpace ℝ E]

/-- The points whose segment to `a` meets `K`. -/
def shadow (a : E) (K : Set E) : Set E := {p | ∃ x ∈ segment ℝ a p, x ∈ K}

variable {a c p q : E} {K : Set E} {r δ : ℝ}

theorem mem_shadow_iff : p ∈ shadow a K ↔ ∃ t ∈ Set.Icc (0 : ℝ) 1, a + t • (p - a) ∈ K := by
  show (∃ x ∈ segment ℝ a p, x ∈ K) ↔ _
  rw [segment_eq_image' ℝ a p]
  simp

/-- A point sees what the other end of the segment sees. -/
theorem mem_shadow_comm : p ∈ shadow a K ↔ a ∈ shadow p K := by
  show (∃ x ∈ segment ℝ a p, x ∈ K) ↔ ∃ x ∈ segment ℝ p a, x ∈ K
  rw [segment_symm]

/-- **The shadow of a convex set is convex.** Two points of the set on the lines of sight of `p` and
`q` have one between them on the line of sight of any point between `p` and `q`. -/
theorem convex_shadow (hK : Convex ℝ K) : Convex ℝ (shadow a K) := by
  intro p hp q hq μ ν hμ hν hsum
  obtain ⟨t, ⟨ht0, ht1⟩, ht⟩ := mem_shadow_iff.mp hp
  obtain ⟨s, ⟨hs0, hs1⟩, hs⟩ := mem_shadow_iff.mp hq
  rw [mem_shadow_iff]
  rcases ht0.eq_or_lt with rfl | htpos
  · refine ⟨0, by simp, ?_⟩
    simpa using ht
  rcases hs0.eq_or_lt with rfl | hspos
  · refine ⟨0, by simp, ?_⟩
    simpa using hs
  -- the weights of the two points of the set, before they are scaled to sum up to one
  have hμt : μ ≤ μ / t := by
    rw [le_div_iff₀ htpos]
    exact mul_le_of_le_one_right hμ ht1
  have hνs : ν ≤ ν / s := by
    rw [le_div_iff₀ hspos]
    exact mul_le_of_le_one_right hν hs1
  have hone : 1 ≤ μ / t + ν / s := by linarith
  have hpos : 0 < μ / t + ν / s := by linarith
  set τ := (μ / t + ν / s)⁻¹ with hτ
  have hτpos : 0 < τ := inv_pos.mpr hpos
  refine ⟨τ, ⟨hτpos.le, inv_le_one_of_one_le₀ hone⟩, ?_⟩
  have hweights : τ * (μ / t) + τ * (ν / s) = 1 := by
    rw [← mul_add, hτ]
    exact inv_mul_cancel₀ hpos.ne'
  have hmem := hK ht hs (mul_nonneg hτpos.le (div_nonneg hμ ht0))
    (mul_nonneg hτpos.le (div_nonneg hν hs0)) hweights
  have heq : (τ * (μ / t)) • (a + t • (p - a)) + (τ * (ν / s)) • (a + s • (q - a)) =
      a + τ • (μ • p + ν • q - a) := by
    have hscale : ∀ {x y : ℝ}, y ≠ 0 → τ * (x / y) * y = τ * x := by
      intro x y hy
      field_simp
    calc
      _ = (τ * (μ / t) + τ * (ν / s)) • a + (τ * (μ / t) * t) • (p - a) +
            (τ * (ν / s) * s) • (q - a) := by module
      _ = a + (τ * μ) • (p - a) + (τ * ν) • (q - a) := by
            rw [hweights, one_smul, hscale htpos.ne', hscale hspos.ne']
      _ = a + τ • (μ • p + ν • q - (μ + ν) • a) := by module
      _ = _ := by rw [hsum, one_smul]
  rwa [heq] at hmem

/-- A point that is moved is in the shadow of a ball that is larger by as much. -/
theorem mem_shadow_of_near (h : p ∈ shadow a (closedBall c r)) (hδ : dist q p ≤ δ) :
    q ∈ shadow a (closedBall c (r + δ)) := by
  obtain ⟨t, ⟨ht0, ht1⟩, ht⟩ := mem_shadow_iff.mp h
  refine mem_shadow_iff.mpr ⟨t, ⟨ht0, ht1⟩, ?_⟩
  rw [mem_closedBall] at ht ⊢
  have hmove : dist (a + t • (q - a)) (a + t • (p - a)) ≤ δ := by
    rw [dist_add_left, dist_smul₀, dist_sub_right, Real.norm_of_nonneg ht0]
    exact (mul_le_of_le_one_left dist_nonneg ht1).trans hδ
  linarith [dist_triangle (a + t • (q - a)) (a + t • (p - a)) c]

/-- **The closest point of the segment decides**: an end of it, or the foot of the perpendicular. -/
theorem mem_shadow_closedBall_iff (hr : 0 ≤ r) :
    p ∈ shadow a (closedBall c r) ↔
      if inner ℝ (c - a) (p - a) ≤ 0 then ‖c - a‖ ^ 2 ≤ r ^ 2
      else if ‖p - a‖ ^ 2 ≤ inner ℝ (c - a) (p - a) then ‖c - p‖ ^ 2 ≤ r ^ 2
      else ‖c - a‖ ^ 2 * ‖p - a‖ ^ 2 - inner ℝ (c - a) (p - a) ^ 2 ≤ r ^ 2 * ‖p - a‖ ^ 2 := by
  have hdist : ∀ t : ℝ, a + t • (p - a) ∈ closedBall c r ↔
      t ^ 2 * ‖p - a‖ ^ 2 - 2 * t * inner ℝ (c - a) (p - a) + ‖c - a‖ ^ 2 ≤ r ^ 2 := by
    intro t
    rw [mem_closedBall, dist_comm, dist_eq_norm, ← sq_le_sq₀ (norm_nonneg _) hr,
      show c - (a + t • (p - a)) = (c - a) - t • (p - a) by abel, norm_sub_sq_real,
      real_inner_smul_right, norm_smul, mul_pow, Real.norm_eq_abs, sq_abs]
    constructor <;> intro h <;> linarith
  have hend : ‖c - p‖ ^ 2 = ‖p - a‖ ^ 2 - 2 * inner ℝ (c - a) (p - a) + ‖c - a‖ ^ 2 := by
    rw [show c - p = (c - a) - (p - a) by abel, norm_sub_sq_real]
    ring
  rw [mem_shadow_iff]
  simp only [hdist, hend]
  have hV : 0 ≤ ‖p - a‖ ^ 2 := sq_nonneg _
  generalize ‖p - a‖ ^ 2 = V at hV ⊢
  generalize ‖c - a‖ ^ 2 = W
  generalize inner ℝ (c - a) (p - a) = I
  split_ifs with hbehind hbeyond
  · -- the center is behind `a`
    constructor
    · rintro ⟨t, ⟨ht0, -⟩, ht⟩
      have hsq : 0 ≤ t ^ 2 * V := mul_nonneg (sq_nonneg t) hV
      have hcross : t * I ≤ 0 := mul_nonpos_of_nonneg_of_nonpos ht0 hbehind
      linarith
    · intro h
      exact ⟨0, by simp, by linarith⟩
  · -- the center is beyond `p`
    constructor
    · rintro ⟨t, ⟨ht0, ht1⟩, ht⟩
      have hfactor : 0 ≤ (1 - t) * (2 * I - (t + 1) * V) := by
        apply mul_nonneg (by linarith)
        have hle : (t + 1) * V ≤ 2 * V := mul_le_mul_of_nonneg_right (by linarith) hV
        linarith
      linarith
    · intro h
      exact ⟨1, by simp, by linarith⟩
  · push Not at hbehind hbeyond
    have hVpos : 0 < V := hbehind.trans hbeyond
    constructor
    · rintro ⟨t, -, ht⟩
      have hmul := mul_le_mul_of_nonneg_right ht hV
      have hsq := sq_nonneg (t * V - I)
      linarith
    · intro h
      refine ⟨I / V, ⟨div_nonneg hbehind.le hV, (div_le_one hVpos).mpr hbeyond.le⟩, ?_⟩
      have hfoot : (I / V) ^ 2 * V - 2 * (I / V) * I + W = (W * V - I ^ 2) / V := by
        field_simp
        ring
      rw [hfoot, div_le_iff₀ hVpos]
      exact h

end LineOfSight
