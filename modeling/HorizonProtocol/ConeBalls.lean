import HorizonProtocol.LightCone
import Mathlib.Analysis.Normed.Module.Ball.Pointwise
import Mathlib.Analysis.Normed.Module.RCLike.Real

/-!
# Light cones between sets of places

Where a place is only known up to a set, an event may reach another or must reach it: for some
choice of places, or for every choice. Between closed balls both are decided by the distance of the
centers and the sum of the radii.

* `MustReach.trans` — must-reach composes through any set that is not empty.
* `mustReach_ball_iff`, `mayReach_ball_iff` — the farthest and the nearest points of two balls.
-/

namespace LightCone

variable {E : Type*} [NormedAddCommGroup E] {c : ℝ} {p q o p' q' : ℝ × Set E}

/-- Wherever the two events are, the second is in the closed future light cone of the first. -/
def MustReach (c : ℝ) (p q : ℝ × Set E) : Prop :=
  ∀ a ∈ p.2, ∀ b ∈ q.2, Reaches c (p.1, a) (q.1, b)

/-- The two events may be where the second is in the closed future light cone of the first. -/
def MayReach (c : ℝ) (p q : ℝ × Set E) : Prop :=
  ∃ a ∈ p.2, ∃ b ∈ q.2, Reaches c (p.1, a) (q.1, b)

theorem MustReach.trans (hpq : MustReach c p q) (hqo : MustReach c q o) (hq : q.2.Nonempty) :
    MustReach c p o := by
  intro a ha b hb
  obtain ⟨m, hm⟩ := hq
  exact (hpq a ha m hm).trans (hqo m hm b hb)

theorem MustReach.mayReach (h : MustReach c p q) (hp : p.2.Nonempty) (hq : q.2.Nonempty) :
    MayReach c p q := by
  obtain ⟨a, ha⟩ := hp
  obtain ⟨b, hb⟩ := hq
  exact ⟨a, ha, b, hb, h a ha b hb⟩

/-- To know more of the places only makes more certain. -/
theorem MustReach.anti (h : MustReach c p' q') (hpt : p.1 = p'.1) (hqt : q.1 = q'.1)
    (hp : p.2 ⊆ p'.2) (hq : q.2 ⊆ q'.2) : MustReach c p q := by
  intro a ha b hb
  rw [hpt, hqt]
  exact h a (hp ha) b (hq hb)

/-- To know less of them only makes more possible. -/
theorem MayReach.mono (h : MayReach c p q) (hpt : p.1 = p'.1) (hqt : q.1 = q'.1)
    (hp : p.2 ⊆ p'.2) (hq : q.2 ⊆ q'.2) : MayReach c p' q' := by
  obtain ⟨a, ha, b, hb, hr⟩ := h
  rw [hpt, hqt] at hr
  exact ⟨a, hp ha, b, hq hb, hr⟩

@[simp] theorem mustReach_singleton {s t : ℝ} {x y : E} :
    MustReach c (s, {x}) (t, {y}) ↔ Reaches c (s, x) (t, y) := by
  simp [MustReach]

@[simp] theorem mayReach_singleton {s t : ℝ} {x y : E} :
    MayReach c (s, {x}) (t, {y}) ↔ Reaches c (s, x) (t, y) := by
  simp [MayReach]

section Balls

variable [NormedSpace ℝ E] {x y : E} {r₁ r₂ t₁ t₂ : ℝ}

/-- Two balls have points as far apart as their centers and both radii together. -/
theorem exists_farthest [Nontrivial E] (h₁ : 0 ≤ r₁) (h₂ : 0 ≤ r₂) (x y : E) :
    ∃ a ∈ Metric.closedBall x r₁, ∃ b ∈ Metric.closedBall y r₂, ‖b - a‖ = ‖y - x‖ + (r₁ + r₂) := by
  -- a unit vector along the line of centers, or any at all when they coincide
  have hunit : ∃ u : E, ‖u‖ = 1 ∧ y - x = ‖y - x‖ • u := by
    by_cases hxy : y - x = 0
    · obtain ⟨u, hu⟩ := exists_norm_eq E zero_le_one
      exact ⟨u, hu, by rw [hxy, norm_zero, zero_smul]⟩
    · have hne : ‖y - x‖ ≠ 0 := norm_ne_zero_iff.mpr hxy
      refine ⟨‖y - x‖⁻¹ • (y - x), ?_, ?_⟩
      · rw [norm_smul, norm_inv, norm_norm, inv_mul_cancel₀ hne]
      · rw [smul_smul, mul_inv_cancel₀ hne, one_smul]
  obtain ⟨u, hu, hline⟩ := hunit
  refine ⟨x - r₁ • u, ?_, y + r₂ • u, ?_, ?_⟩
  · rw [mem_closedBall_iff_norm, sub_sub_cancel_left, norm_neg, norm_smul, hu, mul_one,
      Real.norm_of_nonneg h₁]
  · rw [mem_closedBall_iff_norm, add_sub_cancel_left, norm_smul, hu, mul_one,
      Real.norm_of_nonneg h₂]
  · have hdiff : y + r₂ • u - (x - r₁ • u) = (‖y - x‖ + (r₁ + r₂)) • u := by
      rw [add_smul, add_smul, ← hline]
      abel
    rw [hdiff, norm_smul, hu, mul_one, Real.norm_of_nonneg]
    positivity

/-- **Must-reach between balls**: the farthest points decide. -/
theorem mustReach_ball_iff [Nontrivial E] (h₁ : 0 ≤ r₁) (h₂ : 0 ≤ r₂) :
    MustReach c (t₁, Metric.closedBall x r₁) (t₂, Metric.closedBall y r₂) ↔
      ‖y - x‖ + (r₁ + r₂) ≤ c * (t₂ - t₁) := by
  constructor
  · intro h
    obtain ⟨a, ha, b, hb, hfar⟩ := exists_farthest h₁ h₂ x y
    rw [← hfar]
    exact h a ha b hb
  · intro h a ha b hb
    rw [mem_closedBall_iff_norm] at ha hb
    have hsplit : b - a = (y - x) + ((b - y) - (a - x)) := by abel
    show ‖b - a‖ ≤ c * (t₂ - t₁)
    calc ‖b - a‖ ≤ ‖y - x‖ + ‖(b - y) - (a - x)‖ := hsplit ▸ norm_add_le _ _
      _ ≤ ‖y - x‖ + (‖b - y‖ + ‖a - x‖) := by gcongr; exact norm_sub_le _ _
      _ ≤ ‖y - x‖ + (r₁ + r₂) := by linarith
      _ ≤ c * (t₂ - t₁) := h

/-- **May-reach between balls**: the nearest points decide. -/
theorem mayReach_ball_iff (h₁ : 0 ≤ r₁) (h₂ : 0 ≤ r₂) :
    MayReach c (t₁, Metric.closedBall x r₁) (t₂, Metric.closedBall y r₂) ↔
      0 ≤ c * (t₂ - t₁) ∧ ‖y - x‖ ≤ c * (t₂ - t₁) + (r₁ + r₂) := by
  constructor
  · intro h
    obtain ⟨a, ha, b, hb, hr⟩ := h
    rw [mem_closedBall_iff_norm] at ha hb
    have hle : ‖b - a‖ ≤ c * (t₂ - t₁) := hr
    refine ⟨(norm_nonneg _).trans hle, ?_⟩
    have hsplit : y - x = (b - a) + ((a - x) - (b - y)) := by abel
    calc ‖y - x‖ ≤ ‖b - a‖ + ‖(a - x) - (b - y)‖ := hsplit ▸ norm_add_le _ _
      _ ≤ ‖b - a‖ + (‖a - x‖ + ‖b - y‖) := by gcongr; exact norm_sub_le _ _
      _ ≤ c * (t₂ - t₁) + (r₁ + r₂) := by linarith
  · intro h
    obtain ⟨hL, hd⟩ := h
    -- from `x`, first as far as its ball lets one, then as the light does, then within the other
    obtain ⟨a, hxa, hay⟩ := exists_dist_le_le (x := x) (z := y) h₁ (add_nonneg hL h₂)
      (by rw [dist_eq_norm_sub']; linarith)
    obtain ⟨b, hab, hby⟩ := exists_dist_le_le (x := a) (z := y) hL h₂ (by linarith)
    refine ⟨a, ?_, b, ?_, ?_⟩
    · rw [Metric.mem_closedBall, dist_comm]
      exact hxa
    · exact hby
    · show ‖b - a‖ ≤ c * (t₂ - t₁)
      rw [← dist_eq_norm_sub']
      exact hab

end Balls

end LightCone
