import Mathlib.Analysis.Calculus.Deriv.Mul
import Mathlib.Analysis.Calculus.Deriv.Pow
import Mathlib.Analysis.Calculus.MeanValue
import Mathlib.Analysis.Normed.Module.RCLike.Real
import Mathlib.Topology.Algebra.Module.ModuleTopology

/-!
# Motions of bounded thrust

A motion in a normed space against a course of constant velocity. After a time `d` it is off the
course by what it was off at the start, by `d` times what its velocity was off, and by half the
thrust times `d²`; and each place so near the course is one that some such motion gets to.

* `Motion.norm_sub_course_le` — the bound.
* `Motion.mem_closedBall_iff` — it is exact.
* `Motion.thrust_glue` — of two motions that meet, one can go on as the other.
-/

/-- A place and a velocity at each time, the one the derivative of the other. -/
structure Motion (E : Type*) [NormedAddCommGroup E] [NormedSpace ℝ E] where
  position : ℝ → E
  velocity : ℝ → E
  hasDerivAt : ∀ t, HasDerivAt position (velocity t) t

namespace Motion

variable {E : Type*} [NormedAddCommGroup E] [NormedSpace ℝ E]

/-- From `t₀` on, the velocity changes at most by `a` in a unit of time. -/
def Thrust (m : Motion E) (a t₀ : ℝ) : Prop :=
  ∀ s t, t₀ ≤ s → s ≤ t → ‖m.velocity t - m.velocity s‖ ≤ a * (t - s)

/-- How far from its course a motion can be after a time `d`. -/
noncomputable def spread (u w a d : ℝ) : ℝ := u + w * d + a * d ^ 2 / (2 : ℕ)

variable {m : Motion E} {a b u w t₀ t₁ t : ℝ} {p v x : E}

theorem Thrust.mono (h : m.Thrust a t₀) (hab : a ≤ b) (ht : t₀ ≤ t₁) : m.Thrust b t₁ := by
  intro s t hs hst
  calc ‖m.velocity t - m.velocity s‖ ≤ a * (t - s) := h s t (ht.trans hs) hst
    _ ≤ b * (t - s) := mul_le_mul_of_nonneg_right hab (sub_nonneg.mpr hst)

/-- What the velocity is off grows with the thrust. -/
theorem Thrust.norm_velocity_sub_le (h : m.Thrust a t₀) (hv : ‖m.velocity t₀ - v‖ ≤ w)
    (ht : t₀ ≤ t) : ‖m.velocity t - v‖ ≤ w + a * (t - t₀) := by
  have hsplit : m.velocity t - v = (m.velocity t₀ - v) + (m.velocity t - m.velocity t₀) := by abel
  calc ‖m.velocity t - v‖ ≤ ‖m.velocity t₀ - v‖ + ‖m.velocity t - m.velocity t₀‖ :=
        hsplit ▸ norm_add_le _ _
    _ ≤ w + a * (t - t₀) := add_le_add hv (h t₀ t le_rfl ht)

theorem hasDerivAt_spread (u w a t₀ t : ℝ) :
    HasDerivAt (fun s => spread u w a (s - t₀)) (w + a * (t - t₀)) t := by
  have hd : HasDerivAt (fun s => s - t₀) 1 t := (hasDerivAt_id t).sub_const t₀
  have hsum := ((hd.const_mul w).const_add u).add (((hd.pow 2).const_mul a).div_const (2 : ℕ))
  refine hsum.congr_deriv ?_
  norm_num
  ring

/-- **A motion keeps near its course.** -/
theorem norm_sub_course_le (h : m.Thrust a t₀) (hp : ‖m.position t₀ - p‖ ≤ u)
    (hv : ‖m.velocity t₀ - v‖ ≤ w) (ht : t₀ ≤ t) :
    ‖m.position t - (p + (t - t₀) • v)‖ ≤ spread u w a (t - t₀) := by
  have hcourse : ∀ s,
      HasDerivAt (fun s => m.position s - (p + (s - t₀) • v)) (m.velocity s - v) s := by
    intro s
    have hline : HasDerivAt (fun s => (s - t₀) • v) v s := by
      simpa using ((hasDerivAt_id s).sub_const t₀).smul_const v
    exact (m.hasDerivAt s).sub (hline.const_add p)
  refine image_norm_le_of_norm_deriv_right_le_deriv_boundary
    (fun s _ => (hcourse s).continuousAt.continuousWithinAt)
    (fun s _ => (hcourse s).hasDerivWithinAt) ?_ (hasDerivAt_spread u w a t₀)
    (fun s hs => h.norm_velocity_sub_le hv hs.1) (Set.right_mem_Icc.mpr ht)
  simpa [spread] using hp

/-! ## The motion that uses up its bounds -/

/-- Off a course, and away from it, in a fixed direction. -/
noncomputable def away (p v : E) (u w a t₀ : ℝ) (d : E) : Motion E where
  position s := p + (s - t₀) • v + spread u w a (s - t₀) • d
  velocity s := v + (w + a * (s - t₀)) • d
  hasDerivAt s := by
    have hline : HasDerivAt (fun s => (s - t₀) • v) v s := by
      simpa using ((hasDerivAt_id s).sub_const t₀).smul_const v
    exact (hline.const_add p).add ((hasDerivAt_spread u w a t₀ s).smul_const d)

section Away

variable {d : E}

theorem thrust_away (hab : |a| ≤ b) (hd : ‖d‖ ≤ 1) : (away p v u w a t₀ d).Thrust b t₁ := by
  intro s t _ hst
  have hgap : (away p v u w a t₀ d).velocity t - (away p v u w a t₀ d).velocity s =
      (a * (t - s)) • d := by
    simp only [away, add_sub_add_left_eq_sub, ← sub_smul]
    congr 1
    ring
  have hlen : 0 ≤ t - s := sub_nonneg.mpr hst
  rw [hgap, norm_smul, norm_mul, Real.norm_eq_abs, Real.norm_of_nonneg hlen]
  calc |a| * (t - s) * ‖d‖ ≤ |a| * (t - s) :=
        mul_le_of_le_one_right (mul_nonneg (abs_nonneg a) hlen) hd
    _ ≤ b * (t - s) := mul_le_mul_of_nonneg_right hab hlen

theorem norm_away_position_sub (hu : 0 ≤ u) (hd : ‖d‖ ≤ 1) :
    ‖(away p v u w a t₀ d).position t₀ - p‖ ≤ u := by
  have hoff : (away p v u w a t₀ d).position t₀ - p = u • d := by simp [away, spread]
  rw [hoff, norm_smul, Real.norm_of_nonneg hu]
  exact mul_le_of_le_one_right hu hd

theorem norm_away_velocity_sub (hw : 0 ≤ w) (hd : ‖d‖ ≤ 1) :
    ‖(away p v u w a t₀ d).velocity t₀ - v‖ ≤ w := by
  have hoff : (away p v u w a t₀ d).velocity t₀ - v = w • d := by simp [away]
  rw [hoff, norm_smul, Real.norm_of_nonneg hw]
  exact mul_le_of_le_one_right hw hd

end Away

theorem spread_nonneg (hu : 0 ≤ u) (hw : 0 ≤ w) (ha : 0 ≤ a) {d : ℝ} (hd : 0 ≤ d) :
    0 ≤ spread u w a d := by
  unfold spread
  positivity

/-! ## One motion after another -/

section Glue

variable {m m' : Motion E}

/-- Two motions that meet, the second from then on. -/
noncomputable def glue (m m' : Motion E) (t₁ : ℝ) (hposition : m.position t₁ = m'.position t₁)
    (hvelocity : m.velocity t₁ = m'.velocity t₁) : Motion E where
  position t := if t ≤ t₁ then m.position t else m'.position t
  velocity t := if t ≤ t₁ then m.velocity t else m'.velocity t
  hasDerivAt t := by
    rcases lt_trichotomy t t₁ with hlt | rfl | hgt
    · rw [if_pos hlt.le]
      refine (m.hasDerivAt t).congr_of_eventuallyEq ?_
      filter_upwards [Iio_mem_nhds hlt] with s hs
      exact if_pos (le_of_lt hs)
    · -- from either side the derivative is that of one of the two
      rw [if_pos le_rfl, ← hasDerivWithinAt_univ, ← Set.Iic_union_Ici (a := t)]
      refine HasDerivWithinAt.union ?_ ?_
      · exact (m.hasDerivAt t).hasDerivWithinAt.congr (fun s hs => if_pos hs) (if_pos le_rfl)
      · rw [hvelocity]
        refine (m'.hasDerivAt t).hasDerivWithinAt.congr (fun s hs => ?_)
          ((if_pos le_rfl).trans hposition)
        rcases eq_or_lt_of_le (Set.mem_Ici.mp hs) with rfl | hlt
        · exact (if_pos le_rfl).trans hposition
        · exact if_neg (not_le.mpr hlt)
    · rw [if_neg (not_le.mpr hgt)]
      refine (m'.hasDerivAt t).congr_of_eventuallyEq ?_
      filter_upwards [Ioi_mem_nhds hgt] with s hs
      exact if_neg (not_le.mpr hs)

variable {hposition : m.position t₁ = m'.position t₁} {hvelocity : m.velocity t₁ = m'.velocity t₁}

theorem thrust_glue (h : m.Thrust a t₀) (h' : m'.Thrust a t₁) :
    (glue m m' t₁ hposition hvelocity).Thrust a t₀ := by
  intro s t hs hst
  simp only [glue]
  by_cases ht : t ≤ t₁
  · rw [if_pos ht, if_pos (hst.trans ht)]
    exact h s t hs hst
  · rw [if_neg ht]
    have hlt := not_le.mp ht
    by_cases hs₁ : s ≤ t₁
    · rw [if_pos hs₁]
      calc ‖m'.velocity t - m.velocity s‖
          ≤ ‖m'.velocity t - m'.velocity t₁‖ + ‖m.velocity t₁ - m.velocity s‖ := by
            rw [hvelocity]
            exact norm_sub_le_norm_sub_add_norm_sub _ _ _
        _ ≤ a * (t - t₁) + a * (t₁ - s) :=
            add_le_add (h' t₁ t le_rfl hlt.le) (h s t₁ hs hs₁)
        _ = a * (t - s) := by ring
    · rw [if_neg hs₁]
      exact h' s t (not_le.mp hs₁).le hst

theorem position_glue (ht : t ≤ t₁) : (glue m m' t₁ hposition hvelocity).position t = m.position t :=
  if_pos ht

theorem velocity_glue (ht : t ≤ t₁) : (glue m m' t₁ hposition hvelocity).velocity t = m.velocity t :=
  if_pos ht

theorem position_glue_of_ge (ht : t₁ ≤ t) :
    (glue m m' t₁ hposition hvelocity).position t = m'.position t := by
  rcases eq_or_lt_of_le ht with rfl | hlt
  · exact (if_pos le_rfl).trans hposition
  · exact if_neg (not_le.mpr hlt)

end Glue

/-! ## The places a motion may be -/

/-- A motion that starts off the course by `u` at most, with a velocity that is off by `w` at most,
and has a thrust of `a` at most. -/
structure Holds (m : Motion E) (p v : E) (u w a t₀ : ℝ) : Prop where
  position : ‖m.position t₀ - p‖ ≤ u
  velocity : ‖m.velocity t₀ - v‖ ≤ w
  thrust : m.Thrust a t₀

/-- **The places where such a motion may be are a ball.** -/
theorem mem_closedBall_iff (hu : 0 ≤ u) (hw : 0 ≤ w) (ha : 0 ≤ a) (ht : t₀ ≤ t) :
    x ∈ Metric.closedBall (p + (t - t₀) • v) (spread u w a (t - t₀)) ↔
      ∃ m : Motion E, m.Holds p v u w a t₀ ∧ m.position t = x := by
  have hspread := spread_nonneg hu hw ha (sub_nonneg.mpr ht)
  constructor
  · intro hx
    rw [mem_closedBall_iff_norm] at hx
    -- the direction to the place, shortened so that the motion is there at `t`
    obtain ⟨d, hd, hmeet⟩ : ∃ d : E, ‖d‖ ≤ 1 ∧
        spread u w a (t - t₀) • d = x - (p + (t - t₀) • v) := by
      by_cases hzero : spread u w a (t - t₀) = 0
      · rw [hzero, norm_le_zero_iff] at hx
        exact ⟨0, by simp, by rw [hx, smul_zero]⟩
      · refine ⟨(spread u w a (t - t₀))⁻¹ • (x - (p + (t - t₀) • v)), ?_, ?_⟩
        · rw [norm_smul, norm_inv, Real.norm_of_nonneg hspread]
          exact inv_mul_le_one_of_le₀ hx hspread
        · rw [smul_smul, mul_inv_cancel₀ hzero, one_smul]
    refine ⟨away p v u w a t₀ d, ⟨norm_away_position_sub hu hd, norm_away_velocity_sub hw hd,
      thrust_away (abs_of_nonneg ha).le hd⟩, ?_⟩
    show p + (t - t₀) • v + spread u w a (t - t₀) • d = x
    rw [hmeet, add_sub_cancel]
  · rintro ⟨m, hm, rfl⟩
    rw [mem_closedBall_iff_norm]
    exact norm_sub_course_le hm.thrust hm.position hm.velocity ht

end Motion
