import HorizonProtocol.Trajectory.Occultation
import Mathlib.LinearAlgebra.AffineSpace.AffineMap
import Mathlib.Order.Interval.Set.OrdConnected
import Mathlib.Tactic.FinCases

/-!
# Flybys

A ship in linear motion is at integer positions: `LinearWorldline.position_at` rounds down, axis by
axis, so the ship does not move on a straight line in general, and a body may hide it, show it and
hide it again.

* `flyby_contiguous_iff` — a ship is hidden over one interval at most, by every body from every
  station, exactly when rounding leaves its path straight (`LinearWorldline.Unbent`).
* `mem_downTimes_of_between` — two nanometers more of the body hide a ship throughout.
-/

namespace HorizonProtocol.Trajectory

open LineOfSight Metric

/-! ## One axis -/

namespace Rate

/-- How far an axis has moved after `dt`, rounded down. -/
def travel (v : Rate) (dt : Int) : Int := v.num * dt / v.den

/-- A whole number of nm/ns. -/
def Whole (v : Rate) : Prop := v.den ∣ v.num

instance (v : Rate) : Decidable v.Whole := inferInstanceAs (Decidable (v.den ∣ v.num))

/-- The same rational. -/
def Same (v v' : Rate) : Prop := v.num * v'.den = v'.num * v.den

instance (v v' : Rate) : Decidable (v.Same v') :=
  inferInstanceAs (Decidable (v.num * v'.den = v'.num * v.den))

variable {v v' v'' : Rate} {dt : Int}

theorem Same.symm (h : v.Same v') : v'.Same v := Eq.symm h

theorem Same.trans (h : v.Same v') (h' : v'.Same v'') : v.Same v'' := by
  apply mul_right_cancel₀ v'.den_pos.ne'
  calc v.num * v''.den * v'.den
      = v.num * v'.den * v''.den := by ring
    _ = v'.num * v''.den * v.den := by rw [h]; ring
    _ = v''.num * v.den * v'.den := by rw [h']; ring

@[simp] theorem travel_zero : v.travel 0 = 0 := by simp [travel]

theorem travel_of_num_eq_zero (h : v.num = 0) : v.travel dt = 0 := by simp [travel, h]

theorem travel_of_whole (h : v.Whole) : v.travel dt = v.num / v.den * dt := by
  rw [travel, mul_comm, Int.mul_ediv_assoc dt h, mul_comm]

/-- Over whole periods nothing is rounded. -/
theorem travel_mul_den (n : Int) : v.travel (n * v.den) = v.num * n := by
  rw [travel, ← mul_assoc, Int.mul_ediv_cancel _ v.den_pos.ne']

/-- A step back and a step forth do not make up for each other unless they are whole. -/
theorem travel_neg_one : v.travel (-1) = -v.travel 1 - if v.Whole then 0 else 1 := by
  simp only [travel, mul_neg, mul_one, Whole]
  rw [Int.neg_ediv, Int.sign_eq_one_of_pos v.den_pos]
  rfl

/-- Equal rates travel alike. -/
theorem travel_eq_of_same (h : v.Same v') : v.travel dt = v'.travel dt := by
  calc v.num * dt / v.den
      = v.num * dt * v'.den / (v.den * v'.den) := (Int.mul_ediv_mul_of_pos_left _ _ v'.den_pos).symm
    _ = v'.num * dt * v.den / (v'.den * v.den) := by
          rw [mul_right_comm, h, mul_right_comm, mul_comm v.den]
    _ = v'.num * dt / v'.den := Int.mul_ediv_mul_of_pos_left _ _ v.den_pos

theorem monotone_travel (h : 0 ≤ v.num) : Monotone v.travel := by
  intro s t hst
  exact Int.ediv_le_ediv v.den_pos (mul_le_mul_of_nonneg_left hst h)

theorem antitone_travel (h : v.num ≤ 0) : Antitone v.travel := by
  intro s t hst
  exact Int.ediv_le_ediv v.den_pos (mul_le_mul_of_nonpos_left hst h)

/-- Rounding takes less than one nanometer. -/
theorem travel_bounds (v : Rate) (dt : Int) :
    (v.travel dt : ℝ) ≤ v.num / v.den * dt ∧ v.num / v.den * dt < (v.travel dt : ℝ) + 1 := by
  have hden : (0 : ℝ) < v.den := by exact_mod_cast v.den_pos
  rw [div_mul_eq_mul_div, le_div_iff₀ hden, div_lt_iff₀ hden]
  constructor
  · exact_mod_cast Int.ediv_mul_le _ v.den_pos.ne'
  · exact_mod_cast Int.lt_ediv_add_one_mul_self _ v.den_pos

end Rate

/-! ## The path of a ship -/

namespace LinearWorldline

/-- `v_nm_per_ns`, by axis. -/
def rate (w : LinearWorldline) : Fin 3 → Rate := ![w.vx, w.vy, w.vz]

/-- Rounding leaves the path straight: it does nothing, or it does the same on every axis that
moves. -/
def Unbent (w : LinearWorldline) : Prop :=
  (∀ i, (w.rate i).Whole) ∨
    ∀ i j, (w.rate i).num ≠ 0 → (w.rate j).num ≠ 0 → (w.rate i).Same (w.rate j)

instance (w : LinearWorldline) : Decidable w.Unbent :=
  inferInstanceAs (Decidable ((∀ i, (w.rate i).Whole) ∨
    ∀ i j, (w.rate i).num ≠ 0 → (w.rate j).num ≠ 0 → (w.rate i).Same (w.rate j)))

variable {w : LinearWorldline} {t t1 t2 t3 : Int}

theorem toSpace_positionAt (w : LinearWorldline) (t : Int) (i : Fin 3) :
    (w.positionAt t).toSpace i = w.p0Nm.toSpace i + ((w.rate i).travel (t - w.t0Ns) : ℝ) := by
  fin_cases i <;> simp [positionAt, Pos.toSpace, rate, Rate.travel]

/-- A path that one number places on a line is straight when the number goes one way only. -/
theorem mem_segment_of_line {f : Int → Int} {u : EuclideanSpace ℝ (Fin 3)}
    (hf : Monotone f ∨ Antitone f)
    (hline : ∀ t, (w.positionAt t).toSpace = w.p0Nm.toSpace + (f (t - w.t0Ns) : ℝ) • u)
    (h12 : t1 ≤ t2) (h23 : t2 ≤ t3) :
    (w.positionAt t2).toSpace ∈ segment ℝ (w.positionAt t1).toSpace (w.positionAt t3).toSpace := by
  have hmem : (f (t2 - w.t0Ns) : ℝ) ∈ Set.uIcc (f (t1 - w.t0Ns) : ℝ) (f (t3 - w.t0Ns) : ℝ) := by
    have h12' : t1 - w.t0Ns ≤ t2 - w.t0Ns := sub_le_sub_right h12 _
    have h23' : t2 - w.t0Ns ≤ t3 - w.t0Ns := sub_le_sub_right h23 _
    rcases hf with hf | hf
    · exact Set.mem_uIcc_of_le (Int.cast_le.mpr (hf h12')) (Int.cast_le.mpr (hf h23'))
    · exact Set.mem_uIcc_of_ge (Int.cast_le.mpr (hf h23')) (Int.cast_le.mpr (hf h12'))
  rw [← segment_eq_uIcc] at hmem
  have hat : ∀ t, AffineMap.lineMap w.p0Nm.toSpace (w.p0Nm.toSpace + u)
      (f (t - w.t0Ns) : ℝ) = (w.positionAt t).toSpace := by
    intro t
    rw [hline, AffineMap.lineMap_apply, vsub_eq_sub, add_sub_cancel_left, vadd_eq_add, add_comm]
  have himage := Set.mem_image_of_mem
    (AffineMap.lineMap w.p0Nm.toSpace (w.p0Nm.toSpace + u) : ℝ →ᵃ[ℝ] _) hmem
  rwa [image_segment, hat, hat, hat] at himage

/-- **An unbent ship moves on a straight line.** -/
theorem Unbent.mem_segment (h : w.Unbent) (h12 : t1 ≤ t2) (h23 : t2 ≤ t3) :
    (w.positionAt t2).toSpace ∈ segment ℝ (w.positionAt t1).toSpace (w.positionAt t3).toSpace := by
  rcases h with hwhole | hsame
  · refine mem_segment_of_line (f := id)
      (u := WithLp.toLp 2 fun i => (((w.rate i).num / (w.rate i).den : Int) : ℝ))
      (Or.inl monotone_id) ?_ h12 h23
    intro t
    ext i
    rw [toSpace_positionAt, Rate.travel_of_whole (hwhole i)]
    push_cast
    simp [mul_comm]
  · by_cases hstill : ∀ i, (w.rate i).num = 0
    · refine mem_segment_of_line (f := id) (u := 0) (Or.inl monotone_id) ?_ h12 h23
      intro t
      ext i
      rw [toSpace_positionAt, Rate.travel_of_num_eq_zero (hstill i)]
      simp
    · push Not at hstill
      obtain ⟨i, hi⟩ := hstill
      refine mem_segment_of_line (f := (w.rate i).travel)
        (u := WithLp.toLp 2 fun j => if (w.rate j).num = 0 then 0 else 1) ?_ ?_ h12 h23
      · rcases le_total 0 (w.rate i).num with hpos | hneg
        · exact Or.inl (Rate.monotone_travel hpos)
        · exact Or.inr (Rate.antitone_travel hneg)
      · intro t
        ext j
        rw [toSpace_positionAt]
        by_cases hj : (w.rate j).num = 0
        · rw [Rate.travel_of_num_eq_zero hj]
          simp [hj]
        · rw [Rate.travel_eq_of_same (hsame j i hj hi)]
          simp [hj]

/-! ### Bent paths -/

theorem mem_segment_across (x z : EuclideanSpace ℝ (Fin 3)) : x ∈ segment ℝ (x - (z - x)) z := by
  refine ⟨1 / 2, 1 / 2, by norm_num, by norm_num, by norm_num, ?_⟩
  module

/-- A point that hides `y` from across `z` is in line with `y` and `z`. -/
theorem cross_eq_of_mem_segment {x y z : EuclideanSpace ℝ (Fin 3)}
    (h : x ∈ segment ℝ (x - (z - x)) y) (i j : Fin 3) :
    (y i - x i) * (z j - x j) = (y j - x j) * (z i - x i) := by
  obtain ⟨a, b, -, -, hab, hx⟩ := h
  have hcoord : ∀ k, b * (y k - x k) = a * (z k - x k) := by
    intro k
    have hk := congrArg (fun v : EuclideanSpace ℝ (Fin 3) => v k) hx
    simp only [PiLp.add_apply, PiLp.smul_apply, PiLp.sub_apply, smul_eq_mul] at hk
    obtain rfl : a = 1 - b := by linarith
    linarith
  by_cases hb : b = 0
  · have hz : ∀ k, z k - x k = 0 := by
      intro k
      have hk := hcoord k
      rw [hb, show a = 1 by linarith] at hk
      linarith
    rw [hz, hz, mul_zero, mul_zero]
  · apply mul_left_cancel₀ hb
    calc b * ((y i - x i) * (z j - x j))
        = b * (y i - x i) * (z j - x j) := by ring
      _ = a * (z j - x j) * (z i - x i) := by rw [hcoord i]; ring
      _ = b * ((y j - x j) * (z i - x i)) := by rw [← hcoord j]; ring

/-- A station across from `q`, and a point for a body at `p`. -/
theorem mem_downTimes_across (p q : Pos) :
    t ∈ downTimes w.toWorldline (FixedWorldline (sub p (sub q p))) (FixedWorldline p) 0 ↔
      p.toSpace ∈ segment ℝ (p.toSpace - (q.toSpace - p.toSpace)) (w.positionAt t).toSpace := by
  rw [mem_downTimes le_rfl, ← toSpace_sub, ← toSpace_sub]
  simp [shadow, toWorldline, FixedWorldline]

/-- Seen from across, a point hides its own place and the one it is across from, so the places
between these are in line with them. -/
theorem travel_cross_eq
    (h : ∀ station center, (downTimes w.toWorldline (FixedWorldline station)
      (FixedWorldline center) 0).OrdConnected)
    {s1 s2 s3 : Int} (h12 : s1 ≤ s2) (h23 : s2 ≤ s3) (i j : Fin 3) :
    ((w.rate i).travel s2 - (w.rate i).travel s1) * ((w.rate j).travel s3 - (w.rate j).travel s1) =
      ((w.rate j).travel s2 - (w.rate j).travel s1) *
        ((w.rate i).travel s3 - (w.rate i).travel s1) := by
  have hfirst := (mem_downTimes_across (w := w) (w.positionAt (w.t0Ns + s1))
    (w.positionAt (w.t0Ns + s3))).mpr (right_mem_segment ℝ _ _)
  have hlast := (mem_downTimes_across (w := w) (w.positionAt (w.t0Ns + s1))
    (w.positionAt (w.t0Ns + s3))).mpr (mem_segment_across _ _)
  have hbetween := (h _ _).out hfirst hlast ⟨add_le_add_right h12 _, add_le_add_right h23 _⟩
  have hcross := cross_eq_of_mem_segment ((mem_downTimes_across _ _).mp hbetween) i j
  simp only [toSpace_positionAt, add_sub_cancel_left, add_sub_add_left_eq_sub] at hcross
  exact_mod_cast hcross

/-- **A ship that no point hides twice is unbent.** A step to either side of the start shows how far
each axis is rounded, against a time when none is. -/
theorem unbent_of_contiguous
    (h : ∀ station center, (downTimes w.toWorldline (FixedWorldline station)
      (FixedWorldline center) 0).OrdConnected) :
    w.Unbent := by
  by_cases hwhole : ∀ i, (w.rate i).Whole
  · exact Or.inl hwhole
  push Not at hwhole
  obtain ⟨i, hi⟩ := hwhole
  have hsame : ∀ j, (w.rate j).num ≠ 0 → (w.rate j).Same (w.rate i) := by
    intro j hj
    have hperiod : 1 ≤ (w.rate j).den * (w.rate i).den :=
      mul_pos (w.rate j).den_pos (w.rate i).den_pos
    have hback := travel_cross_eq h (show (-1 : Int) ≤ 0 by omega)
      (show 0 ≤ (w.rate j).den * (w.rate i).den by omega) i j
    have hforth := travel_cross_eq h (show (0 : Int) ≤ 1 by omega) hperiod i j
    have hti : (w.rate i).travel ((w.rate j).den * (w.rate i).den) =
        (w.rate i).num * (w.rate j).den := Rate.travel_mul_den _
    have htj : (w.rate j).travel ((w.rate j).den * (w.rate i).den) =
        (w.rate j).num * (w.rate i).den := by
      rw [mul_comm (w.rate j).den]
      exact Rate.travel_mul_den _
    rw [Rate.travel_neg_one, Rate.travel_neg_one, if_neg hi] at hback
    simp only [hti, htj, Rate.travel_zero] at hback hforth
    show (w.rate j).num * (w.rate i).den = (w.rate i).num * (w.rate j).den
    by_cases hwj : (w.rate j).Whole
    · rw [if_pos hwj] at hback
      have hzero : (w.rate j).num * (w.rate i).den = 0 := by linarith
      rcases mul_eq_zero.mp hzero with hnum | hden
      · exact absurd hnum hj
      · exact absurd hden (w.rate i).den_pos.ne'
    · rw [if_neg hwj] at hback
      linarith
  refine Or.inr ?_
  intro j k hj hk
  exact (hsame j hj).trans (hsame k hk).symm

end LinearWorldline

/-! ## Blackouts -/

variable {w : LinearWorldline} {station center : Pos} {radiusNm t1 t2 t3 : Int}

/-- **One interval at most, for unbent ships and no others.** -/
theorem flyby_contiguous_iff (w : LinearWorldline) :
    (∀ station center radiusNm, 0 ≤ radiusNm →
      (downTimes w.toWorldline (FixedWorldline station) (FixedWorldline center)
        radiusNm).OrdConnected) ↔
      w.Unbent := by
  constructor
  · intro h
    exact w.unbent_of_contiguous fun station center => h station center 0 le_rfl
  · intro h station center radiusNm hr
    refine ⟨?_⟩
    intro t1 h1 t3 h3 t2 ht
    rw [mem_downTimes hr] at h1 h3 ⊢
    exact (convex_shadow (convex_closedBall _ _)).segment_subset h1 h3 (h.mem_segment ht.1 ht.2)

/-- A third of a nanometer per nanosecond on two axes bends no path. -/
example : LinearWorldline.Unbent
    { p0Nm := ⟨0, 0, 0⟩, t0Ns := 0, vx := ⟨1, 3, by decide⟩, vy := ⟨1, 3, by decide⟩,
      vz := ⟨0, 1, by decide⟩ } := by
  decide

/-- A ship at two nanometers per nanosecond on one axis and a third of one on another is hidden at
`0`, in sight at `1` and hidden at `3`. -/
theorem flyby_flickers :
    ¬ (downTimes
      (LinearWorldline.toWorldline
        { p0Nm := ⟨0, 0, 0⟩, t0Ns := 0, vx := ⟨2, 1, by decide⟩, vy := ⟨1, 3, by decide⟩,
          vz := ⟨0, 1, by decide⟩ })
      (FixedWorldline ⟨-19, -3, 0⟩) (FixedWorldline ⟨0, 5, 0⟩) 5).OrdConnected := by
  intro h
  have hdown := h.out (show (0 : Int) ∈ _ by show isLinkDown _ _ _ _ _ = true; decide)
    (show (3 : Int) ∈ _ by show isLinkDown _ _ _ _ _ = true; decide)
    (show (1 : Int) ∈ Set.Icc 0 3 by decide)
  exact absurd hdown (by show ¬ isLinkDown _ _ _ _ _ = true; decide)

/-! ### Wider bodies -/

/-- Rounding keeps a ship within two nanometers of the straight line between two of its places. -/
theorem dist_toSpace_positionAt_le (w : LinearWorldline) {a b : ℝ} (ha : 0 ≤ a) (hb : 0 ≤ b)
    (hab : a + b = 1) (ht : a * t1 + b * t3 = t2) :
    dist (w.positionAt t2).toSpace
      (a • (w.positionAt t1).toSpace + b • (w.positionAt t3).toSpace) ≤ 2 := by
  have hcoord : ∀ i, ((w.positionAt t2).toSpace i -
      (a • (w.positionAt t1).toSpace + b • (w.positionAt t3).toSpace) i) ^ 2 ≤ 1 := by
    intro i
    simp only [PiLp.add_apply, PiLp.smul_apply, smul_eq_mul,
      LinearWorldline.toSpace_positionAt]
    obtain ⟨hlo1, hhi1⟩ := (w.rate i).travel_bounds (t1 - w.t0Ns)
    obtain ⟨hlo2, hhi2⟩ := (w.rate i).travel_bounds (t2 - w.t0Ns)
    obtain ⟨hlo3, hhi3⟩ := (w.rate i).travel_bounds (t3 - w.t0Ns)
    set ρ : ℝ := (w.rate i).num / (w.rate i).den
    have hexact : a * (ρ * ((t1 - w.t0Ns : Int) : ℝ)) + b * (ρ * ((t3 - w.t0Ns : Int) : ℝ)) =
        ρ * ((t2 - w.t0Ns : Int) : ℝ) := by
      push_cast
      linear_combination ρ * ht - ρ * w.t0Ns * hab
    have hloa := mul_le_mul_of_nonneg_left hlo1 ha
    have hhia := mul_le_mul_of_nonneg_left hhi1.le ha
    have hlob := mul_le_mul_of_nonneg_left hlo3 hb
    have hhib := mul_le_mul_of_nonneg_left hhi3.le hb
    have hstart : a * w.p0Nm.toSpace i + b * w.p0Nm.toSpace i = w.p0Nm.toSpace i := by
      rw [← add_mul, hab, one_mul]
    apply (sq_le_one_iff_abs_le_one _).mpr
    apply abs_le.mpr
    constructor <;> linarith
  rw [dist_eq_norm, ← sq_le_sq₀ (norm_nonneg _) zero_le_two, EuclideanSpace.real_norm_sq_eq,
    Fin.sum_univ_three]
  have h0 := hcoord 0
  have h1 := hcoord 1
  have h2 := hcoord 2
  simp only [PiLp.sub_apply]
  linarith

/-- **A body two nanometers wider hides every ship throughout**, between two times at which the
smaller one hides it. -/
theorem mem_downTimes_of_between (hr : 0 ≤ radiusNm)
    (h1 : t1 ∈ downTimes w.toWorldline (FixedWorldline station) (FixedWorldline center) radiusNm)
    (h3 : t3 ∈ downTimes w.toWorldline (FixedWorldline station) (FixedWorldline center) radiusNm)
    (ht : t2 ∈ Set.Icc t1 t3) :
    t2 ∈ downTimes w.toWorldline (FixedWorldline station) (FixedWorldline center)
      (radiusNm + 2) := by
  have hreal : (t2 : ℝ) ∈ segment ℝ (t1 : ℝ) (t3 : ℝ) := by
    rw [segment_eq_Icc (Int.cast_le.mpr (ht.1.trans ht.2))]
    exact ⟨Int.cast_le.mpr ht.1, Int.cast_le.mpr ht.2⟩
  obtain ⟨a, b, ha, hb, hab, hmean⟩ := hreal
  rw [mem_downTimes hr] at h1 h3
  have hline := convex_shadow (convex_closedBall _ _) h1 h3 ha hb hab
  rw [mem_downTimes (by omega), Int.cast_add, Int.cast_ofNat]
  exact mem_shadow_of_near hline (dist_toSpace_positionAt_le w ha hb hab hmean)

end HorizonProtocol.Trajectory
