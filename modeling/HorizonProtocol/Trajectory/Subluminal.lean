import HorizonProtocol.Trajectory.Flyby

/-!
# Slower than light

A ship slower than light is inside its own light cone in real space. `LinearWorldline.position_at`
rounds each axis down, so that between two times an axis may be seen to move by the next whole
nanometer, and several axes at once may take the ship out of the cone.

* `subluminal_causal` — a ship slower than light is causal with itself over every duration in which
  its cone has room for the rounding (`LinearWorldline.FitsCone`), and where it has not, a ship that
  moves one way on each axis is not.
-/

namespace HorizonProtocol.Trajectory

/-! ## One axis -/

namespace Rate

/-- The most an axis is seen to move in `d`: the distance rounded up. -/
def reach (v : Rate) (d : Int) : Int := ceilDiv (|v.num| * d) v.den

variable {v : Rate} {d : Int}

theorem abs_num_mul_le_reach (v : Rate) (d : Int) : |v.num| * d ≤ v.reach d * v.den :=
  (ceilDiv_le_iff v.den_pos).mp le_rfl

theorem reach_nonneg (hd : 0 ≤ d) : 0 ≤ v.reach d :=
  ceilDiv_nonneg (mul_nonneg (abs_nonneg _) hd) v.den_pos

/-- **Rounding at both ends adds less than a nanometer** to what an axis has moved. -/
theorem abs_travel_sub_le (s : Int) (hd : 0 ≤ d) :
    |v.travel (s + d) - v.travel s| ≤ v.reach d := by
  have hreach := abs_num_mul_le_reach v d
  have hup : v.num * d ≤ |v.num| * d := mul_le_mul_of_nonneg_right (le_abs_self _) hd
  have hdown : -(v.num * d) ≤ |v.num| * d := by
    rw [← neg_mul]
    exact mul_le_mul_of_nonneg_right (neg_le_abs _) hd
  have hsplit : v.num * (s + d) = v.num * s + v.num * d := mul_add _ _ _
  have hend : v.travel (s + d) * v.den ≤ v.num * (s + d) := Int.ediv_mul_le _ v.den_pos.ne'
  have hend' : v.num * (s + d) < (v.travel (s + d) + 1) * v.den :=
    Int.lt_ediv_add_one_mul_self _ v.den_pos
  have hstart : v.travel s * v.den ≤ v.num * s := Int.ediv_mul_le _ v.den_pos.ne'
  have hstart' : v.num * s < (v.travel s + 1) * v.den := Int.lt_ediv_add_one_mul_self _ v.den_pos
  rw [abs_le]
  constructor
  · have hlt : -(v.reach d + 1) < v.travel (s + d) - v.travel s := by
      apply lt_of_mul_lt_mul_right _ v.den_pos.le
      linarith
    omega
  · have hlt : v.travel (s + d) - v.travel s < v.reach d + 1 := by
      apply lt_of_mul_lt_mul_right _ v.den_pos.le
      linarith
    omega

/-- A distance forth is rounded up on the way to the start. -/
theorem travel_neg_of_nonneg (h : 0 ≤ v.num) : v.travel (-d) = -v.reach d := by
  rw [travel, reach, ceilDiv, neg_neg, abs_of_nonneg h, mul_neg]

/-- A distance back is rounded up on the way from the start. -/
theorem travel_of_nonpos (h : v.num ≤ 0) : v.travel d = -v.reach d := by
  rw [travel, reach, ceilDiv, neg_neg, abs_of_nonpos h, neg_mul, neg_neg]

/-- Rounding up adds less than a nanometer. -/
theorem reach_lt (v : Rate) (d : Int) : (v.reach d : ℝ) < |(v.num : ℝ) / v.den| * d + 1 := by
  have hden : (0 : ℝ) < v.den := by exact_mod_cast v.den_pos
  have hlt : (v.reach d - 1) * v.den < |v.num| * d := by
    by_contra hle
    have hreach := (ceilDiv_le_iff v.den_pos).mpr (not_lt.mp hle)
    rw [reach] at hreach
    omega
  rw [abs_div, abs_of_pos hden, div_mul_eq_mul_div, ← sub_lt_iff_lt_add, lt_div_iff₀ hden]
  exact_mod_cast hlt

theorem reach_of_whole (h : v.Whole) : v.reach d = |v.num / v.den| * d := by
  obtain ⟨n, hn⟩ := h
  rw [reach, ceilDiv, hn, Int.mul_ediv_cancel_left _ v.den_pos.ne', abs_mul, abs_of_pos v.den_pos,
    mul_assoc, ← mul_neg, Int.mul_ediv_cancel_left _ v.den_pos.ne', neg_neg]

theorem reach_of_num_eq_zero (h : v.num = 0) : v.reach d = 0 := by simp [reach, ceilDiv, h]

end Rate

/-! ## The ship -/

namespace LinearWorldline

/-- The square of the speed, as an exact rational. -/
def speedSq (w : LinearWorldline) : ℚ := ∑ i, ((w.rate i).num / (w.rate i).den : ℚ) ^ 2

def Subluminal (w : LinearWorldline) : Prop := w.speedSq < (cNmPerNs : ℚ) ^ 2

/-- The cone has room for the rounding: what the axes are seen to move at most in `d` is no more
than light moves. -/
def FitsCone (w : LinearWorldline) (d : Int) : Prop :=
  ∑ i, (w.rate i).reach d ^ 2 ≤ (cNmPerNs * d) ^ 2

instance (w : LinearWorldline) : Decidable w.Subluminal :=
  inferInstanceAs (Decidable (w.speedSq < (cNmPerNs : ℚ) ^ 2))

instance (w : LinearWorldline) (d : Int) : Decidable (w.FitsCone d) :=
  inferInstanceAs (Decidable (∑ i, (w.rate i).reach d ^ 2 ≤ (cNmPerNs * d) ^ 2))

variable {w : LinearWorldline} {t1 t2 d : Int}

theorem dist2_positionAt (w : LinearWorldline) (t1 t2 : Int) :
    dist2 (w.positionAt t1) (w.positionAt t2) =
      ∑ i, ((w.rate i).travel (t2 - w.t0Ns) - (w.rate i).travel (t1 - w.t0Ns)) ^ 2 := by
  rw [Fin.sum_univ_three]
  simp only [dist2, positionAt, rate, Rate.travel, Matrix.cons_val]
  ring

theorem causal_iff (hle : t1 ≤ t2) :
    causallyAdmissibleWl w.toWorldline t1 w.toWorldline t2 = true ↔
      ∑ i, ((w.rate i).travel (t2 - w.t0Ns) - (w.rate i).travel (t1 - w.t0Ns)) ^ 2 ≤
        (cNmPerNs * (t2 - t1)) ^ 2 := by
  rw [← dist2_positionAt]
  exact causallyAdmissible_iff.trans (and_iff_right (sub_nonneg.mpr hle))

/-- **A ship whose rounded path fits into the cone is causal with itself.** -/
theorem FitsCone.causal (h : w.FitsCone (t2 - t1)) (hle : t1 ≤ t2) :
    causallyAdmissibleWl w.toWorldline t1 w.toWorldline t2 = true := by
  rw [causal_iff hle]
  refine le_trans (Finset.sum_le_sum fun i _ => ?_) h
  have hd : 0 ≤ t2 - t1 := sub_nonneg.mpr hle
  have hmove := Rate.abs_travel_sub_le (v := w.rate i) (t1 - w.t0Ns) hd
  rw [show t1 - w.t0Ns + (t2 - t1) = t2 - w.t0Ns by ring] at hmove
  exact sq_le_sq.mpr (hmove.trans (le_abs_self _))

/-- **What does not fit is seen**, at the start of the time count, by a ship that moves one way on
each axis. -/
theorem exists_not_causal (hd : 0 ≤ d)
    (hway : (∀ i, 0 ≤ (w.rate i).num) ∨ ∀ i, (w.rate i).num ≤ 0) (h : ¬ w.FitsCone d) :
    ∃ t1, causallyAdmissibleWl w.toWorldline t1 w.toWorldline (t1 + d) = false := by
  rcases hway with hforth | hback
  · refine ⟨w.t0Ns - d, Bool.eq_false_of_not_eq_true fun hcausal => h ?_⟩
    have hsum := (causal_iff (by omega)).mp hcausal
    have hmove : ∀ i, (w.rate i).travel (w.t0Ns - d + d - w.t0Ns) -
        (w.rate i).travel (w.t0Ns - d - w.t0Ns) = (w.rate i).reach d := by
      intro i
      rw [sub_add_cancel, sub_self, Rate.travel_zero, sub_sub_cancel_left,
        Rate.travel_neg_of_nonneg (hforth i), zero_sub, neg_neg]
    simp only [hmove] at hsum
    rwa [sub_add_cancel, sub_sub_cancel] at hsum
  · refine ⟨w.t0Ns, Bool.eq_false_of_not_eq_true fun hcausal => h ?_⟩
    have hsum := (causal_iff (by omega)).mp hcausal
    have hmove : ∀ i, (w.rate i).travel (w.t0Ns + d - w.t0Ns) -
        (w.rate i).travel (w.t0Ns - w.t0Ns) = -(w.rate i).reach d := by
      intro i
      rw [sub_self, Rate.travel_zero, sub_zero, add_sub_cancel_left,
        Rate.travel_of_nonpos (hback i)]
    simp only [hmove, neg_sq] at hsum
    rwa [add_sub_cancel_left] at hsum

/-! ### Where there is room -/

theorem fitsCone_of_whole (hsub : w.Subluminal) (h : ∀ i, (w.rate i).Whole) : w.FitsCone d := by
  have hspeed : w.speedSq = ((∑ i, ((w.rate i).num / (w.rate i).den) ^ 2 : Int) : ℚ) := by
    rw [speedSq, Int.cast_sum]
    refine Finset.sum_congr rfl fun i _ => ?_
    rw [Int.cast_pow, Int.cast_div (h i) (by exact_mod_cast (w.rate i).den_pos.ne')]
  have hlt : ∑ i, ((w.rate i).num / (w.rate i).den) ^ 2 < cNmPerNs ^ 2 := by
    rw [Subluminal, hspeed] at hsub
    exact_mod_cast hsub
  calc ∑ i, (w.rate i).reach d ^ 2
      = (∑ i, ((w.rate i).num / (w.rate i).den) ^ 2) * d ^ 2 := by
        rw [Finset.sum_mul]
        refine Finset.sum_congr rfl fun i _ => ?_
        rw [Rate.reach_of_whole (h i), mul_pow, sq_abs]
    _ ≤ cNmPerNs ^ 2 * d ^ 2 := mul_le_mul_of_nonneg_right hlt.le (sq_nonneg d)
    _ = (cNmPerNs * d) ^ 2 := (mul_pow _ _ _).symm

/-- No axis is faster than the ship. -/
theorem Subluminal.abs_num_le (hsub : w.Subluminal) (i : Fin 3) :
    |(w.rate i).num| ≤ cNmPerNs * (w.rate i).den := by
  have hden : (0 : ℚ) < (w.rate i).den := by exact_mod_cast (w.rate i).den_pos
  have haxis : ((w.rate i).num / (w.rate i).den : ℚ) ^ 2 ≤ (cNmPerNs : ℚ) ^ 2 :=
    (Finset.single_le_sum (f := fun i => ((w.rate i).num / (w.rate i).den : ℚ) ^ 2)
      (fun j _ => sq_nonneg _) (Finset.mem_univ i)).trans hsub.le
  have habs : |((w.rate i).num / (w.rate i).den : ℚ)| ≤ cNmPerNs :=
    abs_le_of_sq_le_sq haxis (by norm_num [cNmPerNs])
  rw [abs_div, abs_of_pos hden, div_le_iff₀ hden] at habs
  exact_mod_cast habs

/-- One axis alone is rounded up to no more than light moves, which is a whole number. -/
theorem fitsCone_of_axis (hsub : w.Subluminal) (hd : 0 ≤ d) {i : Fin 3}
    (h : ∀ j, j ≠ i → (w.rate j).num = 0) : w.FitsCone d := by
  have hsum : ∑ j, (w.rate j).reach d ^ 2 = (w.rate i).reach d ^ 2 := by
    refine Finset.sum_eq_single i (fun j _ hj => ?_) (fun hi => absurd (Finset.mem_univ i) hi)
    rw [Rate.reach_of_num_eq_zero (h j hj), sq, mul_zero]
  have hreach : (w.rate i).reach d ≤ cNmPerNs * d := by
    rw [Rate.reach, ceilDiv_le_iff (w.rate i).den_pos, mul_right_comm]
    exact mul_le_mul_of_nonneg_right (hsub.abs_num_le i) hd
  rw [FitsCone, hsum]
  exact pow_le_pow_left₀ (Rate.reach_nonneg hd) hreach 2

/-- Adding one on each of three axes adds at most the root of three to a length. -/
theorem sum_add_one_sq_le (a : Fin 3 → ℝ) :
    ∑ i, (a i + 1) ^ 2 ≤ (√(∑ i, a i ^ 2) + √3) ^ 2 := by
  have hnorm := norm_add_le (WithLp.toLp 2 a : EuclideanSpace ℝ (Fin 3)) (WithLp.toLp 2 1)
  rw [EuclideanSpace.norm_eq, EuclideanSpace.norm_eq, EuclideanSpace.norm_eq] at hnorm
  simp only [PiLp.add_apply, Real.norm_eq_abs, sq_abs, Pi.one_apply] at hnorm
  have hthree : ∑ _ : Fin 3, (1 : ℝ) ^ 2 = 3 := by norm_num
  rw [hthree] at hnorm
  exact (Real.sqrt_le_left (by positivity)).mp hnorm

/-- **Over a time in which light gains the diagonal of a nanometer cube on the ship** there is
room. -/
theorem fitsCone_of_slow (hsub : w.Subluminal)
    (h : √3 ≤ ((cNmPerNs : ℝ) - √(w.speedSq : ℝ)) * d) : w.FitsCone d := by
  have hslower : √(w.speedSq : ℝ) < cNmPerNs := by
    rw [Real.sqrt_lt' (by norm_num [cNmPerNs])]
    exact_mod_cast hsub
  have hd : (0 : ℝ) ≤ d := by
    have hpos : 0 < ((cNmPerNs : ℝ) - √(w.speedSq : ℝ)) * d :=
      lt_of_lt_of_le (Real.sqrt_pos.mpr three_pos) h
    exact ((pos_iff_pos_of_mul_pos hpos).mp (sub_pos.mpr hslower)).le
  have hlength : √(∑ i, (|((w.rate i).num : ℝ) / (w.rate i).den| * d) ^ 2) =
      √(w.speedSq : ℝ) * d := by
    have hsum : ∑ i, (|((w.rate i).num : ℝ) / (w.rate i).den| * d) ^ 2 = w.speedSq * d ^ 2 := by
      simp only [speedSq, mul_pow, sq_abs, ← Finset.sum_mul]
      push_cast
      rfl
    rw [hsum, Real.sqrt_mul' _ (sq_nonneg _), Real.sqrt_sq hd]
  have hreal : ∑ i, ((w.rate i).reach d : ℝ) ^ 2 ≤ ((cNmPerNs : ℝ) * d) ^ 2 := by
    calc ∑ i, ((w.rate i).reach d : ℝ) ^ 2
        ≤ ∑ i, (|((w.rate i).num : ℝ) / (w.rate i).den| * d + 1) ^ 2 := by
          refine Finset.sum_le_sum fun i _ => ?_
          have hnonneg : 0 ≤ (w.rate i).reach d := Rate.reach_nonneg (by exact_mod_cast hd)
          exact pow_le_pow_left₀ (by exact_mod_cast hnonneg) (Rate.reach_lt _ _).le 2
      _ ≤ (√(w.speedSq : ℝ) * d + √3) ^ 2 := by
          rw [← hlength]
          exact sum_add_one_sq_le _
      _ ≤ ((cNmPerNs : ℝ) * d) ^ 2 := by
          refine pow_le_pow_left₀ (by positivity) ?_ 2
          linarith
  rw [FitsCone]
  exact_mod_cast hreal

/-! ### Causal with itself -/

/-- **A ship slower than light is causal with itself where its cone has room for the rounding**:
over every duration when it moves on one axis only or its velocity is whole, and in general over a
duration in which light gains the diagonal of a nanometer cube. Over a duration for which there is
no room, a ship that moves one way on each axis is seen to be faster than light. -/
theorem subluminal_causal (hsub : w.Subluminal) :
    (∀ t1 t2, t1 ≤ t2 → w.FitsCone (t2 - t1) →
      causallyAdmissibleWl w.toWorldline t1 w.toWorldline t2 = true) ∧
    ((∀ i, (w.rate i).Whole) ∨ (∃ i, ∀ j, j ≠ i → (w.rate j).num = 0) →
      ∀ t1 t2, t1 ≤ t2 → causallyAdmissibleWl w.toWorldline t1 w.toWorldline t2 = true) ∧
    (∀ t1 t2 : Int, t1 ≤ t2 → √3 ≤ ((cNmPerNs : ℝ) - √(w.speedSq : ℝ)) * (t2 - t1 : Int) →
      causallyAdmissibleWl w.toWorldline t1 w.toWorldline t2 = true) ∧
    ((∀ i, 0 ≤ (w.rate i).num) ∨ (∀ i, (w.rate i).num ≤ 0) →
      ∀ d, 0 ≤ d → ¬ w.FitsCone d →
        ∃ t1, causallyAdmissibleWl w.toWorldline t1 w.toWorldline (t1 + d) = false) := by
  refine ⟨fun t1 t2 hle hfits => hfits.causal hle, ?_, ?_, ?_⟩
  · rintro (hwhole | ⟨i, haxis⟩) t1 t2 hle
    · exact (fitsCone_of_whole hsub hwhole).causal hle
    · exact (fitsCone_of_axis hsub (sub_nonneg.mpr hle) haxis).causal hle
  · intro t1 t2 hle hgain
    exact (fitsCone_of_slow hsub hgain).causal hle
  · intro hway d hd hfits
    exact exists_not_causal hd hway hfits

/-- Almost as fast as light along one axis, and a quarter of a nanometer past a whole number on
another. -/
def driftingShip : LinearWorldline where
  p0Nm := ⟨0, 0, 0⟩
  t0Ns := 0
  vx := ⟨299792457, 1, Int.one_pos⟩
  vy := ⟨97945, 4, by decide⟩
  vz := ⟨0, 1, Int.one_pos⟩

theorem driftingShip_subluminal : driftingShip.Subluminal := by decide +kernel

/-- Its rounded path fits into the cone over four nanoseconds, and over one it does not. -/
theorem subluminal_causal_drifting :
    causallyAdmissibleWl driftingShip.toWorldline 0 driftingShip.toWorldline 4 = true ∧
    ∃ t1, causallyAdmissibleWl driftingShip.toWorldline t1 driftingShip.toWorldline (t1 + 1) =
      false :=
  have hship := subluminal_causal driftingShip_subluminal
  ⟨hship.1 0 4 (by decide) (by decide),
    hship.2.2.2 (Or.inl (by decide)) 1 (by decide) (by decide)⟩

/-- From `3` to `4` it is seen to move `24487` nanometers aside, outside its cone. -/
theorem drifting_not_causal :
    driftingShip.Subluminal ∧
    ¬ ∀ t1 t2, t1 ≤ t2 →
      causallyAdmissibleWl driftingShip.toWorldline t1 driftingShip.toWorldline t2 = true := by
  refine ⟨driftingShip_subluminal, ?_⟩
  intro h
  have hfaster : causallyAdmissibleWl driftingShip.toWorldline 3 driftingShip.toWorldline 4 =
    false := by decide
  cases hfaster.symm.trans (h 3 4 (by decide))

end LinearWorldline

end HorizonProtocol.Trajectory
