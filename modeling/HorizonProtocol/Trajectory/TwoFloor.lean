import HorizonProtocol.Trajectory.Locator

/-!
# The two-floor verdict

`horizon/two_floor.py`: three verdicts over uncertain positions, decided on whole numbers. The gate
compares `L = c * dt` with the extremes `d + r` and `d - r` of the distance by moving `r` over to
`L` and squaring, and the meaning is the light cone between two balls of real space:

* `two_floor_exact` — admitted is must-reach, rejected is not may-reach, and the rest is in between.
-/

namespace HorizonProtocol.Trajectory

inductive TwoFloorVerdict where
  | admitted
  | rejected
  | apparatusLimited
  deriving DecidableEq

inductive TwoFloorReason where
  | negativeDt
  | worstCaseInEnvelopeAdmissible
  | bestCaseInEnvelopeStillFailsVacuumFloor
  | envelopeStraddlesTheLightCone
  deriving DecidableEq

/-- What the verdict was computed from, once both sides are resolved. -/
structure Floors where
  center1Nm : Pos
  center2Nm : Pos
  radius1Nm : Int
  radius2Nm : Int
  radiusNm : Int
  dist2ToCenterNm2 : Int
  cDtNm : Int
  deriving DecidableEq

structure TwoFloorWitness where
  t1 : Int
  t2 : Int
  dtNs : Int
  floors : Option Floors
  reason : TwoFloorReason
  deriving DecidableEq

structure TwoFloorResult where
  verdict : TwoFloorVerdict
  witness : TwoFloorWitness
  deriving DecidableEq

/-- The worst case still satisfies admissibility. -/
def worstCaseAdmitted (lhs r d2 : Int) : Bool := decide (lhs ≥ r) && decide ((lhs - r) ^ 2 ≥ d2)

/-- The best case still fails. -/
def bestCaseRejected (lhs r d2 : Int) : Bool := decide (d2 > r * r) && decide ((lhs + r) ^ 2 < d2)

/-- `two_floor_verdict`. A negative gap is settled before any side is resolved. -/
def twoFloorVerdict (t1 : Int) (p1 : Side) (t2 : Int) (p2 : Side) :
    Except TrajectoryError TwoFloorResult :=
  let dt := t2 - t1
  if dt < 0 then
    .ok ⟨.rejected, { t1, t2, dtNs := dt, floors := none, reason := .negativeDt }⟩
  else do
    let (center1, r1) ← p1.resolve t1
    let (center2, r2) ← p2.resolve t2
    let r := r1 + r2
    let d2 := dist2 center1 center2
    let lhs := cNmPerNs * dt
    let floors : Floors :=
      { center1Nm := center1, center2Nm := center2, radius1Nm := r1, radius2Nm := r2
        radiusNm := r, dist2ToCenterNm2 := d2, cDtNm := lhs }
    let witness : TwoFloorReason → TwoFloorWitness := fun reason =>
      { t1, t2, dtNs := dt, floors := some floors, reason }
    if worstCaseAdmitted lhs r d2 then
      return ⟨.admitted, witness .worstCaseInEnvelopeAdmissible⟩
    else if bestCaseRejected lhs r d2 then
      return ⟨.rejected, witness .bestCaseInEnvelopeStillFailsVacuumFloor⟩
    else
      return ⟨.apparatusLimited, witness .envelopeStraddlesTheLightCone⟩

/-! ## The two floors -/

section Floors

variable {lhs r d2 : Int} {d : ℝ}

/-- The worst case is at the sum of the distance and the radii. -/
theorem worstCaseAdmitted_iff (hd : 0 ≤ d) (hd2 : d ^ 2 = d2) :
    worstCaseAdmitted lhs r d2 = true ↔ d + r ≤ lhs := by
  have hcast : d2 ≤ (lhs - r) ^ 2 ↔ d ^ 2 ≤ ((lhs : ℝ) - r) ^ 2 := by
    rw [hd2]
    norm_cast
  simp only [worstCaseAdmitted, Bool.and_eq_true, decide_eq_true_eq, ge_iff_le, hcast]
  constructor
  · rintro ⟨hr, hsq⟩
    have hgap : (0 : ℝ) ≤ (lhs : ℝ) - r := sub_nonneg.mpr (by exact_mod_cast hr)
    have hle := le_of_sq_le_sq hsq hgap
    linarith
  · intro h
    have hle : d ≤ (lhs : ℝ) - r := by linarith
    refine ⟨?_, pow_le_pow_left₀ hd hle 2⟩
    have hr : (r : ℝ) ≤ lhs := by linarith
    exact_mod_cast hr

/-- The best case is at the distance less the radii. -/
theorem bestCaseRejected_iff (hd : 0 ≤ d) (hd2 : d ^ 2 = d2) (hr : 0 ≤ r) (hlhs : 0 ≤ lhs) :
    bestCaseRejected lhs r d2 = true ↔ (lhs : ℝ) + r < d := by
  have hr' : (0 : ℝ) ≤ r := by exact_mod_cast hr
  have hlhs' : (0 : ℝ) ≤ lhs := by exact_mod_cast hlhs
  have hdisjoint : d2 > r * r ↔ (r : ℝ) ^ 2 < d ^ 2 := by
    rw [hd2, gt_iff_lt, ← pow_two]
    norm_cast
  have hcast : (lhs + r) ^ 2 < d2 ↔ ((lhs : ℝ) + r) ^ 2 < d ^ 2 := by
    rw [hd2]
    norm_cast
  simp only [bestCaseRejected, Bool.and_eq_true, decide_eq_true_eq, hdisjoint, hcast]
  constructor
  · rintro ⟨-, hsq⟩
    exact lt_of_pow_lt_pow_left₀ 2 hd hsq
  · intro h
    exact ⟨pow_lt_pow_left₀ (by linarith) hr' two_ne_zero,
      pow_lt_pow_left₀ h (by linarith) two_ne_zero⟩

end Floors

/-! ## The verdict and the light cone -/

variable {t1 t2 : Int} {p1 p2 : Side}

/-- Wherever the two sides put the events, light gets from the first to the second. -/
abbrev MustReach (t1 : Int) (p1 : Side) (t2 : Int) (p2 : Side) : Prop :=
  LightCone.MustReach (cNmPerNs : ℝ) (p1.region t1) (p2.region t2)

/-- The two sides allow some pair of events with light from the first to the second. -/
abbrev MayReach (t1 : Int) (p1 : Side) (t2 : Int) (p2 : Side) : Prop :=
  LightCone.MayReach (cNmPerNs : ℝ) (p1.region t1) (p2.region t2)

/-- What the three verdicts mean. -/
structure TwoFloorVerdict.Exact (v : TwoFloorVerdict) (must may : Prop) : Prop where
  admitted_iff : v = .admitted ↔ must
  rejected_iff : v = .rejected ↔ ¬ may
  apparatusLimited_iff : v = .apparatusLimited ↔ ¬ must ∧ may

section Resolved

variable {center1 center2 : Pos} {r1 r2 : Int}

/-- The source's case table, once both sides are resolved. -/
theorem twoFloorVerdict_cases (hs1 : p1.resolve t1 = .ok (center1, r1))
    (hs2 : p2.resolve t2 = .ok (center2, r2)) :
    ∃ res, twoFloorVerdict t1 p1 t2 p2 = .ok res ∧ res.verdict =
      if t2 - t1 < 0 then .rejected
      else if worstCaseAdmitted (cNmPerNs * (t2 - t1)) (r1 + r2) (dist2 center1 center2) then
        .admitted
      else if bestCaseRejected (cNmPerNs * (t2 - t1)) (r1 + r2) (dist2 center1 center2) then
        .rejected
      else .apparatusLimited := by
  unfold twoFloorVerdict
  rw [hs1, hs2]
  dsimp only [bind, Except.bind, pure, Except.pure]
  split
  · exact ⟨_, rfl, rfl⟩
  · split
    · exact ⟨_, rfl, rfl⟩
    · split
      · exact ⟨_, rfl, rfl⟩
      · exact ⟨_, rfl, rfl⟩

theorem mustReach_iff_worstCase (hs1 : p1.resolve t1 = .ok (center1, r1))
    (hs2 : p2.resolve t2 = .ok (center2, r2)) (hr1 : 0 ≤ r1) (hr2 : 0 ≤ r2) :
    MustReach t1 p1 t2 p2 ↔
      worstCaseAdmitted (cNmPerNs * (t2 - t1)) (r1 + r2) (dist2 center1 center2) = true := by
  rw [MustReach, Side.region_eq hs1, Side.region_eq hs2,
    LightCone.mustReach_ball_iff (by exact_mod_cast hr1) (by exact_mod_cast hr2),
    worstCaseAdmitted_iff (norm_nonneg _) (norm_toSpace_sub_sq center1 center2)]
  push_cast
  rfl

theorem mayReach_iff_bestCase (hs1 : p1.resolve t1 = .ok (center1, r1))
    (hs2 : p2.resolve t2 = .ok (center2, r2)) (hr1 : 0 ≤ r1) (hr2 : 0 ≤ r2) :
    MayReach t1 p1 t2 p2 ↔ 0 ≤ t2 - t1 ∧
      ¬ bestCaseRejected (cNmPerNs * (t2 - t1)) (r1 + r2) (dist2 center1 center2) = true := by
  have hc : (0 : ℝ) < (cNmPerNs : ℝ) := by norm_num [cNmPerNs]
  have hgap : 0 ≤ (cNmPerNs : ℝ) * ((t2 : ℝ) - t1) ↔ 0 ≤ t2 - t1 := by
    rw [mul_nonneg_iff_of_pos_left hc]
    norm_cast
  rw [MayReach, Side.region_eq hs1, Side.region_eq hs2,
    LightCone.mayReach_ball_iff (by exact_mod_cast hr1) (by exact_mod_cast hr2), hgap]
  apply and_congr_right
  intro hdt
  have hlhs : 0 ≤ cNmPerNs * (t2 - t1) := mul_nonneg (by decide) hdt
  rw [bestCaseRejected_iff (norm_nonneg _) (norm_toSpace_sub_sq center1 center2)
    (add_nonneg hr1 hr2) hlhs, not_lt]
  push_cast
  rfl

end Resolved

theorem MustReach.may (h1 : p1.Covers t1) (h2 : p2.Covers t2) (h : MustReach t1 p1 t2 p2) :
    MayReach t1 p1 t2 p2 :=
  LightCone.MustReach.mayReach h (Side.region_nonempty h1) (Side.region_nonempty h2)

/-- The gate answers whenever both sides cover their times, and its verdict is exact. -/
theorem twoFloorVerdict_spec (h1 : p1.Covers t1) (h2 : p2.Covers t2) :
    ∃ res, twoFloorVerdict t1 p1 t2 p2 = .ok res ∧
      res.verdict.Exact (MustReach t1 p1 t2 p2) (MayReach t1 p1 t2 p2) := by
  obtain ⟨center1, r1, hs1, hr1⟩ := Side.resolve_eq_ok h1
  obtain ⟨center2, r2, hs2, hr2⟩ := Side.resolve_eq_ok h2
  obtain ⟨res, hres, hv⟩ := twoFloorVerdict_cases hs1 hs2
  have hmm : MustReach t1 p1 t2 p2 → MayReach t1 p1 t2 p2 := MustReach.may h1 h2
  refine ⟨res, hres, ?_⟩
  rw [hv]
  rw [mustReach_iff_worstCase hs1 hs2 hr1 hr2, mayReach_iff_bestCase hs1 hs2 hr1 hr2] at hmm ⊢
  -- without a negative gap, the verdicts are read off the two floors
  split
  · next hdt =>
      exact ⟨by grind, by grind, by grind⟩
  · next hdt => exact ⟨by grind, by grind, by grind⟩

/-- Between definite points the gate is the kernel. -/
theorem twoFloorVerdict_points (t1 t2 : Int) (q1 q2 : Pos) :
    ∃ res, twoFloorVerdict t1 (.point q1) t2 (.point q2) = .ok res ∧
      res.verdict = if causallyAdmissible t1 q1 t2 q2 then .admitted else .rejected := by
  obtain ⟨res, hres, hexact⟩ :=
    @twoFloorVerdict_spec t1 t2 (.point q1) (.point q2) trivial trivial
  have hmust : MustReach t1 (.point q1) t2 (.point q2) ↔ causallyAdmissible t1 q1 t2 q2 = true := by
    rw [causallyAdmissible_iff_reaches]
    simp [MustReach, toSpacetime]
  have hmay : MayReach t1 (.point q1) t2 (.point q2) ↔ causallyAdmissible t1 q1 t2 q2 = true := by
    rw [causallyAdmissible_iff_reaches]
    simp [MayReach, toSpacetime]
  refine ⟨res, hres, ?_⟩
  split
  · next h => exact hexact.admitted_iff.mpr (hmust.mpr h)
  · next h => exact hexact.rejected_iff.mpr (fun hr => h (hmay.mp hr))

/-- **The two-floor verdict is exact.** On sides that cover their times it is admitted when light
gets from every allowed place of the first to every allowed place of the second, rejected when it
gets from none to none, and apparatus-limited otherwise. So definite points are never
apparatus-limited, and to know less of a place never turns one definite verdict into the other. -/
theorem two_floor_exact (t1 t2 : Int) (p1 p2 : Side) (h1 : p1.Covers t1) (h2 : p2.Covers t2) :
    (∃ res, twoFloorVerdict t1 p1 t2 p2 = .ok res ∧
      res.verdict.Exact (MustReach t1 p1 t2 p2) (MayReach t1 p1 t2 p2)) ∧
    (∀ q1 q2 : Pos, ∃ res, twoFloorVerdict t1 (.point q1) t2 (.point q2) = .ok res ∧
      res.verdict = if causallyAdmissible t1 q1 t2 q2 then .admitted else .rejected) ∧
    (∀ (p1' p2' : Side) (res res' : TwoFloorResult), p1.Widens t1 p1' → p2.Widens t2 p2' →
      twoFloorVerdict t1 p1 t2 p2 = .ok res → twoFloorVerdict t1 p1' t2 p2' = .ok res' →
      (res.verdict = .admitted → res'.verdict ≠ .rejected) ∧
      (res.verdict = .rejected → res'.verdict ≠ .admitted)) := by
  refine ⟨twoFloorVerdict_spec h1 h2, twoFloorVerdict_points t1 t2, ?_⟩
  intro p1' p2' res res' hw1 hw2 hres hres'
  obtain ⟨_, hok, hexact⟩ := twoFloorVerdict_spec h1 h2
  cases hok.symm.trans hres
  obtain ⟨_, hok', hexact'⟩ := twoFloorVerdict_spec hw1.covers hw2.covers
  cases hok'.symm.trans hres'
  constructor
  · intro hadmitted hrejected
    apply hexact'.rejected_iff.mp hrejected
    have hmay := MustReach.may h1 h2 (hexact.admitted_iff.mp hadmitted)
    exact hmay.mono rfl rfl hw1.region_subset hw2.region_subset
  · intro hrejected hadmitted
    apply hexact.rejected_iff.mp hrejected
    have hmust := hexact'.admitted_iff.mp hadmitted
    exact MustReach.may h1 h2 (hmust.anti rfl rfl hw1.region_subset hw2.region_subset)

/-- A thousand light-nanoseconds away, and drifting since time zero. -/
def drifting : TrajectoryEnvelope where
  nominal := FixedWorldline ⟨299792458000, 0, 0⟩
  tC := 0
  vUnc := 500000
  aMax := 100
  uMeasured := 0

theorem two_floor_exact_straddling :
    ¬ MustReach 0 (.point ⟨0, 0, 0⟩) 1000 (.envelope drifting) ∧
      MayReach 0 (.point ⟨0, 0, 0⟩) 1000 (.envelope drifting) := by
  obtain ⟨res, hres, hexact⟩ :=
    (two_floor_exact 0 1000 (.point ⟨0, 0, 0⟩) (.envelope drifting) trivial (by decide)).1
  apply hexact.apparatusLimited_iff.mp
  cases hres
  rfl

end HorizonProtocol.Trajectory
