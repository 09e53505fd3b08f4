import HorizonProtocol.Attestation.ClockError
import HorizonProtocol.Attestation.Distance
import HorizonProtocol.Attestation.Telemetry

/-!
# The latency gate

`horizon/latency_gate.py`: one predicate for a packet that comes one way, `telemetryConsistent`, and
one for an answer to a challenge, `trajectoryAttested`. Both grant the clock uncertainty to the
claimant and tell apart what is impossible from what the apparatus cannot resolve.

* `telemetryConsistent_meetsBands_iff` — when the first one keeps to the three bands that its
  specification gives. It asks for the raw interval first, with no grant at all.
* `honest_not_rejected_iff` — when the second one lets an honest prover through. It rounds the round
  trip up once, the prover's signals are rounded up each way.
-/

namespace HorizonProtocol.Attestation

/-! ## One way -/

/-- What the gate is to say of an arrival. -/
structure MeetsBands (t0 : Int) (pSrc : Pos) (tRecv : Int) (pDst : Pos) (uNs resolveNs : Int)
    (verdict : ArrivalVerdict) : Prop where
  admitted : verdict = .admitted ↔ (minLightTimeNs pSrc pDst : Int) ≤ tRecv - t0 + uNs
  apparatusLimited : verdict = .apparatusLimited ↔
    (minLightTimeNs pSrc pDst : Int) - resolveNs ≤ tRecv - t0 + uNs ∧
      tRecv - t0 + uNs < minLightTimeNs pSrc pDst
  rejected : verdict = .rejected ↔ tRecv - t0 + uNs < minLightTimeNs pSrc pDst - resolveNs
  /-- An arrival that the uncertainty explains is never rejected. -/
  explained : Explained t0 pSrc tRecv pDst uNs → verdict ≠ .rejected

variable {t0 tRecv uNs resolveNs : Int} {pSrc pDst : Pos}

/-- The gate rejects below the lower band, and whatever is received before it is emitted. -/
theorem telemetryConsistent_rejected_iff :
    (telemetryConsistent t0 pSrc tRecv pDst uNs resolveNs).verdict = .rejected ↔
      tRecv < t0 ∨ tRecv - t0 + uNs < minLightTimeNs pSrc pDst - resolveNs := by
  simp only [telemetryConsistent]
  grind

theorem telemetryConsistent_apparatusLimited_iff :
    (telemetryConsistent t0 pSrc tRecv pDst uNs resolveNs).verdict = .apparatusLimited ↔
      t0 ≤ tRecv ∧ (minLightTimeNs pSrc pDst : Int) - resolveNs ≤ tRecv - t0 + uNs ∧
        tRecv - t0 + uNs < minLightTimeNs pSrc pDst := by
  simp only [telemetryConsistent]
  grind

/-- **The gate keeps to its bands except before the emission.** There it rejects at once, which is
right only if the uncertainty and the resolution together could not bring the arrival into the cone
of the emission. -/
theorem telemetryConsistent_meetsBands_iff (hu : 0 ≤ uNs) (hresolve : 0 ≤ resolveNs) :
    MeetsBands t0 pSrc tRecv pDst uNs resolveNs
        (telemetryConsistent t0 pSrc tRecv pDst uNs resolveNs).verdict ↔
      t0 ≤ tRecv ∨ causallyAdmissible t0 pSrc (tRecv + uNs + resolveNs) pDst = false := by
  have hadmitted := @telemetryConsistent_admitted_iff t0 tRecv uNs resolveNs pSrc pDst
  have hlimited := @telemetryConsistent_apparatusLimited_iff t0 tRecv uNs resolveNs pSrc pDst
  have hrejected := @telemetryConsistent_rejected_iff t0 tRecv uNs resolveNs pSrc pDst
  rw [← Bool.not_eq_true, causallyAdmissible_iff_minLightTime]
  constructor
  · intro h
    have hband := h.rejected.symm.trans hrejected
    omega
  · intro h
    refine ⟨?_, ?_, ?_, ?_⟩
    · rw [hadmitted]
      omega
    · rw [hlimited]
      omega
    · rw [hrejected]
      omega
    · intro hexplained
      rw [explained_iff hu] at hexplained
      show ¬ _
      rw [hrejected]
      omega

/-- A packet received 1 ns before its emission, by a clock that may be off by 10. -/
theorem telemetryConsistent_rejects_explained :
    ¬ MeetsBands 0 ⟨0, 0, 0⟩ (-1) ⟨0, 0, 0⟩ 10 0
      (telemetryConsistent 0 ⟨0, 0, 0⟩ (-1) ⟨0, 0, 0⟩ 10 0).verdict := by
  intro h
  exact absurd (h.admitted.mpr (by decide)) (by decide)

theorem telemetryConsistent_meetsBands_later :
    MeetsBands 0 ⟨0, 0, 0⟩ 1 ⟨299792458, 0, 0⟩ 0 0
      (telemetryConsistent 0 ⟨0, 0, 0⟩ 1 ⟨299792458, 0, 0⟩ 0 0).verdict :=
  (telemetryConsistent_meetsBands_iff (by decide) (by decide)).mpr (Or.inl (by decide))

/-! ## There and back -/

structure TrajectoryMargins where
  rttNs : Int
  procNs : Int
  uNs : Int
  dtNs : Int
  dtAdjustedLowNs : Int
  dtAdjustedHighNs : Int
  requiredNs : Nat
  resolveNs : Int
  marginLowNs : Int
  marginHighNs : Int
  deriving DecidableEq

inductive TrajectoryWitness where
  | responseBeforeChallenge (rttNs : Int)
  | margins (margins : TrajectoryMargins) (reason : Option String)
  deriving DecidableEq

structure TrajectoryResult where
  verdict : ArrivalVerdict
  witness : TrajectoryWitness
  deriving DecidableEq

/-- `trajectory_attested`: the round trip bounds the claimed distance from both sides. -/
def trajectoryAttested (tChallenge : Int) (pVerifier : Pos) (tResponse : Int) (pClaimed : Pos)
    (procNs uNs resolveNs : Int) : TrajectoryResult :=
  let rtt := tResponse - tChallenge
  if rtt < 0 then ⟨.rejected, .responseBeforeChallenge rtt⟩
  else
    let dt := rtt - procNs
    -- the uncertainty counts for the prover at either bound
    let dtAdjustedLow := dt + uNs
    let dtAdjustedHigh := dt - uNs
    let requiredNs := minRoundTripNs pVerifier pClaimed
    let w : TrajectoryMargins :=
      { rttNs := rtt, procNs, uNs, dtNs := dt
        dtAdjustedLowNs := dtAdjustedLow, dtAdjustedHighNs := dtAdjustedHigh
        requiredNs, resolveNs
        marginLowNs := dtAdjustedLow - requiredNs, marginHighNs := dtAdjustedHigh - requiredNs }
    if dtAdjustedLow < requiredNs - resolveNs then
      ⟨.rejected, .margins w (some "too_fast_for_claimed_distance")⟩
    else if dtAdjustedHigh > requiredNs + resolveNs then
      ⟨.rejected, .margins w (some "too_slow_for_claimed_distance")⟩
    else if dtAdjustedLow < requiredNs ∨ dtAdjustedHigh > requiredNs then
      ⟨.apparatusLimited, .margins w none⟩
    else ⟨.admitted, .margins w none⟩

section Trajectory

variable {tChallenge tResponse procNs : Int} {pVerifier pClaimed : Pos}

theorem trajectoryAttested_ne_rejected_iff :
    (trajectoryAttested tChallenge pVerifier tResponse pClaimed procNs uNs resolveNs).verdict ≠
        .rejected ↔
      tChallenge ≤ tResponse ∧
      (minRoundTripNs pVerifier pClaimed : Int) - resolveNs ≤
        tResponse - tChallenge - procNs + uNs ∧
      tResponse - tChallenge - procNs - uNs ≤ minRoundTripNs pVerifier pClaimed + resolveNs := by
  simp only [trajectoryAttested]
  grind

theorem trajectoryAttested_admitted_iff (hresolve : 0 ≤ resolveNs) :
    (trajectoryAttested tChallenge pVerifier tResponse pClaimed procNs uNs resolveNs).verdict =
        .admitted ↔
      tChallenge ≤ tResponse ∧
      |tResponse - tChallenge - procNs - minRoundTripNs pVerifier pClaimed| ≤ uNs := by
  rw [abs_le]
  simp only [trajectoryAttested]
  grind

/-- When the answer of an honest prover is received: after the floor of each way, and the time it
takes to answer. -/
def honestResponse (tChallenge : Int) (pVerifier pProver : Pos) (procNs : Int) : Int :=
  tChallenge + minLightTimeNs pVerifier pProver + procNs + minLightTimeNs pProver pVerifier

/-- Rounding each way up costs the most 1 ns more than rounding the round trip up. -/
theorem two_mul_minLightTimeNs_le (v p : Pos) :
    2 * minLightTimeNs v p ≤ minRoundTripNs v p + 1 := by
  have htrip := (@minRoundTripNs_le_iff v p (minRoundTripNs v p)).mp le_rfl
  have hhalf : minLightTimeNs v p ≤ (minRoundTripNs v p + 1) / 2 := by
    rw [minLightTimeNs_le_iff]
    have hdouble : (minRoundTripNs v p : Int) ≤ 2 * ((minRoundTripNs v p + 1) / 2 : Nat) := by omega
    have hmul : cNmPerNs * (minRoundTripNs v p : Int) ≤
        cNmPerNs * (2 * ((minRoundTripNs v p + 1) / 2 : Nat)) :=
      mul_le_mul_of_nonneg_left hdouble (by decide)
    have hsq := pow_le_pow_left₀ (mul_nonneg (by decide) (Int.natCast_nonneg _)) hmul 2
    have hfour : (cNmPerNs * (2 * (((minRoundTripNs v p + 1) / 2 : Nat) : Int))) ^ 2 =
        4 * (cNmPerNs * (((minRoundTripNs v p + 1) / 2 : Nat) : Int)) ^ 2 := by ring
    omega
  omega

/-- The two roundings agree exactly when light does not make the round trip 1 ns sooner. -/
theorem minRoundTripNs_eq_two_mul_iff {v p : Pos} :
    minRoundTripNs v p = 2 * minLightTimeNs v p ↔
      v = p ∨ (cNmPerNs * (2 * minLightTimeNs v p - 1)) ^ 2 < 4 * dist2 v p := by
  have hle := minRoundTripNs_le_two_mul v p
  by_cases hzero : minLightTimeNs v p = 0
  · rw [← minLightTimeNs_eq_zero]
    omega
  · have hsooner := @minRoundTripNs_le_iff v p (2 * minLightTimeNs v p - 1)
    rw [Nat.cast_sub (by omega)] at hsooner
    push_cast at hsooner
    rw [← minLightTimeNs_eq_zero, or_iff_right hzero, ← not_le, ← hsooner]
    omega

/-- **An honest prover is let through exactly when the gate has something to grant or the two
roundings agree.** -/
theorem honest_not_rejected_iff (hproc : 0 ≤ procNs) (hu : 0 ≤ uNs) (hresolve : 0 ≤ resolveNs) :
    (trajectoryAttested tChallenge pVerifier
        (honestResponse tChallenge pVerifier pClaimed procNs) pClaimed procNs uNs
        resolveNs).verdict ≠ .rejected ↔
      0 < uNs + resolveNs ∨ pVerifier = pClaimed ∨
        (cNmPerNs * (2 * minLightTimeNs pVerifier pClaimed - 1)) ^ 2 <
          4 * dist2 pVerifier pClaimed := by
  have hle := minRoundTripNs_le_two_mul pVerifier pClaimed
  have hge := two_mul_minLightTimeNs_le pVerifier pClaimed
  rw [trajectoryAttested_ne_rejected_iff, ← minRoundTripNs_eq_two_mul_iff, honestResponse,
    minLightTimeNs_comm pClaimed pVerifier]
  omega

/-- A prover 1 nm away answers at once, and is taken for one that is farther away. -/
theorem honest_rejected_at_one_nm :
    (trajectoryAttested 0 ⟨0, 0, 0⟩ (honestResponse 0 ⟨0, 0, 0⟩ ⟨1, 0, 0⟩ 0) ⟨1, 0, 0⟩ 0 0
      0).verdict = .rejected := by
  decide +kernel

theorem honest_not_rejected_at_one_nm :
    (trajectoryAttested 0 ⟨0, 0, 0⟩ (honestResponse 0 ⟨0, 0, 0⟩ ⟨1, 0, 0⟩ 25) ⟨1, 0, 0⟩ 25 1
      0).verdict ≠ .rejected :=
  (honest_not_rejected_iff (by decide) (by decide) (by decide)).mpr (Or.inl (by decide))

end Trajectory

end HorizonProtocol.Attestation
