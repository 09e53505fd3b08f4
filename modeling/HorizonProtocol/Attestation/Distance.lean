import HorizonProtocol.Geometry
import Mathlib.Data.Finmap
import Mathlib.Data.Finset.Sort
import Mathlib.Data.String.Basic

/-!
# Distance bounding

`horizon/distance.py`: verifiers at known places time a challenge and its response, and decide
whether a prover can be where it claims to be. Two integer roundings meet: the floor rounds the whole
round trip up, the deadline rounds each way up.

* `rttBoundWitness_admitted_iff` — a verifier admits what lies between the two.
* `multilateration_admitted_iff` — all verifiers together admit what each of them admits.
* `minLightTimeNs_le_of_roundTrip` — what a round trip says of where the answer came from, for real
  times as well as whole ones.
-/

namespace HorizonProtocol.Attestation

/-- `{verifier_id: value}`. -/
abbrev VerifierDict (α : Type) := Finmap fun _ : String => α

/-! ## The frozen parameters -/

/-- `VERIFIERS`. -/
def frozenVerifiers : VerifierDict Pos :=
  (((∅ : VerifierDict Pos).insert "V1" ⟨0, 0, 0⟩).insert "V2" ⟨20000000000000, 0, 0⟩
    |>.insert "V3" ⟨0, 20000000000000, 0⟩).insert "V4" ⟨0, 0, 20000000000000⟩

/-- `P_CLAIM`. -/
def pClaim : Pos := ⟨6000000000000, 6000000000000, 0⟩

/-- `PROC_NS`. -/
def procNs : Int := 25

/-! ## One verifier -/

/-- Smallest whole `t` with `(c * t)² ≥ 4 * dist²`. -/
def minRoundTripNs (vPos pPos : Pos) : Nat :=
  LeastTime.leastTime cNmPerNs.toNat (4 * dist2 vPos pPos).toNat

/-- The latest admissible response time for a prover at the claimed position. -/
def deadlineNs (vPos pPos : Pos) (procNs : Int) : Int := 2 * minLightTimeNs vPos pPos + procNs

inductive DistanceVerdict where
  | admitted
  | rejected
  deriving DecidableEq

inductive DistanceGate where
  | ftlFloor
  | deadline
  | rttBound
  deriving DecidableEq

structure RttBoundWitness where
  rttNs : Int
  procNs : Int
  rttMinusProcNs : Int
  cNmPerNs : Int
  lhsCDtSquared : Option Int
  rhs4DistSquaredNm2 : Int
  minLightTimeNs : Int
  deadlineNs : Int
  gate : DistanceGate
  verdict : DistanceVerdict
  detail : Option String
  deriving DecidableEq

def rttBoundWitness (rttNs procNs : Int) (vPos pClaim : Pos) : RttBoundWitness :=
  let dt := rttNs - procNs
  let d2Claim := dist2 vPos pClaim
  let lhs := if dt ≥ 0 then some ((cNmPerNs * dt) ^ 2) else none
  let rhs := 4 * d2Claim
  let mlt : Int := minLightTimeNs vPos pClaim
  let dl := 2 * mlt + procNs
  let base : RttBoundWitness :=
    { rttNs, procNs, rttMinusProcNs := dt, cNmPerNs, lhsCDtSquared := lhs
      rhs4DistSquaredNm2 := rhs, minLightTimeNs := mlt, deadlineNs := dl
      gate := .rttBound, verdict := .admitted, detail := none }
  -- a negative `dt` has no square to compare
  if lhs.all fun l => decide (l < rhs) then
    { base with
      gate := .ftlFloor, verdict := .rejected
      detail := some ("response faster than light permits for the " ++
        "claimed position (RTT - PROC < 2*d/c)") }
  else if rttNs > dl then
    { base with
      gate := .deadline, verdict := .rejected
      detail := some ("response later than a prover at the claimed " ++
        "position could answer (RTT > 2*mlt + PROC)") }
  else base

/-- The floor of a round trip, for whole times of either sign. -/
theorem minRoundTripNs_le_int_iff {v p : Pos} (dt : Int) :
    (minRoundTripNs v p : Int) ≤ dt ↔ 0 ≤ dt ∧ 4 * dist2 v p ≤ (cNmPerNs * dt) ^ 2 :=
  LeastTime.leastTime_le_int_iff (by decide) (mul_nonneg (by decide) (dist2_nonneg v p)) dt

theorem minRoundTripNs_le_iff {v p : Pos} (n : Nat) :
    minRoundTripNs v p ≤ n ↔ 4 * dist2 v p ≤ (cNmPerNs * n) ^ 2 := by
  rw [← Int.ofNat_le, minRoundTripNs_le_int_iff, and_iff_right (Int.natCast_nonneg n)]

/-- Rounding the round trip up once takes no more than rounding each way up. -/
theorem minRoundTripNs_le_two_mul (v p : Pos) : minRoundTripNs v p ≤ 2 * minLightTimeNs v p := by
  rw [minRoundTripNs_le_iff]
  have hone := (@minLightTimeNs_le_iff v p (minLightTimeNs v p)).mp le_rfl
  calc 4 * dist2 v p ≤ 4 * (cNmPerNs * (minLightTimeNs v p : Int)) ^ 2 := by omega
    _ = (cNmPerNs * ((2 * minLightTimeNs v p : Nat) : Int)) ^ 2 := by
        push_cast
        ring

/-- **A verifier admits exactly what lies between its floor and its deadline.** -/
theorem rttBoundWitness_admitted_iff {rtt proc : Int} {v p : Pos} :
    (rttBoundWitness rtt proc v p).verdict = .admitted ↔
      (minRoundTripNs v p : Int) ≤ rtt - proc ∧ rtt - proc ≤ 2 * (minLightTimeNs v p : Int) := by
  rw [minRoundTripNs_le_int_iff]
  unfold rttBoundWitness
  by_cases hdt : 0 ≤ rtt - proc
  · by_cases hfloor : 4 * dist2 v p ≤ (cNmPerNs * (rtt - proc)) ^ 2
    · by_cases hlate : rtt > 2 * (minLightTimeNs v p : Int) + proc
      · simp only [ge_iff_le, hdt, if_true, Option.all_some, not_lt.mpr hfloor, hlate]
        simp
        omega
      · simp only [ge_iff_le, hdt, if_true, Option.all_some, not_lt.mpr hfloor, hlate]
        simp [hfloor]
        omega
    · simp only [ge_iff_le, hdt, if_true, Option.all_some, not_le.mp hfloor]
      simp [hfloor]
  · simp only [ge_iff_le, hdt]
    simp

/-! ## All verifiers -/

structure Multilateration where
  verdict : DistanceVerdict
  failingVerifiers : List String
  perVerifier : VerifierDict RttBoundWitness
  pClaimNm : Pos

/-- The loop over the verifiers, in the order of their ids. A verifier without a measurement is a
`KeyError`. -/
def multilaterationLoop (measurements : VerifierDict Int) (procNs : Int) (pClaim : Pos)
    (verifiers : VerifierDict Pos) :
    List String → VerifierDict RttBoundWitness → List String →
      Except String (VerifierDict RttBoundWitness × List String)
  | [], perVerifier, failing => .ok (perVerifier, failing)
  | vid :: vids, perVerifier, failing =>
      match measurements.lookup vid, verifiers.lookup vid with
      | some rtt, some v =>
          let w := rttBoundWitness rtt procNs v pClaim
          multilaterationLoop measurements procNs pClaim verifiers vids (perVerifier.insert vid w)
            (if w.verdict ≠ .admitted then failing ++ [vid] else failing)
      | _, _ => .error vid

/-- `sorted(verifiers)`. -/
def sortedVids {α : Type} (verifiers : VerifierDict α) : List String := verifiers.keys.sort

def multilateration (measurements : VerifierDict Int) (procNs : Int) (pClaim : Pos)
    (verifiers? : Option (VerifierDict Pos)) : Except String Multilateration :=
  let verifiers := verifiers?.getD frozenVerifiers
  match multilaterationLoop measurements procNs pClaim verifiers (sortedVids verifiers) ∅ [] with
  | .error vid => .error vid
  | .ok (perVerifier, failing) =>
      .ok { verdict := if failing.isEmpty then .admitted else .rejected
            failingVerifiers := failing, perVerifier, pClaimNm := pClaim }

/-- Multilateration answers ADMITTED. -/
def Multilaterates (measurements : VerifierDict Int) (procNs : Int) (pClaim : Pos)
    (verifiers : VerifierDict Pos) : Prop :=
  ∃ r, multilateration measurements procNs pClaim (some verifiers) = .ok r ∧ r.verdict = .admitted

variable {measurements : VerifierDict Int} {proc : Int} {claim : Pos} {verifiers : VerifierDict Pos}

theorem mem_sortedVids {vid : String} : vid ∈ sortedVids verifiers ↔ vid ∈ verifiers := by
  rw [sortedVids, Finset.mem_sort, Finmap.mem_keys]

/-- The loop ends with nothing failing exactly when nothing failed before and every verifier that is
left admits its measurement. -/
theorem multilaterationLoop_iff (vids : List String) (hvids : ∀ vid ∈ vids, vid ∈ verifiers)
    (per : VerifierDict RttBoundWitness) (failing : List String) :
    (∃ per', multilaterationLoop measurements proc claim verifiers vids per failing =
      .ok (per', [])) ↔
      failing = [] ∧ ∀ vid ∈ vids, ∀ v, verifiers.lookup vid = some v →
        ∃ rtt, measurements.lookup vid = some rtt ∧
          (rttBoundWitness rtt proc v claim).verdict = .admitted := by
  induction vids generalizing per failing with
  | nil => simp [multilaterationLoop]
  | cons vid vids ih =>
      obtain ⟨v, hv⟩ := Finmap.mem_iff.mp (hvids vid List.mem_cons_self)
      have hrest := ih fun x hx => hvids x (List.mem_cons_of_mem _ hx)
      cases hm : measurements.lookup vid with
      | none =>
          simp only [multilaterationLoop, hm]
          simp [hm, hv]
      | some rtt =>
          simp only [multilaterationLoop, hm, hv]
          rw [hrest]
          by_cases hadm : (rttBoundWitness rtt proc v claim).verdict = .admitted
          · simp [hadm, hm, hv]
          · simp [hadm, hm, hv]

/-- **All verifiers admit a claim together exactly when each of them admits it alone.** -/
theorem multilateration_admitted_iff :
    Multilaterates measurements proc claim verifiers ↔
      ∀ vid v, verifiers.lookup vid = some v → ∃ rtt, measurements.lookup vid = some rtt ∧
        (rttBoundWitness rtt proc v claim).verdict = .admitted := by
  have hloop := @multilaterationLoop_iff measurements proc claim verifiers
    (sortedVids verifiers) (fun vid h => mem_sortedVids.mp h) ∅ []
  have hadmitted : Multilaterates measurements proc claim verifiers ↔
      ∃ per', multilaterationLoop measurements proc claim verifiers (sortedVids verifiers) ∅ [] =
        .ok (per', []) := by
    unfold Multilaterates multilateration
    simp only [Option.getD_some]
    split
    · next vid h => simp [h]
    · next per failing h =>
        rw [h]
        cases failing with
        | nil => simp
        | cons x xs => simp
  rw [hadmitted, hloop]
  simp only [true_and]
  constructor
  · intro h vid v hv
    exact h vid (mem_sortedVids.mpr (Finmap.mem_iff.mpr ⟨v, hv⟩)) v hv
  · intro h vid _ v hv
    exact h vid v hv

/-! ## What a round trip says -/

/-- **A challenge that light carried to the prover, and an answer that light carried back, take each
way at most half of the time that is left.** The prover may answer at any real times. -/
theorem minLightTimeNs_le_of_roundTrip {v p : Pos} {tc tr proc n : Int} {t1 t2 : ℝ}
    (there : LightCone.Reaches (cNmPerNs : ℝ) (toSpacetime tc v) (t1, p.toSpace))
    (works : t1 + proc ≤ t2)
    (back : LightCone.Reaches (cNmPerNs : ℝ) (t2, p.toSpace) (toSpacetime tr v))
    (hn : tr - tc - proc ≤ 2 * n) : (minLightTimeNs v p : Int) ≤ n := by
  have hc : (0 : ℝ) < (cNmPerNs : ℝ) := by norm_num [cNmPerNs]
  have hlegs : 2 * ‖p.toSpace - v.toSpace‖ ≤ (cNmPerNs : ℝ) * (tr - tc - proc) := by
    have hthere : ‖p.toSpace - v.toSpace‖ ≤ (cNmPerNs : ℝ) * (t1 - tc) := there
    have hback : ‖v.toSpace - p.toSpace‖ ≤ (cNmPerNs : ℝ) * (tr - t2) := back
    rw [norm_sub_rev] at hback
    nlinarith
  have hreach : LightCone.Reaches (cNmPerNs : ℝ) (toSpacetime 0 v) (toSpacetime n p) := by
    show ‖p.toSpace - v.toSpace‖ ≤ (cNmPerNs : ℝ) * ((n : ℝ) - ((0 : Int) : ℝ))
    have hn' : ((tr : ℝ) - tc - proc) ≤ 2 * n := by exact_mod_cast hn
    rw [Int.cast_zero, sub_zero]
    nlinarith
  have hfloor := causallyAdmissible_iff_minLightTime.mp (causallyAdmissible_iff_reaches.mpr hreach)
  omega

end HorizonProtocol.Attestation
