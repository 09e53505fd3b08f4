import HorizonProtocol.Commitment.Session

/-!
# Isolation of the sites

The timing gates of `horizon/commitment.py`. Rounds open at one of two sites and then at the other,
and an answer counts in a window after the opening. The sites are isolated when light does not get
from one to the other in time, in one window or from the start of a window to the end of the next.

* `sustainedIsolationGate_isolates` — a schedule that passes leaves no event of a round in the light
  cone of an event of the next round, and none of the next round in its cone.
-/

namespace HorizonProtocol.Commitment

inductive IsolationVerdict where
  | pass
  | apparatusLimited
  deriving DecidableEq

/-- Light does not get from one site to the other in `dtNs`. -/
def isolated (siteA siteB : Pos) (dtNs : Int) : Bool :=
  !(admissibilityWitness 0 siteA dtNs siteB).admissible

structure IsolationResult where
  verdict : IsolationVerdict
  dtRespNs : Int
  oneWayLightTimeNs : Nat
  exactWitness : AdmissibilityWitness
  detail : String

/-- `isolation_gate`. -/
def isolationGate (siteA siteB : Pos) (dtRespNs : Int) : IsolationResult :=
  { verdict := if isolated siteA siteB dtRespNs then .pass else .apparatusLimited
    dtRespNs
    oneWayLightTimeNs := minLightTimeNs siteA siteB
    exactWitness := admissibilityWitness 0 siteA dtRespNs siteB
    detail :=
      if isolated siteA siteB dtRespNs then
        "response window shorter than one-way light time; sites " ++
          "causally isolated per window"
      else
        "response window admits light-speed signalling between " ++
          "sites; configuration cannot support the binding claim" }

structure SustainedIsolationResult where
  verdict : IsolationVerdict
  dtRoundNs : Int
  dtRespNs : Int
  dtRoundPlusRespNs : Int
  oneWayLightTimeNs : Nat
  exactWitness : AdmissibilityWitness
  detail : String

/-- `sustained_isolation_gate`. -/
def sustainedIsolationGate (siteA siteB : Pos) (dtRoundNs dtRespNs : Int) :
    SustainedIsolationResult :=
  let totalNs := dtRoundNs + dtRespNs
  { verdict := if isolated siteA siteB totalNs then .pass else .apparatusLimited
    dtRoundNs
    dtRespNs
    dtRoundPlusRespNs := totalNs
    oneWayLightTimeNs := minLightTimeNs siteA siteB
    exactWitness := admissibilityWitness 0 siteA totalNs siteB
    detail :=
      if isolated siteA siteB totalNs then
        "round period plus response window shorter than " ++
          "one-way light time; consecutive rounds at alternating " ++
          "sites remain causally isolated"
      else
        "round period plus response window admits light-speed " ++
          "signalling between sites before the next round's " ++
          "deadline; schedule cannot support the binding claim" }

inductive WindowVerdict where
  | admitted
  | rejected
  deriving DecidableEq

structure WindowResult where
  verdict : WindowVerdict
  dtNs : Int
  windowNs : Int
  deriving DecidableEq

/-- `response_in_window`. -/
def responseInWindow (tChallengeNs tResponseNs dtRespNs : Int) : WindowResult :=
  let dt := tResponseNs - tChallengeNs
  { verdict := if 0 ≤ dt ∧ dt < dtRespNs then .admitted else .rejected
    dtNs := dt
    windowNs := dtRespNs }

/-! ## The schedule -/

namespace Schedule

/-- Two rounds in a row are at the two sites, in one order or the other. -/
theorem minLightTimeNs_site (sched : Schedule) (k : Nat) :
    minLightTimeNs (sched.site k) (sched.site (k + 1)) =
      minLightTimeNs sched.site1 sched.site2 := by
  unfold site
  rcases Nat.mod_two_eq_zero_or_one k with h | h
  · rw [if_pos h, if_neg (by omega)]
  · rw [if_neg (by omega), if_pos (by omega), minLightTimeNs_comm]

theorem opensNs_succ (sched : Schedule) (k : Nat) :
    sched.opensNs (k + 1) = sched.opensNs k + sched.dtRoundNs := by
  simp only [opensNs]
  push_cast
  ring

end Schedule

/-! ## What the gates say -/

variable {siteA siteB : Pos} {dtRoundNs dtRespNs : Int}

theorem isolated_iff {dtNs : Int} :
    isolated siteA siteB dtNs = true ↔ dtNs < minLightTimeNs siteA siteB := by
  show (!causallyAdmissible 0 siteA dtNs siteB) = true ↔ _
  rw [Bool.not_eq_true', ← Bool.not_eq_true, causallyAdmissible_iff_minLightTime]
  omega

theorem isolationGate_pass_iff :
    (isolationGate siteA siteB dtRespNs).verdict = .pass ↔
      dtRespNs < minLightTimeNs siteA siteB := by
  rw [← isolated_iff]
  simp only [isolationGate]
  split <;> simp [*]

theorem sustainedIsolationGate_pass_iff :
    (sustainedIsolationGate siteA siteB dtRoundNs dtRespNs).verdict = .pass ↔
      dtRoundNs + dtRespNs < minLightTimeNs siteA siteB := by
  rw [← isolated_iff]
  simp only [sustainedIsolationGate]
  split <;> simp [*]

theorem responseInWindow_admitted_iff {tChallengeNs tResponseNs : Int} :
    (responseInWindow tChallengeNs tResponseNs dtRespNs).verdict = .admitted ↔
      tChallengeNs ≤ tResponseNs ∧ tResponseNs < tChallengeNs + dtRespNs := by
  simp only [responseInWindow]
  split
  · next h => exact iff_of_true rfl ⟨by omega, by omega⟩
  · next h => exact iff_of_false (by simp) (by omega)

/-- **A schedule that passes isolates each round from the next**: the gate compares the round period
and the window with the light time between the sites, and then no event in the window of a round and
none in the window of the next round is in the light cone of the other. -/
theorem sustainedIsolationGate_isolates (sched : Schedule) (dtRespNs : Int)
    (hround : 0 ≤ sched.dtRoundNs) :
    ((sustainedIsolationGate sched.site1 sched.site2 sched.dtRoundNs dtRespNs).verdict = .pass ↔
      sched.dtRoundNs + dtRespNs < minLightTimeNs sched.site1 sched.site2) ∧
    ((sustainedIsolationGate sched.site1 sched.site2 sched.dtRoundNs dtRespNs).verdict = .pass →
      ∀ k t t', (responseInWindow (sched.opensNs k) t dtRespNs).verdict = .admitted →
        (responseInWindow (sched.opensNs (k + 1)) t' dtRespNs).verdict = .admitted →
        causallyAdmissible t (sched.site k) t' (sched.site (k + 1)) = false ∧
          causallyAdmissible t' (sched.site (k + 1)) t (sched.site k) = false) := by
  refine ⟨sustainedIsolationGate_pass_iff, ?_⟩
  intro hpass k t t' ht ht'
  rw [sustainedIsolationGate_pass_iff, ← sched.minLightTimeNs_site k] at hpass
  rw [responseInWindow_admitted_iff] at ht ht'
  rw [sched.opensNs_succ] at ht'
  have hback := minLightTimeNs_comm (sched.site k) (sched.site (k + 1))
  constructor
  · apply Bool.eq_false_of_not_eq_true
    rw [causallyAdmissible_iff_minLightTime]
    omega
  · apply Bool.eq_false_of_not_eq_true
    rw [causallyAdmissible_iff_minLightTime, ← hback]
    omega

/-- With the frozen parameters, what happens when the first round opens is not known at the last
moment of the second window. -/
theorem sustainedIsolationGate_isolates_frozen :
    causallyAdmissible 0 site1 89999 site2 = false := by
  have hpass : (sustainedIsolationGate site1 site2 dtRoundNs 50000).verdict = .pass := by decide
  exact ((sustainedIsolationGate_isolates {} 50000 (by decide)).2 hpass 0 0 89999 (by decide)
    (by decide)).1

end HorizonProtocol.Commitment
