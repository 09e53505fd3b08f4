import HorizonProtocol.LineOfSight
import HorizonProtocol.Trajectory.Locator
import Mathlib.Tactic.FinCases

/-!
# Occultation

`horizon/occultation.py`: a link between two worldlines is down at a time when its segment comes
within a radius of a body. The test is on integers and decides real geometry (`isLinkDown_iff`): one
end is in the shadow that the body casts seen from the other end.
-/

namespace HorizonProtocol.Trajectory

open LineOfSight Metric

/-! ## The test -/

/-- `_sub`. -/
def sub (a b : Pos) : Pos := ⟨a.x - b.x, a.y - b.y, a.z - b.z⟩

/-- `_dot`. -/
def dot (a b : Pos) : Int := a.x * b.x + a.y * b.y + a.z * b.z

/-- `is_link_down`. -/
def isLinkDown (tNs : Int) (endpointA endpointB body : Worldline) (radiusNm : Int) : Bool :=
  let a := endpointA.positionAt tNs
  let b := endpointB.positionAt tNs
  let c := body.positionAt tNs
  let ab := sub b a
  let ac := sub c a
  let ab2 := dot ab ab
  let r2 := radiusNm * radiusNm
  if ab2 = 0 then decide (dot ac ac ≤ r2)
  else
    let acAb := dot ac ab
    if acAb ≤ 0 then decide (dot ac ac ≤ r2)
    else if acAb ≥ ab2 then
      let bc := sub c b
      decide (dot bc bc ≤ r2)
    else decide (dot ac ac * ab2 - acAb * acAb ≤ r2 * ab2)

theorem toSpace_sub (a b : Pos) : (sub a b).toSpace = a.toSpace - b.toSpace := by
  ext i
  fin_cases i <;> simp [sub, Pos.toSpace]

theorem inner_toSpace (a b : Pos) : inner ℝ a.toSpace b.toSpace = (dot a b : ℝ) := by
  rw [PiLp.inner_apply, Fin.sum_univ_three]
  simp only [Pos.toSpace, dot]
  push_cast
  simp [mul_comm]

theorem norm_toSpace_sq (a : Pos) : ‖a.toSpace‖ ^ 2 = (dot a a : ℝ) := by
  rw [← real_inner_self_eq_norm_sq, inner_toSpace]

/-- **The test decides real geometry**: it is true exactly when the segment between the ends meets
the ball of the body. -/
theorem isLinkDown_iff {tNs : Int} {endpointA endpointB body : Worldline} {radiusNm : Int}
    (hr : 0 ≤ radiusNm) :
    isLinkDown tNs endpointA endpointB body radiusNm = true ↔
      (endpointB.positionAt tNs).toSpace ∈ shadow (endpointA.positionAt tNs).toSpace
        (closedBall (body.positionAt tNs).toSpace (radiusNm : ℝ)) := by
  rw [mem_shadow_closedBall_iff (by exact_mod_cast hr), ← toSpace_sub, ← toSpace_sub, ← toSpace_sub,
    inner_toSpace, norm_toSpace_sq, norm_toSpace_sq, norm_toSpace_sq]
  unfold isLinkDown
  dsimp only
  generalize endpointA.positionAt tNs = a
  generalize endpointB.positionAt tNs = b
  generalize body.positionAt tNs = c
  by_cases hab : dot (sub b a) (sub b a) = 0
  · -- the ends coincide, and the body is behind the first one as well
    have hzero : (sub b a).toSpace = 0 := by
      rw [← norm_eq_zero, ← sq_eq_zero_iff, norm_toSpace_sq, hab, Int.cast_zero]
    have hinner : dot (sub c a) (sub b a) = 0 := by
      have hreal : (dot (sub c a) (sub b a) : ℝ) = 0 := by
        rw [← inner_toSpace, hzero, inner_zero_right]
      exact_mod_cast hreal
    simp only [hab, hinner, if_true, decide_eq_true_eq, Int.cast_zero, le_refl]
    rw [← Int.cast_pow, Int.cast_le, sq]
  · rw [if_neg hab]
    norm_cast
    simp only [ge_iff_le, sq]
    split_ifs <;> rw [decide_eq_true_eq]

/-- **A link is down exactly when a point of its segment is within the radius of the body**, whichever
of its ends is named first. -/
theorem isLinkDown_exact {tNs : Int} {endpointA endpointB body : Worldline} {radiusNm : Int}
    (hr : 0 ≤ radiusNm) :
    (isLinkDown tNs endpointA endpointB body radiusNm = true ↔
      ∃ x ∈ segment ℝ (endpointA.positionAt tNs).toSpace (endpointB.positionAt tNs).toSpace,
        dist x (body.positionAt tNs).toSpace ≤ radiusNm) ∧
    isLinkDown tNs endpointA endpointB body radiusNm =
      isLinkDown tNs endpointB endpointA body radiusNm := by
  refine ⟨?_, ?_⟩
  · rw [isLinkDown_iff hr]
    rfl
  · rw [Bool.eq_iff_iff, isLinkDown_iff hr, isLinkDown_iff hr]
    exact mem_shadow_comm

/-- A body in the middle of a link takes it down, although it covers neither end. -/
theorem isLinkDown_exact_middle :
    (∃ x ∈ segment ℝ (Pos.toSpace ⟨-100, 0, 0⟩) (Pos.toSpace ⟨100, 0, 0⟩),
      dist x (Pos.toSpace ⟨0, 5, 0⟩) ≤ (5 : Int)) ∧
    isLinkDown 0 (FixedWorldline ⟨-100, 0, 0⟩) (FixedWorldline ⟨100, 0, 0⟩)
        (FixedWorldline ⟨0, 5, 0⟩) 5 =
      isLinkDown 0 (FixedWorldline ⟨100, 0, 0⟩) (FixedWorldline ⟨-100, 0, 0⟩)
        (FixedWorldline ⟨0, 5, 0⟩) 5 := by
  have hexact := @isLinkDown_exact 0 (FixedWorldline ⟨-100, 0, 0⟩) (FixedWorldline ⟨100, 0, 0⟩)
    (FixedWorldline ⟨0, 5, 0⟩) 5 (by decide)
  exact ⟨hexact.1.mp (by decide), hexact.2⟩

/-! ## Down times -/

/-- The times at which the link is down. -/
def downTimes (endpointA endpointB body : Worldline) (radiusNm : Int) : Set Int :=
  {t | isLinkDown t endpointA endpointB body radiusNm = true}

variable {endpointA endpointB body : Worldline} {radiusNm t : Int}

theorem mem_downTimes (hr : 0 ≤ radiusNm) :
    t ∈ downTimes endpointA endpointB body radiusNm ↔
      (endpointA.positionAt t).toSpace ∈ shadow (endpointB.positionAt t).toSpace
        (closedBall (body.positionAt t).toSpace (radiusNm : ℝ)) :=
  (isLinkDown_iff hr).trans mem_shadow_comm

end HorizonProtocol.Trajectory
