import HorizonProtocol.CausalStore.TrueTimes

/-!
# The causal-kernel provider

`horizon/providers/causal_kernel_provider.py`: the relation of two clocks in the vocabulary of
`protocol/causal-kernel-v2`. It decides the same thing as `GeometricOrdering`, on its own, by
intervals in both directions.

* `classifyGeometric_swap`, `classifyLogical_swap` — which clock is named first does not matter.
* `classifyGeometric_exact` — the relation says what holds at all true times.
-/

namespace HorizonProtocol.Providers

/-! ## Decisions -/

/-- `CausalRelationV2`. -/
inductive CausalRelation where
  | before
  | after
  | equivalent
  | spacelike
  | logicallyConcurrent
  | apparatusLimited
  | incomparable
  | invalid
  deriving DecidableEq

inductive ClockMode where
  | logical
  | geometric
  deriving DecidableEq

inductive ReasonCode where
  | malformedInput
  | logicalZeroPaddedEquivalent
  | logicalStrictOrder
  | logicalDisjointConcurrent
  | geometricNegativeUncertainty
  | geometricFrameMismatch
  | geometricSameEvent
  | geometricIntervalSpacelike
  | geometricIntervalCertainBefore
  | geometricIntervalCertainAfter
  | geometricIntervalStraddlesFloor
  deriving DecidableEq

/-- `SCHEMA_VERSION`. -/
def schemaVersion : String := "2.0.0"

/-- The record of `_decision`; the last four fields are of geometric comparisons only. -/
structure Decision where
  schemaVersion : String := Providers.schemaVersion
  relation : CausalRelation
  clockMode : ClockMode
  reasonCode : ReasonCode
  requiredLightTimeNs : Option Nat := none
  measuredDtNs : Option Int := none
  uncertaintyLowNs : Option Int := none
  uncertaintyHighNs : Option Int := none
  deriving DecidableEq

/-- The relation of the second clock to the first. -/
def CausalRelation.swap : CausalRelation → CausalRelation
  | .before => .after
  | .after => .before
  | relation => relation

def ReasonCode.swap : ReasonCode → ReasonCode
  | .geometricIntervalCertainBefore => .geometricIntervalCertainAfter
  | .geometricIntervalCertainAfter => .geometricIntervalCertainBefore
  | reason => reason

/-- The decision with its interval turned round. -/
def Decision.swap (d : Decision) : Decision where
  schemaVersion := d.schemaVersion
  relation := d.relation.swap
  clockMode := d.clockMode
  reasonCode := d.reasonCode.swap
  requiredLightTimeNs := d.requiredLightTimeNs
  measuredDtNs := d.measuredDtNs.map Neg.neg
  uncertaintyLowNs := d.uncertaintyHighNs.map Neg.neg
  uncertaintyHighNs := d.uncertaintyLowNs.map Neg.neg

/-! ## Logical clocks -/

section Logical

variable {Node : Type} [DecidableEq Node]

/-- Some counter is negative. -/
def hasNegative (v : VClock Node) : Bool := decide (∃ k ∈ v.keys, v.count k < 0)

def classifyLogical (vectorA vectorB : VClock Node) : Decision :=
  if hasNegative vectorA || hasNegative vectorB then
    { relation := .invalid, clockMode := .logical, reasonCode := .malformedInput }
  else
    let leqAB := vectorA.leq vectorB
    let leqBA := vectorB.leq vectorA
    if leqAB && leqBA then
      { relation := .equivalent, clockMode := .logical, reasonCode := .logicalZeroPaddedEquivalent }
    else if leqAB then
      { relation := .before, clockMode := .logical, reasonCode := .logicalStrictOrder }
    else if leqBA then
      { relation := .after, clockMode := .logical, reasonCode := .logicalStrictOrder }
    else
      { relation := .logicallyConcurrent, clockMode := .logical
        reasonCode := .logicalDisjointConcurrent }

theorem classifyLogical_swap (a b : VClock Node) :
    classifyLogical b a = (classifyLogical a b).swap := by
  unfold classifyLogical
  rw [Bool.or_comm]
  dsimp only
  cases hasNegative a || hasNegative b
  · cases a.leq b <;> cases b.leq a <;> rfl
  · rfl

/-- **Before is happens-before**, of clocks that are well formed. -/
theorem classifyLogical_before_iff {a b : VClock Node} (ha : hasNegative a = false)
    (hb : hasNegative b = false) :
    (classifyLogical a b).relation = .before ↔ a.count < b.count := by
  rw [← VClock.happensBefore_iff, VClock.happensBefore]
  unfold classifyLogical
  rw [ha, hb]
  cases a.leq b <;> cases b.leq a <;> simp

end Logical

/-! ## Geometric clocks -/

section Geometric

open CausalStore

/-- The measured interval, widened by the uncertainty either way, against the floor in either
direction. -/
def decideInterval (dt combinedU : Int) (requiredNs : Nat) : Decision :=
  let decided (relation : CausalRelation) (reasonCode : ReasonCode) : Decision :=
    { relation, clockMode := .geometric, reasonCode
      requiredLightTimeNs := some requiredNs, measuredDtNs := some dt
      uncertaintyLowNs := some (dt - combinedU), uncertaintyHighNs := some (dt + combinedU) }
  if |dt| + combinedU < requiredNs then decided .spacelike .geometricIntervalSpacelike
  else if dt - combinedU ≥ requiredNs then decided .before .geometricIntervalCertainBefore
  else if -dt - combinedU ≥ requiredNs then decided .after .geometricIntervalCertainAfter
  else decided .apparatusLimited .geometricIntervalStraddlesFloor

variable {Frame : Type} [DecidableEq Frame]

def classifyGeometric (timeNsA : Int) (posNmA : Pos) (uncertaintyNsA timeNsB : Int) (posNmB : Pos)
    (uncertaintyNsB : Int) (frameIdA frameIdB : Frame) : Decision :=
  if uncertaintyNsA < 0 ∨ uncertaintyNsB < 0 then
    { relation := .invalid, clockMode := .geometric, reasonCode := .geometricNegativeUncertainty }
  else if frameIdA ≠ frameIdB then
    { relation := .incomparable, clockMode := .geometric, reasonCode := .geometricFrameMismatch }
  else if timeNsA = timeNsB ∧ posNmA = posNmB then
    { relation := .equivalent, clockMode := .geometric, reasonCode := .geometricSameEvent }
  else
    decideInterval (timeNsB - timeNsA) (uncertaintyNsA + uncertaintyNsB)
      (minLightTimeNs posNmA posNmB)

variable {dt u ta tb ua ub : Int} {required : Nat} {pa pb : Pos}

/-- The four relations of an interval that is not certain in both directions. -/
theorem decideInterval_relation_iff (hu : 0 ≤ u) (hnot : dt ≠ 0 ∨ required ≠ 0) :
    ((decideInterval dt u required).relation = .before ↔ required + u ≤ dt) ∧
    ((decideInterval dt u required).relation = .after ↔ required + u ≤ -dt) ∧
    ((decideInterval dt u required).relation = .spacelike ↔ dt + u < required ∧ -dt + u < required) ∧
    ((decideInterval dt u required).relation = .apparatusLimited ↔
      ¬ required + u ≤ dt ∧ ¬ required + u ≤ -dt ∧ ¬ (dt + u < required ∧ -dt + u < required)) := by
  have habs : |dt| + u < required ↔ dt + u < required ∧ -dt + u < required := by
    rw [← lt_sub_iff_add_lt, abs_lt]
    omega
  simp only [decideInterval, habs]
  split_ifs <;> simp only [true_iff, false_iff] <;> omega

theorem decideInterval_neg (hu : 0 ≤ u) (hnot : dt ≠ 0 ∨ required ≠ 0) :
    decideInterval (-dt) u required = (decideInterval dt u required).swap := by
  unfold decideInterval
  rw [abs_neg, neg_neg]
  dsimp only
  split_ifs <;> simp only [Decision.swap, CausalRelation.swap, ReasonCode.swap, Option.map_some,
    Decision.mk.injEq, Option.some.injEq, reduceCtorEq, true_and, false_and] <;> omega

/-- **Swapping the clocks swaps the decision**, whatever they are. -/
theorem classifyGeometric_swap (ta : Int) (pa : Pos) (ua tb : Int) (pb : Pos) (ub : Int)
    (frame frame' : Frame) :
    classifyGeometric tb pb ub ta pa ua frame' frame =
      (classifyGeometric ta pa ua tb pb ub frame frame').swap := by
  have hneg : (ub < 0 ∨ ua < 0) ↔ (ua < 0 ∨ ub < 0) := or_comm
  have hframes : frame' ≠ frame ↔ frame ≠ frame' := ne_comm
  have hsame : tb = ta ∧ pb = pa ↔ ta = tb ∧ pa = pb := by
    rw [eq_comm, @eq_comm _ pb]
  unfold classifyGeometric
  simp only [hneg, hframes, hsame]
  split_ifs with hnegative hmismatch hevent
  · rfl
  · rfl
  · rfl
  · push Not at hnegative
    rw [minLightTimeNs_comm pb pa, add_comm ub ua, ← neg_sub tb ta]
    apply decideInterval_neg
    · omega
    · by_contra hzero
      push Not at hzero
      exact hevent ⟨by omega, minLightTimeNs_eq_zero.mp hzero.2⟩

/-- **The classification is exact under uncertainty.** Of events in one frame that differ, it says
before or after when the light cone holds so at all true times, spacelike when it holds at none in
either direction, and leaves the rest to the apparatus. Before is what `GeometricOrdering` says, and
the order of the arguments only turns the answer round. -/
theorem classifyGeometric_exact {frame : Frame} {a b : GeoClock} (ha : 0 ≤ a.uNs) (hb : 0 ≤ b.uNs)
    (hdiff : ¬ (a.timeNs = b.timeNs ∧ a.posNm = b.posNm)) :
    let relation := (classifyGeometric a.timeNs a.posNm a.uNs b.timeNs b.posNm b.uNs frame
      frame).relation
    (relation = .before ↔ a.MustReach b) ∧ (relation = .after ↔ b.MustReach a) ∧
    (relation = .spacelike ↔ CertainlySpacelike a b) ∧
    (relation = .apparatusLimited ↔
      ¬ a.MustReach b ∧ ¬ b.MustReach a ∧ ¬ CertainlySpacelike a b) ∧
    (relation = .before ↔ geometricOrdering.Before a b) ∧
    ∀ (ta : Int) (pa : Pos) (ua tb : Int) (pb : Pos) (ub : Int) (frame frame' : Frame),
      (classifyGeometric tb pb ub ta pa ua frame' frame).relation =
        (classifyGeometric ta pa ua tb pb ub frame frame').relation.swap := by
  have hnot : b.timeNs - a.timeNs ≠ 0 ∨ minLightTimeNs a.posNm b.posNm ≠ 0 := by
    by_contra hzero
    push Not at hzero
    exact hdiff ⟨by omega, minLightTimeNs_eq_zero.mp hzero.2⟩
  have hclassify : classifyGeometric a.timeNs a.posNm a.uNs b.timeNs b.posNm b.uNs frame frame =
      decideInterval (b.timeNs - a.timeNs) (a.uNs + b.uNs) (minLightTimeNs a.posNm b.posNm) := by
    rw [classifyGeometric, if_neg (by omega), if_neg (not_not.mpr rfl), if_neg hdiff]
  obtain ⟨hbefore, hafter, hspacelike, hlimited⟩ :=
    decideInterval_relation_iff (add_nonneg ha hb) hnot
  have hab := GeoClock.mustReach_iff ha hb
  have hba : b.MustReach a ↔ (minLightTimeNs a.posNm b.posNm : Int) + (a.uNs + b.uNs) ≤
      -(b.timeNs - a.timeNs) := by
    rw [GeoClock.mustReach_iff hb ha, minLightTimeNs_comm, add_comm b.uNs, neg_sub]
  have hapart := certainlySpacelike_iff ha hb
  rw [← neg_sub b.timeNs] at hapart
  dsimp only
  rw [hclassify, hbefore, hafter, hspacelike, hlimited, hab, hba, hapart]
  refine ⟨Iff.rfl, Iff.rfl, Iff.rfl, Iff.rfl, ?_, ?_⟩
  · show _ ↔ GeometricOrdering.before a b = true
    rw [GeometricOrdering.before_iff (add_nonneg ha hb)]
    omega
  · intro ta pa ua tb pb ub frame frame'
    rw [classifyGeometric_swap]
    rfl

/-- Two events a light-nanosecond apart, recorded 2 ns apart by clocks that may each be off by 1. -/
theorem classifyGeometric_exact_straddling :
    ¬ GeoClock.MustReach ⟨0, ⟨299792458, 0, 0⟩, some 1⟩ ⟨2, ⟨0, 0, 0⟩, some 1⟩ ∧
    ¬ CertainlySpacelike ⟨0, ⟨299792458, 0, 0⟩, some 1⟩ ⟨2, ⟨0, 0, 0⟩, some 1⟩ := by
  have hexact := @classifyGeometric_exact String _ "f" ⟨0, ⟨299792458, 0, 0⟩, some 1⟩
    ⟨2, ⟨0, 0, 0⟩, some 1⟩ (by decide) (by decide) (by decide)
  have hlimited := hexact.2.2.2.1.mp (by decide +kernel)
  exact ⟨hlimited.1, hlimited.2.2⟩

end Geometric

end HorizonProtocol.Providers
