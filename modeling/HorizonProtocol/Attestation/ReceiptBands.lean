import HorizonProtocol.Attestation.Capture
import HorizonProtocol.Attestation.ClockError

/-!
# The bands of a receipt

Two verifiers put an arrival into one of three bands, `classify` of `horizon/capture_verify.py` and
`budget_witness` of `horizon/measure.py`. They condemn the same arrivals, and only those that no
clock error explains. Between the other two bands they differ: one asks on which side of the typical
floor an arrival is, the other whether it is far from it on either side.

* `receipt_classification` — what both say, and how it moves with the time and the uncertainty.
* `colocated_not_admitted_iff` — an arrival at the place of the emission is admitted when it is late.
-/

namespace HorizonProtocol.Attestation

/-- From REJECTED up to ADMITTED. -/
def ArrivalVerdict.rank : ArrivalVerdict → Nat
  | .rejected => 0
  | .apparatusLimited => 1
  | .admitted => 2

variable {t0 recv recv' u u' : Int} {p0 p : Pos} {num den : ℕ+}

theorem budgetWitness_rejected_iff :
    (budgetWitness t0 p0 recv p u num den).verdict = .rejected ↔
      recv - t0 + u < minLightTimeNs p0 p := by
  simp only [budgetWitness]
  grind

/-- A later arrival, or a clock that is trusted less, is not judged worse. -/
theorem budgetWitness_rank_mono (hrecv : recv ≤ recv') (hu : u ≤ u') :
    (budgetWitness t0 p0 recv p u num den).verdict.rank ≤
      (budgetWitness t0 p0 recv' p u' num den).verdict.rank := by
  simp only [budgetWitness]
  -- the floors stay, and the adjusted time does not go down
  have hle : recv - t0 + u ≤ recv' - t0 + u' := by omega
  generalize recv - t0 + u = eff at hle ⊢
  generalize recv' - t0 + u' = eff' at hle ⊢
  split_ifs <;> simp only [ArrivalVerdict.rank] <;> omega

namespace Capture

theorem classify_rejected_iff :
    (classify t0 p0 recv p u num den).verdict = .rejected ↔
      recv - t0 + u < minLightTimeNs p0 p := by
  simp only [classify]
  grind

theorem classify_apparatusLimited_iff :
    (classify t0 p0 recv p u num den).verdict = .apparatusLimited ↔
      (minLightTimeNs p0 p : Int) ≤ recv - t0 + u ∧
      |recv - t0 + u - minTransitTimeNsEff p0 p num den| ≤ 2 * u := by
  simp only [classify]
  grind

theorem classify_admitted_iff :
    (classify t0 p0 recv p u num den).verdict = .admitted ↔
      (minLightTimeNs p0 p : Int) ≤ recv - t0 + u ∧
      2 * u < |recv - t0 + u - minTransitTimeNsEff p0 p num den| := by
  simp only [classify]
  grind

/-- A better clock takes back its grant, and the arrival stays impossible. -/
theorem classify_rejected_of_le (hu : u' ≤ u)
    (h : (classify t0 p0 recv p u num den).verdict = .rejected) :
    (classify t0 p0 recv p u' num den).verdict = .rejected := by
  rw [classify_rejected_iff] at *
  omega

/-- A better clock moves the arrival by less than its band shrinks, so it never comes to be in the
band. -/
theorem classify_not_limited_of_le (hu : u' ≤ u)
    (h : (classify t0 p0 recv p u num den).verdict = .admitted) :
    (classify t0 p0 recv p u' num den).verdict ≠ .apparatusLimited := by
  intro hlimited
  have hfar := (classify_admitted_iff.mp h).2
  have hnear := abs_le.mp (classify_apparatusLimited_iff.mp hlimited).2
  rcases lt_abs.mp hfar with habove | hbelow
  · omega
  · omega

end Capture

/-- **A receipt is condemned only for what no clock error explains, and by both verifiers alike.** In
the first one a better clock keeps what is rejected rejected and what is admitted out of the band; in
the second one the verdict moves up with the time of reception and the uncertainty. -/
theorem receipt_classification (hu : 0 ≤ u) :
    ((Capture.classify t0 p0 recv p u num den).verdict = .rejected ↔
      ¬ Explained t0 p0 recv p u) ∧
    ((budgetWitness t0 p0 recv p u num den).verdict = .rejected ↔
      (Capture.classify t0 p0 recv p u num den).verdict = .rejected) ∧
    (∀ u' ≤ u, (Capture.classify t0 p0 recv p u num den).verdict = .rejected →
      (Capture.classify t0 p0 recv p u' num den).verdict = .rejected) ∧
    (∀ u' ≤ u, (Capture.classify t0 p0 recv p u num den).verdict = .admitted →
      (Capture.classify t0 p0 recv p u' num den).verdict ≠ .apparatusLimited) ∧
    ∀ recv' ≥ recv, ∀ u' ≥ u, (budgetWitness t0 p0 recv p u num den).verdict.rank ≤
      (budgetWitness t0 p0 recv' p u' num den).verdict.rank := by
  refine ⟨?_, ?_, ?_, ?_, ?_⟩
  · rw [Capture.classify_rejected_iff, explained_iff hu, not_le]
  · rw [budgetWitness_rejected_iff, Capture.classify_rejected_iff]
  · intro u' hle
    exact Capture.classify_rejected_of_le hle
  · intro u' hle
    exact Capture.classify_not_limited_of_le hle
  · intro recv' hrecv u' hle
    exact budgetWitness_rank_mono hrecv hle

/-- A receipt 1 ns before the emission, 1 nm away: what a clock off by 2 explains, one off by 1 does
not. -/
theorem receipt_classification_early :
    (Capture.classify 0 ⟨0, 0, 0⟩ (-1) ⟨1, 0, 0⟩ 1 cEffNum cEffDen).verdict = .rejected ∧
    Explained 0 ⟨0, 0, 0⟩ (-1) ⟨1, 0, 0⟩ 2 := by
  have hearly := @receipt_classification 0 (-1) 1 ⟨0, 0, 0⟩ ⟨1, 0, 0⟩ cEffNum cEffDen (by decide)
  have hmore := @receipt_classification 0 (-1) 2 ⟨0, 0, 0⟩ ⟨1, 0, 0⟩ cEffNum cEffDen (by decide)
  refine ⟨?_, ?_⟩
  · apply hearly.2.1.mp
    decide +kernel
  · apply not_not.mp
    rw [← hmore.1]
    decide +kernel

namespace Capture

/-! ## At the place of the emission -/

theorem minTransitTimeNsEff_self : minTransitTimeNsEff p p num den = 0 := by
  rw [minTransitTimeNsEff, ← Nat.le_zero, LeastTime.leastTime_le_iff]
  · simp [dist2]
  · exact Nat.mul_pos (by decide) num.pos

/-- Where both floors are zero, the band is all that keeps an arrival from being admitted. -/
theorem colocated_admitted_iff (hu : 0 ≤ u) :
    (classify t0 p recv p u num den).verdict = .admitted ↔ u < recv - t0 := by
  rw [classify_admitted_iff, minTransitTimeNsEff_self, minLightTimeNs_eq_zero.mpr rfl, lt_abs]
  omega

theorem aggregate_eq_pass_iff {verdicts : List ArrivalVerdict} :
    aggregate verdicts = .pass ↔ ∀ v ∈ verdicts, v = .admitted := by
  unfold aggregate
  split_ifs with hrejected hlimited
  · exact iff_of_false nofun fun h => nomatch h _ hrejected
  · exact iff_of_false nofun fun h => nomatch h _ hlimited
  · refine iff_of_true rfl ?_
    intro v hv
    apply ArrivalVerdict.eq_admitted
    · rintro rfl
      exact hrejected hv
    · rintro rfl
      exact hlimited hv

variable {Payload Id Hash Tier Key Tag : Type}

/-- The capture holds a receipt of a node at its claimed emission, received at this time by a clock
of this uncertainty. -/
def HoldsColocated (t0 : Int) (p0 : Pos) (recv u : Int)
    (input : CaptureInput Payload Id Hash Tier Tag) : Prop :=
  input.capture.t0Ns = t0 ∧ input.capture.p0Nm = p0 ∧
  ∃ r ∈ input.capture.receipts, r.body.recvTimeNs = recv ∧
    ∃ node, input.registry r.body.nodeId = some node ∧ node.posNm = p0 ∧ node.uNs = u

/-- A capture of one receipt, signed by a node at the claimed emission. -/
def loneCapture (key : Id → Key) (mac : Key → Body Id Hash Tier → Tag)
    (eventHash : BoundClaim Payload → Hash) (claim : BoundClaim Payload) (nodeId : Id) (tier : Tier)
    (recv u : Int) : CaptureInput Payload Id Hash Tier Tag where
  capture :=
    { toBoundClaim := claim
      receipts := [sign key mac
        { nodeId, nodePosNm := claim.p0Nm, eventHash := eventHash claim, recvTimeNs := recv
          tier }] }
  registry _ := some { posNm := claim.p0Nm, uNs := u, tier }

variable [DecidableEq Hash] [DecidableEq Tag] {key : Id → Key} {mac : Key → Body Id Hash Tier → Tag}
  {eventHash : BoundClaim Payload → Hash}

/-- What a registered node reports: a refusal, or how its arrival is classified. -/
theorem verifyNode_verdict_cases {registry : NodeRegistry Id Tier} {claim : BoundClaim Payload}
    {r : SignedReceipt Id Hash Tier Tag} {node : Node Tier}
    (h : registry r.body.nodeId = some node) :
    (verifyNode key mac eventHash registry num den claim r).verdict = .rejected ∨
    (verifyNode key mac eventHash registry num den claim r).verdict =
      (classify claim.t0Ns claim.p0Nm r.body.recvTimeNs node.posNm node.uNs num den).verdict := by
  unfold verifyNode
  dsimp only
  rw [h]
  split
  · exact Or.inl rfl
  · dsimp only
    split_ifs
    · exact Or.inl rfl
    · exact Or.inl rfl
    · exact Or.inr rfl

variable [LinearOrder Id]

/-- A capture that passes has a verdict of ADMITTED for every receipt. -/
theorem pass_of_mem {input : CaptureInput Payload Id Hash Tier Tag}
    (hpass : (verifyCapture key mac eventHash input).aggregate = .pass)
    {r : SignedReceipt Id Hash Tier Tag} (hr : r ∈ input.capture.receipts) :
    (verifyNode key mac eventHash input.registry (input.cEffNum.getD cEffNum)
      (input.cEffDen.getD cEffDen) input.capture.toBoundClaim r).verdict = .admitted := by
  by_cases hproper : ProperNodes input
  · rw [verifyCapture_of_proper hproper, aggregate_eq_pass_iff, List.forall_mem_map] at hpass
    exact hpass r hr
  · rw [verifyCapture_of_not_proper hproper] at hpass
    cases hpass

theorem loneCapture_aggregate {claim : BoundClaim Payload} {nodeId : Id} {tier : Tier} :
    (verifyCapture key mac eventHash
      (loneCapture key mac eventHash claim nodeId tier recv u)).aggregate =
      aggregate [(classify claim.t0Ns claim.p0Nm recv claim.p0Nm u cEffNum cEffDen).verdict] := by
  have hproper : ProperNodes (loneCapture key mac eventHash claim nodeId tier recv u) := by
    refine ⟨by simp [loneCapture], by simp [loneCapture], ?_⟩
    intro ids hids
    cases hids
  rw [verifyCapture_of_proper hproper]
  simp [loneCapture, verifyNode, NodeOutcome.verdict, sign, verifySigned]

/-- **A node at the claimed emission is kept from ADMITTED, and every capture with it from PASS,
exactly when it receives within its uncertainty.** -/
theorem colocated_not_admitted_iff (hu : 0 ≤ u) (nodeId : Id) (tier : Tier) (payload : Payload) :
    ((classify t0 p recv p u num den).verdict ≠ .admitted ↔ recv - t0 ≤ u) ∧
    ((∀ input : CaptureInput Payload Id Hash Tier Tag, HoldsColocated t0 p recv u input →
      (verifyCapture key mac eventHash input).aggregate ≠ .pass) ↔ recv - t0 ≤ u) := by
  have hnever : ∀ {num den : ℕ+},
      (classify t0 p recv p u num den).verdict ≠ .admitted ↔ recv - t0 ≤ u := by
    intro num den
    rw [Ne, colocated_admitted_iff hu, not_lt]
  refine ⟨hnever, ?_⟩
  constructor
  · intro h
    have hlone := h (loneCapture key mac eventHash ⟨payload, t0, p⟩ nodeId tier recv u)
      ⟨rfl, rfl, _, List.mem_cons_self, rfl, _, rfl, rfl, rfl⟩
    rw [loneCapture_aggregate, Ne, aggregate_eq_pass_iff, List.forall_mem_singleton] at hlone
    exact hnever.mp hlone
  · intro hlate input hcolocated hpass
    obtain ⟨rfl, rfl, r, hr, rfl, node, hnode, hpos, rfl⟩ := hcolocated
    have hadmitted := pass_of_mem hpass hr
    rcases verifyNode_verdict_cases hnode with hrefused | hclassified
    · cases hrefused.symm.trans hadmitted
    · rw [hclassified, hpos] at hadmitted
      exact hnever.mpr hlate hadmitted

/-- A node with a perfect clock, at the emission, that receives 100 ns after it. -/
theorem colocated_admitted_late :
    (classify 0 ⟨0, 0, 0⟩ 100 ⟨0, 0, 0⟩ 0 cEffNum cEffDen).verdict = .admitted ∧
    HoldsColocated 0 ⟨0, 0, 0⟩ 100 0 (loneCapture id openMac id ⟨7, 0, ⟨0, 0, 0⟩⟩ 1 () 100 0) ∧
    (verifyCapture id openMac id
      (loneCapture id openMac id ⟨7, 0, ⟨0, 0, 0⟩⟩ 1 () 100 0)).aggregate = .pass := by
  refine ⟨by decide +kernel, ?_, by decide +kernel⟩
  exact ⟨rfl, rfl, _, List.mem_cons_self, rfl, _, rfl, rfl, rfl⟩

theorem colocated_not_admitted_near :
    (classify 0 ⟨0, 0, 0⟩ 10 ⟨0, 0, 0⟩ 10 cEffNum cEffDen).verdict ≠ .admitted :=
  (@colocated_not_admitted_iff 0 10 10 ⟨0, 0, 0⟩ cEffNum cEffDen Nat Nat _ Unit Nat _ _ _ id openMac
    id _ (by decide) 1 () 7).1.mpr (by decide)

end Capture

end HorizonProtocol.Attestation
