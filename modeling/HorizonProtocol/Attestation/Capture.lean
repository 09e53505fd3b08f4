import HorizonProtocol.Attestation.Measure
import HorizonProtocol.Binding

/-!
# Multi-node captures

`horizon/signed_capture.py` and `horizon/capture_verify.py`: nodes sign when they received a hash that
covers the payload and the claimed emission together, and the verifier classifies each arrival. The
event hash and the MAC are parameters.

* `verifyNode_verdict_ne_iff` — what a receipt that is not rejected has gone through.
* `accepts_iff` — a capture is accepted when its sources are proper and every receipt counts.
* `capture_binds` — so accepted receipts bind the whole claim, time and place included.
-/

namespace HorizonProtocol.Attestation.Capture

open Binding

/-! ## Signed receipts -/

structure Body (Id Hash Tier : Type) where
  nodeId : Id
  nodePosNm : Pos
  eventHash : Hash
  recvTimeNs : Int
  tier : Tier
  measuredUNs? : Option Int := none
  deriving DecidableEq

structure SignedReceipt (Id Hash Tier Tag : Type) where
  body : Body Id Hash Tier
  mac : Tag
  deriving DecidableEq

section Sign

variable {Id Hash Tier Key Tag : Type}

/-- `sign_receipt`: the key is that of the node the body names. -/
def sign (key : Id → Key) (mac : Key → Body Id Hash Tier → Tag) (body : Body Id Hash Tier) :
    SignedReceipt Id Hash Tier Tag where
  body := body
  mac := mac (key body.nodeId) body

/-- What `verify_receipt` answers for a MAC that `hmac.compare_digest` compares. On text that is not
ASCII it raises; the answer here is `false`, and neither lets a receipt pass. -/
def verifySigned [DecidableEq Tag] (key : Id → Key) (mac : Key → Body Id Hash Tier → Tag)
    (receipt : SignedReceipt Id Hash Tier Tag) : Bool :=
  decide (mac (key receipt.body.nodeId) receipt.body = receipt.mac)

@[simp] theorem verifySigned_sign [DecidableEq Tag] (key : Id → Key)
    (mac : Key → Body Id Hash Tier → Tag) (body : Body Id Hash Tier) :
    verifySigned key mac (sign key mac body) = true := by
  simp [verifySigned, sign]

end Sign

/-! ## One arrival -/

structure ClassifyWitness where
  dtNs : Int
  uNs : Int
  dtAdjustedNs : Int
  vacuumFloorNs : Nat
  typicalFloorNs : Nat
  resolutionBandNs : Int
  marginBelowVacuumFloorNs : Int
  marginFromTypicalFloorNs : Int
  reason : Option String := none
  deriving DecidableEq

structure Classification where
  verdict : ArrivalVerdict
  witness : ClassifyWitness
  deriving DecidableEq

/-- The absolute floor rejects; the band around the typical floor only tells what the clock cannot
resolve. -/
def classify (t0Ns : Int) (p0Nm : Pos) (recvTimeNs : Int) (pNodeNm : Pos) (uNs : Int)
    (cEffNum cEffDen : ℕ+) : Classification :=
  let dt := recvTimeNs - t0Ns
  let eff := dt + uNs
  let vacuumFloorNs := minLightTimeNs p0Nm pNodeNm
  let typicalFloorNs := minTransitTimeNsEff p0Nm pNodeNm cEffNum cEffDen
  let bandNs := 2 * uNs
  let w : ClassifyWitness :=
    { dtNs := dt, uNs, dtAdjustedNs := eff, vacuumFloorNs, typicalFloorNs
      resolutionBandNs := bandNs
      marginBelowVacuumFloorNs := vacuumFloorNs - eff
      marginFromTypicalFloorNs := eff - typicalFloorNs }
  if eff < vacuumFloorNs then ⟨.rejected, { w with reason := some "below_vacuum_floor" }⟩
  else if |eff - typicalFloorNs| ≤ bandNs then ⟨.apparatusLimited, w⟩
  else ⟨.admitted, w⟩

/-- Rejected is what no clock error within the budget brings into the cone of the emission. -/
theorem classify_ne_rejected_iff {t0 recv u : Int} {p0 p : Pos} {num den : ℕ+} :
    (classify t0 p0 recv p u num den).verdict ≠ .rejected ↔
      causallyAdmissible t0 p0 (recv + u) p = true := by
  rw [causallyAdmissible_iff_minLightTime, add_sub_right_comm]
  simp only [classify]
  grind

/-! ## The verifier -/

/-- What the event hash covers. -/
structure BoundClaim (Payload : Type) where
  payloadHash : Payload
  t0Ns : Int
  p0Nm : Pos
  deriving DecidableEq

/-- A capture: a claim and the receipts presented for it. The recorded `c_eff` is provenance. -/
structure SignedCapture (Payload Id Hash Tier Tag : Type) extends BoundClaim Payload where
  cEff? : Option (Int × Int) := none
  receipts : List (SignedReceipt Id Hash Tier Tag)

/-- `{pos_nm, u_ns, tier}`. -/
structure Node (Tier : Type) where
  posNm : Pos
  uNs : Int
  tier : Tier

abbrev NodeRegistry (Id Tier : Type) := Id → Option (Node Tier)

/-- The gates of a receipt before its classification. -/
inductive NodeGate where
  | signature
  | unknownNode
  | eventBinding
  | surveyedPosition
  deriving DecidableEq

/-- What became of a receipt. -/
inductive NodeOutcome (Tier : Type) where
  | refused (gate : NodeGate)
  | classified (tier : Tier) (result : Classification)

def NodeOutcome.verdict {Tier : Type} : NodeOutcome Tier → ArrivalVerdict
  | .refused _ => .rejected
  | .classified _ result => result.verdict

inductive CaptureWitness (Id : Type) where
  | nonemptyReceipts
  | distinctSources (nodeIds : List Id)
  | nodeCoverage (missing unexpected : List Id)

/-- What is reported with an aggregate over classified receipts. -/
structure CaptureProvenance (Payload Hash : Type) where
  payloadHash : Payload
  expectedEventHash : Hash
  cEffDeclared : Option (Int × Int)
  cEffTrusted : ℕ+ × ℕ+

structure CaptureResult (Payload Id Hash Tier : Type) where
  aggregate : MeasuredVerdict
  perReceipt : List (Id × NodeOutcome Tier) := []
  witness? : Option (CaptureWitness Id) := none
  provenance? : Option (CaptureProvenance Payload Hash) := none

/-- `node_coverage`, asked only when the caller names the nodes. -/
def coverageWitness {Id : Type} [LinearOrder Id] (requiredNodeIds : Option (List Id))
    (got : Finset Id) : Option (CaptureWitness Id) :=
  match requiredNodeIds with
  | none => none
  | some ids =>
      let required := ids.toFinset
      if got ≠ required then
        some (.nodeCoverage (sortedDiff required got) (sortedDiff got required))
      else none

/-- The aggregate of the verdicts. -/
def aggregate (verdicts : List ArrivalVerdict) : MeasuredVerdict :=
  if .rejected ∈ verdicts then .rejected
  else if .apparatusLimited ∈ verdicts then .apparatusLimited
  else .pass

section Verify

variable {Payload Id Hash Tier Key Tag : Type} [DecidableEq Hash] [DecidableEq Tag]

/-- One round of the loop over the receipts. -/
def verifyNode (key : Id → Key) (mac : Key → Body Id Hash Tier → Tag)
    (eventHash : BoundClaim Payload → Hash) (registry : NodeRegistry Id Tier) (num den : ℕ+)
    (claim : BoundClaim Payload) (r : SignedReceipt Id Hash Tier Tag) : NodeOutcome Tier :=
  let body := r.body
  if !verifySigned key mac r then .refused .signature
  else
    match registry body.nodeId with
    | none => .refused .unknownNode
    | some node =>
        -- covers the payload and the claimed emission
        if body.eventHash ≠ eventHash claim then .refused .eventBinding
        else if body.nodePosNm ≠ node.posNm then .refused .surveyedPosition
        else .classified node.tier
          (classify claim.t0Ns claim.p0Nm body.recvTimeNs node.posNm node.uNs num den)

/-- What the verifier of a capture is given: the capture, and what its caller trusts. -/
structure CaptureInput (Payload Id Hash Tier Tag : Type) where
  capture : SignedCapture Payload Id Hash Tier Tag
  registry : NodeRegistry Id Tier
  cEffNum : Option ℕ+ := none
  cEffDen : Option ℕ+ := none
  requiredNodeIds : Option (List Id) := none

def verifyCapture [LinearOrder Id] (key : Id → Key) (mac : Key → Body Id Hash Tier → Tag)
    (eventHash : BoundClaim Payload → Hash) (input : CaptureInput Payload Id Hash Tier Tag) :
    CaptureResult Payload Id Hash Tier :=
  let num := input.cEffNum.getD cEffNum
  let den := input.cEffDen.getD cEffDen
  let claim := input.capture.toBoundClaim
  let receipts := input.capture.receipts
  let nodeIds := receipts.map fun r => r.body.nodeId
  if receipts.isEmpty then { aggregate := .rejected, witness? := some .nonemptyReceipts }
  else if nodeIds.toFinset.card ≠ nodeIds.length then
    { aggregate := .rejected, witness? := some (.distinctSources nodeIds) }
  else
    match coverageWitness input.requiredNodeIds nodeIds.toFinset with
    | some witness => { aggregate := .rejected, witness? := some witness }
    | none =>
        let per := receipts.map fun r =>
          (r.body.nodeId, verifyNode key mac eventHash input.registry num den claim r)
        { aggregate := aggregate (per.map fun p => p.2.verdict)
          perReceipt := per
          provenance? := some
            { payloadHash := claim.payloadHash, expectedEventHash := eventHash claim
              cEffDeclared := input.capture.cEff?, cEffTrusted := (num, den) } }

/-! ## What is accepted -/

variable {key : Id → Key} {mac : Key → Body Id Hash Tier → Tag}
  {eventHash : BoundClaim Payload → Hash} {registry : NodeRegistry Id Tier}
  {claim : BoundClaim Payload} {r : SignedReceipt Id Hash Tier Tag}

/-- A registered node, at its surveyed position, signed this claim, and its arrival is possible for
it within the budget of its clock. -/
structure Counts (key : Id → Key) (mac : Key → Body Id Hash Tier → Tag)
    (eventHash : BoundClaim Payload → Hash) (registry : NodeRegistry Id Tier)
    (claim : BoundClaim Payload) (r : SignedReceipt Id Hash Tier Tag) (node : Node Tier) : Prop where
  signed : verifySigned key mac r = true
  registered : registry r.body.nodeId = some node
  bound : r.body.eventHash = eventHash claim
  surveyed : r.body.nodePosNm = node.posNm
  possible : causallyAdmissible claim.t0Ns claim.p0Nm (r.body.recvTimeNs + node.uNs) node.posNm =
    true

/-- **A receipt that is not rejected counts**, and the other way round. -/
theorem verifyNode_verdict_ne_iff {num den : ℕ+} :
    (verifyNode key mac eventHash registry num den claim r).verdict ≠ .rejected ↔
      ∃ node, Counts key mac eventHash registry claim r node := by
  unfold verifyNode
  dsimp only
  split
  · next hsig =>
      refine iff_of_false (fun h => h rfl) ?_
      rintro ⟨node, hnode⟩
      simp [hnode.signed] at hsig
  · next hsig =>
      rw [Bool.not_eq_true', Bool.not_eq_false] at hsig
      split
      · next hnone =>
          refine iff_of_false (fun h => h rfl) ?_
          rintro ⟨node, hnode⟩
          cases hnone.symm.trans hnode.registered
      · next node hnode =>
          have honly : (∃ node', Counts key mac eventHash registry claim r node') ↔
              Counts key mac eventHash registry claim r node := by
            constructor
            · rintro ⟨node', h⟩
              cases hnode.symm.trans h.registered
              exact h
            · exact fun h => ⟨node, h⟩
          rw [honly]
          split
          · next hbound => exact iff_of_false (fun h => h rfl) fun h => hbound h.bound
          · next hbound =>
              split
              · next hpos => exact iff_of_false (fun h => h rfl) fun h => hpos h.surveyed
              · next hpos =>
                  show (classify _ _ _ _ _ _ _).verdict ≠ .rejected ↔ _
                  rw [classify_ne_rejected_iff]
                  constructor
                  · exact fun h => ⟨hsig, hnode, not_not.mp hbound, not_not.mp hpos, h⟩
                  · exact Counts.possible

/-- A receipt that counts is classified by what the registry says of its node. -/
theorem verifyNode_of_counts {num den : ℕ+} {node : Node Tier}
    (h : Counts key mac eventHash registry claim r node) :
    verifyNode key mac eventHash registry num den claim r =
      .classified node.tier
        (classify claim.t0Ns claim.p0Nm r.body.recvTimeNs node.posNm node.uNs num den) := by
  simp [verifyNode, h.signed, h.registered, h.bound, h.surveyed]

theorem aggregate_ne_rejected_iff {verdicts : List ArrivalVerdict} :
    aggregate verdicts ≠ .rejected ↔ ∀ v ∈ verdicts, v ≠ .rejected := by
  unfold aggregate
  grind

variable [LinearOrder Id]

/-- The aggregate is not REJECTED. -/
def Accepts (key : Id → Key) (mac : Key → Body Id Hash Tier → Tag)
    (eventHash : BoundClaim Payload → Hash) (input : CaptureInput Payload Id Hash Tier Tag) : Prop :=
  (verifyCapture key mac eventHash input).aggregate ≠ .rejected

omit [DecidableEq Hash] [DecidableEq Tag] in
theorem coverageWitness_eq_none {required : Option (List Id)} {got : Finset Id} :
    coverageWitness required got = none ↔ ∀ ids, required = some ids → got = ids.toFinset := by
  cases required with
  | none => simp [coverageWitness]
  | some ids =>
      simp only [coverageWitness]
      grind

/-- The receipts are of distinct nodes, at least one, and just those the caller names, if it names
any. -/
structure ProperNodes (input : CaptureInput Payload Id Hash Tier Tag) : Prop where
  nonempty : input.capture.receipts ≠ []
  distinct : (input.capture.receipts.map fun r => r.body.nodeId).Nodup
  covered : ∀ ids, input.requiredNodeIds = some ids →
    (input.capture.receipts.map fun r => r.body.nodeId).toFinset = ids.toFinset

/-- A capture of improper sources is rejected unread. -/
theorem verifyCapture_of_not_proper {input : CaptureInput Payload Id Hash Tier Tag}
    (h : ¬ ProperNodes input) : (verifyCapture key mac eventHash input).aggregate = .rejected := by
  unfold verifyCapture
  dsimp only
  split
  · rfl
  · next hne =>
      rw [List.isEmpty_iff] at hne
      split
      · rfl
      · next hdistinct =>
          split
          · rfl
          · next hcov =>
              have hnodup := Multiset.toFinset_card_eq_card_iff_nodup.mp (not_not.mp hdistinct)
              exact absurd ⟨hne, hnodup, coverageWitness_eq_none.mp hcov⟩ h

/-- Of proper sources, every receipt is reported on, in its turn. -/
theorem verifyCapture_eq_of_proper {input : CaptureInput Payload Id Hash Tier Tag}
    (h : ProperNodes input) :
    let num := input.cEffNum.getD cEffNum
    let den := input.cEffDen.getD cEffDen
    let claim := input.capture.toBoundClaim
    let per := input.capture.receipts.map fun r =>
      (r.body.nodeId, verifyNode key mac eventHash input.registry num den claim r)
    verifyCapture key mac eventHash input =
      { aggregate := aggregate (per.map fun p => p.2.verdict)
        perReceipt := per
        provenance? := some
          { payloadHash := claim.payloadHash, expectedEventHash := eventHash claim
            cEffDeclared := input.capture.cEff?, cEffTrusted := (num, den) } } := by
  have hempty : input.capture.receipts.isEmpty = false := by
    rw [← Bool.not_eq_true, List.isEmpty_iff]
    exact h.nonempty
  have hcard := List.toFinset_card_of_nodup h.distinct
  unfold verifyCapture
  dsimp only
  rw [hempty, coverageWitness_eq_none.mpr h.covered, if_neg Bool.false_ne_true,
    if_neg (not_not.mpr hcard)]

/-- Of proper sources, the verdicts of the receipts decide. -/
theorem verifyCapture_of_proper {input : CaptureInput Payload Id Hash Tier Tag}
    (h : ProperNodes input) :
    (verifyCapture key mac eventHash input).aggregate =
      aggregate (input.capture.receipts.map fun r =>
        (verifyNode key mac eventHash input.registry (input.cEffNum.getD cEffNum)
          (input.cEffDen.getD cEffDen) input.capture.toBoundClaim r).verdict) := by
  rw [verifyCapture_eq_of_proper h]
  simp only [List.map_map, Function.comp_def]

/-- **What an accepted capture is**: receipts of distinct nodes, at least one and just the required
ones if any are, and every one of them counts. -/
theorem accepts_iff {input : CaptureInput Payload Id Hash Tier Tag} :
    Accepts key mac eventHash input ↔
      ProperNodes input ∧ ∀ r ∈ input.capture.receipts,
        ∃ node, Counts key mac eventHash input.registry input.capture.toBoundClaim r node := by
  unfold Accepts
  by_cases hproper : ProperNodes input
  · rw [verifyCapture_of_proper hproper, aggregate_ne_rejected_iff, List.forall_mem_map,
      and_iff_right hproper]
    simp only [verifyNode_verdict_ne_iff]
  · rw [verifyCapture_of_not_proper hproper]
    exact iff_of_false (fun h => h rfl) fun h => hproper h.1

theorem verdict_ne_of_accepts {input : CaptureInput Payload Id Hash Tier Tag}
    (h : Accepts key mac eventHash input) :
    ∀ p ∈ (verifyCapture key mac eventHash input).perReceipt, p.2.verdict ≠ .rejected := by
  obtain ⟨hproper, hcounts⟩ := accepts_iff.mp h
  rw [verifyCapture_eq_of_proper hproper, List.forall_mem_map]
  exact fun r hr => verifyNode_verdict_ne_iff.mpr (hcounts r hr)

/-! ## Binding -/

/-- Of the receipts that can be presented, those that verify were signed by the holders of the keys. -/
def Unforgeable (key : Id → Key) (mac : Key → Body Id Hash Tier → Tag)
    (presentable : Set (SignedReceipt Id Hash Tier Tag)) (issued : Set (Body Id Hash Tier)) : Prop :=
  ∀ r ∈ presentable, verifySigned key mac r = true → r.body ∈ issued

/-- **Accepted receipts bind the whole claim.** With a collision-free event hash, any two accepted
captures that present the same receipts, whatever their registries and parameters, claim the same
payload, emission time and position. With an unforgeable MAC, every receipt of an accepted capture
was issued by its node, is the only one of that node, and counts for the claim. -/
theorem capture_binds (hhash : Function.Injective eventHash)
    {presentable : Set (SignedReceipt Id Hash Tier Tag)} {issued : Set (Body Id Hash Tier)}
    (hmac : Unforgeable key mac presentable issued) :
    (∀ receipts, BindsAt (Accepts key mac eventHash)
      (fun input : CaptureInput Payload Id Hash Tier Tag => input.capture.receipts)
      (fun input => input.capture.toBoundClaim) receipts) ∧
    ∀ input : CaptureInput Payload Id Hash Tier Tag, Accepts key mac eventHash input →
      (∀ r ∈ input.capture.receipts, r ∈ presentable) →
      (input.capture.receipts.map fun r => r.body.nodeId).Nodup ∧
      ∀ r ∈ input.capture.receipts, r.body ∈ issued ∧
        ∃ node, Counts key mac eventHash input.registry input.capture.toBoundClaim r node := by
  refine ⟨?_, ?_⟩
  · intro receipts a b ha hb harec hbrec
    obtain ⟨hproper, hcountsA⟩ := accepts_iff.mp ha
    obtain ⟨-, hcountsB⟩ := accepts_iff.mp hb
    -- any one receipt carries the hash of both claims
    obtain ⟨r, hr⟩ := List.exists_mem_of_ne_nil _ hproper.nonempty
    obtain ⟨nodeA, hA⟩ := hcountsA r hr
    have hsame : b.capture.receipts = a.capture.receipts := hbrec.trans harec.symm
    obtain ⟨nodeB, hB⟩ := hcountsB r (by rw [hsame]; exact hr)
    exact hhash (hA.bound.symm.trans hB.bound)
  · intro input hacc hpresent
    obtain ⟨hproper, hcounts⟩ := accepts_iff.mp hacc
    refine ⟨hproper.distinct, fun r hr => ⟨?_, hcounts r hr⟩⟩
    obtain ⟨node, hnode⟩ := hcounts r hr
    exact hmac r (hpresent r hr) hnode.signed

end Verify

/-- What the node of this id signs on receiving this claim at this time, at this place. -/
def nodeBody (nodeId : Nat) (x recvTimeNs : Int) : Body Nat (BoundClaim Nat) Unit where
  nodeId := nodeId
  nodePosNm := ⟨x, 0, 0⟩
  eventHash := ⟨7, 0, ⟨0, 0, 0⟩⟩
  recvTimeNs := recvTimeNs
  tier := ()

/-- A tag that shows its key and its text. -/
def openMac (key : Nat) (body : Body Nat (BoundClaim Nat) Unit) :
    Nat × Body Nat (BoundClaim Nat) Unit := (key, body)

/-- Two nodes, 300 m and 600 m from the emission. -/
def twoNodes : CaptureInput Nat Nat (BoundClaim Nat) Unit (Nat × Body Nat (BoundClaim Nat) Unit) where
  capture :=
    { payloadHash := 7, t0Ns := 0, p0Nm := ⟨0, 0, 0⟩
      receipts := [sign id openMac (nodeBody 1 300000000000 2000),
        sign id openMac (nodeBody 2 600000000000 4000)] }
  registry nodeId :=
    if nodeId = 1 then some ⟨⟨300000000000, 0, 0⟩, 10, ()⟩
    else if nodeId = 2 then some ⟨⟨600000000000, 0, 0⟩, 10, ()⟩ else none

theorem capture_binds_two :
    (twoNodes.capture.receipts.map fun r => r.body.nodeId).Nodup ∧
    ∀ r ∈ twoNodes.capture.receipts,
      r.body ∈ ({nodeBody 1 300000000000 2000, nodeBody 2 600000000000 4000} : Set _) ∧
      ∃ node, Counts id openMac id twoNodes.registry twoNodes.capture.toBoundClaim r node := by
  have hmac : Unforgeable id openMac
      { sign id openMac (nodeBody 1 300000000000 2000),
        sign id openMac (nodeBody 2 600000000000 4000) }
      {nodeBody 1 300000000000 2000, nodeBody 2 600000000000 4000} := by
    rintro r (rfl | rfl) _
    · exact Or.inl rfl
    · exact Or.inr rfl
  have hacc : Accepts id openMac id twoNodes := by
    show (verifyCapture id openMac id twoNodes).aggregate ≠ .rejected
    decide +kernel
  apply (capture_binds Function.injective_id hmac).2 twoNodes hacc
  intro r hr
  simpa [twoNodes] using hr

end HorizonProtocol.Attestation.Capture
