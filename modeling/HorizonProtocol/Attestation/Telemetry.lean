import HorizonProtocol.Attestation.Measure
import Mathlib.Algebra.Order.Field.Rat

/-!
# Deep-space telemetry

`horizon/latency_gate.py`, `horizon/beq.py` and `horizon/deepspace_protocol.py`: a telemetry packet
is one event and one signed receipt. The verifier's decision is a conjunction, of the receipt's
gates, the latency gate, the quantum score and the bounded-entanglement target (`certified_iff`).
-/

namespace HorizonProtocol.Attestation

/-! ## The latency gate -/

inductive TelemetryWitness where
  | arrivalBeforeEmission (dtNs : Int)
  | margin (dtNs uNs dtAdjustedNs : Int) (requiredNs : Nat) (resolveNs marginNs : Int)
  deriving DecidableEq

structure TimingResult where
  verdict : ArrivalVerdict
  witness : TelemetryWitness
  deriving DecidableEq

/-- `telemetry_consistent`: packet-origin consistency, in vacuum. -/
def telemetryConsistent (t0 : Int) (pSrc : Pos) (tRecv : Int) (pDst : Pos) (uNs resolveNs : Int) :
    TimingResult :=
  let dt := tRecv - t0
  if dt < 0 then ⟨.rejected, .arrivalBeforeEmission dt⟩
  else
    let dtAdjusted := dt + uNs
    let requiredNs := minLightTimeNs pSrc pDst
    let w := TelemetryWitness.margin dt uNs dtAdjusted requiredNs resolveNs (dtAdjusted - requiredNs)
    if dtAdjusted < requiredNs - resolveNs then ⟨.rejected, w⟩
    else if dtAdjusted < requiredNs then ⟨.apparatusLimited, w⟩
    else ⟨.admitted, w⟩

theorem telemetryConsistent_admitted_iff {t0 tRecv uNs resolveNs : Int} {pSrc pDst : Pos} :
    (telemetryConsistent t0 pSrc tRecv pDst uNs resolveNs).verdict = .admitted ↔
      0 ≤ tRecv - t0 ∧ (minLightTimeNs pSrc pDst : Int) - resolveNs ≤ tRecv - t0 + uNs ∧
      (minLightTimeNs pSrc pDst : Int) ≤ tRecv - t0 + uNs := by
  simp only [telemetryConsistent]
  grind

/-! ## Bounded entanglement -/

inductive BeqError where
  /-- `ZeroDivisionError` -/
  | zeroDenominator
  /-- `ValueError`, "per-round gap must be a fraction strictly in (0,1)". -/
  | gapOutOfRange
  /-- `OverflowError`: a float for display is out of range. -/
  | floatOverflow
  deriving DecidableEq

/-- `adversary_success_bound`: `p ^ k` for the per-round gap `p`. -/
def adversarySuccessBound (kCommitted gapNum gapDen : Int) : Except BeqError ℚ :=
  if gapDen = 0 then .error .zeroDenominator
  else
    let p : ℚ := gapNum / gapDen
    if ¬ (0 < p ∧ p < 1) then .error .gapOutOfRange else .ok (p ^ kCommitted)

structure EntanglementThreshold where
  qSecureLinear : Int
  attackGeneralUpper : String
  note : String
  deriving DecidableEq

def entanglementThreshold (kCommitted : Int) : EntanglementThreshold where
  qSecureLinear := kCommitted
  attackGeneralUpper := "exponential in k (=2^O(" ++ toString kCommitted ++ "))"
  note := "sound for adversaries pre-sharing < Q_secure_linear EPR pairs"

inductive BeqVerdict where
  | conditionalBeQ
  | insufficientRounds
  deriving DecidableEq

structure BeqReport where
  verdict : BeqVerdict
  conditionalOn : String := "bounded pre-shared entanglement (BE(Q) model)"
  kCommitted : Int
  adversaryBoundNum : Int
  adversaryBoundDen : Nat
  meetsTarget : Bool
  entanglementThreshold : EntanglementThreshold
  deriving DecidableEq

/-- `float(q)`. The values are for display, but a value that rounds past the largest double is an
error. -/
def float (q : ℚ) : Except BeqError Unit :=
  if 2 ^ 1024 - 2 ^ 970 ≤ |q| then .error .floatOverflow else .ok ()

structure BeqParams where
  k : Int
  gapNum : Int
  gapDen : Int
  targetNum : Int := 1
  targetDen : Int := 10 ^ 9

def beqVerdict (params : BeqParams) : Except BeqError BeqReport := do
  let bound ← adversarySuccessBound params.k params.gapNum params.gapDen
  if params.targetDen = 0 then .error .zeroDenominator
  let target : ℚ := params.targetNum / params.targetDen
  let meets := decide (bound ≤ target)
  float bound
  float target
  return { verdict := if meets then .conditionalBeQ else .insufficientRounds
           kCommitted := params.k
           adversaryBoundNum := bound.num, adversaryBoundDen := bound.den
           meetsTarget := meets
           entanglementThreshold := entanglementThreshold params.k }

/-! ## The verifier -/

structure TelemetryPacket (Id Hash Tag : Type) where
  event : EmissionEvent Hash
  receipt : Receipt Id Hash Tag

structure Link where
  uNs : Int
  resolveNs : Int := 0

structure QuantumScore where
  correct : Int
  total : Int
  deriving DecidableEq

/-- More than nine in ten. -/
def QuantumScore.ok (score : QuantumScore) : Bool :=
  decide (score.total > 0) && decide (score.correct * 10 > score.total * 9)

inductive AggregateVerdict where
  | rejected
  | insufficientRounds
  | apparatusLimited
  | conditionalBeQ
  deriving DecidableEq

/-- The timing entry: what the latency gate says, or which gate kept it from being asked. -/
inductive TimingReport (Id : Type) where
  | refused (refusal : GateRefusal Id)
  | asked (timing : TimingResult)
  deriving DecidableEq

structure TelemetryResult (Id : Type) where
  aggregateVerdict : AggregateVerdict
  timing : TimingReport Id
  beq : Option BeqReport := none
  quantumScore : Option (QuantumScore × Bool) := none
  meaning : String := "not certified"
  deriving DecidableEq

section Verify

variable {Id Hash Key Tag : Type} [DecidableEq Hash] [DecidableEq Tag]

def verifyTelemetryPacket (mac : Key → ReceiptBody Id Hash → Tag) (registry : Registry Id Key)
    (link : Link) (beqParams : BeqParams) (quantumScore : QuantumScore)
    (packet : TelemetryPacket Id Hash Tag) : Except BeqError (TelemetryResult Id) :=
  let event := packet.event
  let receipt := packet.receipt
  match checkReceipt mac registry event.payloadHash receipt with
  | .error refusal => .ok { aggregateVerdict := .rejected, timing := .refused refusal }
  | .ok station => do
    let timing := telemetryConsistent event.claimedEmitTimeNs event.claimedEmitPosNm
      receipt.body.recvTimeNs station.posNm link.uNs link.resolveNs
    let beq ← beqVerdict beqParams
    let quantumOk := quantumScore.ok
    let agg : AggregateVerdict :=
      if timing.verdict = .rejected then .rejected
      else if !quantumOk then .rejected
      else if !beq.meetsTarget then .insufficientRounds
      else if timing.verdict = .apparatusLimited then .apparatusLimited
      else .conditionalBeQ
    return { aggregateVerdict := agg, timing := .asked timing, beq := some beq
             quantumScore := some (quantumScore, quantumOk)
             meaning := if agg = .conditionalBeQ then
               "authenticated + attested under bounded entanglement" else "not certified" }

/-- The verifier answers `CONDITIONAL_BE_Q`. -/
def Certified (mac : Key → ReceiptBody Id Hash → Tag) (registry : Registry Id Key) (link : Link)
    (beqParams : BeqParams) (quantumScore : QuantumScore) (packet : TelemetryPacket Id Hash Tag) :
    Prop :=
  (verifyTelemetryPacket mac registry link beqParams quantumScore packet).map
    TelemetryResult.aggregateVerdict = .ok .conditionalBeQ

/-- The soundness target is met. -/
def BeqParams.MeetsTarget (params : BeqParams) : Prop :=
  (beqVerdict params).map BeqReport.meetsTarget = .ok true

variable {mac : Key → ReceiptBody Id Hash → Tag} {registry : Registry Id Key} {link : Link}
  {beqParams : BeqParams} {quantumScore : QuantumScore}

/-- **What `CONDITIONAL_BE_Q` means.** -/
theorem certified_iff {packet : TelemetryPacket Id Hash Tag} :
    Certified mac registry link beqParams quantumScore packet ↔
      quantumScore.ok = true ∧ beqParams.MeetsTarget ∧
      ∃ station, Attests mac registry packet.event.payloadHash packet.receipt station ∧
        (telemetryConsistent packet.event.claimedEmitTimeNs packet.event.claimedEmitPosNm
          packet.receipt.body.recvTimeNs station.posNm link.uNs link.resolveNs).verdict =
          .admitted := by
  unfold Certified verifyTelemetryPacket BeqParams.MeetsTarget
  dsimp only
  split
  · next hrefused =>
      refine iff_of_false (by simp [Except.map]) ?_
      rintro ⟨-, -, station, hatt, -⟩
      cases hrefused.symm.trans (checkReceipt_eq_ok.mpr hatt)
  · next station hok =>
      have hatt := checkReceipt_eq_ok.mp hok
      cases beqVerdict beqParams with
      | error e =>
          refine iff_of_false (fun h => ?_) (fun h => ?_)
          · cases h
          · cases h.2.1
      | ok beq =>
          generalize htiming : telemetryConsistent packet.event.claimedEmitTimeNs
            packet.event.claimedEmitPosNm packet.receipt.body.recvTimeNs station.posNm link.uNs
            link.resolveNs = timing
          have hadmitted : (∃ station', Attests mac registry packet.event.payloadHash
              packet.receipt station' ∧ (telemetryConsistent packet.event.claimedEmitTimeNs
                packet.event.claimedEmitPosNm packet.receipt.body.recvTimeNs station'.posNm
                link.uNs link.resolveNs).verdict = .admitted) ↔ timing.verdict = .admitted := by
            rw [← htiming]
            constructor
            · rintro ⟨station', hatt', hv⟩
              cases hatt'.unique hatt
              exact hv
            · exact fun hv => ⟨station, hatt, hv⟩
          rw [hadmitted]
          dsimp only [bind, Except.bind, pure, Except.pure, Except.map]
          simp only [Except.ok.injEq]
          clear htiming hadmitted
          generalize timing.verdict = v
          cases v with
          | rejected => simp
          | apparatusLimited => grind
          | admitted => grind

end Verify

end HorizonProtocol.Attestation
