import HorizonProtocol.Attestation.Telemetry
import HorizonProtocol.Binding
import Mathlib.Order.Filter.AtTopBot.Basic
import Mathlib.Order.Filter.Finite

/-!
# Who vouches for the emission

A receipt is signed over the station, its position, the payload hash and the time of reception. The
claimed emission is in none of these, and the light cone only bounds it from one side: a claim that
is moved into the past stays admitted.

* `eventually_certified`, `eventually_passes` — whatever place is claimed, every early enough time
  is accepted.
* `emission_bound_iff` — so the receipts bind the emission only where nothing is accepted at all.
-/

namespace HorizonProtocol.Attestation

open Binding Filter

variable {Id Hash Key Tag : Type}

/-! ## Evidence and claim -/

/-- The same event, claimed for another time and place. -/
def EmissionEvent.claimedAt (event : EmissionEvent Hash) (t : Int) (p : Pos) :
    EmissionEvent Hash :=
  { event with claimedEmitTimeNs := t, claimedEmitPosNm := p }

/-- The same event, claimed for a nanosecond earlier. -/
def EmissionEvent.earlier (event : EmissionEvent Hash) : EmissionEvent Hash :=
  event.claimedAt (event.claimedEmitTimeNs - 1) event.claimedEmitPosNm

theorem EmissionEvent.emission_earlier (event : EmissionEvent Hash) :
    event.earlier.emission ≠ event.emission := by
  intro h
  have htime : event.claimedEmitTimeNs - 1 = event.claimedEmitTimeNs := congrArg Prod.fst h
  omega

/-- What of a packet its signer has seen. -/
def TelemetryPacket.evidence (packet : TelemetryPacket Id Hash Tag) : Hash × Receipt Id Hash Tag :=
  (packet.event.payloadHash, packet.receipt)

def TelemetryPacket.emission (packet : TelemetryPacket Id Hash Tag) : Int × Pos :=
  packet.event.emission

/-- What of a certificate its signers have seen. -/
def MeasuredCertificate.evidence (cert : MeasuredCertificate Id Hash Tag) :
    Hash × List (Receipt Id Hash Tag) :=
  (cert.event.payloadHash, cert.receipts)

def MeasuredCertificate.emission (cert : MeasuredCertificate Id Hash Tag) : Int × Pos :=
  cert.event.emission

section Telemetry

variable [DecidableEq Hash] [DecidableEq Tag] {mac : Key → ReceiptBody Id Hash → Tag}
  {registry : Registry Id Key} {link : Link} {beqParams : BeqParams} {quantumScore : QuantumScore}

/-- A packet stays certified when its claim moves into the past. -/
theorem Certified.earlier {packet : TelemetryPacket Id Hash Tag}
    (h : Certified mac registry link beqParams quantumScore packet) :
    Certified mac registry link beqParams quantumScore
      { packet with event := packet.event.earlier } := by
  rw [certified_iff] at h ⊢
  obtain ⟨hscore, htarget, station, hatt, htiming⟩ := h
  refine ⟨hscore, htarget, station, hatt, ?_⟩
  rw [telemetryConsistent_admitted_iff] at htiming ⊢
  simp only [EmissionEvent.earlier, EmissionEvent.claimedAt]
  omega

/-- Of whatever place, every early enough emission is certified. -/
theorem eventually_certified {packet : TelemetryPacket Id Hash Tag} {station : Station Id Key}
    (hscore : quantumScore.ok = true) (htarget : beqParams.MeetsTarget)
    (hatt : Attests mac registry packet.event.payloadHash packet.receipt station) (p : Pos) :
    ∀ᶠ t : Int in atBot, Certified mac registry link beqParams quantumScore
      { packet with event := packet.event.claimedAt t p } := by
  let floor : Int := minLightTimeNs p station.posNm
  rw [eventually_atBot]
  refine ⟨packet.receipt.body.recvTimeNs - (floor + link.uNs.natAbs + link.resolveNs.natAbs), ?_⟩
  intro t ht
  rw [certified_iff]
  refine ⟨hscore, htarget, station, hatt, ?_⟩
  rw [telemetryConsistent_admitted_iff]
  simp only [EmissionEvent.claimedAt]
  omega

end Telemetry

section Measured

variable [DecidableEq Tag] {mac : Key → ReceiptBody Id Hash → Tag}
  {registry : Registry Id Key} {nodeParams : Id → Option NodeParams}
  {requiredStationIds : Option (List Id)}

theorem Cleared.earlier {event : EmissionEvent Hash} {r : Receipt Id Hash Tag}
    (h : Cleared mac registry nodeParams event r) :
    Cleared mac registry nodeParams event.earlier r := by
  obtain ⟨station, params, hatt, hparams, hv⟩ := h
  refine ⟨station, params, hatt, hparams, ?_⟩
  rw [budgetWitness_admitted_iff] at hv ⊢
  simp only [EmissionEvent.earlier, EmissionEvent.claimedAt]
  omega

/-- A registered station attests the receipt, and its clock and medium are declared. -/
def Vouched (mac : Key → ReceiptBody Id Hash → Tag) (registry : Registry Id Key)
    (nodeParams : Id → Option NodeParams) (payloadHash : Hash) (r : Receipt Id Hash Tag) : Prop :=
  ∃ station params, Attests mac registry payloadHash r station ∧
    nodeParams r.body.stationId = some params

theorem Cleared.vouched {event : EmissionEvent Hash} {r : Receipt Id Hash Tag}
    (h : Cleared mac registry nodeParams event r) :
    Vouched mac registry nodeParams event.payloadHash r := by
  obtain ⟨station, params, hatt, hparams, -⟩ := h
  exact ⟨station, params, hatt, hparams⟩

theorem Vouched.eventually_cleared {event : EmissionEvent Hash} {r : Receipt Id Hash Tag}
    (h : Vouched mac registry nodeParams event.payloadHash r) (p : Pos) :
    ∀ᶠ t : Int in atBot, Cleared mac registry nodeParams (event.claimedAt t p) r := by
  obtain ⟨station, params, hatt, hparams⟩ := h
  let floor : Int := minLightTimeNs p station.posNm
  let slow : Int := minTransitTimeNsEff p station.posNm params.cEffNum params.cEffDen
  rw [eventually_atBot]
  refine ⟨r.body.recvTimeNs - (floor + slow + params.uNs.natAbs), ?_⟩
  intro t ht
  refine ⟨station, params, hatt, hparams, ?_⟩
  rw [budgetWitness_admitted_iff]
  simp only [EmissionEvent.claimedAt]
  omega

variable [DecidableEq Hash] [LinearOrder Id]

/-- A certificate still passes when its claim moves into the past. -/
theorem Passes.earlier {cert : MeasuredCertificate Id Hash Tag}
    (h : Passes mac registry nodeParams requiredStationIds cert) :
    Passes mac registry nodeParams requiredStationIds
      { cert with event := cert.event.earlier } := by
  rw [passes_iff] at h ⊢
  obtain ⟨hsources, hcleared, hlive⟩ := h
  refine ⟨hsources, fun r hr => (hcleared r hr).earlier, ?_⟩
  intro horigin r hr
  have hle := hlive horigin r hr
  simp only [EmissionEvent.earlier, EmissionEvent.claimedAt]
  omega

/-- Of whatever place, every early enough emission passes. -/
theorem eventually_passes {cert : MeasuredCertificate Id Hash Tag}
    (hsources : ProperSources requiredStationIds cert.receipts)
    (hvouched : ∀ r ∈ cert.receipts, Vouched mac registry nodeParams cert.event.payloadHash r)
    (p : Pos) :
    ∀ᶠ t : Int in atBot, Passes mac registry nodeParams requiredStationIds
      { cert with event := cert.event.claimedAt t p } := by
  have hcleared : ∀ᶠ t : Int in atBot, ∀ r ∈ cert.receipts,
      Cleared mac registry nodeParams (cert.event.claimedAt t p) r :=
    (eventually_all_finite cert.receipts.finite_toSet).mpr
      fun r hr => (hvouched r hr).eventually_cleared p
  have hlive : ∀ᶠ t : Int in atBot, ∀ r ∈ cert.receipts, t ≤ r.body.recvTimeNs :=
    (eventually_all_finite cert.receipts.finite_toSet).mpr
      fun r _ => eventually_le_atBot r.body.recvTimeNs
  filter_upwards [hcleared, hlive] with t hc hl
  rw [passes_iff]
  exact ⟨hsources, hc, fun _ => hl⟩

end Measured

/-! ## What the receipts bind -/

/-- **Receipts do not bind the emission.** Whatever the MAC, all packets with a payload hash and a
receipt that are certified claim one emission only where none is certified: when the receipt fails
its gates, or the score or the target is missed. And all certificates with a payload hash and some
receipts that pass claim one emission only where none passes: when the sources are not proper, or a
receipt is not vouched for. -/
theorem emission_bound_iff [DecidableEq Hash] [DecidableEq Tag] [LinearOrder Id]
    (mac : Key → ReceiptBody Id Hash → Tag) (registry : Registry Id Key) (link : Link)
    (beqParams : BeqParams) (quantumScore : QuantumScore) (nodeParams : Id → Option NodeParams)
    (requiredStationIds : Option (List Id)) (payloadHash : Hash) :
    (∀ receipt : Receipt Id Hash Tag,
      BindsAt (Certified mac registry link beqParams quantumScore) TelemetryPacket.evidence
        TelemetryPacket.emission (payloadHash, receipt) ↔
      ¬ (quantumScore.ok = true ∧ beqParams.MeetsTarget ∧
        ∃ station, Attests mac registry payloadHash receipt station)) ∧
    (∀ receipts : List (Receipt Id Hash Tag),
      BindsAt (Passes mac registry nodeParams requiredStationIds) MeasuredCertificate.evidence
        MeasuredCertificate.emission (payloadHash, receipts) ↔
      ¬ (ProperSources requiredStationIds receipts ∧
        ∀ r ∈ receipts, Vouched mac registry nodeParams payloadHash r)) := by
  constructor
  · intro receipt
    rw [bindsAt_iff_of_shift (fun packet => { packet with event := packet.event.earlier })
      (fun _ h => h.earlier) (fun _ => rfl) (fun packet => packet.event.emission_earlier)]
    constructor
    · rintro hnone ⟨hscore, htarget, station, hatt⟩
      let packet : TelemetryPacket Id Hash Tag := ⟨⟨payloadHash, 0, ⟨0, 0, 0⟩⟩, receipt⟩
      have hsome : ∀ᶠ t : Int in atBot, Certified mac registry link beqParams quantumScore
          { packet with event := packet.event.claimedAt t ⟨0, 0, 0⟩ } :=
        eventually_certified hscore htarget hatt ⟨0, 0, 0⟩
      obtain ⟨t, ht⟩ := hsome.exists
      exact hnone _ rfl ht
    · rintro hfails packet hevidence hcertified
      cases hevidence
      obtain ⟨hscore, htarget, station, hatt, -⟩ := certified_iff.mp hcertified
      exact hfails ⟨hscore, htarget, station, hatt⟩
  · intro receipts
    rw [bindsAt_iff_of_shift (fun cert => { cert with event := cert.event.earlier })
      (fun _ h => h.earlier) (fun _ => rfl) (fun cert => cert.event.emission_earlier)]
    constructor
    · rintro hnone ⟨hsources, hvouched⟩
      let cert : MeasuredCertificate Id Hash Tag :=
        { event := ⟨payloadHash, 0, ⟨0, 0, 0⟩⟩, receipts }
      have hsome : ∀ᶠ t : Int in atBot, Passes mac registry nodeParams requiredStationIds
          { cert with event := cert.event.claimedAt t ⟨0, 0, 0⟩ } :=
        eventually_passes hsources hvouched ⟨0, 0, 0⟩
      obtain ⟨t, ht⟩ := hsome.exists
      exact hnone _ rfl ht
    · rintro hfails cert hevidence hpasses
      cases hevidence
      obtain ⟨hsources, hcleared, -⟩ := passes_iff.mp hpasses
      exact hfails ⟨hsources, fun r hr => (hcleared r hr).vouched⟩

/-- A hash nobody collides and a MAC nobody forges: each is its own input. -/
def transparentMac (key : Nat) (body : ReceiptBody Nat Nat) : Nat × ReceiptBody Nat Nat :=
  (key, body)

def earth : Station Nat Nat where
  stationId := 1
  posNm := ⟨0, 0, 0⟩
  key := 7

def earthRegistry : Registry Nat Nat := fun sid => if sid = 1 then some earth else none

/-- The one receipt, signed by the station itself. -/
def earthReceipt : Receipt Nat Nat (Nat × ReceiptBody Nat Nat) :=
  earth.signReceipt transparentMac 5 2000

/-- Emitted a thousand light-nanoseconds away, at time zero. -/
def farEvent : EmissionEvent Nat := makeEvent id 5 0 ⟨299792458000, 0, 0⟩

/-- The same payload, emitted at the station when it was received. -/
def hereEvent : EmissionEvent Nat := makeEvent id 5 2000 ⟨0, 0, 0⟩

def sureParams : BeqParams := { k := 73, gapNum := 3, gapDen := 4 }

theorem emission_not_bound :
    Function.Injective2 transparentMac ∧
    (∀ event ∈ [farEvent, hereEvent],
      Certified transparentMac earthRegistry { uNs := 0 } sureParams ⟨200, 200⟩
        ⟨event, earthReceipt⟩ ∧
      Passes transparentMac earthRegistry (fun _ => some { uNs := 0 }) none
        { event, receipts := [earthReceipt] }) ∧
    farEvent.payloadHash = hereEvent.payloadHash ∧ farEvent.emission ≠ hereEvent.emission := by
  refine ⟨?_, ?_, rfl, by decide⟩
  · intro key key' body body' h
    exact Prod.mk.inj h
  · simp only [List.forall_mem_cons]
    unfold Certified Passes
    decide +kernel

end HorizonProtocol.Attestation
