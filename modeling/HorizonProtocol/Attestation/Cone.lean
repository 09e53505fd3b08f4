import HorizonProtocol.Attestation.Station

/-!
# Cone certificates

`horizon/certificate.py`: an event and signed receipts, each inside the light cone of the claimed
emission. `verify_certificate` stops at the first gate that fails.

* `verifyCertificate_pass_iff` — what `PASS` means.
-/

namespace HorizonProtocol.Attestation

structure ConeCertificate (Id Hash Tag : Type) where
  event : EmissionEvent Hash
  receipts : List (Receipt Id Hash Tag)

inductive ConeGate where
  | binding (gate : BindingGate)
  | lightCone
  deriving DecidableEq

structure ConeCheck (Id : Type) where
  stationId : Id
  gate : ConeGate
  ok : Bool
  witness? : Option AdmissibilityWitness := none
  deriving DecidableEq

inductive ConeWitness (Id : Type) where
  /-- "certificate contains no receipts" -/
  | nonemptyReceipts
  /-- One of the gates of `checkReceipt`. -/
  | binding (refusal : GateRefusal Id)
  /-- "receipt arrives earlier than light permits from claimed emission" -/
  | lightCone (stationId : Id) (exactWitness : AdmissibilityWitness)
  deriving DecidableEq

inductive CertVerdict where
  | pass
  | rejected
  deriving DecidableEq

structure ConeResult (Id : Type) where
  verdict : CertVerdict
  checks : List (ConeCheck Id)
  witness? : Option (ConeWitness Id) := none
  emitTimeUpperBoundNs? : Option Int := none

section Verify

variable {Id Hash Key Tag : Type} [DecidableEq Hash] [DecidableEq Tag]

/-- The loop over the receipts, with the checks made and the witness it broke off with. -/
def coneLoop (mac : Key → ReceiptBody Id Hash → Tag) (registry : Registry Id Key)
    (event : EmissionEvent Hash) :
    List (Receipt Id Hash Tag) → List (ConeCheck Id) →
      List (ConeCheck Id) × Option (ConeWitness Id)
  | [], checks => (checks, none)
  | r :: rs, checks =>
      match checkReceipt mac registry event.payloadHash r with
      | .error refusal =>
          (checks ++ [⟨refusal.stationId, .binding refusal.gate, false, none⟩],
            some (.binding refusal))
      | .ok station =>
          let w := admissibilityWitness event.claimedEmitTimeNs event.claimedEmitPosNm
            r.body.recvTimeNs station.posNm
          let checks := checks ++ [⟨r.body.stationId, .lightCone, w.admissible, some w⟩]
          if w.admissible then coneLoop mac registry event rs checks
          else (checks, some (.lightCone r.body.stationId w))

def verifyCertificate (mac : Key → ReceiptBody Id Hash → Tag) (registry : Registry Id Key)
    (cert : ConeCertificate Id Hash Tag) : ConeResult Id :=
  if cert.receipts.isEmpty then
    { verdict := .rejected, checks := [], witness? := some .nonemptyReceipts }
  else
    match coneLoop mac registry cert.event cert.receipts [] with
    | (checks, some w) => { verdict := .rejected, checks, witness? := some w }
    | (checks, none) =>
        { verdict := .pass, checks
          -- the emission is no later than the first reception
          emitTimeUpperBoundNs? := (cert.receipts.map fun r => r.body.recvTimeNs).min? }

variable {mac : Key → ReceiptBody Id Hash → Tag} {registry : Registry Id Key}
  {event : EmissionEvent Hash}

/-- A station attests the receipt, and it lies in the light cone of the claimed emission. -/
def InCone (mac : Key → ReceiptBody Id Hash → Tag) (registry : Registry Id Key)
    (event : EmissionEvent Hash) (r : Receipt Id Hash Tag) : Prop :=
  ∃ station, Attests mac registry event.payloadHash r station ∧
    causallyAdmissible event.claimedEmitTimeNs event.claimedEmitPosNm r.body.recvTimeNs
      station.posNm = true

theorem coneLoop_none_iff {rs : List (Receipt Id Hash Tag)} {checks : List (ConeCheck Id)} :
    (coneLoop mac registry event rs checks).2 = none ↔
      ∀ r ∈ rs, InCone mac registry event r := by
  induction rs generalizing checks with
  | nil => simp [coneLoop]
  | cons r rs ih =>
      rw [List.forall_mem_cons]
      unfold coneLoop
      split
      · next refusal h =>
          refine iff_of_false (by simp) ?_
          rintro ⟨⟨station, hatt, -⟩, -⟩
          cases h.symm.trans (checkReceipt_eq_ok.mpr hatt)
      · next station h =>
          have hatt := checkReceipt_eq_ok.mp h
          have hone : InCone mac registry event r ↔
              causallyAdmissible event.claimedEmitTimeNs event.claimedEmitPosNm r.body.recvTimeNs
                station.posNm = true := by
            constructor
            · rintro ⟨station', hatt', hcone⟩
              cases hatt'.unique hatt
              exact hcone
            · exact fun hcone => ⟨station, hatt, hcone⟩
          rw [hone]
          by_cases hcone : (admissibilityWitness event.claimedEmitTimeNs event.claimedEmitPosNm
            r.body.recvTimeNs station.posNm).admissible = true
          · simp only [hcone, if_true]
            rw [ih]
            exact (and_iff_right hcone).symm
          · simp only [hcone]
            exact iff_of_false (by simp) fun hall => hcone hall.1

/-- **What `PASS` means.** -/
theorem verifyCertificate_pass_iff {cert : ConeCertificate Id Hash Tag} :
    (verifyCertificate mac registry cert).verdict = .pass ↔
      cert.receipts ≠ [] ∧ ∀ r ∈ cert.receipts, InCone mac registry cert.event r := by
  have hloop := @coneLoop_none_iff Id Hash Key Tag _ _ mac registry cert.event cert.receipts []
  unfold verifyCertificate
  split
  · next hempty =>
      rw [List.isEmpty_iff] at hempty
      simp [hempty]
  · next hne =>
      rw [List.isEmpty_iff] at hne
      rw [and_iff_right hne, ← hloop]
      split
      · next checks w h => simp [h]
      · next checks h => simp [h]

end Verify

end HorizonProtocol.Attestation
