import HorizonProtocol.Geometry

/-!
# Stations and their receipts

`horizon/stations.py` and `horizon/events.py`: a station of known position signs that it received a
payload hash at a time. The MAC is a parameter, over the key and the record that is authenticated;
what that record does not hold, no receipt vouches for. The gates that every verifier of receipts
runs first are `checkReceipt`, and `Attests` is what they let through.
-/

namespace HorizonProtocol.Attestation

/-- `{"payload_hash", "claimed_emit_time_ns", "claimed_emit_pos_nm"}`. -/
structure EmissionEvent (Hash : Type) where
  payloadHash : Hash
  claimedEmitTimeNs : Int
  claimedEmitPosNm : Pos

/-- The hash is over the payload alone. -/
def makeEvent {Payload Hash : Type} (eventHash : Payload → Hash) (payload : Payload)
    (emitTimeNs : Int) (emitPosNm : Pos) : EmissionEvent Hash where
  payloadHash := eventHash payload
  claimedEmitTimeNs := emitTimeNs
  claimedEmitPosNm := emitPosNm

/-- The when and where of an emission. -/
def EmissionEvent.emission {Hash : Type} (event : EmissionEvent Hash) : Int × Pos :=
  (event.claimedEmitTimeNs, event.claimedEmitPosNm)

structure ReceiptBody (Id Hash : Type) where
  stationId : Id
  stationPosNm : Pos
  payloadHash : Hash
  recvTimeNs : Int
  deriving DecidableEq

structure Receipt (Id Hash Tag : Type) where
  body : ReceiptBody Id Hash
  mac : Tag
  deriving DecidableEq

structure Station (Id Key : Type) where
  stationId : Id
  posNm : Pos
  key : Key

/-- `{station_id: Station}`, which the verifier trusts. -/
abbrev Registry (Id Key : Type) := Id → Option (Station Id Key)

variable {Id Hash Key Tag : Type}

namespace Station

def receiptBody (st : Station Id Key) (payloadHash : Hash) (recvTimeNs : Int) :
    ReceiptBody Id Hash where
  stationId := st.stationId
  stationPosNm := st.posNm
  payloadHash := payloadHash
  recvTimeNs := recvTimeNs

def signReceipt (mac : Key → ReceiptBody Id Hash → Tag) (st : Station Id Key) (payloadHash : Hash)
    (recvTimeNs : Int) : Receipt Id Hash Tag :=
  let body := st.receiptBody payloadHash recvTimeNs
  { body, mac := mac st.key body }

/-- What it answers for a MAC that `hmac.compare_digest` compares. -/
def verifyReceipt [DecidableEq Tag] (mac : Key → ReceiptBody Id Hash → Tag) (st : Station Id Key)
    (receipt : Receipt Id Hash Tag) : Bool :=
  decide (mac st.key receipt.body = receipt.mac)

end Station

/-- Where `verify_receipt` of a known station raises the `TypeError` of `hmac.compare_digest`: the MAC
is text, but not ASCII. -/
def incomparable (comparable : Tag → Bool) (registry : Registry Id Key)
    (receipt : Receipt Id Hash Tag) : Bool :=
  (registry receipt.body.stationId).isSome && !comparable receipt.mac

/-! ## The gates before any timing decision -/

inductive BindingGate where
  | knownStation
  | receiptMac
  | payloadBinding
  | surveyedPosition
  deriving DecidableEq

/-- The gate that refused a receipt. A refused MAC says so: `"HMAC verification failed"`. -/
structure GateRefusal (Id : Type) where
  gate : BindingGate
  stationId : Id
  detail : Option String := none
  deriving DecidableEq

section Gates

variable [DecidableEq Hash] [DecidableEq Tag]

/-- `known_station`, `receipt_mac`, `payload_binding`, `surveyed_position`, in this order. -/
def checkReceipt (mac : Key → ReceiptBody Id Hash → Tag) (registry : Registry Id Key)
    (payloadHash : Hash) (receipt : Receipt Id Hash Tag) :
    Except (GateRefusal Id) (Station Id Key) :=
  let body := receipt.body
  match registry body.stationId with
  | none => .error { gate := .knownStation, stationId := body.stationId }
  | some station =>
    if !station.verifyReceipt mac receipt then
      .error { gate := .receiptMac, stationId := body.stationId
               detail := some "HMAC verification failed" }
    else if body.payloadHash ≠ payloadHash then
      .error { gate := .payloadBinding, stationId := body.stationId }
    else if body.stationPosNm ≠ station.posNm then
      .error { gate := .surveyedPosition, stationId := body.stationId }
    else .ok station

/-- A registered station, at its surveyed position, signed that it received this payload. -/
structure Attests (mac : Key → ReceiptBody Id Hash → Tag) (registry : Registry Id Key)
    (payloadHash : Hash) (receipt : Receipt Id Hash Tag) (station : Station Id Key) : Prop where
  registered : registry receipt.body.stationId = some station
  signed : station.verifyReceipt mac receipt = true
  payload : receipt.body.payloadHash = payloadHash
  surveyed : receipt.body.stationPosNm = station.posNm

variable {mac : Key → ReceiptBody Id Hash → Tag} {registry : Registry Id Key} {payloadHash : Hash}
  {receipt : Receipt Id Hash Tag} {station : Station Id Key}

/-- The gates let through what a station attests, and nothing else. -/
theorem checkReceipt_eq_ok :
    checkReceipt mac registry payloadHash receipt = .ok station ↔
      Attests mac registry payloadHash receipt station := by
  unfold checkReceipt
  dsimp only
  constructor
  · intro h
    split at h
    · cases h
    · next st hst =>
        split at h
        · cases h
        · next hmac =>
            split at h
            · cases h
            · next hpayload =>
                split at h
                · cases h
                · next hpos =>
                    cases h
                    exact ⟨hst, by simpa using hmac, not_not.mp hpayload, not_not.mp hpos⟩
  · intro h
    rw [h.registered]
    simp [h.signed, h.payload, h.surveyed]

omit [DecidableEq Hash] in
theorem Attests.unique {station' : Station Id Key}
    (h : Attests mac registry payloadHash receipt station)
    (h' : Attests mac registry payloadHash receipt station') : station = station' :=
  Option.some.inj (h.registered.symm.trans h'.registered)

omit [DecidableEq Hash] in
/-- What an honest station signs passes the gates. -/
theorem attests_signReceipt {recvTimeNs : Int}
    (h : registry station.stationId = some station) :
    Attests mac registry payloadHash (station.signReceipt mac payloadHash recvTimeNs) station where
  registered := h
  signed := by simp [Station.verifyReceipt, Station.signReceipt]
  payload := rfl
  surveyed := rfl

end Gates

end HorizonProtocol.Attestation
