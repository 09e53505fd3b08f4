import HorizonProtocol.Attestation.Cone
import HorizonProtocol.Beacon.Blocks
import HorizonProtocol.Dict
import HorizonProtocol.Ledger.Ledger
import Mathlib.Data.List.Sort
import Mathlib.Data.String.Basic

/-!
# Independence beacons

`horizon/beacon.py`: blocks of entropy are combined only when their emissions are pairwise spacelike,
each block is bound by hash to its emission, and each emission carries a cone certificate that
verifies. The hashes are parameters.

The witnesses of the pairs are kept in a dictionary under `f"{a}|{b}"`, so a pair whose key is written
again leaves no trace (see `Beacon.Routes`).
-/

namespace HorizonProtocol.Beacon

open Attestation

/-- `MIN_SOURCES`. -/
def minSources : Nat := 3

structure EmissionPayload where
  emitterId : String
  blockSha256 : String
  deriving DecidableEq

/-- An entry of `per_block`. -/
structure BeaconBlock (Id Hash Tag : Type) where
  emitterId : String
  posNm : Pos
  tEmitNs : Int
  blockHex : String
  blockSha256 : String
  coneCertificate : ConeCertificate Id Hash Tag

structure BeaconCertificate (Id Hash Tag : Type) where
  perBlock : List (BeaconBlock Id Hash Tag)
  beaconValueHex : String

/-- The hashes, and the stations the verifier trusts. -/
structure BeaconContext (Id Hash Key Tag : Type) where
  sha256 : List UInt8 → String
  eventHash : EmissionPayload → Hash
  mac : Key → ReceiptBody Id Hash → Tag
  registry : Registry Id Key

/-- What the verifier may raise. -/
inductive BeaconError where
  /-- `ValueError` of `bytes.fromhex`. -/
  | notHex (emitterId : String)
  | xor (e : XorError)
  | ledger (e : LedgerError String)
  /-- `KeyError` -/
  | unknownEmission (emitterId : String)

/-! ## The pairs of emissions -/

/-- `{emitter_id: {"time_ns", "pos_nm"}}`, in insertion order. -/
abbrev Emissions := List (String × Stamp)

structure PairWitness where
  witnessForward : AdmissibilityWitness
  witnessBackward : AdmissibilityWitness
  spacelike : Bool
  deriving DecidableEq

/-- `sorted(emissions)`. -/
def sortedIds (emissions : Emissions) : List String :=
  (emissions.map Prod.fst).insertionSort (· ≤ ·)

/-- The key of a pair. -/
def pairKey (a b : String) : String := a ++ "|" ++ b

/-- The two nested loops: each element with every later one. -/
def pairs {α : Type} : List α → List (α × α)
  | [] => []
  | a :: rest => rest.map (fun b => (a, b)) ++ pairs rest

/-- Record the emissions of these ids. -/
def recordAll (emissions : Emissions) :
    List String → CausalLedger String Unit → Except BeaconError (CausalLedger String Unit)
  | [], ledger => .ok ledger
  | eid :: eids, ledger =>
      match Dict.get? emissions eid with
      | none => .error (.unknownEmission eid)
      | some e =>
          match ledger.addEvent eid e.timeNs e.posNm with
          | (_, .error err) => .error (.ledger err)
          | (ledger, .ok ()) => recordAll emissions eids ledger

def pairWitness (emissions : Emissions) (ledger : CausalLedger String Unit) (a b : String) :
    Except BeaconError PairWitness :=
  match Dict.get? emissions a, Dict.get? emissions b with
  | none, _ => .error (.unknownEmission a)
  | _, none => .error (.unknownEmission b)
  | some ea, some eb =>
      match ledger.concurrent a b with
      | .error err => .error (.ledger err)
      | .ok spacelike =>
          .ok { witnessForward := admissibilityWitness ea.timeNs ea.posNm eb.timeNs eb.posNm
                witnessBackward := admissibilityWitness eb.timeNs eb.posNm ea.timeNs ea.posNm
                spacelike }

/-- The loop over the pairs, which writes `out`. -/
def pairwiseLoop (emissions : Emissions) (ledger : CausalLedger String Unit) :
    List (String × String) → List (String × PairWitness) →
      Except BeaconError (List (String × PairWitness))
  | [], out => .ok out
  | (a, b) :: rest, out =>
      match pairWitness emissions ledger a b with
      | .error err => .error err
      | .ok w => pairwiseLoop emissions ledger rest (Dict.set out (pairKey a b) w)

def pairwiseSpacelikeWitnesses (emissions : Emissions) :
    Except BeaconError (List (String × PairWitness)) :=
  match recordAll emissions (sortedIds emissions) {} with
  | .error err => .error err
  | .ok ledger => pairwiseLoop emissions ledger (pairs (sortedIds emissions)) []

/-! ## The verifier -/

inductive Direction where
  | forward
  | backward
  deriving DecidableEq

/-- `w["witness_" + direction]`. -/
def PairWitness.towards (w : PairWitness) : Direction → AdmissibilityWitness
  | .forward => w.witnessForward
  | .backward => w.witnessBackward

/-- The direction a refused pair names. -/
def PairWitness.admissibleDirection (w : PairWitness) : Direction :=
  if w.witnessForward.admissible then .forward else .backward

inductive BeaconWitness (Id Hash : Type) where
  | minSources (required got : Nat)
  | distinctSources (emitterIds : List String)
  /-- Gate `block_binding`: the hash of the block. -/
  | blockHash (emitterId recomputedSha256 claimedSha256 : String)
  /-- Gate `block_binding`: "cone-certificate event does not bind this block". -/
  | eventPayload (emitterId : String) (recomputedPayloadHash eventPayloadHash : Hash)
  /-- Gate `block_binding`: "emission coordinates mismatch between block entry and event". -/
  | emissionCoordinates (emitterId : String)
  | pairwiseSpacelike (pair : String) (admissibleDirection : Direction)
      (exactWitness : AdmissibilityWitness)
  | coneCertificate (emitterId : String) (innerWitness : Option (ConeWitness Id))
  | beaconValue (recomputedHex claimedHex : String)

inductive BeaconResult (Id Hash : Type) where
  | rejected (witness : BeaconWitness Id Hash) (pairwise? : Option (List (String × PairWitness)))
  | pass (pairwise : List (String × PairWitness)) (coneVerdicts : List (String × CertVerdict))
      (beaconValueHex : String)

section Verify

variable {Id Hash Key Tag : Type} [DecidableEq Hash] [DecidableEq Tag]

/-- The bindings of one block: `none` when they hold. -/
def checkBlock (ctx : BeaconContext Id Hash Key Tag) (b : BeaconBlock Id Hash Tag) :
    Except BeaconError (Option (BeaconWitness Id Hash)) :=
  match fromHex b.blockHex with
  | none => .error (.notHex b.emitterId)
  | some blk =>
      let h := ctx.sha256 blk
      let expected := ctx.eventHash ⟨b.emitterId, b.blockSha256⟩
      let ev := b.coneCertificate.event
      if h ≠ b.blockSha256 then .ok (some (.blockHash b.emitterId h b.blockSha256))
      else if ev.payloadHash ≠ expected then
        .ok (some (.eventPayload b.emitterId expected ev.payloadHash))
      else if ev.claimedEmitTimeNs ≠ b.tEmitNs ∨ ev.claimedEmitPosNm ≠ b.posNm then
        .ok (some (.emissionCoordinates b.emitterId))
      else .ok none

def checkBlocks (ctx : BeaconContext Id Hash Key Tag) :
    List (BeaconBlock Id Hash Tag) → Except BeaconError (Option (BeaconWitness Id Hash))
  | [] => .ok none
  | b :: bs =>
      match checkBlock ctx b with
      | .error err => .error err
      | .ok (some w) => .ok (some w)
      | .ok none => checkBlocks ctx bs

/-- The loop over the cone certificates: the verdicts, or the first that does not pass. -/
def checkCones (ctx : BeaconContext Id Hash Key Tag) :
    List (BeaconBlock Id Hash Tag) → List (String × CertVerdict) →
      Except (BeaconWitness Id Hash) (List (String × CertVerdict))
  | [], verdicts => .ok verdicts
  | b :: bs, verdicts =>
      let res := verifyCertificate ctx.mac ctx.registry b.coneCertificate
      if res.verdict ≠ .pass then .error (.coneCertificate b.emitterId res.witness?)
      else checkCones ctx bs (Dict.set verdicts b.emitterId res.verdict)

/-- `[bytes.fromhex(b["block_hex"]) for b in per_block]`. -/
def decodeBlocks : List (BeaconBlock Id Hash Tag) → Except BeaconError (List (List UInt8))
  | [] => .ok []
  | b :: bs =>
      match fromHex b.blockHex with
      | none => .error (.notHex b.emitterId)
      | some blk => (decodeBlocks bs).map fun blks => blk :: blks

/-- The combination of the decoded blocks. -/
def recompute (perBlock : List (BeaconBlock Id Hash Tag)) : Except BeaconError (List UInt8) :=
  match decodeBlocks perBlock with
  | .error err => .error err
  | .ok blocks =>
      match xorBlocks blocks with
      | .error err => .error (.xor err)
      | .ok value => .ok value

/-- The emissions of the blocks; of two of one id the later one. -/
def emissionsOf (perBlock : List (BeaconBlock Id Hash Tag)) : Emissions :=
  Dict.ofPairs (perBlock.map fun b => (b.emitterId, ⟨b.tEmitNs, b.posNm⟩))

def verifyBeacon (ctx : BeaconContext Id Hash Key Tag) (cert : BeaconCertificate Id Hash Tag) :
    Except BeaconError (BeaconResult Id Hash) :=
  let perBlock := cert.perBlock
  let ids := perBlock.map fun b => b.emitterId
  if perBlock.length < minSources then
    .ok (.rejected (.minSources minSources perBlock.length) none)
  else if ids.toFinset.card ≠ ids.length then .ok (.rejected (.distinctSources ids) none)
  else
    match checkBlocks ctx perBlock with
    | .error err => .error err
    | .ok (some w) => .ok (.rejected w none)
    | .ok none =>
        match pairwiseSpacelikeWitnesses (emissionsOf perBlock) with
        | .error err => .error err
        | .ok pairwise =>
            match pairwise.find? fun p => !p.2.spacelike with
            | some (pair, w) =>
                let dir := w.admissibleDirection
                .ok (.rejected (.pairwiseSpacelike pair dir (w.towards dir)) (some pairwise))
            | none =>
                match checkCones ctx perBlock [] with
                | .error w => .ok (.rejected w (some pairwise))
                | .ok coneVerdicts =>
                    match recompute perBlock with
                    | .error err => .error err
                    | .ok recomputed =>
                        if toHex recomputed ≠ cert.beaconValueHex then
                          .ok (.rejected (.beaconValue (toHex recomputed) cert.beaconValueHex) none)
                        else .ok (.pass pairwise coneVerdicts (toHex recomputed))

end Verify

end HorizonProtocol.Beacon
