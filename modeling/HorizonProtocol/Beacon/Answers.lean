import HorizonProtocol.Beacon.Soundness

/-!
# Whether the beacon verifier answers

`verify_beacon` is to answer `PASS` or `REJECTED` on every well-formed certificate. Two calls inside
it raise: `hmac.compare_digest` on a MAC that is text but not ASCII, and `xor_blocks` on blocks of
different lengths. Both come after other gates.

* `verifyBeaconRaising_answers_iff` — when the verifier answers.
-/

namespace HorizonProtocol.Beacon

open Attestation
open Log (reaches reaches_iff)

variable {Id Hash Key Tag : Type} [DecidableEq Hash] [DecidableEq Tag]

/-! ## The fold over the blocks -/

section Fold

variable {ctx : BeaconContext Id Hash Key Tag} {cert : BeaconCertificate Id Hash Tag}

omit [DecidableEq Hash] [DecidableEq Tag] in
/-- All blocks are hexadecimal. -/
def HexBlocks (cert : BeaconCertificate Id Hash Tag) : Prop :=
  ∀ b ∈ cert.perBlock, (fromHex b.blockHex).isSome

instance : Decidable (HexBlocks cert) :=
  inferInstanceAs (Decidable (∀ b ∈ cert.perBlock, (fromHex b.blockHex).isSome))

omit [DecidableEq Hash] [DecidableEq Tag] in
/-- All blocks are of one length. -/
def OneLength (cert : BeaconCertificate Id Hash Tag) : Prop :=
  ∃ n, ∀ b ∈ cert.perBlock, (fromHex b.blockHex).map List.length = some n

/-- Every cone certificate verifies. -/
def ConesPass (ctx : BeaconContext Id Hash Key Tag) (cert : BeaconCertificate Id Hash Tag) : Prop :=
  ∀ b ∈ cert.perBlock, (verifyCertificate ctx.mac ctx.registry b.coneCertificate).verdict = .pass

omit [DecidableEq Hash] [DecidableEq Tag] in
theorem decodeBlocks_of_hex {bs : List (BeaconBlock Id Hash Tag)}
    (hhex : ∀ b ∈ bs, (fromHex b.blockHex).isSome) :
    decodeBlocks bs = .ok (bs.map fun b => (fromHex b.blockHex).getD []) := by
  induction bs with
  | nil => rfl
  | cons b bs ih =>
      obtain ⟨blk, hblk⟩ := Option.isSome_iff_exists.mp (hhex b List.mem_cons_self)
      have hrest := ih fun x hx => hhex x (List.mem_cons_of_mem _ hx)
      simp [decodeBlocks, hblk, hrest, Except.map]

omit [DecidableEq Hash] [DecidableEq Tag] in
/-- The fold does not raise on blocks of one length. -/
theorem recompute_ok_iff (hhex : HexBlocks cert) (hne : cert.perBlock ≠ []) :
    (∃ v, recompute cert.perBlock = .ok v) ↔ OneLength cert := by
  have hfold : (∃ v, recompute cert.perBlock = .ok v) ↔
      ∃ v, xorBlocks (cert.perBlock.map fun b => (fromHex b.blockHex).getD []) = .ok v := by
    rw [recompute, decodeBlocks_of_hex hhex]
    dsimp only
    split
    · next err h => simp [h]
    · next v h => simp [h]
  rw [hfold, xorBlocks_ok_iff (by simpa using hne)]
  apply exists_congr
  intro n
  rw [List.forall_mem_map]
  apply forall₂_congr
  intro b hb
  obtain ⟨blk, hblk⟩ := Option.isSome_iff_exists.mp (hhex b hb)
  simp [hblk]

omit [DecidableEq Tag] in
/-- The gate of the bindings does not raise on hexadecimal blocks. -/
theorem checkBlocks_ok {bs : List (BeaconBlock Id Hash Tag)}
    (hhex : ∀ b ∈ bs, (fromHex b.blockHex).isSome) :
    ∃ witness?, checkBlocks ctx bs = .ok witness? := by
  induction bs with
  | nil => exact ⟨none, rfl⟩
  | cons b bs ih =>
      obtain ⟨blk, hblk⟩ := Option.isSome_iff_exists.mp (hhex b List.mem_cons_self)
      rw [checkBlocks]
      split
      · next err h =>
          simp only [checkBlock, hblk] at h
          split_ifs at h
      · exact ⟨_, rfl⟩
      · exact ih fun x hx => hhex x (List.mem_cons_of_mem _ hx)

/-- **The gates themselves answer exactly when the fold is not reached or the blocks are of one
length.** -/
theorem verifyBeacon_ok_iff (hhex : HexBlocks cert) :
    (∃ res, verifyBeacon ctx cert = .ok res) ↔
      (ConesReached ctx cert → ConesPass ctx cert → OneLength cert) := by
  by_cases hreached : ConesReached ctx cert
  · obtain ⟨pairwise, hverify⟩ := verifyBeacon_of_reached hreached
    rw [hverify, forall_prop_of_true hreached]
    split
    · next wit hcones =>
        refine iff_of_true ⟨_, rfl⟩ fun hpass => ?_
        obtain ⟨v, hv⟩ := (checkCones_ok_iff []).mpr hpass
        cases hcones.symm.trans hv
    · next verdicts hcones =>
        have hpass : ConesPass ctx cert := (checkCones_ok_iff []).mp ⟨verdicts, hcones⟩
        have hne : cert.perBlock ≠ [] := by
          intro hnil
          have hsources := hreached.sources
          rw [hnil] at hsources
          simp [minSources] at hsources
        rw [forall_prop_of_true hpass, ← recompute_ok_iff hhex hne]
        split
        · next err hvalue => simp [hvalue]
        · next v hvalue =>
            refine iff_of_true ?_ ⟨v, hvalue⟩
            split
            · exact ⟨_, rfl⟩
            · exact ⟨_, rfl⟩
  · refine iff_of_true ?_ fun h => absurd h hreached
    rcases verifyBeacon_of_not_reached hreached with ⟨w, pairwise?, hw⟩ | ⟨err, hblocks, -⟩
    · exact ⟨_, hw⟩
    · obtain ⟨witness?, hok⟩ := checkBlocks_ok hhex
      cases hblocks.symm.trans hok

end Fold

/-! ## The comparison of the MACs -/

/-- What `verify_beacon` may raise. -/
inductive RaisedError where
  | gates (e : BeaconError)
  /-- `TypeError` of `hmac.compare_digest`, on text that is not ASCII. -/
  | compareDigest

section Raise

/- The MACs that `hmac.compare_digest` compares; as text they have to be ASCII. -/
variable (comparable : Tag → Bool) (ctx : BeaconContext Id Hash Key Tag)

/-- The loop over the receipts goes on after this one. -/
def inCone (event : EmissionEvent Hash) (r : Receipt Id Hash Tag) : Bool :=
  match checkReceipt ctx.mac ctx.registry event.payloadHash r with
  | .error _ => false
  | .ok station =>
      causallyAdmissible event.claimedEmitTimeNs event.claimedEmitPosNm r.body.recvTimeNs
        station.posNm

/-- `verify_certificate` raises. -/
def certificateRaises (cert : ConeCertificate Id Hash Tag) : Bool :=
  reaches (incomparable comparable ctx.registry) (inCone ctx cert.event) cert.receipts

/-- The loop over the cone certificates raises. -/
def conesRaise (perBlock : List (BeaconBlock Id Hash Tag)) : Bool :=
  reaches (fun b => certificateRaises comparable ctx b.coneCertificate)
    (fun b => decide ((verifyCertificate ctx.mac ctx.registry b.coneCertificate).verdict = .pass))
    perBlock

/-- The gates before the cone certificates, as they are asked. -/
def conesReached (cert : BeaconCertificate Id Hash Tag) : Bool :=
  decide (minSources ≤ cert.perBlock.length) &&
    decide (cert.perBlock.map fun b => b.emitterId).Nodup &&
    (match checkBlocks ctx cert.perBlock with
      | .ok none => true
      | _ => false) &&
    match pairwiseSpacelikeWitnesses (emissionsOf cert.perBlock) with
    | .ok pairwise => pairwise.all fun p => p.2.spacelike
    | .error _ => false

/-- `verify_beacon`, with what the comparison of the MACs raises. -/
def verifyBeaconRaising (cert : BeaconCertificate Id Hash Tag) :
    Except RaisedError (BeaconResult Id Hash) :=
  if conesReached ctx cert && conesRaise comparable ctx cert.perBlock then .error .compareDigest
  else
    match verifyBeacon ctx cert with
    | .error err => .error (.gates err)
    | .ok res => .ok res

/-- The verifier answers. -/
def Answers (cert : BeaconCertificate Id Hash Tag) : Prop :=
  ∃ res, verifyBeaconRaising comparable ctx cert = .ok res

/-- A receipt that the loops come to names a known station and cannot be compared. -/
def MeetsIncomparable (cert : BeaconCertificate Id Hash Tag) : Prop :=
  ∃ pre b post, cert.perBlock = pre ++ b :: post ∧
    (∀ b' ∈ pre, (verifyCertificate ctx.mac ctx.registry b'.coneCertificate).verdict = .pass) ∧
    ∃ rs r rs', b.coneCertificate.receipts = rs ++ r :: rs' ∧
      (∀ r' ∈ rs, InCone ctx.mac ctx.registry b.coneCertificate.event r') ∧
      (∃ station, ctx.registry r.body.stationId = some station) ∧ comparable r.mac = false

end Raise

variable {comparable : Tag → Bool} {ctx : BeaconContext Id Hash Key Tag}
  {cert : BeaconCertificate Id Hash Tag}

theorem inCone_iff {event : EmissionEvent Hash} {r : Receipt Id Hash Tag} :
    inCone ctx event r = true ↔ InCone ctx.mac ctx.registry event r := by
  unfold inCone
  split
  · next refusal h =>
      refine iff_of_false (by simp) ?_
      rintro ⟨station, hatt, -⟩
      cases h.symm.trans (checkReceipt_eq_ok.mpr hatt)
  · next station h =>
      have hatt := checkReceipt_eq_ok.mp h
      constructor
      · intro hcone
        exact ⟨station, hatt, hcone⟩
      · rintro ⟨station', hatt', hcone⟩
        cases hatt'.unique hatt
        exact hcone

theorem conesRaise_iff :
    conesRaise comparable ctx cert.perBlock = true ↔ MeetsIncomparable comparable ctx cert := by
  simp only [conesRaise, certificateRaises, reaches_iff, inCone_iff, decide_eq_true_eq,
    incomparable, Bool.and_eq_true, Bool.not_eq_true', Option.isSome_iff_exists, MeetsIncomparable]

omit [DecidableEq Tag] in
theorem conesReached_iff : conesReached ctx cert = true ↔ ConesReached ctx cert := by
  have hblocks : (match checkBlocks ctx cert.perBlock with
      | .ok none => true
      | _ => false) = true ↔ ∀ b ∈ cert.perBlock, BlockBound ctx b := by
    rw [← checkBlocks_none_iff]
    split
    · next h => simp [h]
    · next h => simpa using h
  have hpairs : (cert.perBlock.map fun b => b.emitterId).Nodup →
      ((match pairwiseSpacelikeWitnesses (emissionsOf cert.perBlock) with
        | .ok pairwise => pairwise.all fun p => p.2.spacelike
        | .error _ => false) = true ↔ LastPairsSpacelike cert) := by
    intro hdistinct
    obtain ⟨w, hpairwise, hw⟩ := pairwise_of_distinct hdistinct
    rw [hpairwise]
    dsimp only
    rw [List.all_eq_true]
    exact pairwise_spacelike_iff hw
  rw [conesReached, Bool.and_eq_true, Bool.and_eq_true, Bool.and_eq_true, decide_eq_true_eq,
    decide_eq_true_eq, hblocks]
  constructor
  · rintro ⟨⟨⟨hsources, hdistinct⟩, hbound⟩, hlast⟩
    exact ⟨hsources, hdistinct, hbound, (hpairs hdistinct).mp hlast⟩
  · intro h
    exact ⟨⟨⟨h.sources, h.distinct⟩, h.bound⟩, (hpairs h.distinct).mpr h.pairs⟩

/-- **When the verifier answers.** On hexadecimal blocks it does so exactly when, past the gates
before the cone certificates, no MAC that it comes to is incomparable, and past these the blocks are
of one length. -/
theorem verifyBeaconRaising_answers_iff (hhex : HexBlocks cert) :
    Answers comparable ctx cert ↔
      (ConesReached ctx cert → ¬ MeetsIncomparable comparable ctx cert ∧
        (ConesPass ctx cert → OneLength cert)) := by
  have hgates : (∃ res, (match verifyBeacon ctx cert with
      | .error err => .error (.gates err)
      | .ok res => .ok res : Except RaisedError (BeaconResult Id Hash)) = .ok res) ↔
        ∃ res, verifyBeacon ctx cert = .ok res := by
    split
    · next err h => simp [h]
    · next res h => simp [h]
  unfold Answers verifyBeaconRaising
  rw [← conesRaise_iff, imp_and]
  split
  · next h =>
      rw [Bool.and_eq_true, conesReached_iff] at h
      exact iff_of_false (by simp) fun hall => hall.1 h.1 h.2
  · next h =>
      rw [Bool.and_eq_true, conesReached_iff, not_and] at h
      rw [hgates, verifyBeacon_ok_iff hhex]
      exact (and_iff_right h).symm

/-! ### Blocks of two lengths -/

instance : Decidable (Answers comparable ctx cert) :=
  decidable_of_iff ((verifyBeaconRaising comparable ctx cert).toBool = true) (by
    unfold Answers
    cases verifyBeaconRaising comparable ctx cert with
    | error err => simp [Except.toBool]
    | ok res => simp [Except.toBool])

/-- Three emissions at one time, 50 km and more from each other. -/
def threeBlocks (blockHex : String) :
    BeaconCertificate Nat EmissionPayload (Nat × ReceiptBody Nat EmissionPayload) where
  perBlock :=
    [demoBlock "a" 0 ⟨0, 0, 0⟩ "0a", demoBlock "b" 0 ⟨50000000000000, 0, 0⟩ blockHex,
      demoBlock "c" 0 ⟨0, 50000000000000, 0⟩ "0c"]
  beaconValueHex := "0d"

/-- With blocks of one byte the verifier answers. -/
theorem verifyBeaconRaising_answers_iff_one :
    Answers (fun _ => true) demoContext (threeBlocks "0b") := by
  refine (verifyBeaconRaising_answers_iff (by decide +kernel)).mpr fun _ => ⟨?_, fun _ => ?_⟩
  · rintro ⟨pre, b, post, -, -, rs, r, rs', -, -, -, hincomparable⟩
    exact Bool.noConfusion hincomparable
  · exact ⟨1, by decide +kernel⟩

/-- With a block of two bytes among them it raises. -/
theorem two_lengths_raise :
    HexBlocks (threeBlocks "0b0b") ∧
      ¬ Answers (fun _ => true) demoContext (threeBlocks "0b0b") := by
  constructor
  · decide +kernel
  · decide +kernel

end HorizonProtocol.Beacon
