import HorizonProtocol.Beacon.Routes

/-!
# What a beacon certificate is worth

`PASS` is a conjunction of six gates. Five of them hold what they promise on every certificate; the
pairwise gate promises that no causal route joins two contributions, and holds it unless a connected
pair was written over by another pair of the same key.

* `passes_iff` — the gates, without the order they are asked in.
* `beacon_sound_iff` — when a certificate is worth what it promises.
* `overwrittenSpacelike_of_no_bar` — always, if no id contains the separator of the keys.
-/

namespace HorizonProtocol.Beacon

open Attestation

variable {Id Hash Key Tag : Type} [DecidableEq Hash] [DecidableEq Tag]

/-! ## The gates -/

omit [DecidableEq Hash] [DecidableEq Tag] in
/-- The contribution's event commits to the block, for the same time and place. -/
structure BlockBound (ctx : BeaconContext Id Hash Key Tag) (b : BeaconBlock Id Hash Tag) : Prop where
  block : ∃ blk, fromHex b.blockHex = some blk ∧ ctx.sha256 blk = b.blockSha256
  payload : b.coneCertificate.event.payloadHash = ctx.eventHash ⟨b.emitterId, b.blockSha256⟩
  time : b.coneCertificate.event.claimedEmitTimeNs = b.tEmitNs
  place : b.coneCertificate.event.claimedEmitPosNm = b.posNm

variable {ctx : BeaconContext Id Hash Key Tag} {cert : BeaconCertificate Id Hash Tag}
  {bs : List (BeaconBlock Id Hash Tag)}

omit [DecidableEq Tag] in
theorem checkBlock_none_iff {b : BeaconBlock Id Hash Tag} :
    checkBlock ctx b = .ok none ↔ BlockBound ctx b := by
  unfold checkBlock
  split
  · next h =>
      refine iff_of_false (by simp) ?_
      rintro ⟨⟨blk, hblk, -⟩, -, -, -⟩
      cases h.symm.trans hblk
  · next blk h =>
      dsimp only
      split
      · next hsha =>
          refine iff_of_false (by simp) ?_
          rintro ⟨⟨blk', hblk', hsha'⟩, -, -, -⟩
          cases h.symm.trans hblk'
          exact hsha hsha'
      · next hsha =>
          split
          · next hpayload => exact iff_of_false (by simp) fun hb => hpayload hb.payload
          · next hpayload =>
              split
              · next hcoords =>
                  exact iff_of_false (by simp) fun hb =>
                    hcoords.elim (fun ht => ht hb.time) fun hp => hp hb.place
              · next hcoords =>
                  rw [not_or, not_not, not_not] at hcoords
                  exact iff_of_true rfl ⟨⟨blk, h, not_not.mp hsha⟩, not_not.mp hpayload,
                    hcoords.1, hcoords.2⟩

omit [DecidableEq Tag] in
theorem checkBlocks_none_iff : checkBlocks ctx bs = .ok none ↔ ∀ b ∈ bs, BlockBound ctx b := by
  induction bs with
  | nil => simp [checkBlocks]
  | cons b bs ih =>
      rw [List.forall_mem_cons, ← ih, ← checkBlock_none_iff, checkBlocks]
      split
      · next h => simp [h]
      · next h => simp [h]
      · next h => simp [h]

theorem checkCones_ok_iff (verdicts : List (String × CertVerdict)) :
    (∃ v, checkCones ctx bs verdicts = .ok v) ↔
      ∀ b ∈ bs, (verifyCertificate ctx.mac ctx.registry b.coneCertificate).verdict = .pass := by
  induction bs generalizing verdicts with
  | nil => simp [checkCones]
  | cons b bs ih =>
      rw [List.forall_mem_cons, checkCones]
      split
      · next h => exact iff_of_false (by simp) fun hall => h hall.1
      · next h => rw [ih, and_iff_right (not_not.mp h)]

omit [DecidableEq Hash] [DecidableEq Tag] in
theorem decodeBlocks_eq_ok {blocks : List (List UInt8)} :
    decodeBlocks bs = .ok blocks ↔
      List.Forall₂ (fun b blk => fromHex b.blockHex = some blk) bs blocks := by
  induction bs generalizing blocks with
  | nil =>
      rw [List.forall₂_nil_left_iff, decodeBlocks, Except.ok.injEq]
      exact eq_comm
  | cons b bs ih =>
      rw [decodeBlocks]
      split
      · next h =>
          refine iff_of_false (by simp) ?_
          rintro (_ | ⟨hblk, -⟩)
          cases h.symm.trans hblk
      · next blk h =>
          rw [List.forall₂_cons_left_iff]
          cases hrest : decodeBlocks bs with
          | error err =>
              refine iff_of_false (by simp [Except.map]) ?_
              rintro ⟨-, rest, -, htail, -⟩
              cases hrest.symm.trans (ih.mpr htail)
          | ok blks =>
              rw [Except.map, Except.ok.injEq]
              constructor
              · rintro rfl
                exact ⟨blk, blks, h, ih.mp hrest, rfl⟩
              · rintro ⟨blk', rest, hblk, htail, rfl⟩
                cases h.symm.trans hblk
                cases hrest.symm.trans (ih.mpr htail)
                rfl

omit [DecidableEq Hash] [DecidableEq Tag] in
theorem recompute_eq_ok {v : List UInt8} :
    recompute bs = .ok v ↔ ∃ blocks,
      List.Forall₂ (fun b blk => fromHex b.blockHex = some blk) bs blocks ∧
      xorBlocks blocks = .ok v := by
  unfold recompute
  split
  · next err hdec =>
      refine iff_of_false (by simp) ?_
      rintro ⟨blocks, hblocks, -⟩
      cases hdec.symm.trans (decodeBlocks_eq_ok.mpr hblocks)
  · next blocks hdec =>
      have hone : (∃ blks, List.Forall₂ (fun b blk => fromHex b.blockHex = some blk) bs blks ∧
          xorBlocks blks = .ok v) ↔ xorBlocks blocks = .ok v := by
        constructor
        · rintro ⟨blks, hblks, hv⟩
          cases hdec.symm.trans (decodeBlocks_eq_ok.mpr hblks)
          exact hv
        · exact fun hv => ⟨blocks, decodeBlocks_eq_ok.mp hdec, hv⟩
      rw [hone]
      split
      · next err hxor => simp [hxor]
      · next value hxor => simp [hxor]

/-- Every gate but the pairwise one. -/
structure OtherGates (ctx : BeaconContext Id Hash Key Tag) (cert : BeaconCertificate Id Hash Tag) :
    Prop where
  sources : minSources ≤ cert.perBlock.length
  distinct : (cert.perBlock.map fun b => b.emitterId).Nodup
  bound : ∀ b ∈ cert.perBlock, BlockBound ctx b
  cones : ∀ b ∈ cert.perBlock,
    (verifyCertificate ctx.mac ctx.registry b.coneCertificate).verdict = .pass
  value : ∃ v, recompute cert.perBlock = .ok v ∧ toHex v = cert.beaconValueHex

omit [DecidableEq Hash] [DecidableEq Tag] in
/-- The last pair of every key is spacelike. -/
def LastPairsSpacelike (cert : BeaconCertificate Id Hash Tag) : Prop :=
  ∀ x ∈ cert.perBlock, ∀ y ∈ cert.perBlock,
    LastOfKey (idsOf cert.perBlock) x.emitterId y.emitterId → Spacelike x y

/-- The verifier answers `PASS`. -/
def Passes (ctx : BeaconContext Id Hash Key Tag) (cert : BeaconCertificate Id Hash Tag) : Prop :=
  ∃ pairwise coneVerdicts value,
    verifyBeacon ctx cert = .ok (.pass pairwise coneVerdicts value)

theorem card_ids_iff {ids : List String} : ids.toFinset.card = ids.length ↔ ids.Nodup :=
  Multiset.toFinset_card_eq_card_iff_nodup

/-- The gates before the cone certificates are passed. -/
structure ConesReached (ctx : BeaconContext Id Hash Key Tag)
    (cert : BeaconCertificate Id Hash Tag) : Prop where
  sources : minSources ≤ cert.perBlock.length
  distinct : (cert.perBlock.map fun b => b.emitterId).Nodup
  bound : ∀ b ∈ cert.perBlock, BlockBound ctx b
  pairs : LastPairsSpacelike cert

/-- Past these gates the cone certificates and the value decide. -/
theorem verifyBeacon_of_reached (h : ConesReached ctx cert) :
    ∃ pairwise, verifyBeacon ctx cert =
      match checkCones ctx cert.perBlock [] with
      | .error w => .ok (.rejected w (some pairwise))
      | .ok coneVerdicts =>
          match recompute cert.perBlock with
          | .error err => .error err
          | .ok recomputed =>
              if toHex recomputed ≠ cert.beaconValueHex then
                .ok (.rejected (.beaconValue (toHex recomputed) cert.beaconValueHex) none)
              else .ok (.pass pairwise coneVerdicts (toHex recomputed)) := by
  obtain ⟨w, hpairwise, hw⟩ := pairwise_of_distinct h.distinct
  have hlast := (pairwise_spacelike_iff hw).mpr h.pairs
  have hnone : (Dict.ofPairs ((pairs (idsOf cert.perBlock)).map fun p =>
      (pairKey p.1 p.2, w p))).find? (fun p => !p.2.spacelike) = none := by
    rw [List.find?_eq_none]
    intro p hp
    simp [hlast p hp]
  refine ⟨Dict.ofPairs ((pairs (idsOf cert.perBlock)).map fun p => (pairKey p.1 p.2, w p)), ?_⟩
  unfold verifyBeacon
  dsimp only
  rw [if_neg (not_lt.mpr h.sources), if_neg (not_not.mpr (card_ids_iff.mpr h.distinct)),
    checkBlocks_none_iff.mpr h.bound, hpairwise]
  dsimp only
  rewrite [hnone]
  rfl

/-- Before that, the verifier refuses, or a block is not hexadecimal. -/
theorem verifyBeacon_of_not_reached (h : ¬ ConesReached ctx cert) :
    (∃ w pairwise?, verifyBeacon ctx cert = .ok (.rejected w pairwise?)) ∨
      ∃ err, checkBlocks ctx cert.perBlock = .error err ∧ verifyBeacon ctx cert = .error err := by
  unfold verifyBeacon
  dsimp only
  split
  · exact Or.inl ⟨_, _, rfl⟩
  · next hlen =>
      split
      · exact Or.inl ⟨_, _, rfl⟩
      · next hdup =>
          have hdistinct := card_ids_iff.mp (not_not.mp hdup)
          split
          · next err hblocks => exact Or.inr ⟨err, hblocks, rfl⟩
          · exact Or.inl ⟨_, _, rfl⟩
          · next hblocks =>
              obtain ⟨w, hpairwise, hw⟩ := pairwise_of_distinct hdistinct
              rw [hpairwise]
              dsimp only
              split
              · exact Or.inl ⟨_, _, rfl⟩
              · next hnone =>
                  have hpairs : LastPairsSpacelike cert := by
                    apply (pairwise_spacelike_iff hw).mp
                    simpa using List.find?_eq_none.mp hnone
                  exact absurd ⟨not_lt.mp hlen, hdistinct, checkBlocks_none_iff.mp hblocks, hpairs⟩ h

/-- **What `PASS` means.** -/
theorem passes_iff : Passes ctx cert ↔ OtherGates ctx cert ∧ LastPairsSpacelike cert := by
  by_cases hreached : ConesReached ctx cert
  · obtain ⟨pairwise, hverify⟩ := verifyBeacon_of_reached hreached
    unfold Passes
    rw [hverify]
    split
    · next wit hcones =>
        refine iff_of_false (by simp) fun h => ?_
        obtain ⟨v, hv⟩ := (checkCones_ok_iff []).mpr h.1.cones
        cases hcones.symm.trans hv
    · next verdicts hcones =>
        have hpass := (checkCones_ok_iff []).mp ⟨verdicts, hcones⟩
        split
        · next err hvalue =>
            refine iff_of_false (by simp) fun h => ?_
            obtain ⟨v, hv, -⟩ := h.1.value
            cases hvalue.symm.trans hv
        · next v hvalue =>
            split
            · next hne =>
                refine iff_of_false (by simp) fun h => ?_
                obtain ⟨v', hv', hhex⟩ := h.1.value
                cases hvalue.symm.trans hv'
                exact hne hhex
            · next heq =>
                refine iff_of_true ⟨_, _, _, rfl⟩ ⟨?_, hreached.pairs⟩
                exact ⟨hreached.sources, hreached.distinct, hreached.bound, hpass, v, hvalue,
                  not_not.mp heq⟩
  · refine iff_of_false ?_ fun h => hreached ⟨h.1.sources, h.1.distinct, h.1.bound, h.2⟩
    rintro ⟨pairwise, coneVerdicts, value, hpass⟩
    rcases verifyBeacon_of_not_reached hreached with ⟨w, pairwise?, hw⟩ | ⟨err, -, herr⟩
    · cases hw.symm.trans hpass
    · cases herr.symm.trans hpass

/-! ## Routes -/

omit [DecidableEq Hash] [DecidableEq Tag] in
/-- A chain of steps inside the light cone, through any events of spacetime. -/
def Route (x y : BeaconBlock Id Hash Tag) : Prop :=
  Relation.ReflTransGen (LightCone.Reaches (cNmPerNs : ℝ)) (toSpacetime x.tEmitNs x.posNm)
    (toSpacetime y.tEmitNs y.posNm)

omit [DecidableEq Hash] [DecidableEq Tag] in
/-- There is a route exactly when light goes straight. -/
theorem route_iff {x y : BeaconBlock Id Hash Tag} :
    Route x y ↔ causallyAdmissible x.tEmitNs x.posNm y.tEmitNs y.posNm = true := by
  rw [causallyAdmissible_iff_reaches]
  exact ⟨LightCone.Reaches.of_chain, Relation.ReflTransGen.single⟩

omit [DecidableEq Hash] [DecidableEq Tag] in
theorem spacelike_iff_no_route {x y : BeaconBlock Id Hash Tag} :
    Spacelike x y ↔ ¬ Route x y ∧ ¬ Route y x := by
  rw [route_iff, route_iff]
  rfl

/-- What a `PASS` should be worth. -/
structure Worth (ctx : BeaconContext Id Hash Key Tag) (cert : BeaconCertificate Id Hash Tag) :
    Prop where
  sources : 3 ≤ cert.perBlock.length
  distinct : (cert.perBlock.map fun b => b.emitterId).Nodup
  value : ∃ blocks v,
    List.Forall₂ (fun b blk => fromHex b.blockHex = some blk) cert.perBlock blocks ∧
    (∀ blk ∈ blocks, blk.length = v.length) ∧ (∀ i < v.length, v.getD i 0 = xorAt blocks i) ∧
    toHex v = cert.beaconValueHex
  bound : ∀ b ∈ cert.perBlock, BlockBound ctx b
  cones : ∀ b ∈ cert.perBlock,
    (verifyCertificate ctx.mac ctx.registry b.coneCertificate).verdict = .pass
  noRoute : ∀ x ∈ cert.perBlock, ∀ y ∈ cert.perBlock, x.emitterId ≠ y.emitterId → ¬ Route x y

/-- What is promised of a certificate: a `PASS` is worth that, and a refusal at the pairwise gate
names a pair of contributions and a direction that is admissible. -/
structure Sound (ctx : BeaconContext Id Hash Key Tag) (cert : BeaconCertificate Id Hash Tag) :
    Prop where
  pass : Passes ctx cert → Worth ctx cert
  refusal : ∀ pair dir w pairwise?,
    verifyBeacon ctx cert = .ok (.rejected (.pairwiseSpacelike pair dir w) pairwise?) →
    ∃ x ∈ cert.perBlock, ∃ y ∈ cert.perBlock, pair = pairKey x.emitterId y.emitterId ∧
      match dir with
      | .forward => w = admissibilityWitness x.tEmitNs x.posNm y.tEmitNs y.posNm ∧
          causallyAdmissible x.tEmitNs x.posNm y.tEmitNs y.posNm = true
      | .backward => w = admissibilityWitness y.tEmitNs y.posNm x.tEmitNs x.posNm ∧
          causallyAdmissible y.tEmitNs y.posNm x.tEmitNs x.posNm = true

omit [DecidableEq Hash] [DecidableEq Tag] in
/-- Every pair that was written over is spacelike. None of them is ever read. -/
def OverwrittenSpacelike (cert : BeaconCertificate Id Hash Tag) : Prop :=
  ∀ x ∈ cert.perBlock, ∀ y ∈ cert.perBlock,
    Overwritten (idsOf cert.perBlock) x.emitterId y.emitterId → Spacelike x y

omit [DecidableEq Hash] [DecidableEq Tag] in
/-- The pairs that are read and those that were written over are all pairs. -/
theorem spacelike_of_pairs (hlast : LastPairsSpacelike cert) (hover : OverwrittenSpacelike cert)
    {x y : BeaconBlock Id Hash Tag} (hx : x ∈ cert.perBlock) (hy : y ∈ cert.perBlock)
    (hne : x.emitterId ≠ y.emitterId) : Spacelike x y := by
  have hpair : ∀ {x y}, x ∈ cert.perBlock → y ∈ cert.perBlock →
      (x.emitterId, y.emitterId) ∈ pairs (idsOf cert.perBlock) → Spacelike x y := by
    intro x y hx hy h
    rcases lastOfKey_or_overwritten h with h | h
    · exact hlast x hx y hy h
    · exact hover x hx y hy h
  rcases mem_pairs_or (mem_idsOf.mpr ⟨x, hx, rfl⟩) (mem_idsOf.mpr ⟨y, hy, rfl⟩) hne with h | h
  · exact hpair hx hy h
  · exact (hpair hy hx h).symm

omit [DecidableEq Tag] in
/-- The binding gate refuses in its own name. -/
theorem checkBlocks_ne_pairwise {pair : String} {dir : Direction} {w : AdmissibilityWitness} :
    checkBlocks ctx bs ≠ .ok (some (.pairwiseSpacelike pair dir w)) := by
  have hone : ∀ b : BeaconBlock Id Hash Tag,
      checkBlock ctx b ≠ .ok (some (.pairwiseSpacelike pair dir w)) := by
    intro b h
    unfold checkBlock at h
    split at h
    · cases h
    · grind
  induction bs with
  | nil => simp [checkBlocks]
  | cons b bs ih =>
      rw [checkBlocks]
      split
      · simp
      · next w' hw' =>
          intro h
          cases h
          exact hone b hw'
      · exact ih

/-- So does the gate of the cone certificates. -/
theorem checkCones_ne_pairwise {pair : String} {dir : Direction} {w : AdmissibilityWitness}
    (verdicts : List (String × CertVerdict)) :
    checkCones ctx bs verdicts ≠ .error (.pairwiseSpacelike pair dir w) := by
  induction bs generalizing verdicts with
  | nil => simp [checkCones]
  | cons b bs ih =>
      rw [checkCones]
      split
      · simp
      · exact ih _

/-- A refusal at the pairwise gate names what it found. -/
theorem refusal_sound {pair : String} {dir : Direction} {w : AdmissibilityWitness}
    {pairwise? : Option (List (String × PairWitness))}
    (h : verifyBeacon ctx cert = .ok (.rejected (.pairwiseSpacelike pair dir w) pairwise?)) :
    ∃ x ∈ cert.perBlock, ∃ y ∈ cert.perBlock, pair = pairKey x.emitterId y.emitterId ∧
      w = (blockWitness x y).towards dir ∧ w.admissible = true := by
  unfold verifyBeacon at h
  dsimp only at h
  split at h
  · cases h
  · split at h
    · cases h
    · next hdup =>
        obtain ⟨pw, hpairwise, hw⟩ := pairwise_of_distinct (card_ids_iff.mp (not_not.mp hdup))
        split at h
        · cases h
        · next wit hblocks =>
            cases h
            exact absurd hblocks checkBlocks_ne_pairwise
        · rw [hpairwise] at h
          dsimp only at h
          split at h
          · next key v hfind =>
              obtain ⟨x, hx, y, hy, -, hkey, rfl⟩ :=
                (mem_pairwise_iff hw).mp (List.mem_of_find?_eq_some hfind)
              have hrefused : (blockWitness x y).spacelike = false := by
                simpa using List.find?_some hfind
              cases h
              exact ⟨x, hx, y, hy, hkey, rfl, blockWitness_direction hrefused⟩
          · split at h
            · next wit hcones =>
                cases h
                exact absurd hcones (checkCones_ne_pairwise _)
            · split at h
              · cases h
              · split at h
                · cases h
                · cases h

/-- **When a certificate is worth what it promises.** Exactly when it fails another gate, or a pair
that is read is connected, or no pair that was written over is. -/
theorem beacon_sound_iff :
    Sound ctx cert ↔
      (OtherGates ctx cert → LastPairsSpacelike cert → OverwrittenSpacelike cert) := by
  constructor
  · intro h hother hlast x hx y hy hover
    have hworth := h.pass (passes_iff.mpr ⟨hother, hlast⟩)
    have hne : x.emitterId ≠ y.emitterId := by
      obtain ⟨l₁, l₂, heq, -⟩ := hover
      exact ne_of_mem_pairs (nodup_idsOf hother.distinct) (heq ▸ by simp)
    rw [spacelike_iff_no_route]
    exact ⟨hworth.noRoute x hx y hy hne, hworth.noRoute y hy x hx hne.symm⟩
  · intro h
    refine ⟨fun hpass => ?_, ?_⟩
    · obtain ⟨hother, hlast⟩ := passes_iff.mp hpass
      have hover := h hother hlast
      obtain ⟨v, hv, hhex⟩ := hother.value
      obtain ⟨blocks, hblocks, hxor⟩ := recompute_eq_ok.mp hv
      obtain ⟨hlen, hat⟩ := xorBlocks_spec hxor
      refine ⟨hother.sources, hother.distinct, ⟨blocks, v, hblocks, hlen, hat, hhex⟩, hother.bound,
        hother.cones, ?_⟩
      intro x hx y hy hne
      exact (spacelike_iff_no_route.mp
        (spacelike_of_pairs hlast hover hx hy hne)).1
    · intro pair dir w pairwise? hrefused
      obtain ⟨x, hx, y, hy, hpair, hw, hadm⟩ := refusal_sound hrefused
      refine ⟨x, hx, y, hy, hpair, ?_⟩
      cases dir with
      | forward =>
          subst hw
          exact ⟨rfl, hadm⟩
      | backward =>
          subst hw
          exact ⟨rfl, hadm⟩

/-- Ids that do not contain the separator of the keys need no condition: no pair is written over. -/
theorem overwrittenSpacelike_of_no_bar (hother : OtherGates ctx cert)
    (hbar : ∀ b ∈ cert.perBlock, '|' ∉ b.emitterId.toList) : OverwrittenSpacelike cert := by
  intro x _ y _ hover
  refine absurd hover (not_overwritten (nodup_idsOf hother.distinct) fun a ha => ?_)
  obtain ⟨b, hb, rfl⟩ := mem_idsOf.mp ha
  exact hbar b hb

/-! ## A hidden pair -/

/-- Whether the verifier answers `PASS`. -/
def answersPass (ctx : BeaconContext Id Hash Key Tag) (cert : BeaconCertificate Id Hash Tag) : Bool :=
  match verifyBeacon ctx cert with
  | .ok (.pass _ _ _) => true
  | _ => false

instance : Decidable (Passes ctx cert) :=
  decidable_of_iff (answersPass ctx cert = true) (by
    unfold answersPass Passes
    split
    · next pairwise verdicts value h => simp [h]
    · next hnot => simpa using fun pairwise verdicts value h => hnot pairwise verdicts value h)

/-- One station at the origin, tags that show key and text, and digests that show their text. -/
def demoStation : Station Nat Nat := ⟨1, ⟨0, 0, 0⟩, 5⟩

def demoContext : BeaconContext Nat EmissionPayload Nat (Nat × ReceiptBody Nat EmissionPayload) where
  sha256 := toHex
  eventHash := id
  mac key body := (key, body)
  registry stationId := if stationId = 1 then some demoStation else none

/-- A block that the station received a millisecond after the origin of time. -/
def demoBlock (emitterId : String) (tEmitNs : Int) (posNm : Pos) (blockHex : String) :
    BeaconBlock Nat EmissionPayload (Nat × ReceiptBody Nat EmissionPayload) where
  emitterId := emitterId
  posNm := posNm
  tEmitNs := tEmitNs
  blockHex := blockHex
  blockSha256 := blockHex
  coneCertificate :=
    { event := ⟨⟨emitterId, blockHex⟩, tEmitNs, posNm⟩
      receipts := [demoStation.signReceipt demoContext.mac ⟨emitterId, blockHex⟩ 1000000] }

/-- The second block is emitted where the first is, a nanosecond later. The other two are 50 km off,
and their pair has the key of that pair. -/
def hiddenPair : BeaconCertificate Nat EmissionPayload (Nat × ReceiptBody Nat EmissionPayload) where
  perBlock :=
    [demoBlock "a" 0 ⟨0, 0, 0⟩ "0a", demoBlock "b|c" 1 ⟨0, 0, 0⟩ "0b",
      demoBlock "a|b" 0 ⟨50000000000000, 0, 0⟩ "0c", demoBlock "c" 0 ⟨0, 50000000000000, 0⟩ "0d"]
  beaconValueHex := "00"

/-- A connected pair that was written over passes. -/
theorem hidden_pair_passes :
    ¬ Sound demoContext hiddenPair ∧ Passes demoContext hiddenPair ∧
    ∃ x ∈ hiddenPair.perBlock, ∃ y ∈ hiddenPair.perBlock, x.emitterId ≠ y.emitterId ∧
      Route x y := by
  have hpass : Passes demoContext hiddenPair := by decide +kernel
  have hroute : Route (demoBlock "a" 0 ⟨0, 0, 0⟩ "0a") (demoBlock "b|c" 1 ⟨0, 0, 0⟩ "0b") := by
    rw [route_iff]
    decide
  refine ⟨fun h => ?_, hpass, _, List.mem_cons_self, _,
    List.mem_cons_of_mem _ List.mem_cons_self, by decide, hroute⟩
  exact (h.pass hpass).noRoute _ List.mem_cons_self _ (List.mem_cons_of_mem _ List.mem_cons_self)
    (by decide) hroute

end HorizonProtocol.Beacon
