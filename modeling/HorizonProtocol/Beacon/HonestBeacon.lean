import HorizonProtocol.Attestation.Broadcast
import HorizonProtocol.Beacon.Soundness

/-!
# The beacon of an honest world

`build_beacon_certificate` of `horizon/beacon.py` and `horizon/beacon_sim.py`: each emitter derives
a block, emits its hash, and the stations of a registry answer as light lets them. The certificate
is built from what they send, and the verifier is asked.

* `honest_beacon_passes_iff` — when the certificate of some emissions is built and passes.
* `full_beacon_passes_iff` — emitters at one time need to be three, and at different places.
-/

namespace HorizonProtocol.Beacon

open Attestation

/-! ## Hexadecimal text -/

theorem hexDigit_read {n : Nat} (h : n < 16) :
    isSpace (hexDigit n) = false ∧ hexDigit? (hexDigit n) = some n := by
  have hall : ∀ n < 16, isSpace (hexDigit n) = false ∧ hexDigit? (hexDigit n) = some n := by
    decide
  exact hall n h

/-- What `bytes.hex` writes, `bytes.fromhex` reads. -/
@[simp] theorem fromHex_toHex (bytes : List UInt8) : fromHex (toHex bytes) = some bytes := by
  rw [fromHex, toHex, String.toList_ofList]
  induction bytes with
  | nil => rfl
  | cons b bytes ih =>
      have hlt := b.toNat_lt
      obtain ⟨hspace, hhigh⟩ := hexDigit_read (show b.toNat / 16 < 16 by omega)
      obtain ⟨-, hlow⟩ := hexDigit_read (show b.toNat % 16 < 16 by omega)
      rw [List.flatMap_cons, List.cons_append, List.cons_append, List.nil_append, fromHexChars,
        hspace, hhigh, hlow]
      simp only [Bool.false_eq_true, if_false, ih, Option.map_some, Nat.div_add_mod,
        UInt8.ofNat_toNat]

/-! ## The builder -/

/-- An entry from which a certificate is built. -/
structure EmissionEntry (Id Hash Tag : Type) where
  emitterId : String
  posNm : Pos
  tEmitNs : Int
  blockHex : String
  coneCertificate : ConeCertificate Id Hash Tag

variable {Id Hash Key Tag : Type}

/-- The loop over the entries: what goes into `per_block`, and the blocks. -/
def contributions (sha256 : List UInt8 → String) :
    List (EmissionEntry Id Hash Tag) →
      Except BeaconError (List (BeaconBlock Id Hash Tag) × List (List UInt8))
  | [] => .ok ([], [])
  | e :: es =>
      match fromHex e.blockHex with
      | none => .error (.notHex e.emitterId)
      | some blk =>
          match contributions sha256 es with
          | .error err => .error err
          | .ok (perBlock, blocks) =>
              .ok ({ emitterId := e.emitterId, posNm := e.posNm, tEmitNs := e.tEmitNs
                     blockHex := e.blockHex, blockSha256 := sha256 blk
                     coneCertificate := e.coneCertificate } :: perBlock, blk :: blocks)

def buildBeaconCertificate (sha256 : List UInt8 → String)
    (entries : List (EmissionEntry Id Hash Tag)) :
    Except BeaconError (BeaconCertificate Id Hash Tag) :=
  match contributions sha256 entries with
  | .error err => .error err
  | .ok (perBlock, blocks) =>
      match xorBlocks blocks with
      | .error err => .error (.xor err)
      | .ok value => .ok { perBlock, beaconValueHex := toHex value }

/-! ## The honest world -/

/-- An emitter's block, and where and when it is emitted. -/
structure Emission where
  emitterId : String
  posNm : Pos
  tEmitNs : Int
  block : List UInt8

/-- The hashes of the world, and how the key of a station is derived from its id. -/
structure BeaconWorld (Hash Key Tag : Type) where
  sha256 : List UInt8 → String
  eventHash : EmissionPayload → Hash
  mac : Key → ReceiptBody String Hash → Tag
  demoKey : String → Key

namespace BeaconWorld

/-- The verifier's context, with these stations in its registry. -/
def context (w : BeaconWorld Hash Key Tag) (d : StationDict String Key) :
    BeaconContext String Hash Key Tag where
  sha256 := w.sha256
  eventHash := w.eventHash
  mac := w.mac
  registry := d.registry

variable (w : BeaconWorld Hash Key Tag) (d : StationDict String Key)

def emissionEvent (e : Emission) : EmissionEvent Hash :=
  makeEvent w.eventHash ⟨e.emitterId, w.sha256 e.block⟩ e.tEmitNs e.posNm

def buildEmissionEntry (e : Emission) : EmissionEntry String Hash Tag :=
  let event := w.emissionEvent e
  let receipts := broadcast w.mac event d
  { emitterId := e.emitterId, posNm := e.posNm, tEmitNs := e.tEmitNs, blockHex := toHex e.block
    coneCertificate := buildConeCertificate event receipts }

/-- The certificate of these emissions. -/
def buildBeacon (emissions : List Emission) :
    Except BeaconError (BeaconCertificate String Hash Tag) :=
  buildBeaconCertificate w.sha256 (emissions.map (w.buildEmissionEntry d))

/-- The block that is certified for an emission. -/
def contribution (e : Emission) : BeaconBlock String Hash Tag where
  emitterId := e.emitterId
  posNm := e.posNm
  tEmitNs := e.tEmitNs
  blockHex := toHex e.block
  blockSha256 := w.sha256 e.block
  coneCertificate := (w.buildEmissionEntry d e).coneCertificate

variable {w d}

theorem contributions_honest (emissions : List Emission) :
    contributions w.sha256 (emissions.map (w.buildEmissionEntry d)) =
      .ok (emissions.map (w.contribution d), emissions.map Emission.block) := by
  induction emissions with
  | nil => rfl
  | cons e es ih =>
      rw [List.map_cons, contributions, ih]
      show (match fromHex (toHex e.block) with
        | none => _
        | some blk => _) = _
      rw [fromHex_toHex]
      rfl

/-- What is built is the certificate of the contributions. -/
theorem buildBeacon_eq_ok {emissions : List Emission} {cert : BeaconCertificate String Hash Tag} :
    w.buildBeacon d emissions = .ok cert ↔
      ∃ v, xorBlocks (emissions.map Emission.block) = .ok v ∧
        cert = { perBlock := emissions.map (w.contribution d), beaconValueHex := toHex v } := by
  rw [buildBeacon, buildBeaconCertificate, contributions_honest]
  dsimp only
  split
  · next err h => simp [h]
  · next v h => simp [h, eq_comm]

theorem decode_contributions (emissions : List Emission) :
    List.Forall₂ (fun b blk => fromHex b.blockHex = some blk) (emissions.map (w.contribution d))
      (emissions.map Emission.block) := by
  rw [List.forall₂_map_left_iff, List.forall₂_map_right_iff, List.forall₂_same]
  intro e _
  exact fromHex_toHex e.block

theorem contribution_bound (e : Emission) : BlockBound (w.context d) (w.contribution d e) where
  block := ⟨e.block, fromHex_toHex e.block, rfl⟩
  payload := rfl
  time := rfl
  place := rfl

end BeaconWorld

/-- Neither emission is in the light cone of the other. -/
def Emission.Apart (x y : Emission) : Prop :=
  ¬ causallyAdmissible x.tEmitNs x.posNm y.tEmitNs y.posNm = true ∧
  ¬ causallyAdmissible y.tEmitNs y.posNm x.tEmitNs x.posNm = true

instance {x y : Emission} : Decidable (x.Apart y) := inferInstanceAs (Decidable (_ ∧ _))

/-- The ids of the emissions, sorted. -/
def emissionIds (emissions : List Emission) : List String :=
  (emissions.map Emission.emitterId).insertionSort (· ≤ ·)

section Passes

variable [DecidableEq Hash] [DecidableEq Tag]

theorem otherGates_honest_iff {w : BeaconWorld Hash Key Tag} {specs : List (StationSpec String)}
    {emissions : List Emission} {v : List UInt8}
    (hv : xorBlocks (emissions.map Emission.block) = .ok v) :
    OtherGates (w.context (demoRegistry w.demoKey specs))
        { perBlock := emissions.map (w.contribution (demoRegistry w.demoKey specs))
          beaconValueHex := toHex v } ↔
      3 ≤ emissions.length ∧ (emissions.map Emission.emitterId).Nodup ∧ specs ≠ [] ∧
        ∀ e ∈ demoRegistry w.demoKey specs, 0 ≤ e.2.procDelayNs := by
  have hcone : ∀ e : Emission, (verifyCertificate (w.context (demoRegistry w.demoKey specs)).mac
      (w.context (demoRegistry w.demoKey specs)).registry
      (w.contribution (demoRegistry w.demoKey specs) e).coneCertificate).verdict = .pass ↔
      specs ≠ [] ∧ ∀ e ∈ demoRegistry w.demoKey specs, 0 ≤ e.2.procDelayNs :=
    fun e => broadcast_passes_iff w.demoKey specs (w.emissionEvent e)
  have hids : (emissions.map (w.contribution (demoRegistry w.demoKey specs))).map
      (fun b => b.emitterId) = emissions.map Emission.emitterId := by
    rw [List.map_map]
    rfl
  constructor
  · intro h
    have hlen : 3 ≤ emissions.length := by
      have hsources := h.sources
      rw [List.length_map] at hsources
      exact hsources
    obtain ⟨e, he⟩ := List.exists_mem_of_length_pos (by omega : 0 < emissions.length)
    refine ⟨hlen, hids ▸ h.distinct, ?_⟩
    exact (hcone e).mp (h.cones _ (List.mem_map_of_mem he))
  · rintro ⟨hlen, hnodup, hprompt⟩
    refine ⟨?_, ?_, ?_, ?_, v, ?_, rfl⟩
    · rw [List.length_map]
      exact hlen
    · rw [hids]
      exact hnodup
    · rw [List.forall_mem_map]
      exact fun e _ => w.contribution_bound e
    · rw [List.forall_mem_map]
      exact fun e _ => (hcone e).mpr hprompt
    · exact recompute_eq_ok.mpr ⟨_, w.decode_contributions emissions, hv⟩

omit [DecidableEq Hash] [DecidableEq Tag] in
theorem lastPairs_honest_iff {w : BeaconWorld Hash Key Tag} {d : StationDict String Key}
    {emissions : List Emission} {value : String} :
    LastPairsSpacelike
        { perBlock := emissions.map (w.contribution d), beaconValueHex := value } ↔
      ∀ x ∈ emissions, ∀ y ∈ emissions,
        LastOfKey (emissionIds emissions) x.emitterId y.emitterId → x.Apart y := by
  have hids : idsOf (emissions.map (w.contribution d)) = emissionIds emissions := by
    rw [idsOf, List.map_map]
    rfl
  rw [LastPairsSpacelike, hids]
  simp only [List.forall_mem_map]
  rfl

/-- A certificate is built of blocks of one length, and it passes when it has three sources of
distinct ids, the stations are prompt, and the pairs that are read are apart. -/
theorem buildBeacon_passes_iff (w : BeaconWorld Hash Key Tag) (specs : List (StationSpec String))
    (emissions : List Emission) :
    (∃ cert, w.buildBeacon (demoRegistry w.demoKey specs) emissions = .ok cert ∧
        Passes (w.context (demoRegistry w.demoKey specs)) cert) ↔
      (∃ n, ∀ e ∈ emissions, e.block.length = n) ∧
      (3 ≤ emissions.length ∧ (emissions.map Emission.emitterId).Nodup ∧ specs ≠ [] ∧
        ∀ e ∈ demoRegistry w.demoKey specs, 0 ≤ e.2.procDelayNs) ∧
      ∀ x ∈ emissions, ∀ y ∈ emissions,
        LastOfKey (emissionIds emissions) x.emitterId y.emitterId → x.Apart y := by
  have hlength : emissions ≠ [] → ((∃ v, xorBlocks (emissions.map Emission.block) = .ok v) ↔
      ∃ n, ∀ e ∈ emissions, e.block.length = n) := by
    intro hne
    rw [xorBlocks_ok_iff (by simpa using hne)]
    simp only [List.forall_mem_map]
  constructor
  · rintro ⟨cert, hbuild, hpass⟩
    obtain ⟨v, hv, rfl⟩ := BeaconWorld.buildBeacon_eq_ok.mp hbuild
    rw [passes_iff, otherGates_honest_iff hv, lastPairs_honest_iff] at hpass
    refine ⟨(hlength ?_).mp ⟨v, hv⟩, hpass⟩
    rintro rfl
    cases hv
  · rintro ⟨hblocks, hgates, hpairs⟩
    obtain ⟨v, hv⟩ := (hlength (by rintro rfl; simp at hgates)).mpr hblocks
    refine ⟨_, BeaconWorld.buildBeacon_eq_ok.mpr ⟨v, hv, rfl⟩, ?_⟩
    rw [passes_iff, otherGates_honest_iff hv, lastPairs_honest_iff]
    exact ⟨hgates, hpairs⟩

omit [DecidableEq Hash] [DecidableEq Tag] in
/-- Where no id contains the separator of the keys, all pairs are read. -/
theorem lastPairs_iff_of_no_bar {emissions : List Emission}
    (hids : (emissions.map Emission.emitterId).Nodup)
    (hbar : ∀ e ∈ emissions, '|' ∉ e.emitterId.toList) :
    (∀ x ∈ emissions, ∀ y ∈ emissions,
      LastOfKey (emissionIds emissions) x.emitterId y.emitterId → x.Apart y) ↔
      ∀ x ∈ emissions, ∀ y ∈ emissions, x.emitterId ≠ y.emitterId → x.Apart y := by
  have hmem : ∀ a, a ∈ emissionIds emissions ↔ ∃ e ∈ emissions, e.emitterId = a := by
    simp [emissionIds]
  have hnodup : (emissionIds emissions).Nodup :=
    (List.perm_insertionSort _ _).nodup_iff.mpr hids
  have hbars : ∀ a ∈ emissionIds emissions, '|' ∉ a.toList := by
    intro a ha
    obtain ⟨e, he, rfl⟩ := (hmem a).mp ha
    exact hbar e he
  have hlast : ∀ {a b}, (a, b) ∈ pairs (emissionIds emissions) →
      LastOfKey (emissionIds emissions) a b :=
    fun h => (lastOfKey_or_overwritten h).resolve_right (not_overwritten hnodup hbars)
  constructor
  · intro h x hx y hy hne
    rcases mem_pairs_or ((hmem _).mpr ⟨x, hx, rfl⟩) ((hmem _).mpr ⟨y, hy, rfl⟩) hne with hp | hp
    · exact h x hx y hy (hlast hp)
    · exact (h y hy x hx (hlast hp)).symm
  · rintro h x hx y hy ⟨l₁, l₂, heq, -⟩
    refine h x hx y hy (ne_of_mem_pairs hnodup ?_)
    rw [heq]
    simp

/-- **When an honest beacon passes.** Ids without the separator of the keys: a certificate is built
of blocks of one length, and passes when there are three sources of distinct ids, the registry has a
station in it, no station answers before light is there, and no light goes from one emission to
another. -/
theorem honest_beacon_passes_iff (w : BeaconWorld Hash Key Tag) (specs : List (StationSpec String))
    (emissions : List Emission) (hbar : ∀ e ∈ emissions, '|' ∉ e.emitterId.toList) :
    (∃ cert, w.buildBeacon (demoRegistry w.demoKey specs) emissions = .ok cert ∧
        Passes (w.context (demoRegistry w.demoKey specs)) cert) ↔
      (∃ n, ∀ e ∈ emissions, e.block.length = n) ∧ 3 ≤ emissions.length ∧
      (emissions.map Emission.emitterId).Nodup ∧ specs ≠ [] ∧
      (∀ e ∈ demoRegistry w.demoKey specs, 0 ≤ e.2.procDelayNs) ∧
      ∀ x ∈ emissions, ∀ y ∈ emissions, x.emitterId ≠ y.emitterId → x.Apart y := by
  rw [buildBeacon_passes_iff]
  constructor
  · rintro ⟨hblocks, ⟨hlen, hids, hspecs, hprompt⟩, hpairs⟩
    exact ⟨hblocks, hlen, hids, hspecs, hprompt, (lastPairs_iff_of_no_bar hids hbar).mp hpairs⟩
  · rintro ⟨hblocks, hlen, hids, hspecs, hprompt, hpairs⟩
    exact ⟨hblocks, ⟨hlen, hids, hspecs, hprompt⟩, (lastPairs_iff_of_no_bar hids hbar).mpr hpairs⟩

/-- A world that hides nothing. -/
def openWorld :
    BeaconWorld EmissionPayload String (String × ReceiptBody String EmissionPayload) where
  sha256 := toHex
  eventHash := id
  mac := fun key body => (key, body)
  demoKey := id

/-- Three emissions within 2 ns, 50 km apart. -/
def threeEmissions : List Emission :=
  [⟨"E1", ⟨0, 0, 0⟩, 0, [1]⟩, ⟨"E2", ⟨50000000000000, 0, 0⟩, 1, [2]⟩,
    ⟨"E3", ⟨0, 50000000000000, 0⟩, 2, [3]⟩]

theorem honest_beacon_passes_iff_three :
    ∃ cert,
      openWorld.buildBeacon (demoRegistry openWorld.demoKey [⟨"STN", ⟨0, 0, 0⟩, 3⟩])
        threeEmissions = .ok cert ∧
      Passes (openWorld.context (demoRegistry openWorld.demoKey [⟨"STN", ⟨0, 0, 0⟩, 3⟩])) cert :=
  (honest_beacon_passes_iff openWorld _ threeEmissions (by decide)).mpr
    ⟨⟨1, by decide⟩, by decide, by decide, by decide, by decide, by decide⟩

end Passes

/-! ## The full beacon -/

/-- `{emitter_id: pos_nm}`. -/
structure Emitters where
  entries : List (String × Pos)
  nodup : (entries.map Prod.fst).Nodup

/-- `EMITTERS`, 50 km from each other and more. -/
def frozenEmitters : Emitters where
  entries := [("E1", ⟨0, 0, 0⟩), ("E2", ⟨50000000000000, 0, 0⟩), ("E3", ⟨0, 50000000000000, 0⟩)]
  nodup := by decide

/-- `BLOCK_LEN`. -/
def blockLen : Nat := 32

/-- `_STATION_OFFSETS`: three stations near an emitter, and their delays. -/
def stationOffsets : List (Pos × Int) :=
  [(⟨100000000000, 0, 0⟩, 3), (⟨0, 100000000000, 0⟩, 4), (⟨0, 0, 100000000000⟩, 5)]

/-- `sorted(emitters)`, with the places. -/
def Emitters.sorted (emitters : Emitters) : List (String × Pos) :=
  emitters.entries.insertionSort fun a b => a.1 ≤ b.1

def stationSpecs (emitters : Emitters) : List (StationSpec String) :=
  emitters.sorted.flatMap fun (eid, pos) =>
    stationOffsets.zipIdx.map fun ((off, delay), i) =>
      { stationId := "STN-" ++ eid ++ "-" ++ toString i
        posNm := ⟨pos.x + off.x, pos.y + off.y, pos.z + off.z⟩
        procDelayNs := delay }

/-- `SHA-256(seed || emitter_id)`. -/
def deriveBlock (digest : String → Vector UInt8 32) (seed emitterId : String) : List UInt8 :=
  (digest (seed ++ "||" ++ emitterId)).toList.take blockLen

/-- What an emitter emits at a time. -/
def emissionAt (digest : String → Vector UInt8 32) (seed : String) (tEmitNs : Int)
    (e : String × Pos) : Emission where
  emitterId := e.1
  posNm := e.2
  tEmitNs := tEmitNs
  block := deriveBlock digest seed e.1

def BeaconWorld.buildFullBeacon (w : BeaconWorld Hash Key Tag) (digest : String → Vector UInt8 32)
    (seed : String) (emitters : Emitters) (tEmitNs : Int) :
    Except BeaconError (BeaconCertificate String Hash Tag × StationDict String Key) :=
  let registry := demoRegistry w.demoKey (stationSpecs emitters)
  let entries := emitters.sorted.map fun e =>
    w.buildEmissionEntry registry (emissionAt digest seed tEmitNs e)
  (buildBeaconCertificate w.sha256 entries).map fun cert => (cert, registry)

section Full

variable {emitters : Emitters} {e : String × Pos}

theorem Emitters.sorted_perm : emitters.sorted.Perm emitters.entries :=
  List.perm_insertionSort _ _

theorem prompt_stationSpecs (demoKey : String → Key) (emitters : Emitters) :
    ∀ e ∈ demoRegistry demoKey (stationSpecs emitters), 0 ≤ e.2.procDelayNs := by
  intro e he
  obtain ⟨spec, hspec, rfl⟩ := of_mem_demoRegistry he
  obtain ⟨⟨eid, pos⟩, -, hspec⟩ := List.mem_flatMap.mp hspec
  obtain ⟨⟨⟨off, delay⟩, i⟩, hoff, rfl⟩ := List.mem_map.mp hspec
  have hdelays : ∀ o ∈ stationOffsets.zipIdx, 0 ≤ o.1.2 := by decide
  exact hdelays _ hoff

theorem stationSpecs_ne_nil (h : emitters.entries ≠ []) : stationSpecs emitters ≠ [] := by
  obtain ⟨e, he⟩ := List.exists_mem_of_ne_nil _ h
  intro hnil
  have hall := List.flatMap_eq_nil_iff.mp hnil e (Emitters.sorted_perm.mem_iff.mpr he)
  cases hall

/-- Emitters of different ids are in different places when no place is twice in the table. -/
theorem places_nodup_iff (emitters : Emitters) :
    (∀ x ∈ emitters.entries, ∀ y ∈ emitters.entries, x.1 ≠ y.1 → x.2 ≠ y.2) ↔
      (emitters.entries.map Prod.snd).Nodup := by
  have hkey : ∀ x ∈ emitters.entries, ∀ y ∈ emitters.entries, x.1 = y.1 → x = y :=
    List.inj_on_of_nodup_map emitters.nodup
  rw [List.nodup_map_iff_inj_on emitters.nodup.of_map]
  constructor
  · intro h x hx y hy hplace
    by_contra hne
    exact h x hx y hy (fun hid => hne (hkey x hx y hy hid)) hplace
  · intro h x hx y hy hid hplace
    exact hid (congrArg Prod.fst (h x hx y hy hplace))

/-- At one time, apart means in different places. -/
theorem apart_emissionAt_iff {digest : String → Vector UInt8 32} {seed : String} {tEmitNs : Int}
    {x y : String × Pos} :
    (emissionAt digest seed tEmitNs x).Apart (emissionAt digest seed tEmitNs y) ↔ x.2 ≠ y.2 := by
  simp only [Emission.Apart, emissionAt, causallyAdmissible_iff_minLightTime, sub_self]
  rw [minLightTimeNs_comm y.2 x.2, and_self, Ne, ← minLightTimeNs_eq_zero]
  omega

variable [DecidableEq Hash] [DecidableEq Tag]

/-- **When the full beacon passes.** It does for every seed and time, when there are three emitters
and no two stand in one place. -/
theorem full_beacon_passes_iff (w : BeaconWorld Hash Key Tag) (digest : String → Vector UInt8 32)
    (seed : String) (emitters : Emitters) (tEmitNs : Int)
    (hbar : ∀ e ∈ emitters.entries, '|' ∉ e.1.toList) :
    (∃ cert registry, w.buildFullBeacon digest seed emitters tEmitNs = .ok (cert, registry) ∧
        Passes (w.context registry) cert) ↔
      3 ≤ emitters.entries.length ∧ (emitters.entries.map Prod.snd).Nodup := by
  have hperm : (emitters.sorted.map (emissionAt digest seed tEmitNs)).Perm
      (emitters.entries.map (emissionAt digest seed tEmitNs)) := Emitters.sorted_perm.map _
  have hids : ((emitters.sorted.map (emissionAt digest seed tEmitNs)).map
      Emission.emitterId).Nodup := by
    rw [(hperm.map _).nodup_iff, List.map_map]
    exact emitters.nodup
  have hbars : ∀ e ∈ emitters.sorted.map (emissionAt digest seed tEmitNs),
      '|' ∉ e.emitterId.toList := by
    intro e he
    obtain ⟨x, hx, rfl⟩ := List.mem_map.mp (hperm.mem_iff.mp he)
    exact hbar x hx
  have hbuild : (∃ cert registry,
      w.buildFullBeacon digest seed emitters tEmitNs = .ok (cert, registry) ∧
        Passes (w.context registry) cert) ↔
      ∃ cert, w.buildBeacon (demoRegistry w.demoKey (stationSpecs emitters))
          (emitters.sorted.map (emissionAt digest seed tEmitNs)) = .ok cert ∧
        Passes (w.context (demoRegistry w.demoKey (stationSpecs emitters))) cert := by
    rw [BeaconWorld.buildFullBeacon, BeaconWorld.buildBeacon, List.map_map]
    show (∃ cert registry, Except.map _ (buildBeaconCertificate w.sha256 (List.map
      (w.buildEmissionEntry (demoRegistry w.demoKey (stationSpecs emitters)) ∘
        emissionAt digest seed tEmitNs) emitters.sorted)) = _ ∧ _) ↔ _
    cases buildBeaconCertificate w.sha256 (List.map
      (w.buildEmissionEntry (demoRegistry w.demoKey (stationSpecs emitters)) ∘
        emissionAt digest seed tEmitNs) emitters.sorted) with
    | error err => simp [Except.map]
    | ok cert => simp [Except.map]
  have hlen : (emitters.sorted.map (emissionAt digest seed tEmitNs)).length =
      emitters.entries.length := by
    rw [List.length_map, Emitters.sorted_perm.length_eq]
  have hblocks : ∃ n, ∀ e ∈ emitters.sorted.map (emissionAt digest seed tEmitNs),
      e.block.length = n := by
    refine ⟨32, fun e he => ?_⟩
    obtain ⟨x, -, rfl⟩ := List.mem_map.mp he
    simp [emissionAt, deriveBlock, blockLen]
  rw [hbuild, buildBeacon_passes_iff, lastPairs_iff_of_no_bar hids hbars, and_iff_right hblocks,
    hlen, and_iff_right hids, and_assoc]
  refine and_congr_right fun hthree => ?_
  rw [and_iff_right]
  · rw [← places_nodup_iff]
    simp only [List.forall_mem_map, apart_emissionAt_iff, Emitters.sorted_perm.mem_iff]
    rfl
  · refine ⟨stationSpecs_ne_nil ?_, prompt_stationSpecs _ _⟩
    rintro hnil
    rw [hnil] at hthree
    cases hthree

/-- The frozen emitters. -/
theorem full_beacon_passes_iff_frozen :
    ∃ cert registry,
      openWorld.buildFullBeacon (fun _ => Vector.replicate 32 7) "H4-FROZEN-SEED-v1"
        frozenEmitters 1000000 = .ok (cert, registry) ∧
      Passes (openWorld.context registry) cert :=
  (full_beacon_passes_iff _ _ _ frozenEmitters 1000000 (by decide)).mpr (by decide)

end Full

end HorizonProtocol.Beacon
