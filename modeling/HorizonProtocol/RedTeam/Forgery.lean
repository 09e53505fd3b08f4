import HorizonProtocol.Attestation.Fixtures
import HorizonProtocol.Digests
import HorizonProtocol.RedTeam.Timing

/-!
# Forged certificates

The attacks of `redteam/attacks.py` on certificates: an honest one is mutated in one of many ways,
and what was mutated must not pass. A mutation keeps the MAC of a receipt or its body, and with a
MAC that does not collide one of the two determines the other.

* `always_attackForgeryFuzz` — no mutation of a cone certificate passes.
* `always_attackMeasuredCertificateForgeryFuzz` — nor does one of a measured certificate, and
  parameters that are smuggled in with it change nothing.
-/

namespace HorizonProtocol.RedTeam

open Attestation Digests Sampling
open Json (Value record)
open Preimages (text canonicalText)

deriving instance DecidableEq for EmissionEvent, ConeCertificate

inductive ForgeryError where
  /-- `ValueError`, of a text that is not hexadecimal. -/
  | notHex
  /-- `KeyError`, of a node that is not there. -/
  | unknownNode (e : UnknownNode String)
  /-- `KeyError`, of a certificate that cannot be read. -/
  | unreadable
  | noNodeParams (e : NoNodeParams String)

variable {σ Key : Type} (g : Generator σ)

/-! ## Cone certificates -/

/-- `_honest_h1_cert`. -/
def honestSpecs (seedId : Nat) : List (StationSpec String) :=
  [⟨"STN-A-" ++ toString seedId, ⟨10000000000000, 0, 0⟩, 0⟩,
    ⟨"STN-B-" ++ toString seedId, ⟨0, 10000000000000, 0⟩, 0⟩,
    ⟨"STN-C-" ++ toString seedId, ⟨0, 0, 10000000000000⟩, 0⟩]

def honestEvent (sha256 : List Char → String) (seedId : Nat) : EmissionEvent String :=
  makeEvent (eventHash sha256) (record [("rt", .int seedId)]) 0 ⟨0, 0, 0⟩

def honestCert (sha256 : List Char → String) (mac : Mac Key) (demoKey : String → Key)
    (seedId : Nat) : ConeCertificate String String String :=
  let event := honestEvent sha256 seedId
  buildConeCertificate event
    (broadcast (receiptMac mac) event (demoRegistry demoKey (honestSpecs seedId)))

inductive ConeMutation where
  | tamperRecvTime
  | tamperPosition
  | swapStationId
  | flipMacByte
  | tamperPayloadHash
  deriving DecidableEq

def coneMutations : List ConeMutation :=
  [.tamperRecvTime, .tamperPosition, .swapStationId, .flipMacByte, .tamperPayloadHash]

/-- `station_pos_nm[axis] += by`. -/
def shiftAxis (p : Pos) (axis : Nat) (by_ : Int) : Pos :=
  match axis with
  | 0 => { p with x := p.x + by_ }
  | 1 => { p with y := p.y + by_ }
  | _ => { p with z := p.z + by_ }

/-- The receipt after a mutation. -/
def mutateReceipt (stationIds : List String) (forgedHash : String) (mutation : ConeMutation)
    (r : Receipt String String String) :
    Draws σ ForgeryError (Receipt String String String) :=
  match mutation with
  | .tamperRecvTime => do
      let sign ← choice g [-1, 1]
      let by_ ← randint g 1 (10 ^ 6)
      pure { r with body := { r.body with recvTimeNs := r.body.recvTimeNs + sign * by_ } }
  | .tamperPosition => do
      let axis ← randrange g 3
      let by_ ← randint g 1 (10 ^ 9)
      pure { r with body := { r.body with stationPosNm := shiftAxis r.body.stationPosNm axis by_ } }
  | .swapStationId =>
      let others := stationIds.filter fun sid => sid ≠ r.body.stationId
      if others ≠ [] then do
        let sid ← choice g others
        pure { r with body := { r.body with stationId := sid } }
      else pure r
  | .flipMacByte =>
      match Beacon.fromHex r.mac with
      | none => raise .notHex
      | some bytes => do
          let place ← randrange g bytes.length
          let bit ← randrange g 8
          let flipped := bytes.modify place fun b => b ^^^ (1 <<< UInt8.ofNat bit)
          pure { r with mac := Beacon.toHex flipped }
  | .tamperPayloadHash => pure { r with body := { r.body with payloadHash := forgedHash } }

/-- `f"forged-{i}"`. -/
def forgedText (i : Nat) : List Char := ("forged-" ++ toString i).toList

structure ForgeryBypass where
  trial : Nat
  mutation : ConeMutation

def forgeryTrial (sha256 : List Char → String) (mac : Mac Key) (demoKey : String → Key) (i : Nat) :
    Draws σ ForgeryError (List ForgeryBypass) := do
  let cert := honestCert sha256 mac demoKey i
  let registry := demoRegistry demoKey (honestSpecs i)
  let mutation ← choice g coneMutations
  let idx ← randrange g cert.receipts.length
  match cert.receipts[idx]? with
  | none => throw .emptySequence
  | some r =>
      let r' ← mutateReceipt g (registry.map Prod.fst) (sha256 (forgedText i)) mutation r
      let mutated := { cert with receipts := cert.receipts.set idx r' }
      if mutated = cert then pure []
      else if (verifyCertificate (receiptMac mac) registry.registry mutated).verdict = .pass then
        pure [{ trial := i, mutation }]
      else pure []

def attackForgeryFuzz (sha256 : List Char → String) (mac : Mac Key) (demoKey : String → Key)
    (n : Nat := 500) : Draws σ ForgeryError (Report ForgeryBypass) :=
  report "cone_certificate_forgery_fuzz" n (trials n (forgeryTrial g sha256 mac demoKey))

/-! ### Nothing forged passes -/

/-- A mutation changes the body under a MAC, or the MAC of a body. -/
def Tampered (r r' : Receipt String String String) : Prop := r'.mac = r.mac ∨ r'.body = r.body

/-- The MAC of the receipt is one of its body, of some key. -/
def Signed (mac : Mac Key) (r : Receipt String String String) : Prop :=
  ∃ key, r.mac = receiptMac mac key r.body

variable {g} {mac : Mac Key}

theorem always_mutateReceipt {stationIds : List String} {forgedHash : String}
    {mutation : ConeMutation} {r : Receipt String String String} (hr : Signed mac r) :
    Always (mutateReceipt g stationIds forgedHash mutation r) (Tampered r) := by
  cases mutation with
  | tamperRecvTime =>
      refine always_bind (always_choice (by decide) fun sign _ => ?_)
      exact always_bind (always_randint (by decide) fun by_ _ _ => always_pure (Or.inl rfl))
  | tamperPosition =>
      refine always_bind (always_randrange (by decide) fun axis _ => ?_)
      exact always_bind (always_randint (by decide) fun by_ _ _ => always_pure (Or.inl rfl))
  | swapStationId =>
      refine always_ite (fun hothers => ?_) fun _ => always_pure (Or.inl rfl)
      exact always_bind (always_choice hothers fun sid _ => always_pure (Or.inl rfl))
  | flipMacByte =>
      obtain ⟨key, hmac⟩ := hr
      rw [mutateReceipt, hmac, receiptMac, Mac.hexdigest, Beacon.fromHex_toHex]
      have hpos := List.length_pos_iff.mpr
        (mac.digest_ne key (canonicalText (Preimages.receiptBody r.body)))
      refine always_bind (always_randrange hpos fun place _ => ?_)
      exact always_bind (always_randrange (by decide) fun bit _ => always_pure (Or.inr rfl))
  | tamperPayloadHash => exact always_pure (Or.inl rfl)

/-- **What verifies is what was signed**: of a receipt that is attested, a mutation changed
nothing. -/
theorem eq_of_attests (hmac : mac.CollisionFree) {registry : Registry String Key}
    {payloadHash : String} {station station' : Station String Key}
    {r r' : Receipt String String String}
    (hr : Attests (receiptMac mac) registry payloadHash r station) (htampered : Tampered r r')
    (hr' : Attests (receiptMac mac) registry payloadHash r' station') : r' = r := by
  have hmac_r : receiptMac mac station.key r.body = r.mac := of_decide_eq_true hr.signed
  have hmac_r' : receiptMac mac station'.key r'.body = r'.mac := of_decide_eq_true hr'.signed
  have hbody : r'.body = r.body := by
    rcases htampered with hsame | hsame
    · apply receiptMac_inj hmac
      rw [hmac_r', hmac_r, hsame]
    · exact hsame
  have hstation : station' = station := by
    apply Option.some.inj
    rw [← hr'.registered, ← hr.registered, hbody]
  have htag : r'.mac = r.mac := by rw [← hmac_r', ← hmac_r, hbody, hstation]
  cases r
  cases r'
  exact congrArg₂ Receipt.mk hbody htag

theorem Signed.of_attests {registry : Registry String Key} {payloadHash : String}
    {station : Station String Key} {r : Receipt String String String}
    (h : Attests (receiptMac mac) registry payloadHash r station) : Signed mac r :=
  ⟨station.key, (of_decide_eq_true h.signed).symm⟩

theorem honestCert_receipts_ne {sha256 : List Char → String} {demoKey : String → Key} (i : Nat) :
    (honestCert sha256 mac demoKey i).receipts ≠ [] := by
  show broadcast _ _ _ ≠ []
  rw [broadcast, Ne, List.map_eq_nil_iff, StationDict.sorted_eq_nil, demoRegistry_eq_nil]
  exact List.cons_ne_nil _ _

theorem always_forgeryTrial (hmac : mac.CollisionFree) (sha256 : List Char → String)
    (demoKey : String → Key) (i : Nat) :
    Always (forgeryTrial g sha256 mac demoKey i) fun found => found = [] := by
  refine always_bind (always_choice (by decide) fun mutation _ => ?_)
  have hpos := List.length_pos_iff.mpr (@honestCert_receipts_ne Key mac sha256 demoKey i)
  refine always_bind (always_randrange hpos fun idx hidx => ?_)
  rw [List.getElem?_eq_getElem hidx]
  -- the receipt that is mutated was signed by its station
  have hattests : ∀ r ∈ (honestCert sha256 mac demoKey i).receipts, ∃ station,
      Attests (receiptMac mac) (demoRegistry demoKey (honestSpecs i)).registry
        (honestEvent sha256 i).payloadHash r station := by
    intro r hr
    obtain ⟨e, he, rfl⟩ := mem_broadcast.mp hr
    exact ⟨_, (demoRegistry_keyed demoKey _).attests he _ _⟩
  obtain ⟨station, hatt⟩ := hattests _ (List.getElem_mem hidx)
  refine always_bind ((always_mutateReceipt (.of_attests hatt)).mono fun r' htampered => ?_)
  refine always_ite (fun _ => always_pure rfl) fun hne => ?_
  refine always_ite (fun hpass => ?_) fun _ => always_pure rfl
  exfalso
  obtain ⟨station', hatt', -⟩ := (verifyCertificate_pass_iff.mp hpass).2 r'
    (List.mem_set hidx r')
  apply hne
  rw [eq_of_attests hmac hatt htampered hatt', List.set_getElem_self]

theorem always_attackForgeryFuzz (hmac : mac.CollisionFree) (sha256 : List Char → String)
    (demoKey : String → Key) (n : Nat) :
    Always (attackForgeryFuzz g sha256 mac demoKey n) (Clean "cone_certificate_forgery_fuzz" n) :=
  always_report (always_trials fun i _ => always_forgeryTrial hmac sha256 demoKey i)

/-! ## Measured certificates -/

/-- `SEED_H6`. -/
def seedH6 : String := "H6-FROZEN-SEED-v1"

/-- `event_hash` of a dictionary of texts. -/
def fieldsHash (sha256 : List Char → String) (fields : List (String × String)) : String :=
  eventHash sha256 (record (fields.map fun f => (f.1, text f.2)))

/-- The certificate dictionary of the consistent capture over real geography. -/
def measuredDict (geoFrame : String) (cert : MeasuredCertificate String String String) :
    CertificateDict String String String :=
  [("type", .text "measured_cone_certificate"), ("version", .text "1"), ("event", .event cert.event),
    ("receipts", .receipts cert.receipts), ("fixture_origin", .text "SYNTHETIC_CONSISTENT"),
    ("seed", .text seedH6), ("geo_frame", .other geoFrame)]

inductive MeasuredMutation where
  | tamperRecvTimeEarly
  | tamperRecvTimeLate
  | forgeNodeParams
  | duplicateReceipt
  deriving DecidableEq

def measuredMutations : List MeasuredMutation :=
  [.tamperRecvTimeEarly, .tamperRecvTimeLate, .forgeNodeParams, .duplicateReceipt]

/-- `body["recv_time_ns"] += by`. -/
def delay (by_ : Int) (r : Receipt String String String) : Receipt String String String :=
  { r with body := { r.body with recvTimeNs := r.body.recvTimeNs + by_ } }

/-- Parameters for a node, in a certificate that the verifier does not look for any in. -/
def forgedParams (nodeId : String) (uNs cEffDen : Int) : CertificateField String String String :=
  .other (String.ofList (canonicalText (record [(nodeId, record
    [("u_ns", .int uNs), ("c_eff_num", .int 1), ("c_eff_den", .int cEffDen)])])))

/-- The certificate after a mutation of the receipt at a place. -/
def mutateMeasured (g : Generator σ) (dict : CertificateDict String String String)
    (receipts : List (Receipt String String String)) (idx : Nat) (mutation : MeasuredMutation)
    (r : Receipt String String String) :
    Draws σ ForgeryError (CertificateDict String String String) :=
  let withReceipt r' := Dict.set dict "receipts" (.receipts (receipts.set idx r'))
  match mutation with
  | .tamperRecvTimeEarly => do
      let by_ ← randint g 1 (10 ^ 8)
      pure (withReceipt (delay (-by_) r))
  | .tamperRecvTimeLate => do
      let by_ ← randint g 1 (10 ^ 8)
      pure (withReceipt (delay by_ r))
  | .forgeNodeParams => do
      let by_ ← randint g (10 ^ 6) (10 ^ 9)
      let uNs ← randint g (10 ^ 9) (10 ^ 15)
      let cEffDen ← choice g [1, 1000]
      pure (Dict.set (withReceipt (delay (-by_) r)) "node_params"
        (forgedParams r.body.stationId uNs cEffDen))
  | .duplicateReceipt =>
      match receipts[(idx + 1) % receipts.length]? with
      | none => throw .emptySequence
      | some next => pure (withReceipt next)

structure MeasuredBypass where
  trial : Nat
  mutation : MeasuredMutation
  verdict : MeasuredVerdict

def measuredTrial (g : Generator σ) (mac : Mac Key) (registry : Registry String Key)
    (trustedParams : String → Option NodeParams) (dict : CertificateDict String String String)
    (receipts : List (Receipt String String String)) (i : Nat) :
    Draws σ ForgeryError (List MeasuredBypass) := do
  let idx ← randrange g receipts.length
  let mutation ← choice g measuredMutations
  match receipts[idx]? with
  | none => throw .emptySequence
  | some r =>
      let mutated ← mutateMeasured g dict receipts idx mutation r
      match dictVerdict (receiptMac mac) registry trustedParams none mutated with
      | none => raise .unreadable
      | some (.error e) => raise (.noNodeParams e)
      | some (.ok verdict) =>
          let bypass : MeasuredBypass := { trial := i, mutation, verdict }
          pure ((if mutation = .forgeNodeParams ∧ verdict ≠ .rejected then [bypass] else []) ++
            (if mutation = .tamperRecvTimeEarly ∧ verdict ∉ [.rejected, .apparatusLimited] then
              [bypass] else []) ++
            (if mutation = .duplicateReceipt ∧ verdict = .pass then [bypass] else []))

def attackMeasuredCertificateForgeryFuzz (g : Generator σ) (sha256 : List Char → String)
    (mac : Mac Key) (demoKey : String → Key) (digest : String → String → Nat)
    (nodes : NodeTable String) (geoFrame : String) (n : Nat := 500) :
    Draws σ ForgeryError (Report MeasuredBypass) := do
  match buildSyntheticConsistentCaptureH6 (receiptMac mac) demoKey (fieldsHash sha256) digest seedH6
      nodes with
  | .error e => raise (.unknownNode e)
  | .ok cert =>
      report "measured_certificate_forgery_fuzz" n (trials n (measuredTrial g mac
        (nodes.buildRegistry demoKey).registry nodes.trustedNodeParams (measuredDict geoFrame cert)
        cert.receipts))

/-! ### Every forgery is rejected -/

/-- The verdict on a dictionary is the one declared for what is read of it. -/
theorem dictVerdict_of_read {registry : Registry String Key} {params : String → Option NodeParams}
    {dict : CertificateDict String String String}
    {cert : MeasuredCertificate String String String} (hcovers : Covers params registry)
    (hread : readCertificate dict = some cert) :
    ∃ verdict, dictVerdict (receiptMac mac) registry params none dict = some (.ok verdict) ∧
      (Rejectable (receiptMac mac) registry params none cert → verdict = .rejected) := by
  have hresult : ∃ result, verifyMeasuredCertificate (receiptMac mac) registry params none cert =
      .ok result ∧ Declared (receiptMac mac) registry params none cert result.verdict :=
    verifyMeasuredCertificate_verdict hcovers
  obtain ⟨result, hok, hdeclared⟩ := hresult
  refine ⟨result.verdict, ?_, hdeclared.rejected.mpr⟩
  rw [dictVerdict, hread, Option.map_some, hok]
  rfl

/-- A mutation that changed something is refuted. -/
theorem refuted_of_tampered (hmac : mac.CollisionFree) {registry : Registry String Key}
    {params : String → Option NodeParams} {event : EmissionEvent String}
    {station : Station String Key} {r r' : Receipt String String String}
    (hr : Attests (receiptMac mac) registry event.payloadHash r station)
    (htampered : Tampered r r') (hne : r' ≠ r) :
    Refuted (receiptMac mac) registry params event r' := by
  cases hcheck : checkReceipt (receiptMac mac) registry event.payloadHash r' with
  | error refusal => exact refuted_of_refused hcheck
  | ok station' => exact absurd (eq_of_attests hmac hr htampered (checkReceipt_eq_ok.mp hcheck)) hne

theorem delay_ne {by_ : Int} (h : by_ ≠ 0) (r : Receipt String String String) :
    delay by_ r ≠ r := by
  intro heq
  have htime := congrArg (fun r => r.body.recvTimeNs) heq
  simp only [delay] at htime
  omega

theorem readCertificate_set (geoFrame : String)
    (cert : MeasuredCertificate String String String) (horigin : cert.fixtureOrigin = .other)
    (receipts : List (Receipt String String String)) :
    readCertificate (Dict.set (measuredDict geoFrame cert) "receipts" (.receipts receipts)) =
      some { cert with receipts } := by
  simp only [readCertificate, readOrigin, Dict.get?_set]
  simp [measuredDict, Dict.get?, horigin]

/-- A receipt in the place of its neighbor leaves two of one station. -/
theorem not_properSources_duplicate {receipts : List (Receipt String String String)} {idx : Nat}
    (hidx : idx < receipts.length) (htwo : 2 ≤ receipts.length)
    (hnext : (idx + 1) % receipts.length < receipts.length) :
    ¬ ProperSources none (receipts.set idx receipts[(idx + 1) % receipts.length]) := by
  intro hproper
  have hother : (idx + 1) % receipts.length ≠ idx := by
    intro heq
    by_cases hlast : idx + 1 = receipts.length
    · rw [hlast, Nat.mod_self] at heq
      omega
    · rw [Nat.mod_eq_of_lt (by omega)] at heq
      omega
  have hplace : ∀ i < receipts.length, i < ((receipts.set idx
      receipts[(idx + 1) % receipts.length]).map fun r => r.body.stationId).length := by
    simp
  -- the same station in both places
  have hinj := @List.Nodup.getElem_inj_iff _ _ hproper.distinct _ (hplace _ hnext) _ (hplace _ hidx)
  apply hother
  apply hinj.mp
  simp [hother.symm]

theorem always_mutateMeasured (hmac : mac.CollisionFree) {registry : Registry String Key}
    {params : String → Option NodeParams} {cert : MeasuredCertificate String String String}
    (horigin : cert.fixtureOrigin = .other) (htwo : 2 ≤ cert.receipts.length)
    (hattests : ∀ r ∈ cert.receipts, ∃ station,
      Attests (receiptMac mac) registry cert.event.payloadHash r station)
    (geoFrame : String) (mutation : MeasuredMutation) {idx : Nat} (hidx : idx < cert.receipts.length) :
    Always (mutateMeasured g (measuredDict geoFrame cert) cert.receipts idx mutation
      cert.receipts[idx]) fun mutated => ∃ receipts,
        readCertificate mutated = some { cert with receipts } ∧
          (mutation ≠ .tamperRecvTimeLate →
            Rejectable (receiptMac mac) registry params none { cert with receipts }) := by
  have hread := readCertificate_set geoFrame cert horigin
  obtain ⟨station, hatt⟩ := hattests _ (List.getElem_mem hidx)
  -- an earlier time is under a MAC that is not its own
  have hearly : ∀ by_ : Int, 1 ≤ by_ → Rejectable (receiptMac mac) registry params none
      { cert with receipts := cert.receipts.set idx (delay (-by_) cert.receipts[idx]) } := by
    intro by_ hby
    refine Or.inr ⟨_, List.mem_set hidx _, ?_⟩
    exact refuted_of_tampered hmac hatt (Or.inl rfl) (delay_ne (by omega) _)
  cases mutation with
  | tamperRecvTimeEarly =>
      refine always_bind (always_randint (by decide) fun by_ hby _ => always_pure ?_)
      exact ⟨_, hread _, fun _ => hearly by_ hby⟩
  | tamperRecvTimeLate =>
      refine always_bind (always_randint (by decide) fun by_ _ _ => always_pure ?_)
      exact ⟨_, hread _, fun h => absurd rfl h⟩
  | forgeNodeParams =>
      refine always_bind (always_randint (by decide) fun by_ hby _ => ?_)
      refine always_bind (always_randint (by decide) fun uNs _ _ => ?_)
      refine always_bind (always_choice (by decide) fun cEffDen _ => always_pure ?_)
      refine ⟨_, ?_, fun _ => hearly by_ (by omega)⟩
      -- what was smuggled in is not read
      rw [← hread]
      apply readCertificate_congr <;> rw [Dict.get?_set, if_neg (by decide)]
  | duplicateReceipt =>
      have hnext : (idx + 1) % cert.receipts.length < cert.receipts.length :=
        Nat.mod_lt _ (by omega)
      rw [mutateMeasured]
      dsimp only
      rw [List.getElem?_eq_getElem hnext]
      exact always_pure ⟨_, hread _, fun _ => Or.inl (not_properSources_duplicate hidx htwo hnext)⟩

theorem always_measuredTrial (hmac : mac.CollisionFree) {registry : Registry String Key}
    {params : String → Option NodeParams} {cert : MeasuredCertificate String String String}
    (hcovers : Covers params registry) (horigin : cert.fixtureOrigin = .other)
    (htwo : 2 ≤ cert.receipts.length)
    (hattests : ∀ r ∈ cert.receipts, ∃ station,
      Attests (receiptMac mac) registry cert.event.payloadHash r station)
    (geoFrame : String) (i : Nat) :
    Always (measuredTrial g mac registry params (measuredDict geoFrame cert) cert.receipts i)
      fun found => found = [] := by
  refine always_bind (always_randrange (by omega) fun idx hidx => ?_)
  refine always_bind (always_choice (by decide) fun mutation _ => ?_)
  rw [List.getElem?_eq_getElem hidx]
  have hmutate : Always _ _ :=
    @always_mutateMeasured _ _ g mac hmac registry params cert horigin htwo hattests geoFrame
      mutation idx hidx
  refine always_bind (hmutate.mono fun mutated hmutated => ?_)
  obtain ⟨receipts, hread, hrejectable⟩ := hmutated
  obtain ⟨verdict, hverdict, hrejected⟩ := @dictVerdict_of_read _ mac _ _ _ _ hcovers hread
  rw [hverdict]
  apply always_pure
  cases mutation with
  | tamperRecvTimeLate => simp
  | tamperRecvTimeEarly => simp [hrejected (hrejectable (by decide))]
  | forgeNodeParams => simp [hrejected (hrejectable (by decide))]
  | duplicateReceipt => simp [hrejected (hrejectable (by decide))]

/-- Where the capture is built, of two nodes at least. -/
theorem always_attackMeasuredCertificateForgeryFuzz (hmac : mac.CollisionFree)
    (sha256 : List Char → String) (demoKey : String → Key) (digest : String → String → Nat)
    {nodes : NodeTable String} (hemit : "us-east-1" ∈ nodes.entries.map Prod.fst)
    (htwo : 2 ≤ nodes.entries.length) (geoFrame : String) (n : Nat) :
    Always (attackMeasuredCertificateForgeryFuzz g sha256 mac demoKey digest nodes geoFrame n)
      (Clean "measured_certificate_forgery_fuzz" n) := by
  obtain ⟨⟨nid, node⟩, hnode, rfl⟩ := List.mem_map.mp hemit
  have hget := (Dict.get?_eq_some nodes.nodup).mpr hnode
  rw [attackMeasuredCertificateForgeryFuzz, buildSyntheticConsistentCaptureH6, emissionH6, hget]
  refine always_report (always_trials fun i _ => ?_)
  refine always_measuredTrial hmac (nodes.covers demoKey) rfl ?_ ?_ geoFrame i
  · show 2 ≤ (nodes.sorted.map _).length
    rw [List.length_map, NodeTable.sorted_perm.length_eq]
    exact htwo
  · intro r hr
    obtain ⟨e, he, rfl⟩ := List.mem_map.mp hr
    exact ⟨_, attests_signReceipt (NodeTable.registry_eq (NodeTable.mem_sorted.mp he))⟩

end HorizonProtocol.RedTeam
