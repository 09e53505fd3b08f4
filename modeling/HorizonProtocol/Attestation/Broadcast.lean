import HorizonProtocol.Attestation.Cone
import HorizonProtocol.Dict
import Mathlib.Data.List.Sort

/-!
# The honest world

`demo_registry` of `horizon/stations.py` and `horizon/simulate.py`: every station of a registry
receives an event when light gets there, answers after its processing delay, and signs. The world
model is not on the trusted path. What is proved is which claims the verifier accepts on what the
world sends.

* `broadcast_certifies` — the emissions that the receipts of one broadcast pass for.
-/

namespace HorizonProtocol.Attestation

/-- `(station_id, pos_nm, proc_delay_ns)`. -/
structure StationSpec (Id : Type) where
  stationId : Id
  posNm : Pos
  procDelayNs : Int

/-- A station and the delay after which it answers. -/
structure DemoStation (Id Key : Type) extends Station Id Key where
  procDelayNs : Int

/-- `{station_id: Station}`, in insertion order. -/
abbrev StationDict (Id Key : Type) := List (Id × DemoStation Id Key)

variable {Id Hash Key Tag : Type}

/-- `Station(sid, pos, key, delay)`, of a key that is derived from the id. -/
def demoStation (demoKey : Id → Key) (spec : StationSpec Id) : DemoStation Id Key where
  stationId := spec.stationId
  posNm := spec.posNm
  key := demoKey spec.stationId
  procDelayNs := spec.procDelayNs

def demoRegistry [DecidableEq Id] (demoKey : Id → Key) (specs : List (StationSpec Id)) :
    StationDict Id Key :=
  Dict.ofPairs (specs.map fun spec => (spec.stationId, demoStation demoKey spec))

/-- What a verifier looks up. -/
def StationDict.registry [DecidableEq Id] (d : StationDict Id Key) : Registry Id Key :=
  fun sid => (Dict.get? d sid).map DemoStation.toStation

/-- The dictionary in the order of `sorted(registry)`. -/
def StationDict.sorted [LinearOrder Id] (d : StationDict Id Key) : StationDict Id Key :=
  d.insertionSort fun a b => a.1 ≤ b.1

/-- When the station receives the event, as the world model computes it. -/
def DemoStation.recvTime (st : DemoStation Id Key) (event : EmissionEvent Hash) : Int :=
  event.claimedEmitTimeNs + minLightTimeNs event.claimedEmitPosNm st.posNm + st.procDelayNs

def broadcast [LinearOrder Id] (mac : Key → ReceiptBody Id Hash → Tag)
    (event : EmissionEvent Hash) (d : StationDict Id Key) : List (Receipt Id Hash Tag) :=
  d.sorted.map fun e => e.2.signReceipt mac event.payloadHash (e.2.recvTime event)

def buildConeCertificate (event : EmissionEvent Hash) (receipts : List (Receipt Id Hash Tag)) :
    ConeCertificate Id Hash Tag where
  event := event
  receipts := receipts

/-! ## Registries -/

/-- Each station is under its own id, and under no other. -/
structure StationDict.Keyed (d : StationDict Id Key) : Prop where
  nodup : (d.map Prod.fst).Nodup
  own : ∀ e ∈ d, e.2.stationId = e.1

/-- A station of the registry is one of those that were specified. -/
theorem of_mem_demoRegistry [DecidableEq Id] {demoKey : Id → Key} {specs : List (StationSpec Id)}
    {e : Id × DemoStation Id Key} (he : e ∈ demoRegistry demoKey specs) :
    ∃ spec ∈ specs, e = (spec.stationId, demoStation demoKey spec) := by
  obtain ⟨l₁, l₂, heq, -⟩ := Dict.mem_ofPairs.mp he
  have hmem : e ∈ specs.map fun spec => (spec.stationId, demoStation demoKey spec) := by
    rw [heq]
    simp
  obtain ⟨spec, hspec, rfl⟩ := List.mem_map.mp hmem
  exact ⟨spec, hspec, rfl⟩

theorem demoRegistry_keyed [DecidableEq Id] (demoKey : Id → Key) (specs : List (StationSpec Id)) :
    (demoRegistry demoKey specs).Keyed where
  nodup := Dict.nodup_keys_ofPairs _
  own e he := by
    obtain ⟨spec, -, rfl⟩ := of_mem_demoRegistry he
    rfl

theorem demoRegistry_eq_nil [DecidableEq Id] {demoKey : Id → Key} {specs : List (StationSpec Id)} :
    demoRegistry demoKey specs = [] ↔ specs = [] := by
  constructor
  · intro h
    rw [List.eq_nil_iff_forall_not_mem]
    intro spec hspec
    have hkey : spec.stationId ∈ (demoRegistry demoKey specs).map Prod.fst := by
      rw [demoRegistry, Dict.mem_keys_ofPairs, List.map_map]
      exact List.mem_map_of_mem hspec
    rw [h] at hkey
    cases hkey
  · rintro rfl
    rfl

section Sorted

variable [LinearOrder Id] {d : StationDict Id Key} {e : Id × DemoStation Id Key}

@[simp] theorem StationDict.mem_sorted : e ∈ d.sorted ↔ e ∈ d :=
  (List.perm_insertionSort _ d).mem_iff

@[simp] theorem StationDict.sorted_eq_nil : d.sorted = [] ↔ d = [] := by
  rw [← List.length_eq_zero_iff, StationDict.sorted, List.length_insertionSort,
    List.length_eq_zero_iff]

theorem StationDict.Keyed.registry_eq (h : d.Keyed) (he : e ∈ d) :
    d.registry e.1 = some e.2.toStation := by
  rw [StationDict.registry, (Dict.get?_eq_some h.nodup).mpr he]
  rfl

variable [DecidableEq Hash] [DecidableEq Tag] {mac : Key → ReceiptBody Id Hash → Tag}

omit [DecidableEq Hash] in
/-- What a station of the dictionary signs, it attests. -/
theorem StationDict.Keyed.attests (h : d.Keyed) (he : e ∈ d) (payloadHash : Hash)
    (recvTimeNs : Int) :
    Attests mac d.registry payloadHash (e.2.signReceipt mac payloadHash recvTimeNs)
      e.2.toStation := by
  apply attests_signReceipt
  rw [h.own e he]
  exact h.registry_eq he

/-! ## The certificate of a broadcast -/

omit [LinearOrder Id] in
theorem emitTimeUpperBoundNs_of_pass {registry : Registry Id Key}
    {cert : ConeCertificate Id Hash Tag}
    (hpass : (verifyCertificate mac registry cert).verdict = .pass) :
    (verifyCertificate mac registry cert).emitTimeUpperBoundNs? =
      (cert.receipts.map fun r => r.body.recvTimeNs).min? := by
  unfold verifyCertificate at hpass ⊢
  split at hpass
  · cases hpass
  · next hne =>
      rw [if_neg hne]
      split at hpass
      · cases hpass
      · rfl

omit [DecidableEq Hash] [DecidableEq Tag] in
theorem mem_broadcast {event : EmissionEvent Hash} {r : Receipt Id Hash Tag} :
    r ∈ broadcast mac event d ↔
      ∃ e ∈ d, e.2.signReceipt mac event.payloadHash (e.2.recvTime event) = r := by
  simp only [broadcast, List.mem_map, StationDict.mem_sorted]

omit [DecidableEq Hash] in
/-- One receipt of the broadcast lies in the cone of another emission when light from there gets to
the station no later. -/
theorem inCone_signReceipt_iff (h : d.Keyed) (he : e ∈ d) {event claim : EmissionEvent Hash} :
    InCone mac d.registry claim
        (e.2.signReceipt mac event.payloadHash (e.2.recvTime event)) ↔
      claim.payloadHash = event.payloadHash ∧
        claim.claimedEmitTimeNs + minLightTimeNs claim.claimedEmitPosNm e.2.posNm ≤
          e.2.recvTime event := by
  have hatt : Attests mac d.registry event.payloadHash _ e.2.toStation :=
    h.attests he event.payloadHash (e.2.recvTime event)
  constructor
  · rintro ⟨station, hclaim, hcone⟩
    obtain rfl : station = e.2.toStation :=
      Option.some.inj (hclaim.registered.symm.trans hatt.registered)
    rw [causallyAdmissible_iff_minLightTime] at hcone
    refine ⟨hclaim.payload.symm, ?_⟩
    dsimp only [Station.signReceipt, Station.receiptBody] at hcone
    omega
  · rintro ⟨hpayload, htime⟩
    refine ⟨e.2.toStation, hpayload ▸ hatt, ?_⟩
    rw [causallyAdmissible_iff_minLightTime]
    dsimp only [Station.signReceipt, Station.receiptBody]
    omega

/-- The claims that the receipts of a broadcast pass for. -/
theorem verify_broadcast_iff (demoKey : Id → Key) (specs : List (StationSpec Id))
    (event claim : EmissionEvent Hash) :
    (verifyCertificate mac (demoRegistry demoKey specs).registry (buildConeCertificate claim
        (broadcast mac event (demoRegistry demoKey specs)))).verdict = .pass ↔
      specs ≠ [] ∧ claim.payloadHash = event.payloadHash ∧
        ∀ e ∈ demoRegistry demoKey specs,
          claim.claimedEmitTimeNs + minLightTimeNs claim.claimedEmitPosNm e.2.posNm ≤
            e.2.recvTime event := by
  have hkeyed := demoRegistry_keyed demoKey specs
  rw [verifyCertificate_pass_iff]
  have hne : broadcast mac event (demoRegistry demoKey specs) ≠ [] ↔ specs ≠ [] := by
    rw [broadcast, Ne, List.map_eq_nil_iff, StationDict.sorted_eq_nil, demoRegistry_eq_nil]
  have hall : (∀ r ∈ broadcast mac event (demoRegistry demoKey specs),
      InCone mac (demoRegistry demoKey specs).registry claim r) ↔
      ∀ e ∈ demoRegistry demoKey specs, claim.payloadHash = event.payloadHash ∧
        claim.claimedEmitTimeNs + minLightTimeNs claim.claimedEmitPosNm e.2.posNm ≤
          e.2.recvTime event := by
    constructor
    · intro h e he
      exact (inCone_signReceipt_iff hkeyed he).mp (h _ (mem_broadcast.mpr ⟨e, he, rfl⟩))
    · intro h r hr
      obtain ⟨e, he, rfl⟩ := mem_broadcast.mp hr
      exact (inCone_signReceipt_iff hkeyed he).mpr (h e he)
  show broadcast mac event (demoRegistry demoKey specs) ≠ [] ∧ _ ↔ _
  rw [hne]
  refine and_congr_right fun hspecs => ?_
  refine hall.trans ⟨fun h => ⟨?_, fun e he => (h e he).2⟩, fun h e he => ⟨h.1, h.2 e he⟩⟩
  -- there is a station, and its receipt binds the payload
  obtain ⟨e, he⟩ := List.exists_mem_of_ne_nil _ (mt demoRegistry_eq_nil.mp hspecs)
  exact (h e he).1

/-- The emission that was broadcast is certified unless a station answers before light is there. -/
theorem broadcast_passes_iff (demoKey : Id → Key) (specs : List (StationSpec Id))
    (event : EmissionEvent Hash) :
    (verifyCertificate mac (demoRegistry demoKey specs).registry (buildConeCertificate event
        (broadcast mac event (demoRegistry demoKey specs)))).verdict = .pass ↔
      specs ≠ [] ∧ ∀ e ∈ demoRegistry demoKey specs, 0 ≤ e.2.procDelayNs := by
  rw [verify_broadcast_iff, and_iff_right rfl]
  refine and_congr_right fun _ => forall₂_congr fun e _ => ?_
  rw [DemoStation.recvTime]
  omega

/-- The bound that is stated with a pass is the earliest reception. -/
theorem bound_broadcast {event claim : EmissionEvent Hash} {d : StationDict Id Key}
    (hpass : (verifyCertificate mac d.registry
      (buildConeCertificate claim (broadcast mac event d))).verdict = .pass) :
    ∃ e ∈ d, (verifyCertificate mac d.registry
        (buildConeCertificate claim (broadcast mac event d))).emitTimeUpperBoundNs? =
          some (e.2.recvTime event) ∧
      ∀ e' ∈ d, e.2.recvTime event ≤ e'.2.recvTime event := by
  have hne : broadcast mac event d ≠ [] := (verifyCertificate_pass_iff.mp hpass).1
  rw [emitTimeUpperBoundNs_of_pass hpass]
  show ∃ e ∈ d, ((broadcast mac event d).map fun r => r.body.recvTimeNs).min? = _ ∧ _
  cases hmin : ((broadcast mac event d).map fun r => r.body.recvTimeNs).min? with
  | none =>
      rw [List.min?_eq_none_iff, List.map_eq_nil_iff] at hmin
      exact absurd hmin hne
  | some bound =>
      obtain ⟨hmem, hle⟩ := List.min?_eq_some_iff.mp hmin
      obtain ⟨r, hr, rfl⟩ := List.mem_map.mp hmem
      obtain ⟨e, he, rfl⟩ := mem_broadcast.mp hr
      refine ⟨e, he, rfl, fun e' he' => ?_⟩
      exact hle _ (List.mem_map_of_mem (mem_broadcast.mpr ⟨e', he', rfl⟩))

/-- **What the receipts of a broadcast certify.** They pass for every emission of the same payload
from which light gets to each station before it answered, and for no other; the bound that is stated
then is the earliest answer, and no emission they pass for is later. -/
theorem broadcast_certifies (demoKey : Id → Key) (specs : List (StationSpec Id))
    (event claim : EmissionEvent Hash) :
    let d := demoRegistry demoKey specs
    let res := verifyCertificate mac d.registry (buildConeCertificate claim (broadcast mac event d))
    (res.verdict = .pass ↔ specs ≠ [] ∧ claim.payloadHash = event.payloadHash ∧
      ∀ e ∈ d, claim.claimedEmitTimeNs + minLightTimeNs claim.claimedEmitPosNm e.2.posNm ≤
        event.claimedEmitTimeNs + minLightTimeNs event.claimedEmitPosNm e.2.posNm +
          e.2.procDelayNs) ∧
    (res.verdict = .pass → ∃ e ∈ d, res.emitTimeUpperBoundNs? = some (e.2.recvTime event) ∧
      (∀ e' ∈ d, e.2.recvTime event ≤ e'.2.recvTime event) ∧
      claim.claimedEmitTimeNs ≤ e.2.recvTime event) := by
  intro d res
  have hiff := @verify_broadcast_iff _ _ _ _ _ _ _ mac demoKey specs event claim
  refine ⟨hiff, fun hpass => ?_⟩
  obtain ⟨e, he, hbound, hleast⟩ := bound_broadcast hpass
  refine ⟨e, he, hbound, hleast, ?_⟩
  have hcone := (hiff.mp hpass).2.2 e he
  omega

end Sorted

end HorizonProtocol.Attestation
