import HorizonProtocol.Attestation.Capture
import HorizonProtocol.CausalStore.Store
import HorizonProtocol.Commitment.Reveal
import HorizonProtocol.Json
import HorizonProtocol.Ledger.EdgeClaims
import HorizonProtocol.Mnemesis.Memory

/-!
# What is hashed and signed

Every digest of the program is of a JSON text: `canonical` of `horizon/events.py`, and the texts that
`horizon/edge_claims.py`, `causalstore/store.py` and `mnemesis/memory.py` make of their own. Digests
are parameters elsewhere, as functions of records; here are the texts of those records.

* `preimages_injective` — no two records have the same text.
-/

namespace HorizonProtocol.Preimages

open Json (Value canonical dumps field? lit record)

/-- `canonical`, of `horizon/events.py`. -/
def canonicalText (payload : Value) : List Char := dumps .compact payload

def text (s : String) : Value := .str (lit s)

/-- `sorted(set(...))`. -/
def sorted {α : Type*} [LinearOrder α] (s : Finset α) : List α := s.sort

/-- `list(pos_nm)`. -/
def position (p : Pos) : Value := .arr [.int p.x, .int p.y, .int p.z]

/-! ## The records -/

/-- What `bound_event_hash` hashes. -/
def boundClaim (c : Attestation.Capture.BoundClaim String) : Value :=
  record [("payload_hash", text c.payloadHash), ("t0_ns", .int c.t0Ns), ("p0_nm", position c.p0Nm)]

/-- `receipt_body`. -/
def receiptBody (b : Attestation.ReceiptBody String String) : Value :=
  record [("station_id", text b.stationId), ("station_pos_nm", position b.stationPosNm),
    ("payload_hash", text b.payloadHash), ("recv_time_ns", .int b.recvTimeNs)]

/-- The body that `sign_receipt` of `horizon/signed_capture.py` signs. -/
def captureBody (b : Attestation.Capture.Body String String String) : Value :=
  record ([("node_id", text b.nodeId), ("node_pos_nm", position b.nodePosNm),
    ("event_hash", text b.eventHash), ("recv_time_ns", .int b.recvTimeNs), ("tier", text b.tier)] ++
    (b.measuredUNs?.map fun u => ("measured_u_ns", Value.int u)).toList)

/-- What the id of an edge claim is the digest of. -/
structure EdgeContent where
  fromEvent : String
  toEvent : String
  kind : EdgeKind
  assertedBy : String
  assertedAt : String

/-- The payload of `compute_edge_id`. -/
def edgeContent (e : EdgeContent) : Value :=
  record [("from_event", text e.fromEvent), ("to_event", text e.toEvent),
    ("kind", text e.kind.value), ("asserted_by", text e.assertedBy),
    ("asserted_at", text e.assertedAt)]

/-- A record of a transcript, which `round_record_hash` adds to the chain. -/
def round (r : Commitment.Round) : Value :=
  record [("k", .int r.k), ("site_nm", position r.siteNm), ("r", .int r.r), ("y", .int r.y),
    ("t_challenge_ns", .int r.tChallengeNs), ("t_response_ns", .int r.tResponseNs)]

/-- What `event_id` hashes. Keys, values, origins and clocks are any values. -/
def eventBody (i : CausalStore.HashInput Value Value Value Value) : Value :=
  record [("p", record [("k", i.p.k), ("v", i.p.v)]), ("o", i.o), ("c", i.c)]

/-- What `_wid` hashes. -/
def widBody (i : Mnemesis.WidInput String Value Value Value Value) : Value :=
  record [("key", i.key), ("value", i.value), ("observer", i.observer), ("clock", i.clock),
    ("preds", .arr ((sorted i.preds).map text))]

/-! ## Their texts -/

theorem canonicalText_eq_iff {x y : Value} :
    canonicalText x = canonicalText y ↔ canonical x = canonical y :=
  Json.dumps_eq_iff .compact x y

theorem sorted_injective {α : Type*} [LinearOrder α] :
    Function.Injective (sorted : Finset α → List α) := by
  intro s t heq
  rw [← s.sort_toFinset (· ≤ ·), ← t.sort_toFinset (· ≤ ·)]
  exact congrArg List.toFinset heq

@[simp] theorem canonical_text_inj {s t : String} :
    canonical (text s) = canonical (text t) ↔ s = t := by
  simp only [text, canonical, Json.Canonical.str.injEq]
  exact Json.utf16_lit_injective.eq_iff

@[simp] theorem canonical_int_inj {i j : Int} :
    canonical (.int i) = canonical (.int j) ↔ i = j := by
  simp only [canonical, Json.Canonical.int.injEq]

@[simp] theorem canonical_position_inj {p q : Pos} :
    canonical (position p) = canonical (position q) ↔ p = q := by
  simp [position, canonical, Json.canonicalItems, Pos.ext_iff]

theorem canonicalItems_texts (l : List String) :
    Json.canonicalItems (l.map text) = l.map fun s => .str (Json.utf16 (lit s)) := by
  induction l with
  | nil => rfl
  | cons s l ih =>
      rw [List.map_cons, Json.canonicalItems, ih, List.map_cons, text, canonical]

@[simp] theorem canonical_texts_inj {l m : List String} :
    canonical (.arr (l.map text)) = canonical (.arr (m.map text)) ↔ l = m := by
  simp only [canonical, Json.Canonical.arr.injEq, canonicalItems_texts]
  apply (List.map_injective_iff.mpr _).eq_iff
  intro s t heq
  exact Json.utf16_lit_injective (Json.Canonical.str.inj heq)

/-- Dictionaries with the same text have the same entries. -/
theorem entry_eq {ms ns : List (String × Value)} (hms : (ms.map Prod.fst).Nodup)
    (hns : (ns.map Prod.fst).Nodup) (h : canonical (record ms) = canonical (record ns))
    (k : String) :
    (Dict.get? ms k).map canonical = (Dict.get? ns k).map canonical := by
  rw [← Json.field?_record hms, h, Json.field?_record hns]

theorem boundClaim_inj {a b : Attestation.Capture.BoundClaim String}
    (h : canonical (boundClaim a) = canonical (boundClaim b)) : a = b := by
  have hentry := entry_eq (by simp) (by simp) h
  have hhash : a.payloadHash = b.payloadHash := by simpa [Dict.get?] using hentry "payload_hash"
  have ht0 : a.t0Ns = b.t0Ns := by simpa [Dict.get?] using hentry "t0_ns"
  have hp0 : a.p0Nm = b.p0Nm := by simpa [Dict.get?] using hentry "p0_nm"
  cases a
  cases b
  congr

theorem receiptBody_inj {a b : Attestation.ReceiptBody String String}
    (h : canonical (receiptBody a) = canonical (receiptBody b)) : a = b := by
  have hentry := entry_eq (by simp) (by simp) h
  have hid : a.stationId = b.stationId := by simpa [Dict.get?] using hentry "station_id"
  have hpos : a.stationPosNm = b.stationPosNm := by simpa [Dict.get?] using hentry "station_pos_nm"
  have hhash : a.payloadHash = b.payloadHash := by simpa [Dict.get?] using hentry "payload_hash"
  have hrecv : a.recvTimeNs = b.recvTimeNs := by simpa [Dict.get?] using hentry "recv_time_ns"
  cases a
  cases b
  congr

/-- A missing `measured_u_ns` is told from any that is there. -/
theorem captureBody_inj {a b : Attestation.Capture.Body String String String}
    (h : canonical (captureBody a) = canonical (captureBody b)) : a = b := by
  have hnodup : ∀ c : Attestation.Capture.Body String String String,
      (([("node_id", text c.nodeId), ("node_pos_nm", position c.nodePosNm),
        ("event_hash", text c.eventHash), ("recv_time_ns", .int c.recvTimeNs),
        ("tier", text c.tier)] ++
        (c.measuredUNs?.map fun u => ("measured_u_ns", Value.int u)).toList).map Prod.fst).Nodup := by
    intro c
    cases c.measuredUNs? <;> simp
  have hentry := entry_eq (hnodup a) (hnodup b) h
  have hid : a.nodeId = b.nodeId := by simpa [Dict.get?] using hentry "node_id"
  have hpos : a.nodePosNm = b.nodePosNm := by simpa [Dict.get?] using hentry "node_pos_nm"
  have hhash : a.eventHash = b.eventHash := by simpa [Dict.get?] using hentry "event_hash"
  have hrecv : a.recvTimeNs = b.recvTimeNs := by simpa [Dict.get?] using hentry "recv_time_ns"
  have htier : a.tier = b.tier := by simpa [Dict.get?] using hentry "tier"
  have hu : a.measuredUNs? = b.measuredUNs? := by
    have hmeasured := hentry "measured_u_ns"
    cases ha : a.measuredUNs? <;> cases hb : b.measuredUNs? <;>
      simp [Dict.get?, ha, hb] at hmeasured ⊢
    exact hmeasured
  cases a
  cases b
  congr

theorem edgeContent_inj {a b : EdgeContent}
    (h : canonical (edgeContent a) = canonical (edgeContent b)) : a = b := by
  have hentry := entry_eq (by simp) (by simp) h
  have hfrom : a.fromEvent = b.fromEvent := by simpa [Dict.get?] using hentry "from_event"
  have hto : a.toEvent = b.toEvent := by simpa [Dict.get?] using hentry "to_event"
  have hvalue : a.kind.value = b.kind.value := by simpa [Dict.get?] using hentry "kind"
  have hkind : a.kind = b.kind := by
    have hread := EdgeKind.ofValue?_value a.kind
    rw [hvalue, EdgeKind.ofValue?_value] at hread
    exact (Option.some.inj hread).symm
  have hby : a.assertedBy = b.assertedBy := by simpa [Dict.get?] using hentry "asserted_by"
  have hat : a.assertedAt = b.assertedAt := by simpa [Dict.get?] using hentry "asserted_at"
  cases a
  cases b
  congr

theorem round_inj {a b : Commitment.Round} (h : canonical (round a) = canonical (round b)) :
    a = b := by
  have hentry := entry_eq (by simp) (by simp) h
  have hk : a.k = b.k := by simpa [Dict.get?] using hentry "k"
  have hsite : a.siteNm = b.siteNm := by simpa [Dict.get?] using hentry "site_nm"
  have hr : a.r = b.r := by simpa [Dict.get?] using hentry "r"
  have hy : a.y = b.y := by simpa [Dict.get?] using hentry "y"
  have hchallenge : a.tChallengeNs = b.tChallengeNs := by
    simpa [Dict.get?] using hentry "t_challenge_ns"
  have hresponse : a.tResponseNs = b.tResponseNs := by
    simpa [Dict.get?] using hentry "t_response_ns"
  cases a
  cases b
  congr

/-- What tells the preimages of two event ids apart. -/
structure SameEvent (a b : CausalStore.HashInput Value Value Value Value) : Prop where
  key : canonical a.p.k = canonical b.p.k
  value : canonical a.p.v = canonical b.p.v
  origin : canonical a.o = canonical b.o
  clock : canonical a.c = canonical b.c

theorem eventBody_inj {a b : CausalStore.HashInput Value Value Value Value}
    (h : canonical (eventBody a) = canonical (eventBody b)) : SameEvent a b := by
  have hentry := entry_eq (by simp) (by simp) h
  have hp : canonical (record [("k", a.p.k), ("v", a.p.v)]) =
      canonical (record [("k", b.p.k), ("v", b.p.v)]) := by simpa [Dict.get?] using hentry "p"
  have hpayload := entry_eq (by simp) (by simp) hp
  exact
    { key := by simpa [Dict.get?] using hpayload "k"
      value := by simpa [Dict.get?] using hpayload "v"
      origin := by simpa [Dict.get?] using hentry "o"
      clock := by simpa [Dict.get?] using hentry "c" }

/-- What tells the preimages of two write ids apart. -/
structure SameWrite (a b : Mnemesis.WidInput String Value Value Value Value) : Prop where
  key : canonical a.key = canonical b.key
  value : canonical a.value = canonical b.value
  observer : canonical a.observer = canonical b.observer
  clock : canonical a.clock = canonical b.clock
  preds : a.preds = b.preds

theorem widBody_inj {a b : Mnemesis.WidInput String Value Value Value Value}
    (h : canonical (widBody a) = canonical (widBody b)) : SameWrite a b := by
  have hentry := entry_eq (by simp) (by simp) h
  have hsorted : sorted a.preds = sorted b.preds := by
    simpa [Dict.get?] using hentry "preds"
  exact
    { key := by simpa [Dict.get?] using hentry "key"
      value := by simpa [Dict.get?] using hentry "value"
      observer := by simpa [Dict.get?] using hentry "observer"
      clock := by simpa [Dict.get?] using hentry "clock"
      preds := sorted_injective hsorted }

/-! ## Main result -/

/-- `json.dumps(..., sort_keys=True)`, with the default separators. -/
def spacedText (x : Value) : List Char := dumps .spaced x

/-- **No two records have the same text.** The texts that are hashed and signed determine what they
were made of: emission claims, the bodies of receipts, edges, rounds; and the events and writes of
the stores up to the order of the entries of their dictionaries, with the claimed predecessors of a
write as a set. -/
theorem preimages_injective :
    (Function.Injective fun c => canonicalText (boundClaim c)) ∧
    (Function.Injective fun b => canonicalText (receiptBody b)) ∧
    (Function.Injective fun b => canonicalText (captureBody b)) ∧
    (Function.Injective fun e => canonicalText (edgeContent e)) ∧
    (Function.Injective fun r => canonicalText (round r)) ∧
    (∀ a b, spacedText (eventBody a) = spacedText (eventBody b) ↔ SameEvent a b) ∧
    (∀ a b, spacedText (widBody a) = spacedText (widBody b) ↔ SameWrite a b) := by
  refine ⟨fun a b h => boundClaim_inj (canonicalText_eq_iff.mp h),
    fun a b h => receiptBody_inj (canonicalText_eq_iff.mp h),
    fun a b h => captureBody_inj (canonicalText_eq_iff.mp h),
    fun a b h => edgeContent_inj (canonicalText_eq_iff.mp h),
    fun a b h => round_inj (canonicalText_eq_iff.mp h), fun a b => ?_, fun a b => ?_⟩
  · refine (Json.dumps_eq_iff .spaced _ _).trans ⟨eventBody_inj, fun h => ?_⟩
    apply Json.canonical_record_eq
    have hp : canonical (record [("k", a.p.k), ("v", a.p.v)]) =
        canonical (record [("k", b.p.k), ("v", b.p.v)]) :=
      Json.canonical_record_eq (by simp [h.key, h.value])
    simp [hp, h.origin, h.clock]
  · refine (Json.dumps_eq_iff .spaced _ _).trans ⟨widBody_inj, fun h => ?_⟩
    apply Json.canonical_record_eq
    simp [h.key, h.value, h.observer, h.clock, h.preds]

end HorizonProtocol.Preimages
