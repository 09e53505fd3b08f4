import HorizonProtocol.Attestation.Orchestrate
import HorizonProtocol.Attestation.Wire
import HorizonProtocol.Preimages

/-!
# Honest responders

`scripts/live_orchestrate.py` from end to end: a responder signs what its clock shows and sends it with
the readings of its clock, the network cuts the line where it likes and may lose its end, and the thread
of the emitter reads what comes. `json.loads` is a parameter, of which no more is asked than that it
gives back the messages that were sent.

* `readAnswer_answer` — the thread finds in an answer what the responder put there.
* `honest_collection` — honest nodes are never rejected, and three that are heard are enough.
-/

namespace HorizonProtocol.Attestation.Capture

open Json (Canonical Value canonical field? record)
open Preimages (captureBody text position)

/-! ## What a thread reads -/

def position? : Canonical → Option Pos
  | .arr [x, y, z] => do return ⟨← x.int?, ← y.int?, ← z.int?⟩
  | _ => none

/-- A body as `sign_receipt` writes it. Of any other the digest is not modelled. -/
def readBody (c : Canonical) : Option (Body String String String) := do
  let body : Body String String String :=
    { nodeId := ← (field? "node_id" c).bind Canonical.string?
      nodePosNm := ← (field? "node_pos_nm" c).bind position?
      eventHash := ← (field? "event_hash" c).bind Canonical.string?
      recvTimeNs := ← (field? "recv_time_ns" c).bind Canonical.int?
      tier := ← (field? "tier" c).bind Canonical.string?
      measuredUNs? := (field? "measured_u_ns" c).bind Canonical.int? }
  if Json.text .compact c = Json.dumps .compact (captureBody body) then some body else none

def hasField (c : Canonical) (k : String) : Bool := (field? k c).isSome

/-- The receipt has all that `verify_live` asks it for. -/
def isWellFormed (receipt : Canonical) : Bool :=
  hasField receipt "mac" &&
    match field? "body" receipt with
    | some body => ["node_id", "node_pos_nm", "event_hash", "recv_time_ns"].all (hasField body)
    | none => false

/-- `or {}`. -/
def orEmpty : Option Canonical → Canonical
  | some c => if c.truthy then c else .obj []
  | none => .obj []

/-- `.get("measured_u_ns")`, of whole numbers. -/
def shown : Canonical → Option Shown
  | .obj ms =>
      match field? "measured_u_ns" (.obj ms) with
      | none => some (.shows none)
      | some .null => some (.shows none)
      | some (.int u) => some (.shows (some u))
      | some _ => none
  | _ => some .noObject

/-- `.get("body", {}).get("measured_u_ns")`. -/
def shownInBody : Canonical → Option Shown
  | .obj ms => shown ((field? "body" (.obj ms)).getD (.obj []))
  | _ => some .noObject

/-- The budget that is entered beside an ill-formed receipt. -/
def Shown.budget? : Shown → Shown → Option Int
  | .shows after?, .shows body? => body? <|> after?
  | _, _ => none

/-- What `_one` makes of the answer it gets. `none` stands for what the replies do not say: budgets that
are no whole numbers, and receipts with all fields whose body is none of `sign_receipt`. -/
def readAnswer (answer : Canonical) : Option (Reply String String String) :=
  match answer with
  | .obj _ =>
      if (field? "cmd" answer).bind Canonical.string? = some "RECEIPT" then
        match field? "receipt" answer with
        | none => some .malformed
        | some receipt => do
            let after ← shown (orEmpty (field? "clock_after" answer))
            if isWellFormed receipt then
              let body ← (field? "body" receipt).bind readBody
              let mac ← (field? "mac" receipt).bind Canonical.string?
              return .receipt ⟨body, mac⟩ after
            else
              let inBody ← shownInBody (orEmpty (some receipt))
              return .illFormed (after.budget? inBody)
      else some (.error .notReceipt)
  | _ => some .malformed

/-- `_query_responder` and `_one`, with what each `recv` returns. `loads` is `json.loads` of a line, or
its `ValueError`. -/
def replyOf (loads : List UInt8 → Option Canonical) (chunks : List (List UInt8)) :
    Option (Reply String String String) :=
  match Wire.recvJsonLine chunks with
  | .error _ => some (.error .transport)
  | .ok line =>
      match loads line with
      | none => some (.error .transport)
      | some answer => readAnswer answer

/-! ## What a responder sends -/

/-- What `read_chrony_tracking` returns. -/
structure Clock where
  measuredUNs? : Option Int
  others : List (String × Value) := []
  nodup : ("measured_u_ns" :: others.map Prod.fst).Nodup := by decide

def Clock.value (clock : Clock) : Value :=
  record (("measured_u_ns", clock.measuredUNs?.elim .null .int) :: clock.others)

def receiptValue (r : SignedReceipt String String String String) : Value :=
  record [("body", captureBody r.body), ("mac", text r.mac)]

/-- `measure_now`, with what the clock of the node shows. -/
def measureNow {Id Hash Key Tag : Type} (key : Id → Key) (mac : Key → Body Id Hash String → Tag)
    (nodeId : Id) (nodePosNm : Pos) (eventHash : Hash) (tier : String) (recvTimeNs : Int)
    (measuredUNs? : Option Int) : SignedReceipt Id Hash String Tag :=
  sign key mac { nodeId, nodePosNm, eventHash, recvTimeNs, tier, measuredUNs? }

/-- A node when it signs a receipt: what its clock shows, and `chronyc` before and after. -/
structure Stamp where
  nodeId : String
  node : Node String
  recvTimeNs : Int
  clockPre : Clock
  clockPost : Clock

/-- A responder: the rest of what it sends, how the network cuts it, and what of it is lost at the
end. -/
structure Exchange extends Stamp where
  netInNs : Int
  host : String
  port : Int
  chunks : List (List UInt8)
  lost : List UInt8 := []

section Messages

variable {Payload Key : Type} (key : String → Key)
  (mac : Key → Body String String String → String) (eventHash : BoundClaim Payload → String)
  (claim : BoundClaim Payload) (tier : String)

def Stamp.receipt (stamp : Stamp) : SignedReceipt String String String String :=
  measureNow key mac stamp.nodeId stamp.node.posNm (eventHash claim) tier stamp.recvTimeNs
    stamp.clockPre.measuredUNs?

/-- What is recorded for the node, when it is heard. -/
def Stamp.reply (stamp : Stamp) : Reply String String String :=
  .receipt (stamp.receipt key mac eventHash claim tier) (.shows stamp.clockPost.measuredUNs?)

/-- The RECEIPT of `run_responder`. -/
def Exchange.message (e : Exchange) : Value :=
  record [("cmd", text "RECEIPT"),
    ("receipt", receiptValue (e.toStamp.receipt key mac eventHash claim tier)),
    ("clock_before", e.clockPre.value), ("clock_after", e.clockPost.value),
    ("net_in_ns", .int e.netInNs), ("peer", .arr [text e.host, .int e.port])]

/-- The message comes through. -/
def Exchange.Whole (e : Exchange) : Prop :=
  e.lost = [] ∧
    (Wire.sendJsonLine (e.message key mac eventHash claim tier)).length ≤ Wire.maxMessage

instance (e : Exchange) : Decidable (e.Whole key mac eventHash claim tier) :=
  inferInstanceAs (Decidable (_ ∧ _))

/-- What comes of the query when the message is sent. -/
def Exchange.reply (e : Exchange) : Reply String String String :=
  if e.Whole key mac eventHash claim tier then e.toStamp.reply key mac eventHash claim tier
  else .error .transport

end Messages

/-! ## A message is read as it was sent -/

@[simp] theorem position?_canonical (p : Pos) : position? (canonical (position p)) = some p := by
  simp [position, canonical, Json.canonicalItems, position?, Canonical.int?]

@[simp] theorem string?_canonical_text (s : String) : (canonical (text s)).string? = some s :=
  Canonical.string?_canonical s

theorem field?_captureBody (b : Body String String String) (k : String) :
    field? k (canonical (captureBody b)) = (Dict.get? ([("node_id", text b.nodeId),
      ("node_pos_nm", position b.nodePosNm), ("event_hash", text b.eventHash),
      ("recv_time_ns", .int b.recvTimeNs), ("tier", text b.tier)] ++
      (b.measuredUNs?.map fun u => ("measured_u_ns", Value.int u)).toList) k).map canonical :=
  Json.field?_record (by cases b.measuredUNs? <;> simp) k

/-- A signed body is read as it was. -/
theorem readBody_captureBody (b : Body String String String) :
    readBody (canonical (captureBody b)) = some b := by
  have hu : (field? "measured_u_ns" (canonical (captureBody b))).bind Canonical.int? =
      b.measuredUNs? := by
    rw [field?_captureBody]
    cases b.measuredUNs? <;> simp [Dict.get?]
  unfold readBody
  rw [hu]
  simp [field?_captureBody, Dict.get?, Json.dumps_eq_text]

theorem shown_clock (clock : Clock) :
    shown (orEmpty (some (canonical clock.value))) = some (.shows clock.measuredUNs?) := by
  have hfield : field? "measured_u_ns" (canonical clock.value) =
      some (canonical (clock.measuredUNs?.elim .null .int)) := by
    rw [Clock.value, Json.field?_record (by simpa using clock.nodup)]
    simp [Dict.get?]
  obtain ⟨ms, hms⟩ : ∃ ms, canonical clock.value = .obj ms := ⟨_, by rw [Clock.value, record, canonical]⟩
  rw [hms] at hfield ⊢
  have htruthy : (Canonical.obj ms).truthy = true := by
    cases ms with
    | nil => cases hfield
    | cons m ms => rfl
  rw [orEmpty, if_pos htruthy, shown, hfield]
  cases clock.measuredUNs? <;> simp [canonical]

section Read

variable {Payload Key : Type} {key : String → Key}
  {mac : Key → Body String String String → String} {eventHash : BoundClaim Payload → String}
  {claim : BoundClaim Payload} {tier : String}

theorem field?_receiptValue (r : SignedReceipt String String String String) (k : String) :
    field? k (canonical (receiptValue r)) =
      (Dict.get? [("body", captureBody r.body), ("mac", text r.mac)] k).map canonical :=
  Json.field?_record (by simp) k

theorem isWellFormed_receiptValue (r : SignedReceipt String String String String) :
    isWellFormed (canonical (receiptValue r)) = true := by
  simp [isWellFormed, hasField, field?_receiptValue, field?_captureBody, Dict.get?]

/-- **The thread finds what the responder put into its answer.** -/
theorem readAnswer_message (e : Exchange) :
    readAnswer (canonical (e.message key mac eventHash claim tier)) =
      some (e.toStamp.reply key mac eventHash claim tier) := by
  have hfield : ∀ k, field? k (canonical (e.message key mac eventHash claim tier)) = _ :=
    Json.field?_record (by simp)
  obtain ⟨ms, hms⟩ : ∃ ms, canonical (e.message key mac eventHash claim tier) = .obj ms :=
    ⟨_, by rw [Exchange.message, record, canonical]⟩
  rw [hms] at hfield ⊢
  rw [readAnswer]
  simp only [hfield]
  simp [Dict.get?, shown_clock, isWellFormed_receiptValue, field?_receiptValue,
    readBody_captureBody]
  rfl

end Read

/-! ## Honest nodes -/

section Honest

variable {Payload Key : Type}

/-- A registered node whose clock is right within the budget it shows, and which the emission can have
reached when it did. -/
structure Stamp.Honest (reg : List (String × Node String)) (claim : BoundClaim Payload)
    (stamp : Stamp) : Prop where
  registered : Dict.get? reg stamp.nodeId = some stamp.node
  right : ∃ u a, stamp.clockPre.measuredUNs? = some u ∧
    causallyAdmissible claim.t0Ns claim.p0Nm a stamp.node.posNm = true ∧ |stamp.recvTimeNs - a| ≤ u

variable (key : String → Key) (mac : Key → Body String String String → String)
  (eventHash : BoundClaim Payload → String) (loads : List UInt8 → Option Canonical)
  (reg : List (String × Node String)) (claim : BoundClaim Payload) (tier : String)

/-- The network may cut the message and lose its end, and `json.loads` reads it when it is whole. -/
structure Exchange.Honest (e : Exchange) : Prop extends e.toStamp.Honest reg claim where
  cut : [] ∉ e.chunks
  sent : e.chunks.flatten ++ e.lost = Wire.sendJsonLine (e.message key mac eventHash claim tier)
  read : loads (Wire.encode (Json.dumps .compact (e.message key mac eventHash claim tier))) =
    some (canonical (e.message key mac eventHash claim tier))

/-- A run of the emitter with these responders. -/
def honestRun (self? : Option Stamp) (exchanges : List Exchange) :
    Option (EmitterRun String String String) := do
  let responders ← exchanges.mapM fun e => (replyOf loads e.chunks).map (e.nodeId, ·)
  return { self? := self?.map fun own => (own.nodeId, own.reply key mac eventHash claim tier)
           responders }

/-- The run that is to be expected. -/
def heardRun (self? : Option Stamp) (exchanges : List Exchange) :
    EmitterRun String String String where
  self? := self?.map fun own => (own.nodeId, own.reply key mac eventHash claim tier)
  responders := exchanges.map fun e => (e.nodeId, e.reply key mac eventHash claim tier)

/-- The nodes that are heard. -/
def heard (self? : Option Stamp) (exchanges : List Exchange) : List Stamp :=
  self?.toList ++
    (exchanges.filter fun e => e.Whole key mac eventHash claim tier).map Exchange.toStamp

variable {key mac eventHash loads reg claim tier}

/-- A message that is not whole is an error of the transport. -/
theorem replyOf_honest {e : Exchange} (h : e.Honest key mac eventHash loads reg claim tier) :
    replyOf loads e.chunks = some (e.reply key mac eventHash claim tier) := by
  have hline := Wire.recvJsonLine_sent (e.message key mac eventHash claim tier) h.cut h.sent
  unfold replyOf Exchange.reply
  by_cases hlost : e.lost = []
  · have hsent := h.sent
    rw [hlost, List.append_nil] at hsent
    rw [hsent, if_pos hlost] at hline
    by_cases hlong : Wire.maxMessage <
        (Wire.sendJsonLine (e.message key mac eventHash claim tier)).length
    · rw [if_pos hlong] at hline
      rw [hline, if_neg fun hwhole => absurd hwhole.2 (not_le.mpr hlong)]
    · rw [if_neg hlong] at hline
      rw [hline, if_pos ⟨hlost, not_lt.mp hlong⟩]
      dsimp only
      rw [h.read]
      exact readAnswer_message e
  · rw [if_neg fun hwhole => hlost hwhole.1]
    rw [if_neg hlost] at hline
    split at hline <;> rw [hline]

variable {self? : Option Stamp} {exchanges : List Exchange}

theorem honestRun_eq
    (hex : ∀ e ∈ exchanges, e.Honest key mac eventHash loads reg claim tier) :
    honestRun key mac eventHash loads claim tier self? exchanges =
      some (heardRun key mac eventHash claim tier self? exchanges) := by
  have hmap : exchanges.mapM (fun e => (replyOf loads e.chunks).map (e.nodeId, ·)) =
      some (exchanges.map fun e => (e.nodeId, e.reply key mac eventHash claim tier)) := by
    induction exchanges with
    | nil => rfl
    | cons e exchanges ih =>
        rw [List.forall_mem_cons] at hex
        rw [List.mapM_cons, replyOf_honest hex.1, ih hex.2]
        rfl
  rw [honestRun, hmap]
  rfl

/-- What is recorded is the reply of a node that is heard, or an error. -/
theorem mem_answers {answer : String × Reply String String String}
    (h : answer ∈ (heardRun key mac eventHash claim tier self? exchanges).answers) :
    (∃ stamp ∈ heard key mac eventHash claim tier self? exchanges,
      answer = (stamp.nodeId, stamp.reply key mac eventHash claim tier)) ∨
      answer.2 = .error .transport := by
  unfold EmitterRun.answers heardRun at h
  dsimp only at h
  rw [List.mem_append, Option.toList_map, List.mem_map, List.mem_map] at h
  rcases h with ⟨stamp, hstamp, rfl⟩ | ⟨e, he, rfl⟩
  · exact Or.inl ⟨stamp, List.mem_append_left _ hstamp, rfl⟩
  · by_cases hwhole : e.Whole key mac eventHash claim tier
    · refine Or.inl ⟨e.toStamp, List.mem_append_right _ ?_, by rw [Exchange.reply, if_pos hwhole]⟩
      exact List.mem_map_of_mem (List.mem_filter.mpr ⟨he, decide_eq_true hwhole⟩)
    · exact Or.inr (if_neg hwhole)

theorem filterMap_receipt?_answers :
    ((heardRun key mac eventHash claim tier self? exchanges).answers.filterMap
        fun answer => answer.2.receipt?) =
      (heard key mac eventHash claim tier self? exchanges).map
        (Stamp.receipt key mac eventHash claim tier) := by
  have hothers : ((exchanges.map fun e => (e.nodeId, e.reply key mac eventHash claim tier)).filterMap
      fun answer => answer.2.receipt?) =
        ((exchanges.filter fun e => e.Whole key mac eventHash claim tier).map
          Exchange.toStamp).map (Stamp.receipt key mac eventHash claim tier) := by
    induction exchanges with
    | nil => rfl
    | cons e exchanges ih =>
        rw [List.map_cons, List.filterMap_cons, Exchange.reply]
        by_cases hwhole : e.Whole key mac eventHash claim tier
        · rw [if_pos hwhole, List.filter_cons_of_pos (by simpa using hwhole)]
          exact congrArg (_ :: ·) ih
        · rw [if_neg hwhole, List.filter_cons_of_neg (by simpa using hwhole)]
          exact ih
  unfold EmitterRun.answers heardRun heard
  rw [List.filterMap_append, hothers, List.map_append]
  cases self? <;> rfl

/-- The receipt of an honest node stands. -/
theorem Stamp.Honest.stands {stamp : Stamp} (h : stamp.Honest reg claim) :
    Stands key mac eventHash reg claim (stamp.receipt key mac eventHash claim tier) := by
  obtain ⟨u, a, hu, ha, hclock⟩ := h.right
  refine ⟨u, stamp.node, verifySigned_sign key mac _, hu, h.registered, rfl, rfl, ?_⟩
  rw [causallyAdmissible_iff_minLightTime] at ha ⊢
  have hle : a ≤ stamp.recvTimeNs + u := by
    have habs := (abs_le.mp hclock).1
    omega
  have hbody : (stamp.receipt key mac eventHash claim tier).body.recvTimeNs = stamp.recvTimeNs := rfl
  rw [hbody]
  omega

/-- Of distinct honest nodes, all receipts stand and no budget is put beside a signed one. -/
theorem honest_stands {answers : List (String × Reply String String String)}
    (hnodup : ((heard key mac eventHash claim tier self? exchanges).map Stamp.nodeId).Nodup)
    (hheard : ∀ stamp ∈ heard key mac eventHash claim tier self? exchanges, stamp.Honest reg claim)
    (hmem : ∀ answer ∈ answers,
      answer ∈ (heardRun key mac eventHash claim tier self? exchanges).answers) :
    (∀ answer ∈ answers, ∀ r, answer.2.receipt? = some r →
      Stands key mac eventHash reg claim r) ∧
    ∀ answer ∈ answers, ∀ t, answer.2.budget? = some t →
      ∀ other ∈ answers, ∀ r, other.2.receipt? = some r → r.body.nodeId = answer.1 →
        r.body.measuredUNs? = some t := by
  constructor
  · intro answer hanswer r hr
    rcases mem_answers (hmem answer hanswer) with ⟨stamp, hstamp, rfl⟩ | herror
    · cases hr
      exact (hheard stamp hstamp).stands
    · rw [herror] at hr
      cases hr
  · intro answer hanswer t ht other hother r hr hname
    rcases mem_answers (hmem answer hanswer) with ⟨stamp, hstamp, rfl⟩ | herror
    · rcases mem_answers (hmem other hother) with ⟨stamp', hstamp', rfl⟩ | herror
      · cases hr
        obtain rfl : stamp' = stamp := List.inj_on_of_nodup_map hnodup hstamp' hstamp hname
        obtain ⟨u, -, hu, -⟩ := (hheard stamp' hstamp).right
        have hbudget : (stamp'.reply key mac eventHash claim tier).budget? = some u := by
          simp [Stamp.reply, Reply.budget?, Stamp.receipt, measureNow, sign, hu]
        rw [hbudget] at ht
        cases ht
        exact hu
      · rw [herror] at hr
        cases hr
    · rw [herror] at ht
      cases ht

/-- Nothing speaks against honest nodes but that fewer than three are heard. -/
theorem vouched_honest_iff
    (hnodup : ((heard key mac eventHash claim tier self? exchanges).map Stamp.nodeId).Nodup)
    (hheard : ∀ stamp ∈ heard key mac eventHash claim tier self? exchanges, stamp.Honest reg claim) :
    Vouched key mac eventHash reg claim
        (heardRun key mac eventHash claim tier self? exchanges).answers ↔
      3 ≤ (heard key mac eventHash claim tier self? exchanges).length := by
  have hreceipts : ((heardRun key mac eventHash claim tier self? exchanges).answers.filterMap
      fun answer => answer.2.receipt?) = (heard key mac eventHash claim tier self? exchanges).map
        (Stamp.receipt key mac eventHash claim tier) := filterMap_receipt?_answers
  constructor
  · intro h
    have hthree := h.three
    rwa [hreceipts, List.length_map] at hthree
  · intro hthree
    obtain ⟨hstands, hagrees⟩ := honest_stands hnodup hheard fun answer hanswer => hanswer
    refine ⟨?_, ?_, ?_, hstands, hagrees⟩
    · rwa [hreceipts, List.length_map]
    · rw [hreceipts, List.map_map]
      exact hnodup
    · intro answer hanswer budget? hreply
      rcases mem_answers hanswer with ⟨stamp, -, rfl⟩ | herror
      · cases hreply
      · rw [herror] at hreply
        cases hreply

/-- The report on what was collected of honest nodes, in whatever order. -/
theorem honest_report {answers : List (String × Reply String String String)}
    (hasked : (answers.map Prod.fst).Nodup) (htier : (tiers tier).isSome)
    (hnodup : ((heard key mac eventHash claim tier self? exchanges).map Stamp.nodeId).Nodup)
    (hheard : ∀ stamp ∈ heard key mac eventHash claim tier self? exchanges, stamp.Honest reg claim)
    (hperm : answers.Perm (heardRun key mac eventHash claim tier self? exchanges).answers) :
    ∃ report, liveRun key mac eventHash reg ((Collected.ofAnswers answers).capture claim tier) =
        .ok report ∧
      (report.result.perReceipt.map Prod.fst).Perm
        ((heard key mac eventHash claim tier self? exchanges).map Stamp.nodeId) ∧
      ∀ p ∈ report.result.perReceipt, p.2.verdict ≠ .rejected := by
  have hcaptured : ((Collected.ofAnswers answers).capture claim tier).receipts =
      answers.filterMap fun answer => answer.2.receipt? := receipts_capture answers
  have hreceipts : ((Collected.ofAnswers answers).capture claim tier).receipts.Perm
      ((heard key mac eventHash claim tier self? exchanges).map
        (Stamp.receipt key mac eventHash claim tier)) := by
    rw [hcaptured, ← filterMap_receipt?_answers]
    exact hperm.filterMap _
  have hids := hreceipts.map fun r => r.body.nodeId
  rw [List.map_map] at hids
  have hstands := (capture_stands_iff hasked).mpr
    (honest_stands hnodup hheard fun answer hanswer => hperm.mem_iff.mp hanswer)
  rw [← hcaptured] at hstands
  obtain ⟨report, hreport, -, hnodes, hverdicts, -⟩ := liveRun_of_stands rfl
    (by rwa [tierOf_capture htier]) (hids.nodup_iff.mpr hnodup) hstands
  exact ⟨report, hreport, hnodes ▸ hids, hverdicts⟩

/-- **Honest nodes are never rejected, and three that are heard are enough.** When no node is asked
twice, whatever messages the network cuts or loses and in whatever order the threads end, the report
is on the nodes that were heard and rejects none of them; the capture is certified just when they are
three at least. -/
theorem honest_collection
    (hnames : ((self?.toList ++ exchanges.map Exchange.toStamp).map Stamp.nodeId).Nodup)
    (htier : (tiers tier).isSome) (hself : ∀ own ∈ self?, own.Honest reg claim)
    (hex : ∀ e ∈ exchanges, e.Honest key mac eventHash loads reg claim tier) :
    ∃ run, honestRun key mac eventHash loads claim tier self? exchanges = some run ∧
      ∀ (as : List (Fin run.responders.length)) (s : Collecting String String String _),
        (emitter run).run as = some s → s.running = ∅ →
        ((∃ cert, s.collected.verify key mac eventHash reg claim tier = .ok cert) ↔
          3 ≤ (heard key mac eventHash claim tier self? exchanges).length) ∧
        ∃ report, liveRun key mac eventHash reg (s.collected.capture claim tier) = .ok report ∧
          (report.result.perReceipt.map Prod.fst).Perm
            ((heard key mac eventHash claim tier self? exchanges).map Stamp.nodeId) ∧
          ∀ p ∈ report.result.perReceipt, p.2.verdict ≠ .rejected := by
  have hheard : ∀ stamp ∈ heard key mac eventHash claim tier self? exchanges,
      stamp.Honest reg claim := by
    intro stamp hstamp
    rcases List.mem_append.mp hstamp with hown | hother
    · exact hself stamp (Option.mem_toList.mp hown)
    · obtain ⟨e, he, rfl⟩ := List.mem_map.mp hother
      exact (hex e (List.mem_of_mem_filter he)).toHonest
  have hnodup : ((heard key mac eventHash claim tier self? exchanges).map Stamp.nodeId).Nodup := by
    refine List.Nodup.sublist (List.Sublist.map _ ?_) hnames
    exact (List.Sublist.refl _).append (List.filter_sublist.map _)
  have hasked : ((heardRun key mac eventHash claim tier self? exchanges).answers.map
      Prod.fst).Nodup := by
    have hsame : (heardRun key mac eventHash claim tier self? exchanges).answers.map Prod.fst =
        (self?.toList ++ exchanges.map Exchange.toStamp).map Stamp.nodeId := by
      unfold EmitterRun.answers heardRun
      cases self? <;> simp
    rw [hsame]
    exact hnames
  refine ⟨_, honestRun_eq hex, fun as s h hdone => ⟨?_, ?_⟩⟩
  · rw [ofRun_certified_iff hasked htier h hdone]
    exact vouched_honest_iff hnodup hheard
  · have hperm := answers_perm h hdone
    rw [(emitter_run h).2.2]
    exact honest_report ((hperm.map Prod.fst).nodup_iff.mpr hasked) htier hnodup hheard hperm

end Honest

/-! ### Three of four nodes -/

/-- A tag that shows its key and what it is of. -/
def openTag (key : String) (body : Body String String String) : String :=
  key ++ " " ++ body.eventHash ++ " " ++ String.ofList (Codes.decimal body.recvTimeNs)

def openHash (claim : BoundClaim String) : String :=
  claim.payloadHash ++ " " ++ String.ofList (Codes.decimal claim.t0Ns)

def homeClaim : BoundClaim String := ⟨"7", 0, ⟨0, 0, 0⟩⟩

/-- A node on the axis, whose clock shows a little more after it has signed. -/
def stampOf (nodeId : String) (x recvTimeNs u : Int) : Stamp where
  nodeId := nodeId
  node := ⟨⟨x, 0, 0⟩, 50000, "PTP"⟩
  recvTimeNs := recvTimeNs
  clockPre := { measuredUNs? := some u, others := [("available", .bool true)] }
  clockPost := { measuredUNs? := some (u + 1), others := [("available", .bool true)] }

/-- The stream of its message is cut after nine bytes, and goes on or does not. -/
def cutExchange (stamp : Stamp) (goesOn : Bool) : Exchange :=
  let e : Exchange :=
    { toStamp := stamp, netInNs := stamp.recvTimeNs - 1, host := "10.0.0.4", port := 9753
      chunks := [] }
  let line := Wire.sendJsonLine (e.message id openTag openHash homeClaim "PTP")
  if goesOn then { e with chunks := [line.take 9, line.drop 9] }
  else { e with chunks := [line.take 9], lost := line.drop 9 }

def homeStamp : Stamp := stampOf "home" 0 5 30

/-- The answer of the third node is lost. -/
def cutExchanges : List Exchange :=
  [cutExchange (stampOf "west" 300000000000 2000 40) true,
    cutExchange (stampOf "east" 600000000000 4000 60) true,
    cutExchange (stampOf "north" 900000000000 6000 80) false]

def homeNodes : List (String × Node String) :=
  (homeStamp :: cutExchanges.map Exchange.toStamp).map fun stamp => (stamp.nodeId, stamp.node)

/-- `json.loads`, of the lines that are sent. -/
def loadsCut (line : List UInt8) : Option Canonical :=
  (cutExchanges.map fun e => e.message id openTag openHash homeClaim "PTP").findSome? fun message =>
    if Wire.encode (Json.dumps .compact message) = line then some (canonical message) else none

/-- What is sent is read. -/
theorem loadsCut_message {e : Exchange} (he : e ∈ cutExchanges) :
    loadsCut (Wire.encode (Json.dumps .compact (e.message id openTag openHash homeClaim "PTP"))) =
      some (canonical (e.message id openTag openHash homeClaim "PTP")) := by
  unfold loadsCut
  obtain ⟨x, hx⟩ : ∃ x, (cutExchanges.map fun e => e.message id openTag openHash homeClaim
      "PTP").findSome? (fun message => if Wire.encode (Json.dumps .compact message) =
        Wire.encode (Json.dumps .compact (e.message id openTag openHash homeClaim "PTP"))
        then some (canonical message) else none) = some x := by
    rw [← Option.isSome_iff_exists, List.findSome?_isSome_iff]
    exact ⟨_, List.mem_map_of_mem he, by simp⟩
  rw [hx]
  obtain ⟨message, -, hmessage⟩ := List.exists_of_findSome?_eq_some hx
  split at hmessage
  · next heq =>
      rw [Wire.line_eq_iff] at heq
      rw [← heq]
      exact hmessage.symm
  · cases hmessage

theorem cutExchange_sent (stamp : Stamp) (goesOn : Bool) :
    (cutExchange stamp goesOn).chunks.flatten ++ (cutExchange stamp goesOn).lost =
      Wire.sendJsonLine ((cutExchange stamp goesOn).message id openTag openHash homeClaim "PTP") := by
  cases goesOn
  · simp only [cutExchange, Bool.false_eq_true, if_false, List.flatten_cons, List.flatten_nil,
      List.append_nil, List.take_append_drop]
    rfl
  · simp only [cutExchange, if_true, List.flatten_cons, List.flatten_nil, List.append_nil,
      List.take_append_drop]
    rfl

theorem cutExchanges_honest : ∀ e ∈ cutExchanges,
    e.Honest id openTag openHash loadsCut homeNodes homeClaim "PTP" := by
  have hright : ∀ e ∈ cutExchanges, e.toStamp.Honest homeNodes homeClaim := by
    simp only [cutExchanges, List.forall_mem_cons]
    refine ⟨⟨rfl, 40, 2000, rfl, by decide, by decide⟩, ⟨rfl, 60, 4000, rfl, by decide, by decide⟩,
      ⟨rfl, 80, 6000, rfl, by decide, by decide⟩, List.forall_mem_nil _⟩
  have hcut : ∀ e ∈ cutExchanges, [] ∉ e.chunks := by decide +kernel
  have hsent : ∀ e ∈ cutExchanges, e.chunks.flatten ++ e.lost =
      Wire.sendJsonLine (e.message id openTag openHash homeClaim "PTP") := by
    simp only [cutExchanges, List.forall_mem_cons]
    exact ⟨cutExchange_sent _ _, cutExchange_sent _ _, cutExchange_sent _ _, List.forall_mem_nil _⟩
  exact fun e he => ⟨hright e he, hcut e he, hsent e he, loadsCut_message he⟩

/-- The second thread ends first, and the third has nothing to record. -/
theorem honest_collection_cut :
    ∃ run as s cert report,
      honestRun id openTag openHash loadsCut homeClaim "PTP" (some homeStamp) cutExchanges =
        some run ∧
      (emitter run).run as = some s ∧
      s.collected.verify id openTag openHash homeNodes homeClaim "PTP" = .ok cert ∧
      liveRun id openTag openHash homeNodes (s.collected.capture homeClaim "PTP") = .ok report ∧
      report.result.perReceipt.length = 3 ∧
      ∀ p ∈ report.result.perReceipt, p.2.verdict ≠ .rejected := by
  have hself : ∀ own ∈ some homeStamp, own.Honest homeNodes homeClaim := by
    rintro own ⟨⟩
    exact ⟨rfl, 30, 5, rfl, by decide, by decide⟩
  have hheard : (heard id openTag openHash homeClaim "PTP" (some homeStamp)
      cutExchanges).length = 3 := by decide +kernel
  obtain ⟨run, hrun, hall⟩ := honest_collection (by decide) (by decide) hself cutExchanges_honest
  obtain rfl : heardRun id openTag openHash homeClaim "PTP" (some homeStamp) cutExchanges = run := by
    rw [honestRun_eq cutExchanges_honest] at hrun
    exact Option.some.inj hrun
  obtain ⟨s, hs, hdone⟩ : ∃ s, (emitter (heardRun id openTag openHash homeClaim "PTP"
      (some homeStamp) cutExchanges)).run [⟨1, by decide⟩, ⟨0, by decide⟩, ⟨2, by decide⟩] = some s ∧
      s.running = ∅ := ⟨_, rfl, by decide⟩
  obtain ⟨hcertified, report, hreport, hperm, hverdicts⟩ := hall _ s hs hdone
  obtain ⟨cert, hcert⟩ := hcertified.mpr hheard.ge
  refine ⟨_, _, s, cert, report, hrun, hs, hcert, hreport, ?_, hverdicts⟩
  have hlength := hperm.length_eq
  rwa [List.length_map, List.length_map, hheard] at hlength

end HorizonProtocol.Attestation.Capture
