import HorizonProtocol.Attestation.LiveCapture
import HorizonProtocol.Schedule

/-!
# Collecting a live capture

`scripts/live_orchestrate.py`: the emitter fixes a claim, asks every responder in a thread of its own,
and puts what comes back into a capture, which `scripts/verify_live.py` then reads. The threads end in
any order, and a reply is whatever the network brings.

* `certified_iff` — what is certified, without the order of the receipts.
* `collection_certified_iff` — every order of the threads ends, and all give the same decision.
-/

namespace HorizonProtocol.Attestation.Capture

/-! ## What is certified -/

section Certified

variable {Payload Id Hash Key Tag : Type} [DecidableEq Tag] [LinearOrder Id]

/-- A registered node, at its surveyed position, signed this claim and a clock budget, and its arrival
is possible for it within that budget. -/
def Stands (key : Id → Key) (mac : Key → Body Id Hash String → Tag)
    (eventHash : BoundClaim Payload → Hash) (reg : List (Id × Node String))
    (claim : BoundClaim Payload) (r : SignedReceipt Id Hash String Tag) : Prop :=
  ∃ u node, verifySigned key mac r = true ∧ r.body.measuredUNs? = some u ∧
    Dict.get? reg r.body.nodeId = some node ∧ r.body.eventHash = eventHash claim ∧
    r.body.nodePosNm = node.posNm ∧
    causallyAdmissible claim.t0Ns claim.p0Nm (r.body.recvTimeNs + u) node.posNm = true

/-- The capture states no other budget for a node than the one it signed. -/
def Agrees (top : List (Id × Int)) (r : SignedReceipt Id Hash String Tag) : Prop :=
  ∀ t, Dict.get? top r.body.nodeId = some t → r.body.measuredUNs? = some t

omit [LinearOrder Id] in
theorem exists_overlayMeasuredU [DecidableEq Id] {tier : String} (htier : (tiers tier).isSome)
    (reg : List (Id × Node String)) (measured : List (Id × Int)) :
    ∃ liveReg, overlayMeasuredU reg measured tier = .ok liveReg := by
  obtain ⟨nominal, hnominal⟩ := Option.isSome_iff_exists.mp htier
  induction reg with
  | nil => exact ⟨[], rfl⟩
  | cons entry reg ih =>
      obtain ⟨rest, hrest⟩ := ih
      have hentry : ∃ entry', overlayNode measured tier entry = .ok entry' := by
        unfold overlayNode
        cases Dict.get? measured entry.1 with
        | some u => exact ⟨_, rfl⟩
        | none =>
            rw [hnominal]
            exact ⟨_, rfl⟩
      obtain ⟨entry', hentry⟩ := hentry
      unfold overlayMeasuredU at hrest ⊢
      refine ⟨entry' :: rest, ?_⟩
      rw [List.mapM_cons, hentry, hrest]
      rfl

variable [DecidableEq Hash] {key : Id → Key} {mac : Key → Body Id Hash String → Tag}
  {eventHash : BoundClaim Payload → Hash} {reg : List (Id × Node String)}
  {capture : LiveCapture Payload Id Hash Tag}

/-- Receipts of distinct nodes that all stand get through: each is reported on, and none is
rejected. -/
theorem liveRun_of_stands (horigin : capture.origin = some "LIVE_CAPTURE")
    (htier : (tiers capture.tierOf).isSome)
    (hdistinct : (capture.receipts.map fun r => r.body.nodeId).Nodup)
    (hstands : ∀ r ∈ capture.receipts, Stands key mac eventHash reg capture.toBoundClaim r ∧
      Agrees capture.measuredUNs r) :
    ∃ run, liveRun key mac eventHash reg capture = .ok run ∧
      run.receiptNodes = receiptNodesOf capture.receipts ∧
      run.result.perReceipt.map Prod.fst = capture.receipts.map (fun r => r.body.nodeId) ∧
      (∀ p ∈ run.result.perReceipt, p.2.verdict ≠ .rejected) ∧
      (capture.receipts ≠ [] → run.result.aggregate ≠ .rejected) := by
  have hsigned : ∀ r ∈ capture.receipts, ∃ u, SignedU key mac capture.measuredUNs r u := by
    intro r hr
    obtain ⟨⟨u, node, hsig, hu, -⟩, hagree⟩ := hstands r hr
    refine ⟨u, hsig, hu, fun t ht => ?_⟩
    exact (Option.some.inj (hu.symm.trans (hagree t ht))).symm
  obtain ⟨liveReg, hover⟩ := exists_overlayMeasuredU htier reg
    (authenticatedMeasuredU key mac capture.receipts [] (receiptNodesOf capture.receipts)).measured
  refine ⟨_, liveRun_eq_ok_iff.mpr ⟨horigin, hsigned, liveReg, _, rfl, hover, rfl⟩, rfl, ?_⟩
  by_cases hnil : capture.receipts = []
  · have hnone : (verifyCapture key mac eventHash
        { capture := capture.toSignedCapture, registry := Dict.get? liveReg
          requiredNodeIds := some (receiptNodesOf capture.receipts) }).perReceipt = [] := by
      simp [verifyCapture, hnil]
    dsimp only
    rw [hnone, hnil]
    exact ⟨rfl, List.forall_mem_nil _, fun h => absurd rfl h⟩
  · have hproper : ProperNodes
        { capture := capture.toSignedCapture, registry := Dict.get? liveReg
          requiredNodeIds := some (receiptNodesOf capture.receipts) } := by
      refine ⟨hnil, hdistinct, ?_⟩
      rintro ids ⟨⟩
      ext nid
      simp [receiptNodesOf]
    have haccepts : Accepts key mac eventHash
        { capture := capture.toSignedCapture, registry := Dict.get? liveReg
          requiredNodeIds := some (receiptNodesOf capture.receipts) } := by
      refine accepts_iff.mpr ⟨hproper, fun r hr => ?_⟩
      obtain ⟨⟨u, node, hsig, hu, hreg, hbound, hpos, hpossible⟩, -⟩ := hstands r hr
      have hmeasured : Dict.get? (authenticatedMeasuredU key mac capture.receipts []
          (receiptNodesOf capture.receipts)).measured r.body.nodeId = some u := by
        rw [← authenticatedMeasuredU_eq_bare hsigned]
        exact get?_measured hsigned hdistinct hr hu
      refine ⟨{ node with tier := capture.tierOf, uNs := u }, hsig, ?_, hbound, hpos, hpossible⟩
      dsimp only
      rw [get?_overlayMeasuredU hover hmeasured, hreg]
      rfl
    refine ⟨?_, verdict_ne_of_accepts haccepts, fun _ => haccepts⟩
    dsimp only
    rw [verifyCapture_eq_of_proper hproper, List.map_map]
    rfl

/-- **A live capture is certified** just when it has receipts of three distinct nodes at least, and
every one stands. The order of the receipts has no part in it. -/
theorem certified_iff (horigin : capture.origin = some "LIVE_CAPTURE")
    (htier : (tiers capture.tierOf).isSome) :
    (∃ cert, verifyLive key mac eventHash reg capture = .ok cert) ↔
      3 ≤ capture.receipts.length ∧ (capture.receipts.map fun r => r.body.nodeId).Nodup ∧
      ∀ r ∈ capture.receipts, Stands key mac eventHash reg capture.toBoundClaim r ∧
        Agrees capture.measuredUNs r := by
  have hlength : (capture.receipts.map fun r => r.body.nodeId).Nodup →
      (receiptNodesOf capture.receipts).length = capture.receipts.length := by
    intro hnodup
    rw [receiptNodesOf, hnodup.dedup, List.length_map]
  rw [verifyLive_ok_iff]
  constructor
  · rintro ⟨run, hrun, hagg, hthree⟩
    obtain ⟨-, hsigned, liveReg, uMeta, humeta, hover, rfl⟩ := liveRun_eq_ok_iff.mp hrun
    obtain ⟨hproper, hcounts⟩ := accepts_iff.mp hagg
    refine ⟨(hlength hproper.distinct).symm ▸ hthree, hproper.distinct, fun r hr => ?_⟩
    obtain ⟨node', hcount⟩ := hcounts r hr
    obtain ⟨u, hu⟩ := hsigned r hr
    have hmeasured : Dict.get? uMeta.measured r.body.nodeId = some u := by
      rw [humeta, ← authenticatedMeasuredU_eq_bare hsigned]
      exact get?_measured hsigned hproper.distinct hr hu.2.1
    have hnode := hcount.registered
    dsimp only at hnode
    rw [get?_overlayMeasuredU hover hmeasured, Option.map_eq_some_iff] at hnode
    obtain ⟨node, hreg, rfl⟩ := hnode
    refine ⟨⟨u, node, hu.1, hu.2.1, hreg, hcount.bound, hcount.surveyed, hcount.possible⟩, ?_⟩
    intro t ht
    rw [hu.2.2 t ht, hu.2.1]
  · rintro ⟨hthree, hdistinct, hstands⟩
    obtain ⟨run, hrun, hnodes, -, -, hagg⟩ := liveRun_of_stands horigin htier hdistinct hstands
    refine ⟨run, hrun, hagg ?_, ?_⟩
    · rintro hnil
      simp [hnil] at hthree
    · rw [hnodes, hlength hdistinct]
      exact hthree

end Certified

/-! ## The emitter -/

/-- Why the emitter reports an error for a responder: it got an answer other than a RECEIPT, or an
`OSError` or `ValueError` on the way. -/
inductive ReplyError where
  | notReceipt
  | transport
  deriving DecidableEq

/-- What is found under `measured_u_ns` in a part of an answer. -/
inductive Shown where
  | shows (uNs? : Option Int)
  /-- The part is no object: `AttributeError`. -/
  | noObject
  deriving DecidableEq

/-- What the query of a responder comes to. -/
inductive Reply (Id Hash Tag : Type) where
  /-- A RECEIPT. The thread is gone before it enters a budget when the clock is no object. -/
  | receipt (r : SignedReceipt Id Hash String Tag) (clockAfter : Shown)
  /-- A RECEIPT whose receipt lacks its body or MAC, or the node, the place, the hash or the time. It
  is appended all the same, with the budget there is for its node. -/
  | illFormed (budget? : Option Int)
  | error (e : ReplyError)
  /-- An answer that is no object (`TypeError`), or a RECEIPT without a receipt (`KeyError`): the
  thread is gone without a trace. -/
  | malformed

/-- What the threads share. -/
structure Collected (Id Hash Tag : Type) where
  /-- `none` is an ill-formed one. -/
  receipts : List (Option (SignedReceipt Id Hash String Tag)) := []
  measuredUNs : List (Id × Int) := []
  errors : List (Id × ReplyError) := []

section Collect

variable {Payload Id Hash Tag : Type}

def Reply.receipt? : Reply Id Hash Tag → Option (SignedReceipt Id Hash String Tag)
  | .receipt r _ => some r
  | _ => none

/-- What is appended to the receipts. -/
def Reply.recorded? : Reply Id Hash Tag → Option (Option (SignedReceipt Id Hash String Tag))
  | .receipt r _ => some (some r)
  | .illFormed _ => some none
  | _ => none

/-- The budget in the body of the receipt, or else the one the clock shows after it. -/
def Reply.budget? : Reply Id Hash Tag → Option Int
  | .receipt r (.shows uNs?) => r.body.measuredUNs? <|> uNs?
  | .illFormed budget? => budget?
  | _ => none

def Reply.error? : Reply Id Hash Tag → Option ReplyError
  | .error e => some e
  | _ => none

/-- What `_one` does under the lock, with the reply for its node; `run_emitter` does the same with
its own receipt. -/
def Collected.record [DecidableEq Id] (c : Collected Id Hash Tag) (nid : Id)
    (reply : Reply Id Hash Tag) : Collected Id Hash Tag :=
  match reply with
  | .receipt r clockAfter =>
      let c := { c with receipts := c.receipts ++ [some r] }
      match clockAfter with
      | .noObject => c
      | .shows uNs? =>
          match r.body.measuredUNs? with
          | some u => { c with measuredUNs := Dict.set c.measuredUNs nid u }
          | none =>
              match uNs? with
              | some u => { c with measuredUNs := Dict.set c.measuredUNs nid u }
              | none => c
  | .illFormed budget? =>
      { c with
        receipts := c.receipts ++ [none]
        measuredUNs :=
          match budget? with
          | some u => Dict.set c.measuredUNs nid u
          | none => c.measuredUNs }
  | .error e => { c with errors := c.errors ++ [(nid, e)] }
  | .malformed => c

/-- The capture that is written, as far as it is read again, of its well-formed receipts. -/
def Collected.capture (c : Collected Id Hash Tag) (claim : BoundClaim Payload) (tier : String) :
    LiveCapture Payload Id Hash Tag where
  toBoundClaim := claim
  cEff? := some (3, 5)
  receipts := c.receipts.reduceOption
  origin := some "LIVE_CAPTURE"
  tierNominal? := some tier
  measuredUNs := c.measuredUNs

/-- What stops `verify_live` on what was collected. -/
inductive CollectedStop (Id : Type) where
  /-- It raises on an ill-formed receipt (`KeyError`), or refuses it before. -/
  | illFormed
  | live (stop : LiveStop Id)

/-- `scripts/verify_live.py` on the capture that is written. -/
def Collected.verify {Key : Type} [DecidableEq Hash] [DecidableEq Tag] [LinearOrder Id]
    (key : Id → Key) (mac : Key → Body Id Hash String → Tag)
    (eventHash : BoundClaim Payload → Hash) (reg : List (Id × Node String))
    (c : Collected Id Hash Tag) (claim : BoundClaim Payload) (tier : String) :
    Except (CollectedStop Id) (LiveCertificate Id) :=
  if c.receipts.any Option.isNone then .error .illFormed
  else (verifyLive key mac eventHash reg (c.capture claim tier)).mapError .live

/-- A run of the emitter: its own receipt, unless it is told to give none, and the responders with
what comes of their queries. -/
structure EmitterRun (Id Hash Tag : Type) where
  self? : Option (Id × Reply Id Hash Tag)
  responders : List (Id × Reply Id Hash Tag)

/-- The threads that have not recorded their reply, and what the others have. -/
structure Collecting (Id Hash Tag : Type) (n : Nat) where
  running : Finset (Fin n)
  collected : Collected Id Hash Tag

variable [DecidableEq Id]

/-- `run_emitter`, from the start of the threads until all are joined. -/
def emitter (run : EmitterRun Id Hash Tag) :
    Schedule (Collecting Id Hash Tag run.responders.length) (Fin run.responders.length) where
  init :=
    { running := Finset.univ
      collected := run.self?.elim {} fun own => Collected.record {} own.1 own.2 }
  step s i :=
    if i ∈ s.running then
      let answer := run.responders.get i
      some { running := s.running.erase i, collected := s.collected.record answer.1 answer.2 }
    else none

/-! ### In any order -/

def Collected.ofAnswers (answers : List (Id × Reply Id Hash Tag)) : Collected Id Hash Tag :=
  answers.foldl (fun c answer => c.record answer.1 answer.2) {}

theorem Collected.ofAnswers_concat (answers : List (Id × Reply Id Hash Tag))
    (answer : Id × Reply Id Hash Tag) :
    ofAnswers (answers ++ [answer]) = (ofAnswers answers).record answer.1 answer.2 :=
  List.foldl_concat _ _ _ _

theorem Collected.ofAnswers_eq (answers : List (Id × Reply Id Hash Tag)) :
    ofAnswers answers =
      { receipts := answers.filterMap fun answer => answer.2.recorded?
        measuredUNs :=
          Dict.ofPairs (answers.filterMap fun answer => answer.2.budget?.map (answer.1, ·))
        errors := answers.filterMap fun answer => answer.2.error?.map (answer.1, ·) } := by
  induction answers using List.reverseRecOn with
  | nil => rfl
  | append_singleton answers answer ih =>
      obtain ⟨nid, reply⟩ := answer
      rw [ofAnswers_concat, ih]
      cases reply with
      | receipt r clockAfter =>
          cases clockAfter with
          | noObject => simp [record, Reply.recorded?, Reply.budget?, Reply.error?]
          | shows uNs? =>
              cases hu : r.body.measuredUNs? with
              | some u =>
                  simp [record, Reply.recorded?, Reply.budget?, Reply.error?, hu,
                    Dict.ofPairs_concat]
              | none =>
                  cases uNs? <;>
                    simp [record, Reply.recorded?, Reply.budget?, Reply.error?, hu,
                      Dict.ofPairs_concat]
      | illFormed budget? =>
          cases budget? <;>
            simp [record, Reply.recorded?, Reply.budget?, Reply.error?, Dict.ofPairs_concat]
      | error e => simp [record, Reply.recorded?, Reply.budget?, Reply.error?]
      | malformed => simp [record, Reply.recorded?, Reply.budget?, Reply.error?]

omit [DecidableEq Id] in
/-- The well-formed receipts. -/
theorem reduceOption_recorded (answers : List (Id × Reply Id Hash Tag)) :
    (answers.filterMap fun answer => answer.2.recorded?).reduceOption =
      answers.filterMap fun answer => answer.2.receipt? := by
  show (answers.filterMap fun answer => answer.2.recorded?).filterMap id = _
  rw [List.filterMap_filterMap]
  refine List.filterMap_congr fun answer _ => ?_
  cases answer.2 <;> rfl

omit [DecidableEq Id] in
/-- There is an ill-formed receipt where one came. -/
theorem any_isNone_recorded (answers : List (Id × Reply Id Hash Tag)) :
    (answers.filterMap fun answer => answer.2.recorded?).any Option.isNone = true ↔
      ∃ answer ∈ answers, ∃ budget?, answer.2 = .illFormed budget? := by
  simp only [List.any_eq_true, List.mem_filterMap, Option.isNone_iff_eq_none]
  constructor
  · rintro ⟨_, ⟨answer, hanswer, hrecorded⟩, rfl⟩
    refine ⟨answer, hanswer, ?_⟩
    cases hreply : answer.2 with
    | illFormed budget? => exact ⟨budget?, rfl⟩
    | receipt | error | malformed =>
        rw [hreply] at hrecorded
        cases hrecorded
  · rintro ⟨answer, hanswer, budget?, hreply⟩
    exact ⟨none, ⟨answer, hanswer, by rw [hreply]; rfl⟩, rfl⟩

/-- All the replies, the emitter's own with them. -/
def EmitterRun.answers (run : EmitterRun Id Hash Tag) : List (Id × Reply Id Hash Tag) :=
  run.self?.toList ++ run.responders

variable {run : EmitterRun Id Hash Tag}
  {as : List (Fin run.responders.length)} {s : Collecting Id Hash Tag run.responders.length}

/-- After some threads are done, in this order. -/
theorem emitter_run (h : (emitter run).run as = some s) :
    as.Nodup ∧ s.running = Finset.univ \ as.toFinset ∧
      s.collected = .ofAnswers (run.self?.toList ++ as.map run.responders.get) := by
  induction as using List.reverseRecOn generalizing s with
  | nil =>
      obtain rfl : (emitter run).init = s := by simpa using h
      refine ⟨List.nodup_nil, by simp [emitter], ?_⟩
      cases hself : run.self? <;> simp [emitter, hself, Collected.ofAnswers]
  | append_singleton as i ih =>
      rw [Schedule.run_concat] at h
      obtain ⟨r, hr, hstep⟩ := Option.bind_eq_some_iff.mp h
      obtain ⟨hnodup, hrunning, hcollected⟩ := ih hr
      simp only [emitter] at hstep
      split at hstep
      · next hi =>
          cases hstep
          rw [hrunning, Finset.mem_sdiff, List.mem_toFinset] at hi
          refine ⟨?_, ?_, ?_⟩
          · rw [List.nodup_append]
            refine ⟨hnodup, List.nodup_singleton i, fun j hj k hk => ?_⟩
            rw [List.mem_singleton] at hk
            rintro rfl
            exact hi.2 (hk ▸ hj)
          · dsimp only
            rw [hrunning]
            ext j
            simp
          · dsimp only
            rw [hcollected, List.map_append, List.map_singleton, ← List.append_assoc,
              Collected.ofAnswers_concat]
      · cases hstep

/-- When all threads are joined, every reply has been recorded once. -/
theorem answers_perm (h : (emitter run).run as = some s) (hdone : s.running = ∅) :
    (run.self?.toList ++ as.map run.responders.get).Perm run.answers := by
  obtain ⟨hnodup, hrunning, -⟩ := emitter_run h
  have hall : ∀ i, i ∈ as := by
    intro i
    have hi : i ∉ s.running := by simp [hdone]
    simpa [hrunning] using hi
  have hperm : as.Perm (List.finRange run.responders.length) := by
    rw [List.perm_ext_iff_of_nodup hnodup (List.nodup_finRange _)]
    simp [hall]
  have hmap := hperm.map run.responders.get
  rw [List.map_get_finRange] at hmap
  exact hmap.append_left _

end Collect

/-! ## The decision -/

section Decision

variable {Payload Id Hash Key Tag : Type} [DecidableEq Hash] [DecidableEq Tag] [LinearOrder Id]

/-- Three distinct nodes at least gave a receipt, every receipt is whole and stands, and no reply puts
another budget in the place of one that was signed. -/
structure Vouched (key : Id → Key) (mac : Key → Body Id Hash String → Tag)
    (eventHash : BoundClaim Payload → Hash) (reg : List (Id × Node String))
    (claim : BoundClaim Payload) (answers : List (Id × Reply Id Hash Tag)) : Prop where
  three : 3 ≤ (answers.filterMap fun answer => answer.2.receipt?).length
  distinct : ((answers.filterMap fun answer => answer.2.receipt?).map fun r => r.body.nodeId).Nodup
  wellFormed : ∀ answer ∈ answers, ∀ budget?, answer.2 ≠ .illFormed budget?
  stands : ∀ answer ∈ answers, ∀ r, answer.2.receipt? = some r →
    Stands key mac eventHash reg claim r
  agrees : ∀ answer ∈ answers, ∀ t, answer.2.budget? = some t →
    ∀ other ∈ answers, ∀ r, other.2.receipt? = some r → r.body.nodeId = answer.1 →
      r.body.measuredUNs? = some t

variable {key : Id → Key} {mac : Key → Body Id Hash String → Tag}
  {eventHash : BoundClaim Payload → Hash} {reg : List (Id × Node String)}
  {claim : BoundClaim Payload} {tier : String}

omit [DecidableEq Hash] in
theorem Vouched.perm {answers answers' : List (Id × Reply Id Hash Tag)}
    (hperm : answers.Perm answers') (h : Vouched key mac eventHash reg claim answers) :
    Vouched key mac eventHash reg claim answers' := by
  have hreceipts := hperm.filterMap fun answer => answer.2.receipt?
  constructor
  · rw [← hreceipts.length_eq]
    exact h.three
  · exact (hreceipts.map _).nodup_iff.mp h.distinct
  · exact fun answer hanswer => h.wellFormed answer (hperm.mem_iff.mpr hanswer)
  · exact fun answer hanswer => h.stands answer (hperm.mem_iff.mpr hanswer)
  · intro answer hanswer t ht other hother
    exact h.agrees answer (hperm.mem_iff.mpr hanswer) t ht other (hperm.mem_iff.mpr hother)

omit [DecidableEq Hash] [DecidableEq Tag] in
/-- Of distinct names, the map of budgets has for each what came of its own query. -/
theorem get?_ofAnswers {answers : List (Id × Reply Id Hash Tag)}
    (hnames : (answers.map Prod.fst).Nodup) {nid : Id} {t : Int} :
    Dict.get? (Collected.ofAnswers answers).measuredUNs nid = some t ↔
      ∃ answer ∈ answers, answer.1 = nid ∧ answer.2.budget? = some t := by
  have hkeys : ((answers.filterMap fun answer => answer.2.budget?.map (answer.1, ·)).map
      Prod.fst).Nodup := by
    refine List.Nodup.sublist ?_ hnames
    clear hnames
    induction answers with
    | nil => exact List.Sublist.refl _
    | cons answer answers ih =>
        rw [List.filterMap_cons]
        cases answer.2.budget? with
        | none => exact ih.cons _
        | some t => exact ih.cons_cons _
  rw [Collected.ofAnswers_eq, Dict.get?_eq_some (Dict.nodup_keys_ofPairs _),
    Dict.ofPairs_of_nodup hkeys, List.mem_filterMap]
  simp only [Option.map_eq_some_iff, Prod.mk.injEq]
  grind

omit [DecidableEq Hash] [DecidableEq Tag] [LinearOrder Id] in
theorem tierOf_capture (htier : (tiers tier).isSome) (c : Collected Id Hash Tag) :
    (c.capture claim tier).tierOf = tier := by
  have hne : tier ≠ "" := by
    rintro rfl
    exact absurd htier (by decide)
  simp only [LiveCapture.tierOf, Collected.capture, if_neg hne]

omit [DecidableEq Hash] in
/-- What it takes that every receipt of the capture stands. -/
theorem capture_stands_iff {answers : List (Id × Reply Id Hash Tag)}
    (hnames : (answers.map Prod.fst).Nodup) :
    (∀ r ∈ answers.filterMap fun answer => answer.2.receipt?,
      Stands key mac eventHash reg claim r ∧
        Agrees (Collected.ofAnswers answers).measuredUNs r) ↔
      (∀ answer ∈ answers, ∀ r, answer.2.receipt? = some r →
        Stands key mac eventHash reg claim r) ∧
      ∀ answer ∈ answers, ∀ t, answer.2.budget? = some t →
        ∀ other ∈ answers, ∀ r, other.2.receipt? = some r → r.body.nodeId = answer.1 →
          r.body.measuredUNs? = some t := by
  simp only [Agrees, get?_ofAnswers hnames, List.mem_filterMap]
  constructor
  · intro h
    refine ⟨fun answer hanswer r hr => (h r ⟨answer, hanswer, hr⟩).1, ?_⟩
    intro answer hanswer t ht other hother r hr hname
    exact (h r ⟨other, hother, hr⟩).2 t ⟨answer, hanswer, hname.symm, ht⟩
  · rintro ⟨hstands, hagrees⟩ r ⟨answer, hanswer, hr⟩
    refine ⟨hstands answer hanswer r hr, ?_⟩
    rintro t ⟨other, hother, hname, ht⟩
    exact hagrees other hother t ht answer hanswer r hr hname.symm

omit [DecidableEq Hash] [DecidableEq Tag] in
theorem receipts_capture (answers : List (Id × Reply Id Hash Tag)) :
    ((Collected.ofAnswers answers).capture claim tier).receipts =
      answers.filterMap fun answer => answer.2.receipt? := by
  rw [Collected.ofAnswers_eq]
  exact reduceOption_recorded answers

/-- What is certified of the replies that were recorded. -/
theorem ofAnswers_certified_iff {answers : List (Id × Reply Id Hash Tag)}
    (hnames : (answers.map Prod.fst).Nodup) (htier : (tiers tier).isSome) :
    (∃ cert, (Collected.ofAnswers answers).verify key mac eventHash reg claim tier = .ok cert) ↔
      Vouched key mac eventHash reg claim answers := by
  have hrecorded : (Collected.ofAnswers answers).receipts =
      answers.filterMap fun answer => answer.2.recorded? := by
    rw [Collected.ofAnswers_eq]
  have hlive : (∃ cert, verifyLive key mac eventHash reg
      ((Collected.ofAnswers answers).capture claim tier) = .ok cert) ↔ _ :=
    certified_iff rfl (by rwa [tierOf_capture htier])
  rw [receipts_capture] at hlive
  unfold Collected.verify
  rw [hrecorded]
  by_cases hill : ∃ answer ∈ answers, ∃ budget?, answer.2 = .illFormed budget?
  · rw [if_pos ((any_isNone_recorded answers).mpr hill)]
    refine iff_of_false (by simp) fun h => ?_
    obtain ⟨answer, hanswer, budget?, hreply⟩ := hill
    exact h.wellFormed answer hanswer budget? hreply
  · rw [if_neg (mt (any_isNone_recorded answers).mp hill)]
    have hok : (∃ cert, (verifyLive key mac eventHash reg
        ((Collected.ofAnswers answers).capture claim tier)).mapError CollectedStop.live = .ok cert) ↔
        ∃ cert, verifyLive key mac eventHash reg
          ((Collected.ofAnswers answers).capture claim tier) = .ok cert := by
      cases verifyLive key mac eventHash reg
        ((Collected.ofAnswers answers).capture claim tier) <;> simp [Except.mapError]
    rw [hok, hlive]
    constructor
    · rintro ⟨hthree, hdistinct, hall⟩
      obtain ⟨hstands, hagrees⟩ := (capture_stands_iff hnames).mp hall
      exact ⟨hthree, hdistinct,
        fun answer hanswer budget? hreply => hill ⟨answer, hanswer, budget?, hreply⟩, hstands,
        hagrees⟩
    · rintro ⟨hthree, hdistinct, -, hstands, hagrees⟩
      exact ⟨hthree, hdistinct, (capture_stands_iff hnames).mpr ⟨hstands, hagrees⟩⟩

/-- What is certified of a run of the threads. -/
theorem ofRun_certified_iff {run : EmitterRun Id Hash Tag}
    (hnames : (run.answers.map Prod.fst).Nodup) (htier : (tiers tier).isSome)
    {as : List (Fin run.responders.length)} {s : Collecting Id Hash Tag run.responders.length}
    (h : (emitter run).run as = some s) (hdone : s.running = ∅) :
    (∃ cert, s.collected.verify key mac eventHash reg claim tier = .ok cert) ↔
      Vouched key mac eventHash reg claim run.answers := by
  have hperm := answers_perm h hdone
  rw [(emitter_run h).2.2, ofAnswers_certified_iff ((hperm.map Prod.fst).nodup_iff.mpr hnames) htier]
  exact ⟨Vouched.perm hperm, Vouched.perm hperm.symm⟩

/-- **The order of the threads decides nothing.** When no node is asked twice, whatever the network
brings, every order in which the threads go on comes to an end after one step of each; then all
receipts and errors are recorded, each once; and whether the capture is certified depends on the
replies alone. -/
theorem collection_certified_iff {run : EmitterRun Id Hash Tag}
    (hnames : (run.answers.map Prod.fst).Nodup) (htier : (tiers tier).isSome)
    {as : List (Fin run.responders.length)} {s : Collecting Id Hash Tag run.responders.length}
    (h : (emitter run).run as = some s) :
    as.length + s.running.card = run.responders.length ∧
    (∃ bs s', (emitter run).run (as ++ bs) = some s' ∧ s'.running = ∅) ∧
    (s.running = ∅ →
      s.collected.receipts.Perm (run.answers.filterMap fun answer => answer.2.recorded?) ∧
      s.collected.errors.Perm
        (run.answers.filterMap fun answer => answer.2.error?.map (answer.1, ·)) ∧
      ((∃ cert, s.collected.verify key mac eventHash reg claim tier = .ok cert) ↔
        Vouched key mac eventHash reg claim run.answers)) := by
  obtain ⟨hnodup, hrunning, hcollected⟩ := emitter_run h
  refine ⟨?_, ?_, fun hdone => ?_⟩
  · rw [hrunning, Finset.card_sdiff_of_subset (Finset.subset_univ _), Finset.card_univ,
      Fintype.card_fin, List.toFinset_card_of_nodup hnodup]
    have hle : as.toFinset.card ≤ Fintype.card (Fin run.responders.length) := Finset.card_le_univ _
    rw [List.toFinset_card_of_nodup hnodup, Fintype.card_fin] at hle
    omega
  · have hstep : ∀ (s : Collecting Id Hash Tag run.responders.length) i s', True →
        (emitter run).step s i = some s' → True ∧ s'.running.card < s.running.card := by
      intro s i s' _ hstep
      simp only [emitter] at hstep
      split at hstep
      · next hi =>
          cases hstep
          exact ⟨trivial, Finset.card_erase_lt_of_mem hi⟩
      · cases hstep
    refine Schedule.finishes trivial hstep ?_ h
    intro s _ hstuck
    refine Finset.eq_empty_of_forall_notMem fun i hi => ?_
    have hnone := hstuck i
    simp [emitter, hi] at hnone
  · have hperm := answers_perm h hdone
    refine ⟨?_, ?_, ofRun_certified_iff hnames htier h hdone⟩
    · rw [hcollected, Collected.ofAnswers_eq]
      exact hperm.filterMap _
    · rw [hcollected, Collected.ofAnswers_eq]
      exact hperm.filterMap _

end Decision

/-! ### Three nodes -/

/-- The emitter is a node itself, and the two others are those of `liveNodes`. -/
def threeNodes : List (Nat × Node String) := (0, ⟨⟨0, 0, 0⟩, 50000, "PTP"⟩) :: liveNodes

def zeroClaim : BoundClaim Nat := ⟨7, 0, ⟨0, 0, 0⟩⟩

/-- A receipt of what the node signs live. -/
def liveReply (nodeId : Nat) (x recvTimeNs u : Int) :
    Nat × Reply Nat (BoundClaim Nat) (Nat × Body Nat (BoundClaim Nat) String) :=
  (nodeId, .receipt (sign id openLiveMac (liveBody nodeId x recvTimeNs u)) (.shows none))

def threeReplies : EmitterRun Nat (BoundClaim Nat) (Nat × Body Nat (BoundClaim Nat) String) where
  self? := some (liveReply 0 0 5 30)
  responders := [liveReply 1 300000000000 2000 40, liveReply 2 600000000000 4000 60]

/-- The second thread ends first, and the capture of the three is certified. -/
theorem collection_certified_iff_three :
    ∃ s cert, (emitter threeReplies).run [⟨1, by decide⟩, ⟨0, by decide⟩] = some s ∧
      s.collected.verify id openLiveMac id threeNodes zeroClaim "PTP" = .ok cert := by
  obtain ⟨s, hs, hdone⟩ : ∃ s, (emitter threeReplies).run [⟨1, by decide⟩, ⟨0, by decide⟩] =
      some s ∧ s.running = ∅ := ⟨_, rfl, by decide⟩
  have hvouched : Vouched id openLiveMac id threeNodes zeroClaim threeReplies.answers := by
    have hanswers : threeReplies.answers = [liveReply 0 0 5 30, liveReply 1 300000000000 2000 40,
      liveReply 2 600000000000 4000 60] := rfl
    rw [hanswers]
    refine ⟨by decide, by decide, ?_, ?_, ?_⟩
    · simp only [List.forall_mem_cons]
      exact ⟨nofun, nofun, nofun, List.forall_mem_nil _⟩
    · simp only [List.forall_mem_cons]
      refine ⟨?_, ?_, ?_, List.forall_mem_nil _⟩ <;> rintro r ⟨⟩
      · exact ⟨30, ⟨⟨0, 0, 0⟩, 50000, "PTP"⟩, rfl, rfl, rfl, rfl, rfl, by decide⟩
      · exact ⟨40, ⟨⟨300000000000, 0, 0⟩, 50000, "PTP"⟩, rfl, rfl, rfl, rfl, rfl, by decide⟩
      · exact ⟨60, ⟨⟨600000000000, 0, 0⟩, 50000, "PTP"⟩, rfl, rfl, rfl, rfl, rfl, by decide⟩
    · decide
  obtain ⟨cert, hcert⟩ := ((@collection_certified_iff Nat Nat (BoundClaim Nat) Nat _ _ _ _ id
    openLiveMac id threeNodes zeroClaim "PTP" _ (by decide) (by decide) _ s hs).2.2
    hdone).2.2.mpr hvouched
  exact ⟨s, cert, hs, hcert⟩

end HorizonProtocol.Attestation.Capture
