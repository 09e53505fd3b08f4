import HorizonProtocol.Attestation.Capture
import HorizonProtocol.Dict

/-!
# Live captures

`scripts/verify_live.py`: a live capture goes through the unmodified verifier with a registry whose
clock budgets are replaced by what the nodes measured. The budget of a node is read from the receipt
it signed; the map of budgets beside the receipts is not signed and can only have a capture refused.

* `authenticatedMeasuredU_clean_iff` — the captures whose budgets are all signed.
* `liveRun_measuredU_bound` — so a receipt is classified by its own signed budget, and two captures
  that differ in the unsigned map are not told apart.
* `verifyLive_ok_iff` — the runs that are certified.
-/

namespace HorizonProtocol.Attestation.Capture

/-! ## The budgets in the receipts -/

/-- `TIERS`, the nominal clock budget of a synchronization class. -/
def tiers (tier : String) : Option Int :=
  if tier = "NTP" then some 5000000
  else if tier = "PTP" then some 50000
  else if tier = "GNSS" then some 1000
  else none

/-- The budget a receipt carries and the one the capture states for its node. -/
structure TopLevelMismatch where
  body : Int
  capture : Int
  deriving DecidableEq

/-- What stops the verification of a live capture: the refusals, with exit code 2 for `wrongOrigin`
and 1 for the others, and the `KeyError` of a class without a nominal budget. -/
inductive LiveStop (Id : Type) where
  | wrongOrigin (origin : Option String)
  | badMac (nodeIds : List Id)
  | missing (nodeIds : List Id)
  | topLevelMismatch (mismatches : List (Id × TopLevelMismatch))
  | unknownTier (tier : String)
  | rejected
  | failedGates (gates : List String)
  deriving DecidableEq

/-- A capture taken live. An absent map of measured budgets is the empty one. -/
structure LiveCapture (Payload Id Hash Tag : Type) extends
    SignedCapture Payload Id Hash String Tag where
  origin : Option String
  tierNominal? : Option String := none
  measuredUNs : List (Id × Int) := []

/-- The map of budgets and the `meta` about it. -/
structure MeasuredU (Id : Type) where
  measured : List (Id × Int) := []
  usedAuthenticated : List (Id × Int) := []
  missing : List Id := []
  badMac : List Id := []
  topLevelMismatch : List (Id × TopLevelMismatch) := []
  deriving DecidableEq

section Measured

variable {Id Hash Key Tag : Type} [DecidableEq Tag] [LinearOrder Id]

/-- One round of the loop over the receipts. -/
def authenticateReceipt (key : Id → Key) (mac : Key → Body Id Hash String → Tag)
    (receiptNodes : List Id) (top : List (Id × Int)) (st : MeasuredU Id)
    (r : SignedReceipt Id Hash String Tag) : MeasuredU Id :=
  let nid := r.body.nodeId
  if nid ∉ receiptNodes then st
  else if !verifySigned key mac r then { st with badMac := st.badMac ++ [nid] }
  else
    match r.body.measuredUNs? with
    | none => { st with missing := st.missing ++ [nid] }
    | some u =>
        let st := { st with
          measured := Dict.set st.measured nid u
          usedAuthenticated := Dict.set st.usedAuthenticated nid u }
        match Dict.get? top nid with
        | none => st
        | some t =>
            if t ≠ u then
              { st with topLevelMismatch := Dict.set st.topLevelMismatch nid ⟨u, t⟩ }
            else st

/-- One round of the loop over the nodes. -/
def reportMissing (st : MeasuredU Id) (nid : Id) : MeasuredU Id :=
  if nid ∉ st.measured.map Prod.fst ∧ nid ∉ st.badMac ∧ nid ∉ st.missing then
    { st with missing := st.missing ++ [nid] }
  else st

def authenticatedMeasuredU (key : Id → Key) (mac : Key → Body Id Hash String → Tag)
    (receipts : List (SignedReceipt Id Hash String Tag)) (top : List (Id × Int))
    (receiptNodes : List Id) : MeasuredU Id :=
  (receiptNodes.insertionSort (· ≤ ·)).foldl reportMissing
    (receipts.foldl (authenticateReceipt key mac receiptNodes top) {})

/-- There is nothing to refuse. -/
structure MeasuredU.Clean (st : MeasuredU Id) : Prop where
  badMac : st.badMac = []
  missing : st.missing = []
  topLevelMismatch : st.topLevelMismatch = []

/-- The node signed a budget, and the capture states no other. -/
def SignedU (key : Id → Key) (mac : Key → Body Id Hash String → Tag) (top : List (Id × Int))
    (r : SignedReceipt Id Hash String Tag) (u : Int) : Prop :=
  verifySigned key mac r = true ∧ r.body.measuredUNs? = some u ∧
    ∀ t, Dict.get? top r.body.nodeId = some t → t = u

variable {key : Id → Key} {mac : Key → Body Id Hash String → Tag} {receiptNodes : List Id}
  {top : List (Id × Int)} {st : MeasuredU Id} {r : SignedReceipt Id Hash String Tag}
  {receipts : List (SignedReceipt Id Hash String Tag)}

theorem SignedU.bare {u : Int} (h : SignedU key mac top r u) : SignedU key mac [] r u :=
  ⟨h.1, h.2.1, fun _ ht => nomatch ht⟩

/-- A signed budget is entered for its node. -/
theorem authenticateReceipt_of_signedU {u : Int} (hnode : r.body.nodeId ∈ receiptNodes)
    (h : SignedU key mac top r u) :
    authenticateReceipt key mac receiptNodes top st r =
      { st with
        measured := Dict.set st.measured r.body.nodeId u
        usedAuthenticated := Dict.set st.usedAuthenticated r.body.nodeId u } := by
  obtain ⟨hsig, hu, htop⟩ := h
  unfold authenticateReceipt
  dsimp only
  rw [if_neg (not_not.mpr hnode), hsig, hu]
  cases hget : Dict.get? top r.body.nodeId with
  | none => rfl
  | some t =>
      dsimp only
      rw [if_neg (not_not.mpr (htop t hget))]
      rfl

/-- A receipt leaves nothing to refuse just when it carries a signed budget. -/
theorem clean_authenticateReceipt_iff (hnode : r.body.nodeId ∈ receiptNodes) :
    (authenticateReceipt key mac receiptNodes top st r).Clean ↔
      st.Clean ∧ ∃ u, SignedU key mac top r u := by
  by_cases hu : ∃ u, SignedU key mac top r u
  · rw [and_iff_left hu]
    obtain ⟨u, hu⟩ := hu
    rw [authenticateReceipt_of_signedU hnode hu]
    exact ⟨fun h => ⟨h.badMac, h.missing, h.topLevelMismatch⟩,
      fun h => ⟨h.badMac, h.missing, h.topLevelMismatch⟩⟩
  · refine iff_of_false (fun h => hu ?_) fun h => hu h.2
    unfold authenticateReceipt at h
    dsimp only at h
    rw [if_neg (not_not.mpr hnode)] at h
    split at h
    · next hsig => exact absurd h.badMac (by simp)
    · next hsig =>
        rw [Bool.not_eq_true', Bool.not_eq_false] at hsig
        split at h
        · next hnone => exact absurd h.missing (by simp)
        · next u hsome =>
            refine ⟨u, hsig, hsome, fun t ht => ?_⟩
            rw [ht] at h
            dsimp only at h
            split at h
            · next hne => exact absurd h.topLevelMismatch Dict.set_ne_nil
            · next heq => exact not_not.mp heq

theorem clean_foldl_iff (hnodes : ∀ r ∈ receipts, r.body.nodeId ∈ receiptNodes) :
    (receipts.foldl (authenticateReceipt key mac receiptNodes top) st).Clean ↔
      st.Clean ∧ ∀ r ∈ receipts, ∃ u, SignedU key mac top r u := by
  induction receipts generalizing st with
  | nil => simp
  | cons r receipts ih =>
      rw [List.forall_mem_cons] at hnodes
      rw [List.foldl_cons, ih hnodes.2, clean_authenticateReceipt_iff hnodes.1, and_assoc,
        List.forall_mem_cons]

/-- The receipts that carry a signed budget are entered, whatever else the capture states. -/
theorem foldl_eq_of_signedU (hnodes : ∀ r ∈ receipts, r.body.nodeId ∈ receiptNodes)
    (h : ∀ r ∈ receipts, ∃ u, SignedU key mac top r u) :
    receipts.foldl (authenticateReceipt key mac receiptNodes top) st =
      receipts.foldl (authenticateReceipt key mac receiptNodes []) st := by
  refine List.foldl_ext _ _ _ fun st r hr => ?_
  obtain ⟨u, hu⟩ := h r hr
  rw [authenticateReceipt_of_signedU (hnodes r hr) hu,
    authenticateReceipt_of_signedU (hnodes r hr) hu.bare]

/-- The budget in the body of a receipt, for its node. -/
def signedEntry (r : SignedReceipt Id Hash String Tag) : Option (Id × Int) :=
  r.body.measuredUNs?.map fun u => (r.body.nodeId, u)

/-- The map is the dictionary of the budgets in the receipts. -/
theorem measured_foldl (hnodes : ∀ r ∈ receipts, r.body.nodeId ∈ receiptNodes)
    (h : ∀ r ∈ receipts, ∃ u, SignedU key mac top r u) :
    (receipts.foldl (authenticateReceipt key mac receiptNodes top) {}).measured =
      Dict.ofPairs (receipts.filterMap signedEntry) := by
  induction receipts using List.reverseRecOn with
  | nil => rfl
  | append_singleton receipts r ih =>
      rw [List.forall_mem_append, List.forall_mem_singleton] at hnodes h
      obtain ⟨u, hu⟩ := h.2
      have hentry : [r].filterMap signedEntry = [(r.body.nodeId, u)] := by
        simp [signedEntry, hu.2.1]
      rw [List.foldl_concat, authenticateReceipt_of_signedU hnodes.2 hu, List.filterMap_append,
        hentry, Dict.ofPairs_concat, ← ih hnodes.1 h.1]

theorem map_fst_signedEntry (h : ∀ r ∈ receipts, ∃ u, SignedU key mac top r u) :
    (receipts.filterMap signedEntry).map Prod.fst = receipts.map fun r => r.body.nodeId := by
  rw [List.map_filterMap, ← List.filterMap_eq_map]
  refine List.filterMap_congr fun r hr => ?_
  obtain ⟨u, hu⟩ := h r hr
  simp [signedEntry, hu.2.1]

/-- The loop over the nodes only adds to what is missing. -/
theorem foldl_reportMissing_of_missing {nodes : List Id}
    (h : (nodes.foldl reportMissing st).missing = []) : nodes.foldl reportMissing st = st := by
  induction nodes using List.reverseRecOn with
  | nil => rfl
  | append_singleton nodes nid ih =>
      rw [List.foldl_concat, reportMissing] at h ⊢
      split at h
      · simp at h
      · next hnot =>
          rw [if_neg hnot]
          exact ih h

theorem foldl_reportMissing_of_measured {nodes : List Id}
    (h : ∀ nid ∈ nodes, nid ∈ st.measured.map Prod.fst) : nodes.foldl reportMissing st = st := by
  induction nodes with
  | nil => rfl
  | cons nid nodes ih =>
      rw [List.forall_mem_cons] at h
      rw [List.foldl_cons, reportMissing, if_neg fun hnot => hnot.1 h.1]
      exact ih h.2

/-- The set of the nodes that contributed a receipt. -/
def receiptNodesOf (receipts : List (SignedReceipt Id Hash String Tag)) : List Id :=
  (receipts.map fun r => r.body.nodeId).dedup

omit [DecidableEq Tag] in
theorem mem_receiptNodesOf {nid : Id} :
    nid ∈ receiptNodesOf receipts ↔ ∃ r ∈ receipts, r.body.nodeId = nid := by
  simp [receiptNodesOf]

omit [DecidableEq Tag] in
theorem mem_receiptNodesOf_of_mem : ∀ r ∈ receipts, r.body.nodeId ∈ receiptNodesOf receipts :=
  fun r hr => mem_receiptNodesOf.mpr ⟨r, hr, rfl⟩

/-- Of receipts that all carry a signed budget no node is missing. -/
theorem authenticatedMeasuredU_of_signedU (h : ∀ r ∈ receipts, ∃ u, SignedU key mac top r u) :
    authenticatedMeasuredU key mac receipts top (receiptNodesOf receipts) =
      receipts.foldl (authenticateReceipt key mac (receiptNodesOf receipts) top) {} := by
  apply foldl_reportMissing_of_measured
  intro nid hnid
  rw [List.mem_insertionSort, mem_receiptNodesOf] at hnid
  rw [measured_foldl mem_receiptNodesOf_of_mem h, Dict.mem_keys_ofPairs, map_fst_signedEntry h]
  obtain ⟨r, hr, rfl⟩ := hnid
  exact List.mem_map_of_mem hr

/-- **Of distinct nodes, each is given the budget in its own receipt.** -/
theorem get?_measured {u : Int} (h : ∀ r ∈ receipts, ∃ u, SignedU key mac top r u)
    (hdistinct : (receipts.map fun r => r.body.nodeId).Nodup) (hr : r ∈ receipts)
    (hu : r.body.measuredUNs? = some u) :
    Dict.get? (authenticatedMeasuredU key mac receipts top (receiptNodesOf receipts)).measured
      r.body.nodeId = some u := by
  rw [authenticatedMeasuredU_of_signedU h, measured_foldl mem_receiptNodesOf_of_mem h,
    Dict.get?_eq_some (Dict.nodup_keys_ofPairs _),
    Dict.ofPairs_of_nodup (by rwa [map_fst_signedEntry h])]
  exact List.mem_filterMap.mpr ⟨r, hr, by simp [signedEntry, hu]⟩

/-- The map beside them is not looked at again. -/
theorem authenticatedMeasuredU_eq_bare (h : ∀ r ∈ receipts, ∃ u, SignedU key mac top r u) :
    authenticatedMeasuredU key mac receipts top (receiptNodesOf receipts) =
      authenticatedMeasuredU key mac receipts [] (receiptNodesOf receipts) := by
  have hbare : ∀ r ∈ receipts, ∃ u, SignedU key mac [] r u := fun r hr =>
    (h r hr).imp fun u => .bare
  rw [authenticatedMeasuredU_of_signedU h, authenticatedMeasuredU_of_signedU hbare,
    foldl_eq_of_signedU mem_receiptNodesOf_of_mem h]

/-- **There is nothing to refuse just when every receipt carries a budget its node signed**, and the
capture states no other for the node. -/
theorem authenticatedMeasuredU_clean_iff :
    (authenticatedMeasuredU key mac receipts top (receiptNodesOf receipts)).Clean ↔
      ∀ r ∈ receipts, ∃ u, SignedU key mac top r u := by
  have hempty : ({} : MeasuredU Id).Clean := ⟨rfl, rfl, rfl⟩
  constructor
  · intro h
    unfold authenticatedMeasuredU at h
    rw [foldl_reportMissing_of_missing h.missing] at h
    exact ((clean_foldl_iff mem_receiptNodesOf_of_mem).mp h).2
  · intro h
    rw [authenticatedMeasuredU_of_signedU h]
    exact (clean_foldl_iff mem_receiptNodesOf_of_mem).mpr ⟨hempty, h⟩

end Measured

/-! ## The overlay -/

section Overlay

variable {Id : Type} [DecidableEq Id]

/-- What the overlay puts in the place of a node. -/
def overlayNode (measured : List (Id × Int)) (tier : String) (entry : Id × Node String) :
    Except (LiveStop Id) (Id × Node String) :=
  match Dict.get? measured entry.1 with
  | some u => .ok (entry.1, { entry.2 with tier, uNs := u })
  | none =>
      -- never consulted, as no receipt names the node
      match tiers tier with
      | some u => .ok (entry.1, { entry.2 with tier, uNs := u })
      | none => .error (.unknownTier tier)

def overlayMeasuredU (reg : List (Id × Node String)) (measured : List (Id × Int)) (tier : String) :
    Except (LiveStop Id) (List (Id × Node String)) :=
  reg.mapM (overlayNode measured tier)

variable {reg liveReg : List (Id × Node String)} {measured : List (Id × Int)} {tier : String}
  {nid : Id} {u : Int}

theorem overlayNode_fst {entry entry' : Id × Node String}
    (h : overlayNode measured tier entry = .ok entry') : entry'.1 = entry.1 := by
  unfold overlayNode at h
  split at h
  · cases h
    rfl
  · split at h
    · cases h
      rfl
    · cases h

/-- A measured node keeps its place and is given the measured budget. -/
theorem get?_overlayMeasuredU (h : overlayMeasuredU reg measured tier = .ok liveReg)
    (hu : Dict.get? measured nid = some u) :
    Dict.get? liveReg nid = (Dict.get? reg nid).map fun node => { node with tier, uNs := u } := by
  unfold overlayMeasuredU at h
  induction reg generalizing liveReg with
  | nil =>
      cases h
      rfl
  | cons entry reg ih =>
      rw [List.mapM_cons] at h
      cases hentry : overlayNode measured tier entry with
      | error stop => simp [hentry, bind, Except.bind] at h
      | ok entry' =>
          cases hrest : reg.mapM (overlayNode measured tier) with
          | error stop => simp [hentry, hrest, bind, Except.bind] at h
          | ok rest =>
              simp only [hentry, hrest, bind, Except.bind, pure, Except.pure, Except.ok.injEq] at h
              subst h
              have hfst := overlayNode_fst hentry
              by_cases hk : entry.1 = nid
              · subst hk
                rw [overlayNode, hu] at hentry
                cases hentry
                simp [Dict.get?]
              · have htail := ih hrest
                simp only [Dict.get?] at htail ⊢
                rw [List.find?_cons_of_neg (by simp [hfst, hk]),
                  List.find?_cons_of_neg (by simp [hk])]
                exact htail

end Overlay

/-! ## The run -/

section Live

variable {Payload Id Hash Key Tag : Type} [DecidableEq Hash] [DecidableEq Tag] [LinearOrder Id]

/-- What is printed and certified of a capture that went through the verifier. -/
structure LiveRun (Payload Id Hash : Type) where
  tier : String
  receiptNodes : List Id
  uMeta : MeasuredU Id
  result : CaptureResult Payload Id Hash String

/-- `tier_nominal`, or NTP where it is absent or empty. -/
def LiveCapture.tierOf (capture : LiveCapture Payload Id Hash Tag) : String :=
  match capture.tierNominal? with
  | none => "NTP"
  | some tier => if tier = "" then "NTP" else tier

/-- `main`, up to the call of the verifier. -/
def liveRun (key : Id → Key) (mac : Key → Body Id Hash String → Tag)
    (eventHash : BoundClaim Payload → Hash) (reg : List (Id × Node String))
    (capture : LiveCapture Payload Id Hash Tag) :
    Except (LiveStop Id) (LiveRun Payload Id Hash) :=
  if capture.origin ≠ some "LIVE_CAPTURE" then .error (.wrongOrigin capture.origin)
  else
    let tier := capture.tierOf
    -- coverage of the nodes that contributed a receipt, and of no others
    let receiptNodes := receiptNodesOf capture.receipts
    let uMeta := authenticatedMeasuredU key mac capture.receipts capture.measuredUNs receiptNodes
    if uMeta.badMac ≠ [] then .error (.badMac uMeta.badMac)
    else if uMeta.missing ≠ [] then .error (.missing uMeta.missing)
    else if uMeta.topLevelMismatch ≠ [] then .error (.topLevelMismatch uMeta.topLevelMismatch)
    else
      match overlayMeasuredU reg uMeta.measured tier with
      | .error stop => .error stop
      | .ok liveReg =>
          .ok
            { tier, receiptNodes, uMeta
              result := verifyCapture key mac eventHash
                { capture := capture.toSignedCapture, registry := Dict.get? liveReg
                  requiredNodeIds := some receiptNodes } }

variable {key : Id → Key} {mac : Key → Body Id Hash String → Tag}
  {eventHash : BoundClaim Payload → Hash} {reg : List (Id × Node String)}
  {capture : LiveCapture Payload Id Hash Tag} {run : LiveRun Payload Id Hash}

/-- A run goes through just when the capture is of the right origin, every receipt carries a signed
budget, and the nodes that gave none have a nominal one. The map beside the receipts has no part in
what it yields. -/
theorem liveRun_eq_ok_iff :
    liveRun key mac eventHash reg capture = .ok run ↔
      capture.origin = some "LIVE_CAPTURE" ∧
      (∀ r ∈ capture.receipts, ∃ u, SignedU key mac capture.measuredUNs r u) ∧
      ∃ liveReg uMeta, uMeta = authenticatedMeasuredU key mac capture.receipts []
          (receiptNodesOf capture.receipts) ∧
        overlayMeasuredU reg uMeta.measured capture.tierOf = .ok liveReg ∧
        run =
          { tier := capture.tierOf, receiptNodes := receiptNodesOf capture.receipts, uMeta
            result := verifyCapture key mac eventHash
              { capture := capture.toSignedCapture, registry := Dict.get? liveReg
                requiredNodeIds := some (receiptNodesOf capture.receipts) } } := by
  unfold liveRun
  dsimp only
  split
  · next horigin =>
      refine iff_of_false ?_ fun h => horigin h.1
      rintro ⟨⟩
  · next horigin =>
      rw [not_not] at horigin
      rw [and_iff_right horigin]
      by_cases hsigned : ∀ r ∈ capture.receipts, ∃ u, SignedU key mac capture.measuredUNs r u
      · have hclean := authenticatedMeasuredU_clean_iff.mpr hsigned
        rw [and_iff_right hsigned, if_neg (not_not.mpr hclean.badMac),
          if_neg (not_not.mpr hclean.missing), if_neg (not_not.mpr hclean.topLevelMismatch),
          authenticatedMeasuredU_eq_bare hsigned]
        simp only [exists_eq_left]
        cases overlayMeasuredU reg _ capture.tierOf with
        | error stop =>
            refine iff_of_false ?_ ?_
            · rintro ⟨⟩
            · rintro ⟨liveReg, ⟨⟩, -⟩
        | ok liveReg =>
            constructor
            · rintro ⟨⟩
              exact ⟨liveReg, rfl, rfl⟩
            · rintro ⟨_, ⟨⟩, rfl⟩
              rfl
      · refine iff_of_false (fun h => hsigned ?_) fun h => hsigned h.1
        apply authenticatedMeasuredU_clean_iff.mp
        split at h
        · cases h
        · next hbad =>
            split at h
            · cases h
            · next hmissing =>
                split at h
                · cases h
                · next htop => exact ⟨not_not.mp hbad, not_not.mp hmissing, not_not.mp htop⟩

/-- The receipt is of a registered node and verifies, the holder of its key signed its body, and its
arrival was classified with the budget in that body. -/
def ClassifiedBySignedU (key : Id → Key) (mac : Key → Body Id Hash String → Tag)
    (issued : Set (Body Id Hash String)) (reg : List (Id × Node String))
    (capture : LiveCapture Payload Id Hash Tag) (r : SignedReceipt Id Hash String Tag)
    (entry : Id × NodeOutcome String) : Prop :=
  verifySigned key mac r = true ∧ r.body ∈ issued ∧
    ∃ u node, r.body.measuredUNs? = some u ∧ Dict.get? reg r.body.nodeId = some node ∧
      entry = (r.body.nodeId, .classified capture.tierOf
        (classify capture.t0Ns capture.p0Nm r.body.recvTimeNs node.posNm u cEffNum cEffDen))

/-- **The clock budgets are those the nodes signed.** With an unforgeable MAC, in every run whose
aggregate is not REJECTED each receipt, in its turn, was classified with the budget in its own body.
And of two captures that differ in the unsigned map beside the receipts, either one is refused or
both give the same run, its aggregate and the verdicts on the receipts included. -/
theorem liveRun_measuredU_bound {presentable : Set (SignedReceipt Id Hash String Tag)}
    {issued : Set (Body Id Hash String)} (hmac : Unforgeable key mac presentable issued) :
    (∀ (capture : LiveCapture Payload Id Hash Tag) (run : LiveRun Payload Id Hash),
      (∀ r ∈ capture.receipts, r ∈ presentable) →
      liveRun key mac eventHash reg capture = .ok run → run.result.aggregate ≠ .rejected →
      List.Forall₂ (ClassifiedBySignedU key mac issued reg capture) capture.receipts
        run.result.perReceipt) ∧
    ∀ (capture : LiveCapture Payload Id Hash Tag) (top : List (Id × Int)),
      (∃ stop, liveRun key mac eventHash reg capture = .error stop) ∨
      (∃ stop, liveRun key mac eventHash reg { capture with measuredUNs := top } = .error stop) ∨
      ∃ run, liveRun key mac eventHash reg capture = .ok run ∧
        liveRun key mac eventHash reg { capture with measuredUNs := top } = .ok run := by
  refine ⟨?_, ?_⟩
  · intro capture run hpresent hrun hagg
    obtain ⟨-, hsigned, liveReg, uMeta, humeta, hover, rfl⟩ := liveRun_eq_ok_iff.mp hrun
    obtain ⟨hproper, hcounts⟩ := accepts_iff.mp hagg
    rw [verifyCapture_eq_of_proper hproper, List.forall₂_map_right_iff, List.forall₂_same]
    intro r hr
    obtain ⟨node', hcount⟩ := hcounts r hr
    obtain ⟨u, hu⟩ := hsigned r hr
    have hmeasured : Dict.get? uMeta.measured r.body.nodeId = some u := by
      rw [humeta, ← authenticatedMeasuredU_eq_bare hsigned]
      exact get?_measured hsigned hproper.distinct hr hu.2.1
    -- so what the verifier finds for the node is the surveyed entry with the signed budget
    have hnode := hcount.registered
    dsimp only at hnode
    rw [get?_overlayMeasuredU hover hmeasured, Option.map_eq_some_iff] at hnode
    obtain ⟨node, hreg, rfl⟩ := hnode
    refine ⟨hu.1, hmac r (hpresent r hr) hu.1, u, node, hu.2.1, hreg, ?_⟩
    rw [verifyNode_of_counts hcount]
    rfl
  · intro capture top
    cases h : liveRun key mac eventHash reg capture with
    | error stop => exact Or.inl ⟨stop, rfl⟩
    | ok run =>
        cases h' : liveRun key mac eventHash reg { capture with measuredUNs := top } with
        | error stop => exact Or.inr (Or.inl ⟨stop, rfl⟩)
        | ok run' =>
            obtain ⟨-, -, liveReg, uMeta, rfl, hover, rfl⟩ := liveRun_eq_ok_iff.mp h
            obtain ⟨-, -, liveReg', uMeta', rfl, hover', rfl⟩ := liveRun_eq_ok_iff.mp h'
            have hsame : Except.ok liveReg = Except.ok liveReg' := hover.symm.trans hover'
            cases hsame
            exact Or.inr (Or.inr ⟨_, rfl, rfl⟩)

/-! ## The certificate -/

structure LiveGate where
  gate : String
  description : String
  soundnessTag : String
  passed : Bool
  deriving DecidableEq

/-- What a certificate states of its run. -/
structure LiveCertificate (Id : Type) where
  tierNominal : String
  measuredUNs : List (Id × Int)
  uNsOverlay : MeasuredU Id
  perReceipt : List (Id × NodeOutcome String)
  tierVerdicts : List (String × List (Id × ArrivalVerdict))
  gates : List LiveGate
  aggregate : MeasuredVerdict

def liveGates (receiptNodes : List Id) (verdicts : List (Id × ArrivalVerdict))
    (agg : MeasuredVerdict) : List LiveGate :=
  [ { gate := "H8-LIVE-A"
      description := "multi-node LIVE_CAPTURE collected from >=3 regions"
      soundnessTag := "HEURISTIC"
      passed := 3 ≤ receiptNodes.length },
    { gate := "H8-LIVE-B"
      description := "unmodified verify_capture over MAC-bound measured u_ns overlay"
      soundnessTag := "SOUND"
      passed := agg = .pass ∨ agg = .apparatusLimited },
    { gate := "H8-LIVE-C"
      description := "no honest receipt REJECTED (falsifier F1)"
      soundnessTag := "SOUND"
      passed := .rejected ∉ verdicts.map Prod.snd },
    { gate := "H8-LIVE-D"
      description := "every receipt contributor carries MAC-bound measured_u_ns"
      soundnessTag := "SOUND"
      passed := true } ]

/-- `main`, after the call of the verifier. -/
def certify (run : LiveRun Payload Id Hash) : Except (LiveStop Id) (LiveCertificate Id) :=
  let verdicts := Dict.ofPairs (run.result.perReceipt.map fun p => (p.1, p.2.verdict))
  let agg := run.result.aggregate
  if agg = .rejected then .error .rejected
  else
    let agg :=
      if agg ≠ .pass ∧ agg ≠ .apparatusLimited then
        if .rejected ∉ verdicts.map Prod.snd then .pass else agg
      else agg
    let gates := liveGates run.receiptNodes verdicts agg
    if gates.any fun g => !g.passed then
      .error (.failedGates ((gates.filter fun g => !g.passed).map LiveGate.gate))
    else
      .ok
        { tierNominal := run.tier, measuredUNs := run.uMeta.measured, uNsOverlay := run.uMeta
          perReceipt := run.result.perReceipt, tierVerdicts := [(run.tier, verdicts)], gates
          aggregate := agg }

def verifyLive (key : Id → Key) (mac : Key → Body Id Hash String → Tag)
    (eventHash : BoundClaim Payload → Hash) (reg : List (Id × Node String))
    (capture : LiveCapture Payload Id Hash Tag) : Except (LiveStop Id) (LiveCertificate Id) :=
  match liveRun key mac eventHash reg capture with
  | .error stop => .error stop
  | .ok run => certify run

omit [DecidableEq Hash] [DecidableEq Tag] in
/-- Where no receipt is rejected, only the number of nodes can fail a gate. -/
theorem certify_ok_iff (hagg : run.result.aggregate ≠ .rejected)
    (hverdicts : ∀ p ∈ run.result.perReceipt, p.2.verdict ≠ .rejected) :
    (∃ cert, certify run = .ok cert) ↔ 3 ≤ run.receiptNodes.length := by
  have hvalues : .rejected ∉
      (Dict.ofPairs (run.result.perReceipt.map fun p => (p.1, p.2.verdict))).map Prod.snd := by
    intro hmem
    obtain ⟨⟨nid, v⟩, hentry, rfl⟩ := List.mem_map.mp hmem
    obtain ⟨l₁, l₂, hsplit, -⟩ := Dict.mem_ofPairs.mp hentry
    have hpair : (nid, ArrivalVerdict.rejected) ∈
        run.result.perReceipt.map fun p => (p.1, p.2.verdict) := by
      rw [hsplit]
      simp
    obtain ⟨p, hp, heq⟩ := List.mem_map.mp hpair
    exact hverdicts p hp (congrArg Prod.snd heq)
  have hclass : run.result.aggregate = .pass ∨ run.result.aggregate = .apparatusLimited := by
    cases hcase : run.result.aggregate with
    | pass => exact Or.inl rfl
    | apparatusLimited => exact Or.inr rfl
    | rejected => exact absurd hcase hagg
  have hkept : ¬ (run.result.aggregate ≠ .pass ∧ run.result.aggregate ≠ .apparatusLimited) := by
    tauto
  unfold certify
  dsimp only
  rw [if_neg hagg, if_neg hkept]
  by_cases hthree : 3 ≤ run.receiptNodes.length
  · simp [liveGates, hvalues, hclass, hthree]
  · simp [liveGates, hthree]

/-- **What is certified**: a run that is not REJECTED, of three nodes at least. -/
theorem verifyLive_ok_iff :
    (∃ cert, verifyLive key mac eventHash reg capture = .ok cert) ↔
      ∃ run, liveRun key mac eventHash reg capture = .ok run ∧
        run.result.aggregate ≠ .rejected ∧ 3 ≤ run.receiptNodes.length := by
  unfold verifyLive
  cases h : liveRun key mac eventHash reg capture with
  | error stop =>
      refine iff_of_false ?_ ?_
      · rintro ⟨cert, ⟨⟩⟩
      · rintro ⟨run, ⟨⟩, -⟩
  | ok run =>
      have hresult : ∀ hagg : run.result.aggregate ≠ .rejected,
          ∀ p ∈ run.result.perReceipt, p.2.verdict ≠ .rejected := by
        intro hagg
        obtain ⟨-, -, liveReg, uMeta, -, -, rfl⟩ := liveRun_eq_ok_iff.mp h
        exact verdict_ne_of_accepts hagg
      by_cases hagg : run.result.aggregate = .rejected
      · refine iff_of_false ?_ ?_
        · rintro ⟨cert, hcert⟩
          simp [certify, hagg] at hcert
        · rintro ⟨run', heq, hne, -⟩
          cases heq
          exact hne hagg
      · rw [certify_ok_iff hagg (hresult hagg)]
        constructor
        · exact fun hthree => ⟨run, rfl, hagg, hthree⟩
        · rintro ⟨run', heq, -, hthree⟩
          cases heq
          exact hthree

end Live

/-- What the node of this id signs live, with the budget it measured. -/
def liveBody (nodeId : Nat) (x recvTimeNs u : Int) : Body Nat (BoundClaim Nat) String where
  nodeId := nodeId
  nodePosNm := ⟨x, 0, 0⟩
  eventHash := ⟨7, 0, ⟨0, 0, 0⟩⟩
  recvTimeNs := recvTimeNs
  tier := "PTP"
  measuredUNs? := some u

/-- A tag that shows its key and its text. -/
def openLiveMac (key : Nat) (body : Body Nat (BoundClaim Nat) String) :
    Nat × Body Nat (BoundClaim Nat) String := (key, body)

/-- The surveyed nodes, 300 m and 600 m from the emission, with the budgets of their class. -/
def liveNodes : List (Nat × Node String) :=
  [(1, ⟨⟨300000000000, 0, 0⟩, 50000, "PTP"⟩), (2, ⟨⟨600000000000, 0, 0⟩, 50000, "PTP"⟩)]

/-- Both nodes measured less than the budget of their class, and the capture restates one. -/
def twoLive : LiveCapture Nat Nat (BoundClaim Nat) (Nat × Body Nat (BoundClaim Nat) String) where
  payloadHash := 7
  t0Ns := 0
  p0Nm := ⟨0, 0, 0⟩
  receipts := [sign id openLiveMac (liveBody 1 300000000000 2000 40),
    sign id openLiveMac (liveBody 2 600000000000 4000 60)]
  origin := some "LIVE_CAPTURE"
  tierNominal? := some "PTP"
  measuredUNs := [(1, 40)]

theorem liveRun_measuredU_bound_twoLive :
    ∃ run, liveRun id openLiveMac id liveNodes twoLive = .ok run ∧
      run.result.aggregate = .pass ∧
      List.Forall₂ (ClassifiedBySignedU id openLiveMac
          {liveBody 1 300000000000 2000 40, liveBody 2 600000000000 4000 60} liveNodes twoLive)
        twoLive.receipts run.result.perReceipt := by
  have hmac : Unforgeable id openLiveMac
      { sign id openLiveMac (liveBody 1 300000000000 2000 40),
        sign id openLiveMac (liveBody 2 600000000000 4000 60) }
      {liveBody 1 300000000000 2000 40, liveBody 2 600000000000 4000 60} := by
    rintro r (rfl | rfl) _
    · exact Or.inl rfl
    · exact Or.inr rfl
  have hpresent : ∀ r ∈ twoLive.receipts, r ∈
      ({ sign id openLiveMac (liveBody 1 300000000000 2000 40),
        sign id openLiveMac (liveBody 2 600000000000 4000 60) } : Set _) := by
    intro r hr
    simpa [twoLive] using hr
  have hpass : (liveRun id openLiveMac id liveNodes twoLive).toOption.map
      (fun run => run.result.aggregate) = some .pass := by decide +kernel
  cases hrun : liveRun id openLiveMac id liveNodes twoLive with
  | error stop => simp [hrun, Except.toOption] at hpass
  | ok run =>
      have hagg : run.result.aggregate = .pass := by simpa [hrun, Except.toOption] using hpass
      refine ⟨run, rfl, hagg, ?_⟩
      exact (liveRun_measuredU_bound hmac).1 twoLive run hpresent hrun (by rw [hagg]; decide)

end HorizonProtocol.Attestation.Capture
