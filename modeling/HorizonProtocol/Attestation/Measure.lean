import HorizonProtocol.Attestation.Station
import Mathlib.Data.Finset.Sort
import Mathlib.Data.PNat.Basic

/-!
# Measured certificates

`horizon/measure.py`: receipts of measured arrival times against two whole-nanosecond floors, that
of light in vacuum and that of a declared slower medium.

* `receiptLoop_ends`, `verifyMeasuredCertificate_decides` — all the ways the loop and the verifier
  can end.
* `passes_iff` — what the verifier answers `PASS` to.
-/

namespace HorizonProtocol.Attestation

/-- How an arrival stands to the floors. -/
inductive ArrivalVerdict where
  | rejected
  | apparatusLimited
  | admitted
  deriving DecidableEq

theorem ArrivalVerdict.eq_admitted {v : ArrivalVerdict} (hrejected : v ≠ .rejected)
    (hlimited : v ≠ .apparatusLimited) : v = .admitted := by
  cases v with
  | rejected => exact absurd rfl hrejected
  | apparatusLimited => exact absurd rfl hlimited
  | admitted => rfl

/-- `C_EFF_NUM`. -/
def cEffNum : ℕ+ := 3

/-- `C_EFF_DEN`. -/
def cEffDen : ℕ+ := 5

/-- Smallest whole `dt` with `(dt * c * num)² ≥ den² * dist²`. -/
def minTransitTimeNsEff (p1 p2 : Pos) (num den : ℕ+) : Nat :=
  LeastTime.leastTime (cNmPerNs.toNat * num) (den * den * (dist2 p1 p2).toNat)

structure BudgetWitness where
  t0Ns : Int
  tRecvNs : Int
  uNs : Int
  rawDtNs : Int
  dtAdjustedNs : Int
  cEffNum : ℕ+
  cEffDen : ℕ+
  vacuumFloorNs : Nat
  typicalFloorNs : Nat
  marginBelowVacuumFloorNs : Int
  marginBelowTypicalFloorNs : Int
  verdict : ArrivalVerdict
  deriving DecidableEq

/-- The declared clock uncertainty counts in the prover's favor, on both floors. -/
def budgetWitness (t0Ns : Int) (p0 : Pos) (tRecvNs : Int) (stationPosNm : Pos) (uNs : Int)
    (num den : ℕ+) : BudgetWitness :=
  let rawDtNs := tRecvNs - t0Ns
  let dtAdjustedNs := rawDtNs + uNs
  let vacuumFloorNs := minLightTimeNs p0 stationPosNm
  let typicalFloorNs := minTransitTimeNsEff p0 stationPosNm num den
  { t0Ns, tRecvNs, uNs, rawDtNs, dtAdjustedNs, cEffNum := num, cEffDen := den
    vacuumFloorNs, typicalFloorNs
    marginBelowVacuumFloorNs := vacuumFloorNs - dtAdjustedNs
    marginBelowTypicalFloorNs := typicalFloorNs - dtAdjustedNs
    verdict :=
      if dtAdjustedNs < vacuumFloorNs then .rejected
      else if dtAdjustedNs < typicalFloorNs then .apparatusLimited
      else .admitted }

theorem budgetWitness_admitted_iff {t0Ns tRecvNs uNs : Int} {p0 stationPosNm : Pos}
    {num den : ℕ+} :
    (budgetWitness t0Ns p0 tRecvNs stationPosNm uNs num den).verdict = .admitted ↔
      (minLightTimeNs p0 stationPosNm : Int) ≤ tRecvNs - t0Ns + uNs ∧
      (minTransitTimeNsEff p0 stationPosNm num den : Int) ≤ tRecvNs - t0Ns + uNs := by
  simp only [budgetWitness]
  grind

/-! ## The verifier -/

/-- What the caller trusts a station's clock and medium to be. -/
structure NodeParams where
  uNs : Int
  cEffNum : ℕ+ := Attestation.cEffNum
  cEffDen : ℕ+ := Attestation.cEffDen

inductive FixtureOrigin where
  /-- `"LIVE_CAPTURE"` -/
  | liveCapture
  /-- `"SYNTHETIC_CONSISTENT"`, or none. -/
  | other
  deriving DecidableEq

structure MeasuredCertificate (Id Hash Tag : Type) where
  event : EmissionEvent Hash
  receipts : List (Receipt Id Hash Tag)
  fixtureOrigin : FixtureOrigin := .other

inductive MeasuredVerdict where
  | pass
  | apparatusLimited
  | rejected
  deriving DecidableEq

/-- Why a certificate does not pass. -/
inductive MeasuredWitness (Id : Type) where
  | nonemptyReceipts
  | distinctSources (stationIds : List Id)
  | stationCoverage (missing unexpected : List Id)
  /-- One of the gates of `checkReceipt`. -/
  | binding (refusal : GateRefusal Id)
  /-- Gate `budget`: "receipt earlier than the absolute vacuum-c floor, even with the full
  clock-uncertainty benefit of the doubt: physically impossible". -/
  | belowVacuumFloor (stationId : Id) (exactWitness : BudgetWitness)
  /-- "negative raw elapsed time in a live capture indicates unresolved clock skew, not a
  consistent slow path" -/
  | liveCaptureSelfCheck (stationId : Id)
  /-- Gate `budget`: "measurement is physically possible but faster than the conservative
  real-medium bound accounts for; cannot certify as ordinary real-world performance". -/
  | belowTypicalFloor (apparatusLimitedNodes : List Id)

structure MeasuredResult (Id : Type) where
  verdict : MeasuredVerdict
  witness : Option (MeasuredWitness Id) := none
  perNode : List (Id × BudgetWitness) := []

/-- The `KeyError` of `node_params[sid]`. -/
structure NoNodeParams (Id : Type) where
  stationId : Id
  deriving DecidableEq

section Verify

variable {Id Hash Key Tag : Type} [DecidableEq Hash] [DecidableEq Tag]

/-- The loop over the receipts. It ends early with a result, or at the end of the list with the
witness of every node and the nodes that the apparatus cannot resolve. -/
def receiptLoop (mac : Key → ReceiptBody Id Hash → Tag) (registry : Registry Id Key)
    (nodeParams : Id → Option NodeParams) (event : EmissionEvent Hash) :
    List (Receipt Id Hash Tag) → List (Id × BudgetWitness) → List Id →
      Except (NoNodeParams Id) (MeasuredResult Id ⊕ (List (Id × BudgetWitness) × List Id))
  | [], perNode, limited => .ok (.inr (perNode, limited))
  | r :: rs, perNode, limited =>
    let sid := r.body.stationId
    match checkReceipt mac registry event.payloadHash r with
    | .error refusal => .ok (.inl ⟨.rejected, some (.binding refusal), perNode⟩)
    | .ok station =>
      match nodeParams sid with
      | none => .error ⟨sid⟩
      | some params =>
        let w := budgetWitness event.claimedEmitTimeNs event.claimedEmitPosNm r.body.recvTimeNs
          station.posNm params.uNs params.cEffNum params.cEffDen
        let perNode := perNode ++ [(sid, w)]
        match w.verdict with
        | .rejected => .ok (.inl ⟨.rejected, some (.belowVacuumFloor sid w), perNode⟩)
        | .apparatusLimited =>
          receiptLoop mac registry nodeParams event rs perNode (limited ++ [sid])
        | .admitted => receiptLoop mac registry nodeParams event rs perNode limited

/-- The first receipt with a negative raw elapsed time. -/
def firstBeforeEmission (event : EmissionEvent Hash) (receipts : List (Receipt Id Hash Tag)) :
    Option (Receipt Id Hash Tag) :=
  receipts.find? fun r => decide (r.body.recvTimeNs - event.claimedEmitTimeNs < 0)

variable [LinearOrder Id]

/-- `sorted(a - b)`. -/
def sortedDiff (a b : Finset Id) : List Id := (a \ b).sort

/-- `station_coverage`, asked only when the caller names the stations. -/
def coverageGap (requiredStationIds : Option (List Id)) (got : Finset Id) :
    Option (MeasuredWitness Id) :=
  match requiredStationIds with
  | none => none
  | some ids =>
    let required := ids.toFinset
    if got ≠ required then
      some (.stationCoverage (sortedDiff required got) (sortedDiff got required))
    else none

def verifyMeasuredCertificate (mac : Key → ReceiptBody Id Hash → Tag) (registry : Registry Id Key)
    (nodeParams : Id → Option NodeParams) (requiredStationIds : Option (List Id))
    (cert : MeasuredCertificate Id Hash Tag) : Except (NoNodeParams Id) (MeasuredResult Id) :=
  let stationIds := cert.receipts.map fun r => r.body.stationId
  if cert.receipts = [] then
    .ok { verdict := .rejected, witness := some .nonemptyReceipts }
  else if stationIds.toFinset.card ≠ stationIds.length then
    .ok { verdict := .rejected, witness := some (.distinctSources stationIds) }
  else
    match coverageGap requiredStationIds stationIds.toFinset with
    | some witness => .ok { verdict := .rejected, witness := some witness }
    | none =>
      match receiptLoop mac registry nodeParams cert.event cert.receipts [] [] with
      | .error e => .error e
      | .ok (.inl result) => .ok result
      | .ok (.inr (perNode, limited)) =>
        let early :=
          if cert.fixtureOrigin = .liveCapture then firstBeforeEmission cert.event cert.receipts
          else none
        match early with
        | some r =>
          .ok ⟨.apparatusLimited, some (.liveCaptureSelfCheck r.body.stationId), perNode⟩
        | none =>
          if limited ≠ [] then
            .ok ⟨.apparatusLimited, some (.belowTypicalFloor limited), perNode⟩
          else .ok ⟨.pass, none, perNode⟩

end Verify

/-! ## One receipt -/

section Verdict

variable {Id Hash Key Tag : Type} [DecidableEq Hash] [DecidableEq Tag]

/-- The budget of a receipt, at the registered place of its station and with what the caller trusts
of it. -/
def receiptBudget (registry : Registry Id Key) (nodeParams : Id → Option NodeParams)
    (event : EmissionEvent Hash) (r : Receipt Id Hash Tag) : Option BudgetWitness :=
  match registry r.body.stationId, nodeParams r.body.stationId with
  | some station, some params =>
    some (budgetWitness event.claimedEmitTimeNs event.claimedEmitPosNm r.body.recvTimeNs
      station.posNm params.uNs params.cEffNum params.cEffDen)
  | _, _ => none

/-- What speaks against a receipt. -/
inductive Refuted (mac : Key → ReceiptBody Id Hash → Tag) (registry : Registry Id Key)
    (nodeParams : Id → Option NodeParams) (event : EmissionEvent Hash)
    (r : Receipt Id Hash Tag) : Prop where
  | unknownStation (h : registry r.body.stationId = none)
  | receiptMac {station : Station Id Key} (h : registry r.body.stationId = some station)
      (hmac : station.verifyReceipt mac r = false)
  | payloadBinding (h : r.body.payloadHash ≠ event.payloadHash)
  | surveyedPosition {station : Station Id Key} (h : registry r.body.stationId = some station)
      (hpos : r.body.stationPosNm ≠ station.posNm)
  | budget {w : BudgetWitness} (h : receiptBudget registry nodeParams event r = some w)
      (hw : w.verdict = .rejected)

/-- The apparatus cannot resolve the budget of the receipt. -/
def Limited (registry : Registry Id Key) (nodeParams : Id → Option NodeParams)
    (event : EmissionEvent Hash) (r : Receipt Id Hash Tag) : Prop :=
  ∃ w, receiptBudget registry nodeParams event r = some w ∧ w.verdict = .apparatusLimited

/-- The receipt passes its gates and its arrival is admitted for this emission. -/
def Cleared (mac : Key → ReceiptBody Id Hash → Tag) (registry : Registry Id Key)
    (nodeParams : Id → Option NodeParams) (event : EmissionEvent Hash)
    (r : Receipt Id Hash Tag) : Prop :=
  ∃ station params, Attests mac registry event.payloadHash r station ∧
    nodeParams r.body.stationId = some params ∧
    (budgetWitness event.claimedEmitTimeNs event.claimedEmitPosNm r.body.recvTimeNs
      station.posNm params.uNs params.cEffNum params.cEffDen).verdict = .admitted

variable {mac : Key → ReceiptBody Id Hash → Tag} {registry : Registry Id Key}
  {nodeParams : Id → Option NodeParams} {event : EmissionEvent Hash} {r : Receipt Id Hash Tag}
  {rs : List (Receipt Id Hash Tag)}

omit [DecidableEq Hash] [DecidableEq Tag] in
theorem receiptBudget_eq (event : EmissionEvent Hash) {station : Station Id Key}
    {params : NodeParams} (hstation : registry r.body.stationId = some station)
    (hparams : nodeParams r.body.stationId = some params) :
    receiptBudget registry nodeParams event r =
      some (budgetWitness event.claimedEmitTimeNs event.claimedEmitPosNm r.body.recvTimeNs
        station.posNm params.uNs params.cEffNum params.cEffDen) := by
  simp only [receiptBudget, hstation, hparams]

/-- A gate refuses only what is refuted. -/
theorem refuted_of_refused {refusal : GateRefusal Id}
    (h : checkReceipt mac registry event.payloadHash r = .error refusal) :
    Refuted mac registry nodeParams event r := by
  by_contra hnot
  cases hstation : registry r.body.stationId with
  | none => exact hnot (.unknownStation hstation)
  | some station =>
      have hatt : Attests mac registry event.payloadHash r station := by
        refine ⟨hstation, ?_, ?_, ?_⟩
        · by_contra hmac
          exact hnot (.receiptMac hstation (Bool.not_eq_true _ ▸ hmac))
        · by_contra hpayload
          exact hnot (.payloadBinding hpayload)
        · by_contra hpos
          exact hnot (.surveyedPosition hstation hpos)
      cases h.symm.trans (checkReceipt_eq_ok.mpr hatt)

omit [DecidableEq Hash] in
/-- Only its budget speaks against a receipt that is attested. -/
theorem refuted_iff_of_attests {station : Station Id Key} {w : BudgetWitness}
    (hatt : Attests mac registry event.payloadHash r station)
    (hw : receiptBudget registry nodeParams event r = some w) :
    Refuted mac registry nodeParams event r ↔ w.verdict = .rejected := by
  constructor
  · intro h
    cases h with
    | unknownStation h => cases h.symm.trans hatt.registered
    | receiptMac h hmac =>
        cases h.symm.trans hatt.registered
        cases hmac.symm.trans hatt.signed
    | payloadBinding h => exact absurd hatt.payload h
    | surveyedPosition h hpos =>
        cases h.symm.trans hatt.registered
        exact absurd hatt.surveyed hpos
    | budget h hrejected =>
        cases h.symm.trans hw
        exact hrejected
  · exact Refuted.budget hw

omit [DecidableEq Hash] [DecidableEq Tag] in
theorem limited_iff {w : BudgetWitness}
    (hw : receiptBudget registry nodeParams event r = some w) :
    Limited registry nodeParams event r ↔ w.verdict = .apparatusLimited := by
  constructor
  · rintro ⟨w', hw', hlimited⟩
    cases hw'.symm.trans hw
    exact hlimited
  · exact fun h => ⟨w, hw, h⟩

/-- A receipt is cleared when its station has parameters, nothing speaks against it, and the
apparatus resolves it. -/
theorem cleared_iff :
    Cleared mac registry nodeParams event r ↔
      nodeParams r.body.stationId ≠ none ∧ ¬ Refuted mac registry nodeParams event r ∧
        ¬ Limited registry nodeParams event r := by
  constructor
  · intro h
    obtain ⟨station, params, hatt, hparams, hv⟩ := h
    have hbudget := receiptBudget_eq event hatt.registered hparams
    rw [hparams, refuted_iff_of_attests hatt hbudget, limited_iff hbudget, hv]
    simp
  · intro h
    obtain ⟨hknown, hrefuted, hlimited⟩ := h
    obtain ⟨params, hparams⟩ := Option.ne_none_iff_exists'.mp hknown
    cases hcheck : checkReceipt mac registry event.payloadHash r with
    | error refusal => exact absurd (refuted_of_refused hcheck) hrefuted
    | ok station =>
        have hatt := checkReceipt_eq_ok.mp hcheck
        have hbudget := receiptBudget_eq event hatt.registered hparams
        rw [refuted_iff_of_attests hatt hbudget] at hrefuted
        rw [limited_iff hbudget] at hlimited
        exact ⟨station, params, hatt, hparams, ArrivalVerdict.eq_admitted hrefuted hlimited⟩

/-! ## The loop -/

/-- How the loop ends: at a receipt of a station without parameters, at one that is refuted, or at
the end of the list. Then it has the stations in doubt, if there are any. -/
inductive LoopEnds (mac : Key → ReceiptBody Id Hash → Tag) (registry : Registry Id Key)
    (nodeParams : Id → Option NodeParams) (event : EmissionEvent Hash)
    (rs : List (Receipt Id Hash Tag)) (limited : List Id) :
    Except (NoNodeParams Id) (MeasuredResult Id ⊕ (List (Id × BudgetWitness) × List Id)) → Prop where
  | noParams {r : Receipt Id Hash Tag} {station : Station Id Key} {error : NoNodeParams Id}
      (hr : r ∈ rs) (hstation : registry r.body.stationId = some station)
      (hnone : nodeParams r.body.stationId = none) :
      LoopEnds mac registry nodeParams event rs limited (.error error)
  | refuted {r : Receipt Id Hash Tag} {result : MeasuredResult Id} (hr : r ∈ rs)
      (hrefuted : Refuted mac registry nodeParams event r) (hverdict : result.verdict = .rejected) :
      LoopEnds mac registry nodeParams event rs limited (.ok (.inl result))
  | finished {all : List (Id × BudgetWitness)} {doubtful : List Id}
      (hknown : ∀ r ∈ rs, nodeParams r.body.stationId ≠ none)
      (hrefuted : ∀ r ∈ rs, ¬ Refuted mac registry nodeParams event r)
      (hdoubtful : doubtful = [] ↔
        limited = [] ∧ ∀ r ∈ rs, ¬ Limited registry nodeParams event r) :
      LoopEnds mac registry nodeParams event rs limited (.ok (.inr (all, doubtful)))

omit [DecidableEq Hash] in
/-- Where the loop goes on from a receipt, it ends as it does for the others. -/
theorem LoopEnds.cons {limited limited' : List Id}
    {out : Except (NoNodeParams Id) (MeasuredResult Id ⊕ (List (Id × BudgetWitness) × List Id))}
    (hends : LoopEnds mac registry nodeParams event rs limited' out)
    (hknown : nodeParams r.body.stationId ≠ none)
    (hrefuted : ¬ Refuted mac registry nodeParams event r)
    (hlimited : limited' = [] ↔ limited = [] ∧ ¬ Limited registry nodeParams event r) :
    LoopEnds mac registry nodeParams event (r :: rs) limited out := by
  cases hends with
  | noParams hr hstation hnone => exact .noParams (List.mem_cons_of_mem _ hr) hstation hnone
  | refuted hr hrefuted hverdict =>
      exact .refuted (List.mem_cons_of_mem _ hr) hrefuted hverdict
  | finished hrest hclean hdoubtful =>
      apply LoopEnds.finished
      · exact List.forall_mem_cons.mpr ⟨hknown, hrest⟩
      · exact List.forall_mem_cons.mpr ⟨hrefuted, hclean⟩
      · rw [hdoubtful, hlimited, List.forall_mem_cons, and_assoc]

/-- **The loop ends in one of these ways.** -/
theorem receiptLoop_ends (perNode : List (Id × BudgetWitness)) (limited : List Id) :
    LoopEnds mac registry nodeParams event rs limited
      (receiptLoop mac registry nodeParams event rs perNode limited) := by
  induction rs generalizing perNode limited with
  | nil => exact .finished nofun nofun (by simp)
  | cons r rs ih =>
      unfold receiptLoop
      dsimp only
      split
      · next refusal hrefused =>
          exact .refuted List.mem_cons_self (refuted_of_refused hrefused) rfl
      · next station hok =>
          have hatt := checkReceipt_eq_ok.mp hok
          split
          · next hnone => exact .noParams List.mem_cons_self hatt.registered hnone
          · next params hparams =>
              have hknown : nodeParams r.body.stationId ≠ none := by simp [hparams]
              have hbudget := receiptBudget_eq event hatt.registered hparams
              have hrefuted := refuted_iff_of_attests hatt hbudget
              have hlimited := limited_iff hbudget
              split
              · next hv => exact .refuted List.mem_cons_self (hrefuted.mpr hv) rfl
              · next hv =>
                  apply (ih _ _).cons hknown
                  · simp [hrefuted, hv]
                  · simp [hlimited, hv]
              · next hv =>
                  apply (ih _ _).cons hknown
                  · simp [hrefuted, hv]
                  · simp [hlimited, hv]

/-! ## The certificate -/

variable [LinearOrder Id] {requiredStationIds : Option (List Id)}
  {cert : MeasuredCertificate Id Hash Tag}

omit [DecidableEq Hash] [DecidableEq Tag] in
/-- The receipts are of distinct stations, at least one, and just those the caller names, if it
names any. -/
structure ProperSources (requiredStationIds : Option (List Id))
    (rs : List (Receipt Id Hash Tag)) : Prop where
  nonempty : rs ≠ []
  distinct : (rs.map fun r => r.body.stationId).Nodup
  covered : ∀ ids, requiredStationIds = some ids →
    (rs.map fun r => r.body.stationId).toFinset = ids.toFinset

/-- What a certificate is rejected for. -/
def Rejectable (mac : Key → ReceiptBody Id Hash → Tag) (registry : Registry Id Key)
    (nodeParams : Id → Option NodeParams) (requiredStationIds : Option (List Id))
    (cert : MeasuredCertificate Id Hash Tag) : Prop :=
  ¬ ProperSources requiredStationIds cert.receipts ∨
    ∃ r ∈ cert.receipts, Refuted mac registry nodeParams cert.event r

/-- What keeps one that is not rejected from passing. -/
def Unresolved (registry : Registry Id Key) (nodeParams : Id → Option NodeParams)
    (cert : MeasuredCertificate Id Hash Tag) : Prop :=
  (∃ r ∈ cert.receipts, Limited registry nodeParams cert.event r) ∨
    cert.fixtureOrigin = .liveCapture ∧
      ∃ r ∈ cert.receipts, r.body.recvTimeNs < cert.event.claimedEmitTimeNs

theorem coverageGap_eq_none {got : Finset Id} :
    coverageGap requiredStationIds got = none ↔
      ∀ ids, requiredStationIds = some ids → got = ids.toFinset := by
  cases requiredStationIds with
  | none => simp [coverageGap]
  | some ids =>
      simp only [coverageGap]
      grind

omit [DecidableEq Hash] [DecidableEq Tag] [LinearOrder Id] in
theorem firstBeforeEmission_eq_none :
    firstBeforeEmission event rs = none ↔
      ∀ r ∈ rs, event.claimedEmitTimeNs ≤ r.body.recvTimeNs := by
  simp [firstBeforeEmission]

/-- How the verifier decides. -/
inductive Decides (mac : Key → ReceiptBody Id Hash → Tag) (registry : Registry Id Key)
    (nodeParams : Id → Option NodeParams) (requiredStationIds : Option (List Id))
    (cert : MeasuredCertificate Id Hash Tag) :
    Except (NoNodeParams Id) (MeasuredResult Id) → Prop where
  | noParams {r : Receipt Id Hash Tag} {station : Station Id Key} {error : NoNodeParams Id}
      (hr : r ∈ cert.receipts) (hstation : registry r.body.stationId = some station)
      (hnone : nodeParams r.body.stationId = none) :
      Decides mac registry nodeParams requiredStationIds cert (.error error)
  | rejected {result : MeasuredResult Id}
      (h : Rejectable mac registry nodeParams requiredStationIds cert)
      (hverdict : result.verdict = .rejected) :
      Decides mac registry nodeParams requiredStationIds cert (.ok result)
  | apparatusLimited {result : MeasuredResult Id}
      (h : ¬ Rejectable mac registry nodeParams requiredStationIds cert)
      (hdoubt : Unresolved registry nodeParams cert)
      (hverdict : result.verdict = .apparatusLimited) :
      Decides mac registry nodeParams requiredStationIds cert (.ok result)
  | pass {result : MeasuredResult Id}
      (hknown : ∀ r ∈ cert.receipts, nodeParams r.body.stationId ≠ none)
      (h : ¬ Rejectable mac registry nodeParams requiredStationIds cert)
      (hclear : ¬ Unresolved registry nodeParams cert) (hverdict : result.verdict = .pass) :
      Decides mac registry nodeParams requiredStationIds cert (.ok result)

/-- **The verifier decides in one of these ways.** -/
theorem verifyMeasuredCertificate_decides :
    Decides mac registry nodeParams requiredStationIds cert
      (verifyMeasuredCertificate mac registry nodeParams requiredStationIds cert) := by
  unfold verifyMeasuredCertificate
  dsimp only
  split
  · next hempty => exact .rejected (Or.inl fun hproper => hproper.nonempty hempty) rfl
  · next hne =>
      split
      · next hrepeated =>
          refine .rejected (Or.inl fun hproper => ?_) rfl
          exact hrepeated (List.toFinset_card_of_nodup hproper.distinct)
      · next hdistinct =>
          have hnodup := Multiset.toFinset_card_eq_card_iff_nodup.mp (not_not.mp hdistinct)
          split
          · next hgap =>
              refine .rejected (Or.inl fun hproper => ?_) rfl
              cases hgap.symm.trans (coverageGap_eq_none.mpr hproper.covered)
          · next hgap =>
              have hproper : ProperSources requiredStationIds cert.receipts :=
                ⟨hne, hnodup, coverageGap_eq_none.mp hgap⟩
              have hends : LoopEnds mac registry nodeParams cert.event cert.receipts [] _ :=
                receiptLoop_ends [] []
              generalize receiptLoop mac registry nodeParams cert.event cert.receipts [] [] = out
                at hends ⊢
              cases hends with
              | noParams hr hstation hnone => exact .noParams hr hstation hnone
              | refuted hr hrefuted hverdict => exact .rejected (Or.inr ⟨_, hr, hrefuted⟩) hverdict
              | finished hknown hclean hdoubtful =>
                  have hnot : ¬ Rejectable mac registry nodeParams requiredStationIds cert := by
                    rintro (himproper | ⟨r, hr, hrefuted⟩)
                    · exact himproper hproper
                    · exact hclean r hr hrefuted
                  dsimp only
                  split
                  · next r hearly =>
                      -- a live capture with a receipt before its emission
                      obtain ⟨hlive, hfind⟩ := Option.ite_none_right_eq_some.mp hearly
                      have hbefore := List.find?_some hfind
                      rw [decide_eq_true_eq] at hbefore
                      refine .apparatusLimited hnot (Or.inr ⟨hlive, r, ?_, by omega⟩) rfl
                      exact List.mem_of_find?_eq_some hfind
                  · next hnone =>
                      rw [ite_eq_right_iff, firstBeforeEmission_eq_none] at hnone
                      split
                      · next hdoubt =>
                          rw [Ne, hdoubtful] at hdoubt
                          push Not at hdoubt
                          exact .apparatusLimited hnot (Or.inl (hdoubt rfl)) rfl
                      · next hempty =>
                          obtain ⟨-, hclear⟩ := hdoubtful.mp (not_not.mp hempty)
                          refine .pass hknown hnot ?_ rfl
                          rintro (⟨r, hr, hlimited⟩ | ⟨hlive, r, hr, hbefore⟩)
                          · exact hclear r hr hlimited
                          · exact absurd (hnone hlive r hr) (not_le.mpr hbefore)

/-! ## When a certificate passes -/

/-- What is known of a certificate that is neither rejected nor in doubt, told receipt by receipt. -/
theorem clear_iff :
    (∀ r ∈ cert.receipts, nodeParams r.body.stationId ≠ none) ∧
      ¬ Rejectable mac registry nodeParams requiredStationIds cert ∧
      ¬ Unresolved registry nodeParams cert ↔
    ProperSources requiredStationIds cert.receipts ∧
      (∀ r ∈ cert.receipts, Cleared mac registry nodeParams cert.event r) ∧
      (cert.fixtureOrigin = .liveCapture → ∀ r ∈ cert.receipts,
        cert.event.claimedEmitTimeNs ≤ r.body.recvTimeNs) := by
  simp only [cleared_iff, Rejectable, Unresolved]
  push Not
  grind

/-- The verifier answers `PASS`. -/
def Passes (mac : Key → ReceiptBody Id Hash → Tag) (registry : Registry Id Key)
    (nodeParams : Id → Option NodeParams) (requiredStationIds : Option (List Id))
    (cert : MeasuredCertificate Id Hash Tag) : Prop :=
  (verifyMeasuredCertificate mac registry nodeParams requiredStationIds cert).map
    MeasuredResult.verdict = .ok .pass

/-- **What `PASS` means.** -/
theorem passes_iff {cert : MeasuredCertificate Id Hash Tag} :
    Passes mac registry nodeParams requiredStationIds cert ↔
      ProperSources requiredStationIds cert.receipts ∧
      (∀ r ∈ cert.receipts, Cleared mac registry nodeParams cert.event r) ∧
      (cert.fixtureOrigin = .liveCapture → ∀ r ∈ cert.receipts,
        cert.event.claimedEmitTimeNs ≤ r.body.recvTimeNs) := by
  have hdecides : Decides mac registry nodeParams requiredStationIds cert _ :=
    verifyMeasuredCertificate_decides
  rw [← clear_iff, Passes]
  generalize verifyMeasuredCertificate mac registry nodeParams requiredStationIds cert = out
    at hdecides ⊢
  cases hdecides with
  | noParams hr _ hnone => exact iff_of_false nofun fun h => h.1 _ hr hnone
  | rejected hrejectable hverdict =>
      refine iff_of_false ?_ fun h => h.2.1 hrejectable
      simp [Except.map, hverdict]
  | apparatusLimited _ hdoubt hverdict =>
      refine iff_of_false ?_ fun h => h.2.2 hdoubt
      simp [Except.map, hverdict]
  | pass hknown hnot hclear hverdict =>
      refine iff_of_true ?_ ⟨hknown, hnot, hclear⟩
      simp [Except.map, hverdict]

end Verdict

end HorizonProtocol.Attestation
