import HorizonProtocol.Attestation.Broadcast
import HorizonProtocol.Attestation.LightTime
import HorizonProtocol.Attestation.MeasuredVerdict

/-!
# Synthetic captures

`horizon/fixtures.py` and `horizon/geo_fixtures.py`: measured certificates of computed arrival times
over a table of nodes. The consistent capture puts every arrival at the floor of the slower medium
or a little later. The marginal capture moves one node between the two floors, so that the verifier
has to answer `APPARATUS_LIMITED`.

* `consistent_passes_iff` — when the consistent capture passes.
* `marginal_verdict` — the verdict on the marginal capture: there has to be room between the floors.
-/

namespace HorizonProtocol.Attestation

/-- Where a node is, and the clock uncertainty that is trusted of it. -/
structure FixtureNode where
  posNm : Pos
  uNs : Int

/-- `{node_id: pos_nm}` and `{node_id: u_ns}`, two dictionaries of the same ids. -/
structure NodeTable (Id : Type) where
  entries : List (Id × FixtureNode)
  nodup : (entries.map Prod.fst).Nodup

/-- The table that is filled from a list of nodes; of two of one id the later one. -/
def NodeTable.ofNodes {Id : Type} [DecidableEq Id] (nodes : List (Id × FixtureNode)) :
    NodeTable Id where
  entries := Dict.ofPairs nodes
  nodup := Dict.nodup_keys_ofPairs nodes

/-- The `KeyError` of a node id. -/
structure UnknownNode (Id : Type) where
  nodeId : Id
  deriving DecidableEq

variable {Id Hash Key Tag : Type}

/-- A small offset in `[0, modulus)` from a digest of the seed and the id. -/
def seededOffsetNs (digest : Id → Nat) (nodeId : Id) (modulus : Int) : Int :=
  if modulus ≤ 0 then 0 else (digest nodeId : Int) % modulus

/-- Put a value in the place of the first element that is asked for. -/
def replaceFirst {α : Type} (p : α → Bool) (new : α) : List α → List α
  | [] => []
  | x :: xs => if p x then new :: xs else x :: replaceFirst p new xs

namespace NodeTable

/-- The station of a node; its key is derived from the id, and it answers at once. -/
def station (demoKey : Id → Key) (e : Id × FixtureNode) : Station Id Key :=
  (demoStation demoKey ⟨e.1, e.2.posNm, 0⟩).toStation

section Build

variable [LinearOrder Id]

/-- The registry the verifier trusts. -/
def buildRegistry (demoKey : Id → Key) (nodes : NodeTable Id) : StationDict Id Key :=
  demoRegistry demoKey (nodes.entries.map fun e => ⟨e.1, e.2.posNm, 0⟩)

/-- What the caller trusts of a node. It is not part of any certificate. -/
def trustedNodeParams (nodes : NodeTable Id) : Id → Option NodeParams :=
  fun nid => (Dict.get? nodes.entries nid).map fun node => { uNs := node.uNs }

def sorted (nodes : NodeTable Id) : List (Id × FixtureNode) :=
  nodes.entries.insertionSort fun a b => a.1 ≤ b.1

variable (mac : Key → ReceiptBody Id Hash → Tag) (demoKey : Id → Key) (digest : Id → Nat)
  (nodes : NodeTable Id) (event : EmissionEvent Hash)

/-- When the receipt of a node lands in the consistent capture. -/
def consistentTime (e : Id × FixtureNode) : Int :=
  let typicalFloor := minTransitTimeNsEff event.claimedEmitPosNm e.2.posNm cEffNum cEffDen
  let offset := seededOffsetNs digest e.1 (max (e.2.uNs / 4) 1)
  event.claimedEmitTimeNs + typicalFloor + offset

def buildSyntheticConsistentCapture : MeasuredCertificate Id Hash Tag where
  event := event
  receipts := nodes.sorted.map fun e =>
    (station demoKey e).signReceipt mac event.payloadHash (consistentTime digest event e)

/-- Halfway between the floors, of which the clock uncertainty is taken off. -/
def marginalTime (e : Id × FixtureNode) : Int :=
  let vacuumFloor := minLightTimeNs event.claimedEmitPosNm e.2.posNm
  let typicalFloor := minTransitTimeNsEff event.claimedEmitPosNm e.2.posNm cEffNum cEffDen
  let dtAdjustedTarget := (vacuumFloor + typicalFloor) / 2
  event.claimedEmitTimeNs + dtAdjustedTarget - e.2.uNs

def buildMarginalCapture (marginalNode : Id) :
    Except (UnknownNode Id) (MeasuredCertificate Id Hash Tag) :=
  let cert := buildSyntheticConsistentCapture mac demoKey digest nodes event
  match Dict.get? nodes.entries marginalNode with
  | none => .error ⟨marginalNode⟩
  | some node =>
      let e := (marginalNode, node)
      let receipt :=
        (station demoKey e).signReceipt mac event.payloadHash (marginalTime event e)
      .ok { cert with
        receipts := replaceFirst (fun r => decide (r.body.stationId = marginalNode)) receipt
          cert.receipts }

end Build

/-! ## What the table registers -/

section Register

variable [LinearOrder Id] {nodes : NodeTable Id} {demoKey : Id → Key} {e : Id × FixtureNode}

@[simp] theorem mem_sorted : e ∈ nodes.sorted ↔ e ∈ nodes.entries :=
  (List.perm_insertionSort _ _).mem_iff

theorem sorted_perm : nodes.sorted.Perm nodes.entries := List.perm_insertionSort _ _

theorem sorted_eq_nil : nodes.sorted = [] ↔ nodes.entries = [] := by
  rw [← List.length_eq_zero_iff, sorted_perm.length_eq, List.length_eq_zero_iff]

theorem registry_eq (he : e ∈ nodes.entries) :
    (nodes.buildRegistry demoKey).registry e.1 = some (station demoKey e) := by
  have hpairs : nodes.buildRegistry demoKey =
      nodes.entries.map fun e => (e.1, demoStation demoKey ⟨e.1, e.2.posNm, 0⟩) := by
    rw [buildRegistry, demoRegistry, List.map_map]
    apply Dict.ofPairs_of_nodup
    simpa [Function.comp_def] using nodes.nodup
  have hmem : (e.1, demoStation demoKey ⟨e.1, e.2.posNm, 0⟩) ∈ nodes.buildRegistry demoKey := by
    rw [hpairs]
    exact List.mem_map_of_mem he
  exact (demoRegistry_keyed demoKey _).registry_eq hmem

theorem trustedNodeParams_eq (he : e ∈ nodes.entries) :
    nodes.trustedNodeParams e.1 = some { uNs := e.2.uNs } := by
  rw [trustedNodeParams, (Dict.get?_eq_some nodes.nodup).mpr he]
  rfl

/-- The caller has parameters for every node of the registry. -/
theorem covers (nodes : NodeTable Id) (demoKey : Id → Key) :
    Covers nodes.trustedNodeParams (nodes.buildRegistry demoKey).registry := by
  intro sid st hst
  obtain ⟨st', hst', -⟩ := Option.map_eq_some_iff.mp hst
  have hkey : sid ∈ (nodes.buildRegistry demoKey).map Prod.fst := by
    by_contra hnot
    cases (Dict.get?_eq_none.mpr hnot).symm.trans hst'
  rw [buildRegistry, demoRegistry, Dict.mem_keys_ofPairs, List.map_map, List.map_map] at hkey
  obtain ⟨e, he, rfl⟩ := List.mem_map.mp hkey
  exact ⟨_, trustedNodeParams_eq he⟩

end Register

/-! ## Certificates that the nodes sign -/

section Signed

variable [LinearOrder Id] [DecidableEq Hash] [DecidableEq Tag]

/-- One receipt of each node, for arrivals at these times. -/
def signed (mac : Key → ReceiptBody Id Hash → Tag) (demoKey : Id → Key) (nodes : NodeTable Id)
    (event : EmissionEvent Hash) (time : Id × FixtureNode → Int) :
    MeasuredCertificate Id Hash Tag where
  event := event
  receipts := nodes.sorted.map fun e =>
    (station demoKey e).signReceipt mac event.payloadHash (time e)

/-- The budget of a node for an arrival. -/
def budget (event : EmissionEvent Hash) (time : Id × FixtureNode → Int) (e : Id × FixtureNode) :
    BudgetWitness :=
  budgetWitness event.claimedEmitTimeNs event.claimedEmitPosNm (time e) e.2.posNm e.2.uNs cEffNum
    cEffDen

variable {mac : Key → ReceiptBody Id Hash → Tag} {demoKey : Id → Key} {nodes : NodeTable Id}
  {event : EmissionEvent Hash} {time : Id × FixtureNode → Int}
  {requiredStationIds : Option (List Id)}

/-- The caller asks for the nodes of the table, if it names any. -/
def Asked (nodes : NodeTable Id) (requiredStationIds : Option (List Id)) : Prop :=
  ∀ ids, requiredStationIds = some ids → (nodes.entries.map Prod.fst).toFinset = ids.toFinset

omit [DecidableEq Hash] [DecidableEq Tag] in
theorem properSources_signed_iff :
    ProperSources requiredStationIds (signed mac demoKey nodes event time).receipts ↔
      nodes.entries ≠ [] ∧ nodes.Asked requiredStationIds := by
  have hids : (signed mac demoKey nodes event time).receipts.map (fun r => r.body.stationId) =
      nodes.sorted.map Prod.fst := by
    simp [signed, station, Station.signReceipt, Station.receiptBody, demoStation]
  have hperm : (nodes.sorted.map Prod.fst).Perm (nodes.entries.map Prod.fst) :=
    sorted_perm.map _
  have hne : (signed mac demoKey nodes event time).receipts ≠ [] ↔ nodes.entries ≠ [] := by
    rw [Ne, signed, List.map_eq_nil_iff, sorted_eq_nil]
  constructor
  · intro h
    refine ⟨hne.mp h.nonempty, fun ids hreq => ?_⟩
    rw [← h.covered ids hreq, hids]
    exact (List.toFinset_eq_of_perm _ _ hperm).symm
  · rintro ⟨hentries, hasked⟩
    refine ⟨hne.mpr hentries, ?_, fun ids hreq => ?_⟩
    · rw [hids]
      exact hperm.nodup_iff.mpr nodes.nodup
    · rw [hids, ← hasked ids hreq]
      exact List.toFinset_eq_of_perm _ _ hperm

omit [DecidableEq Hash] in
/-- A node attests its receipt, and the budget is that of its arrival. -/
theorem attests_signed {e : Id × FixtureNode} (he : e ∈ nodes.entries) :
    Attests mac (nodes.buildRegistry demoKey).registry event.payloadHash
        ((station demoKey e).signReceipt mac event.payloadHash (time e)) (station demoKey e) ∧
      receiptBudget (nodes.buildRegistry demoKey).registry nodes.trustedNodeParams event
        ((station demoKey e).signReceipt mac event.payloadHash (time e)) =
          some (budget event time e) := by
  have hatt : Attests mac (nodes.buildRegistry demoKey).registry event.payloadHash
      ((station demoKey e).signReceipt mac event.payloadHash (time e)) (station demoKey e) :=
    attests_signReceipt (registry_eq he)
  exact ⟨hatt, receiptBudget_eq event hatt.registered (trustedNodeParams_eq he)⟩

omit [DecidableEq Hash] [DecidableEq Tag] in
theorem exists_signed {P : Receipt Id Hash Tag → Prop} :
    (∃ r ∈ (signed mac demoKey nodes event time).receipts, P r) ↔
      ∃ e ∈ nodes.entries, P ((station demoKey e).signReceipt mac event.payloadHash (time e)) := by
  simp [signed]

/-- **The verdict on what the nodes sign** is decided by their budgets alone. -/
theorem signed_verdict :
    ∃ result, verifyMeasuredCertificate mac (nodes.buildRegistry demoKey).registry
        nodes.trustedNodeParams requiredStationIds (signed mac demoKey nodes event time) =
          .ok result ∧
      (result.verdict = .rejected ↔
        ¬ (nodes.entries ≠ [] ∧ nodes.Asked requiredStationIds) ∨
          ∃ e ∈ nodes.entries, (budget event time e).verdict = .rejected) ∧
      (result.verdict = .pass ↔
        (nodes.entries ≠ [] ∧ nodes.Asked requiredStationIds) ∧
          ∀ e ∈ nodes.entries, (budget event time e).verdict = .admitted) := by
  have hverdict : ∃ result, verifyMeasuredCertificate mac (nodes.buildRegistry demoKey).registry
      nodes.trustedNodeParams requiredStationIds (signed mac demoKey nodes event time) =
        .ok result ∧ Declared mac (nodes.buildRegistry demoKey).registry nodes.trustedNodeParams
          requiredStationIds (signed mac demoKey nodes event time) result.verdict :=
    verifyMeasuredCertificate_verdict (nodes.covers demoKey)
  obtain ⟨result, hok, hdeclared⟩ := hverdict
  have hrejectable : Rejectable mac (nodes.buildRegistry demoKey).registry nodes.trustedNodeParams
      requiredStationIds (signed mac demoKey nodes event time) ↔
      ¬ (nodes.entries ≠ [] ∧ nodes.Asked requiredStationIds) ∨
        ∃ e ∈ nodes.entries, (budget event time e).verdict = .rejected := by
    rw [Rejectable, properSources_signed_iff]
    refine or_congr_right (exists_signed.trans ?_)
    refine exists_congr fun e => and_congr_right fun he => ?_
    exact refuted_iff_of_attests (attests_signed he).1 (attests_signed he).2
  have hunresolved : Unresolved (nodes.buildRegistry demoKey).registry nodes.trustedNodeParams
      (signed mac demoKey nodes event time) ↔
      ∃ e ∈ nodes.entries, (budget event time e).verdict = .apparatusLimited := by
    -- the capture is not a live one
    rw [Unresolved, or_iff_left (by rintro ⟨hlive, -⟩; cases hlive)]
    refine exists_signed.trans ?_
    refine exists_congr fun e => and_congr_right fun he => ?_
    exact limited_iff (attests_signed he).2
  refine ⟨result, hok, hdeclared.rejected.trans hrejectable, ?_⟩
  rw [hdeclared.pass, hrejectable, hunresolved]
  constructor
  · rintro ⟨hrejected, hlimited⟩
    rw [not_or, not_not] at hrejected
    refine ⟨hrejected.1, fun e he => ?_⟩
    exact ArrivalVerdict.eq_admitted (fun h => hrejected.2 ⟨e, he, h⟩) fun h => hlimited ⟨e, he, h⟩
  · rintro ⟨hproper, hadmitted⟩
    refine ⟨?_, ?_⟩
    · rintro (h | ⟨e, he, h⟩)
      · exact h hproper
      · cases h.symm.trans (hadmitted e he)
    · rintro ⟨e, he, h⟩
      cases h.symm.trans (hadmitted e he)

/-! ## The consistent capture -/

omit [DecidableEq Hash] [DecidableEq Tag] [LinearOrder Id] in
theorem seededOffsetNs_nonneg (digest : Id → Nat) (nodeId : Id) (modulus : Int) :
    0 ≤ seededOffsetNs digest nodeId modulus := by
  unfold seededOffsetNs
  split
  · exact le_rfl
  · next h => exact Int.emod_nonneg _ (by omega)

omit [DecidableEq Hash] [DecidableEq Tag] [LinearOrder Id] in
/-- The offset does not make up for a clock uncertainty below zero: then it is zero itself. -/
theorem seededOffsetNs_add_nonneg_iff {digest : Id → Nat} {nodeId : Id} {uNs : Int} :
    0 ≤ seededOffsetNs digest nodeId (max (uNs / 4) 1) + uNs ↔ 0 ≤ uNs := by
  have hoffset := seededOffsetNs_nonneg digest nodeId (max (uNs / 4) 1)
  constructor
  · intro h
    by_contra hneg
    have hmodulus : max (uNs / 4) 1 = 1 := by omega
    rw [hmodulus, seededOffsetNs, if_neg (by decide), Int.emod_one] at h
    omega
  · intro h
    omega

omit [DecidableEq Hash] [DecidableEq Tag] [LinearOrder Id] in
theorem budget_consistent_iff {digest : Id → Nat} {e : Id × FixtureNode} :
    (budget event (consistentTime digest event) e).verdict = .admitted ↔ 0 ≤ e.2.uNs := by
  have hfloors : minLightTimeNs event.claimedEmitPosNm e.2.posNm ≤
      minTransitTimeNsEff event.claimedEmitPosNm e.2.posNm cEffNum cEffDen :=
    minLightTimeNs_le_minTransitTimeNsEff _ _ (by decide)
  rw [budget, budgetWitness_admitted_iff, ← @seededOffsetNs_add_nonneg_iff Id digest e.1]
  simp only [consistentTime]
  omega

/-- **When the consistent capture passes.** It does for every seed and every place of the emission,
on a table with no clock uncertainty below zero, when the caller asks for its nodes. -/
theorem consistent_passes_iff (mac : Key → ReceiptBody Id Hash → Tag) (demoKey : Id → Key)
    (digest : Id → Nat) (nodes : NodeTable Id) (event : EmissionEvent Hash)
    (requiredStationIds : Option (List Id)) :
    Passes mac (nodes.buildRegistry demoKey).registry nodes.trustedNodeParams requiredStationIds
        (buildSyntheticConsistentCapture mac demoKey digest nodes event) ↔
      nodes.entries ≠ [] ∧ nodes.Asked requiredStationIds ∧ ∀ e ∈ nodes.entries, 0 ≤ e.2.uNs := by
  obtain ⟨result, hok, -, hpass⟩ := @signed_verdict Id Hash Key Tag _ _ _ mac demoKey nodes event
    (consistentTime digest event) requiredStationIds
  have hresult : verifyMeasuredCertificate mac (nodes.buildRegistry demoKey).registry
      nodes.trustedNodeParams requiredStationIds
      (buildSyntheticConsistentCapture mac demoKey digest nodes event) = .ok result := hok
  rw [Passes, hresult, Except.map, Except.ok.injEq, hpass, and_assoc]
  refine and_congr_right fun _ => and_congr_right fun _ => forall₂_congr fun e _ => ?_
  exact budget_consistent_iff

/-! ## The marginal capture -/

omit [DecidableEq Hash] [DecidableEq Tag] in
/-- Among values under distinct keys, the one of the key is replaced. -/
theorem replaceFirst_map {α V : Type} {l : List (Id × V)} (hl : (l.map Prod.fst).Nodup)
    (f : Id × V → α) (key : α → Id) (hkey : ∀ e ∈ l, key (f e) = e.1) (k : Id) (new : α) :
    replaceFirst (fun x => decide (key x = k)) new (l.map f) =
      l.map fun e => if e.1 = k then new else f e := by
  induction l with
  | nil => rfl
  | cons e l ih =>
      rw [List.map_cons, List.nodup_cons] at hl
      rw [List.forall_mem_cons] at hkey
      rw [List.map_cons, List.map_cons, replaceFirst, hkey.1]
      by_cases h : e.1 = k
      · have hrest : ∀ e' ∈ l, f e' = if e'.1 = k then new else f e' := by
          intro e' he'
          rw [if_neg]
          rintro rfl
          exact hl.1 (h ▸ List.mem_map_of_mem he')
        simp only [h, decide_true, if_true]
        rw [List.map_congr_left hrest]
      · simp only [h, decide_false, if_false]
        rw [ih hl.2 hkey.2]
        rfl

/-- When the receipts of the marginal capture land. -/
def marginalTimes (digest : Id → Nat) (event : EmissionEvent Hash) (marginalNode : Id)
    (e : Id × FixtureNode) : Int :=
  if e.1 = marginalNode then marginalTime event e else consistentTime digest event e

omit [DecidableEq Hash] [DecidableEq Tag] in
/-- The marginal capture is signed by the nodes as well. -/
theorem buildMarginalCapture_eq {digest : Id → Nat} {marginalNode : Id} {node : FixtureNode}
    (hnode : (marginalNode, node) ∈ nodes.entries) :
    buildMarginalCapture mac demoKey digest nodes event marginalNode =
      .ok (signed mac demoKey nodes event (marginalTimes digest event marginalNode)) := by
  have hget := (Dict.get?_eq_some nodes.nodup).mpr hnode
  have hsorted : (nodes.sorted.map Prod.fst).Nodup :=
    (sorted_perm.map _).nodup_iff.mpr nodes.nodup
  rw [buildMarginalCapture, hget]
  dsimp only
  congr 1
  rw [buildSyntheticConsistentCapture, signed]
  congr 1
  refine (replaceFirst_map hsorted _ (fun r : Receipt Id Hash Tag => r.body.stationId)
    (fun _ _ => rfl) _ _).trans ?_
  apply List.map_congr_left
  rintro ⟨nid, node'⟩ he
  by_cases h : nid = marginalNode
  · subst h
    obtain rfl : node' = node := by
      have hget' := (Dict.get?_eq_some nodes.nodup).mpr (mem_sorted.mp he)
      exact Option.some.inj (hget'.symm.trans hget)
    simp [marginalTimes]
  · simp [marginalTimes, h]

omit [DecidableEq Hash] [DecidableEq Tag] [LinearOrder Id] in
/-- Halfway between the floors is below the higher one, unless they are the same. -/
theorem budget_marginal (event : EmissionEvent Hash) (e : Id × FixtureNode) :
    (budget event (marginalTime event) e).verdict =
      if minLightTimeNs event.claimedEmitPosNm e.2.posNm <
        minTransitTimeNsEff event.claimedEmitPosNm e.2.posNm cEffNum cEffDen
      then .apparatusLimited else .admitted := by
  have hfloors : minLightTimeNs event.claimedEmitPosNm e.2.posNm ≤
      minTransitTimeNsEff event.claimedEmitPosNm e.2.posNm cEffNum cEffDen :=
    minLightTimeNs_le_minTransitTimeNsEff _ _ (by decide)
  have hdt : marginalTime event e - event.claimedEmitTimeNs + e.2.uNs =
      ((minLightTimeNs event.claimedEmitPosNm e.2.posNm +
        minTransitTimeNsEff event.claimedEmitPosNm e.2.posNm cEffNum cEffDen) / 2 : Nat) := by
    rw [marginalTime]
    omega
  simp only [budget, budgetWitness, hdt]
  rw [if_neg (by omega)]
  exact if_congr (by omega) rfl rfl

/-- **The verdict on the marginal capture.** It is `APPARATUS_LIMITED` where the floors of the
marginal node are apart and `PASS` where they are the same, whatever clock uncertainty is declared
for it. -/
theorem marginal_verdict (demoKey : Id → Key) (digest : Id → Nat) (event : EmissionEvent Hash)
    {marginalNode : Id} (hasked : nodes.Asked requiredStationIds)
    (hothers : ∀ e ∈ nodes.entries, e.1 ≠ marginalNode → 0 ≤ e.2.uNs) :
    match Dict.get? nodes.entries marginalNode with
    | none =>
        buildMarginalCapture mac demoKey digest nodes event marginalNode = .error ⟨marginalNode⟩
    | some node =>
        ∃ cert result,
          buildMarginalCapture mac demoKey digest nodes event marginalNode = .ok cert ∧
          verifyMeasuredCertificate mac (nodes.buildRegistry demoKey).registry
            nodes.trustedNodeParams requiredStationIds cert = .ok result ∧
          result.verdict =
            if minLightTimeNs event.claimedEmitPosNm node.posNm <
              minTransitTimeNsEff event.claimedEmitPosNm node.posNm cEffNum cEffDen
            then .apparatusLimited else .pass := by
  split
  · next hnone => rw [buildMarginalCapture, hnone]
  · next node hget =>
      have hnode := (Dict.get?_eq_some nodes.nodup).mp hget
      obtain ⟨result, hok, hrejected, hpass⟩ := @signed_verdict Id Hash Key Tag _ _ _ mac demoKey
        nodes event (marginalTimes digest event marginalNode) requiredStationIds
      have hproper : nodes.entries ≠ [] ∧ nodes.Asked requiredStationIds :=
        ⟨List.ne_nil_of_mem hnode, hasked⟩
      -- the other nodes are where the consistent capture has them
      have hbudget : ∀ e ∈ nodes.entries, e ≠ (marginalNode, node) →
          (budget event (marginalTimes digest event marginalNode) e).verdict = .admitted := by
        intro e he hne
        have hid : e.1 ≠ marginalNode := by
          rintro rfl
          have hget' := (Dict.get?_eq_some nodes.nodup).mpr he
          exact hne (Prod.ext rfl (Option.some.inj (hget'.symm.trans hget)))
        have htime : budget event (marginalTimes digest event marginalNode) e =
            budget event (consistentTime digest event) e := by
          rw [budget, budget, marginalTimes, if_neg hid]
        rw [htime, budget_consistent_iff]
        exact hothers e he hid
      have hmarginal : budget event (marginalTimes digest event marginalNode)
          (marginalNode, node) = budget event (marginalTime event) (marginalNode, node) := by
        rw [budget, budget, marginalTimes, if_pos rfl]
      have hverdict := budget_marginal event (marginalNode, node)
      rw [← hmarginal] at hverdict
      refine ⟨_, result, buildMarginalCapture_eq hnode, hok, ?_⟩
      have hnot : result.verdict ≠ .rejected := by
        rw [Ne, hrejected, not_or, not_not]
        refine ⟨hproper, ?_⟩
        rintro ⟨e, he, h⟩
        by_cases heq : e = (marginalNode, node)
        · subst heq
          rw [hverdict] at h
          split at h <;> cases h
        · cases h.symm.trans (hbudget e he heq)
      have hiff : result.verdict = .pass ↔ ¬ minLightTimeNs event.claimedEmitPosNm node.posNm <
          minTransitTimeNsEff event.claimedEmitPosNm node.posNm cEffNum cEffDen := by
        rw [hpass, and_iff_right hproper]
        constructor
        · intro h hlt
          have hadmitted := h _ hnode
          rw [hverdict, if_pos hlt] at hadmitted
          cases hadmitted
        · intro h e he
          by_cases heq : e = (marginalNode, node)
          · subst heq
            rw [hverdict, if_neg h]
          · exact hbudget e he heq
      split
      · next hlt =>
          cases hv : result.verdict with
          | pass => exact absurd hlt (hiff.mp hv)
          | apparatusLimited => rfl
          | rejected => exact absurd hv hnot
      · next hle => exact hiff.mpr hle

end Signed

end NodeTable

/-! ## The captures of the two benchmarks -/

/-- `NODES_NM` and `NODE_U_NS` of `horizon/fixtures.py`. -/
def nodesH5 : NodeTable String where
  entries :=
    [("NODE-USE1", ⟨⟨0, 0, 0⟩, 50000⟩),
      ("NODE-USW2", ⟨⟨-3819497896113808, 743604952442822, 20000000000⟩, 5000000⟩),
      ("NODE-EUW1", ⟨⟨6124151593140482, 1605943847556704, -10000000000⟩, 5000000⟩)]
  nodup := by decide

/-- `_event` of `horizon/fixtures.py`, at `T0_H5_NS` and `EVENT_POS_NM`. -/
def eventH5 (eventHash : List (String × String) → Hash) : EmissionEvent Hash :=
  makeEvent eventHash [("kind", "h5_measurement_event")] 0 ⟨0, 0, 0⟩

/-- `_event` of `horizon/geo_fixtures.py`, at `T0_H6_NS`. -/
def eventH6 (eventHash : List (String × String) → Hash) (emitPosNm : Pos) : EmissionEvent Hash :=
  makeEvent eventHash [("kind", "h6_measurement_event")] 1000000000 emitPosNm

/-- The event of a capture over real geography, emitted at `EMIT_NODE`. -/
def emissionH6 (eventHash : List (String × String) → Hash) (nodes : NodeTable String) :
    Except (UnknownNode String) (EmissionEvent Hash) :=
  match Dict.get? nodes.entries "us-east-1" with
  | none => .error ⟨"us-east-1"⟩
  | some node => .ok (eventH6 eventHash node.posNm)

section Captures

/- The seeded digest of an id, as a number. -/
variable (mac : Key → ReceiptBody String Hash → Tag) (demoKey : String → Key)
  (eventHash : List (String × String) → Hash) (digest : String → String → Nat) (seed : String)

def buildSyntheticConsistentCaptureH5 : MeasuredCertificate String Hash Tag :=
  nodesH5.buildSyntheticConsistentCapture mac demoKey (digest seed) (eventH5 eventHash)

def buildMarginalCaptureH5 (marginalNode : String) :
    Except (UnknownNode String) (MeasuredCertificate String Hash Tag) :=
  nodesH5.buildMarginalCapture mac demoKey (digest seed) (eventH5 eventHash) marginalNode

def buildSyntheticConsistentCaptureH6 (nodes : NodeTable String) :
    Except (UnknownNode String) (MeasuredCertificate String Hash Tag) :=
  (emissionH6 eventHash nodes).map fun event =>
    nodes.buildSyntheticConsistentCapture mac demoKey (digest seed) event

def buildMarginalCaptureH6 (nodes : NodeTable String) (marginalNode : String) :
    Except (UnknownNode String) (MeasuredCertificate String Hash Tag) :=
  match emissionH6 eventHash nodes with
  | .error e => .error e
  | .ok event => nodes.buildMarginalCapture mac demoKey (digest seed) event marginalNode

end Captures

/-- The frozen marginal capture is one that the apparatus cannot resolve. -/
theorem marginal_verdict_h5 :
    ∃ cert result,
      buildMarginalCaptureH5 (fun key body => (key, body)) id id (fun _ _ => 7)
        "H5-FROZEN-SEED-v1" "NODE-USW2" = .ok cert ∧
      verifyMeasuredCertificate (fun key body => (key, body)) (nodesH5.buildRegistry id).registry
        nodesH5.trustedNodeParams none cert = .ok result ∧
      result.verdict = .apparatusLimited := by
  have hget : Dict.get? nodesH5.entries "NODE-USW2" =
      some ⟨⟨-3819497896113808, 743604952442822, 20000000000⟩, 5000000⟩ := by rfl
  have h := @NodeTable.marginal_verdict String (List (String × String)) String
    (String × ReceiptBody String (List (String × String))) _ _ _ (fun key body => (key, body))
    nodesH5 none id (fun _ => 7) (eventH5 id) "NODE-USW2" nofun (by
      intro e he _
      have hall : ∀ e ∈ nodesH5.entries, 0 ≤ e.2.uNs := by decide
      exact hall e he)
  rw [hget] at h
  obtain ⟨cert, result, hbuild, hok, hverdict⟩ := h
  refine ⟨cert, result, hbuild, hok, ?_⟩
  rw [hverdict, if_pos (by decide +kernel)]

end HorizonProtocol.Attestation
