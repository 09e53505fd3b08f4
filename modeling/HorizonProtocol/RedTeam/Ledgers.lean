import HorizonProtocol.Ledger.Runs
import HorizonProtocol.RedTeam.Timing
import Mathlib.Data.List.Sort

/-!
# Cycles and conflated claims

The attacks of `redteam/attacks.py` on the causal ledger: random events, and edges that would close
a cycle; some named scenarios; and claims of dependencies, which a physical edge must neither make
nor be made by.

What is proved holds of all that can be drawn. `Open` says of a ledger in the middle of a trial that its
events are there and nothing was asserted, and `Tried` what one edge does to such a ledger; a trial is
a few of these steps, one after another.

* `always_attackLedgerCycleFuzz`, `attackLedgerNamedScenarios_eq`,
  `always_attackEdgeClaimForgeryFuzz` — none of them gets through.
-/

namespace HorizonProtocol.RedTeam

open Sampling

/-- A ledger with ids and references that are texts. -/
abbrev Ledger := CausalLedger String String

variable {σ : Type} (g : Generator σ)

/-! ## Random events -/

/-- `f"E{i}-{j}"`. -/
def drawnId (i j : Nat) : String := "E" ++ toString i ++ "-" ++ toString j

/-- The three ids of a trial. -/
def drawnIds (i : Nat) : List String := (List.range 3).map (drawnId i)

/-- Each id is recorded at a random time and place. -/
def addDrawn : List String → Ledger → Draws σ (LedgerError String) Ledger
  | [], ledger => pure ledger
  | eid :: eids, ledger => do
      let t ← randint g 0 (10 ^ 12)
      let x ← randint g 0 (10 ^ 14)
      let y ← randint g 0 (10 ^ 14)
      let z ← randint g 0 (10 ^ 14)
      let (ledger, added) := ledger.addEvent eid t ⟨x, y, z⟩
      ofExcept added
      addDrawn eids ledger

/-- An edge that the ledger takes or not. An event that is not there would raise. -/
def tryEdge (ledger : Ledger) (a b : String) :
    Draws σ (LedgerError String) (Ledger × EdgeRecord String) := do
  let tried := ledger.addEdge a b
  let record ← ofExcept tried.2
  pure (tried.1, record)

/-- The ids are recorded, the ledger is as its calls keep it, and no dependency was asserted. -/
structure Open (ledger : Ledger) (eids : List String) : Prop where
  recorded : ∀ eid ∈ eids, ∃ e, ledger.events eid = some e
  inv : ledger.Inv
  unobserved : ∀ a b, ledger.hasObservedDependency a b = false

variable {g}

/-- A trial begins with an empty ledger. -/
theorem Open.empty : Open {} [] where
  recorded _ h := absurd h List.not_mem_nil
  inv := CausalLedger.Inv.empty
  unobserved _ _ := rfl

/-- A call that asserts no dependency leaves none. -/
theorem Open.steps {ledger ledger' : Ledger} {eids eids' : List String}
    {call : CausalLedger.Call String String}
    {r : Except (LedgerError String) (CausalLedger.Reply String String)} (h : Open ledger eids)
    (hstep : CausalLedger.Steps ledger call ledger' r)
    (hrecorded : ∀ eid ∈ eids', ∃ e, ledger'.events eid = some e)
    (hcall : ∀ a b, ¬ CausalLedger.Asserts call r a b) : Open ledger' eids' where
  recorded := hrecorded
  inv := h.inv.steps hstep
  unobserved a b := by
    rw [← Bool.not_eq_true, CausalLedger.observed_step hstep, h.unobserved]
    simp [hcall a b]

/-- Fresh ids are recorded at whatever time and place is drawn, and no edge comes with them. By induction
on the ids: those that are done are open already, and a fresh one stays fresh until its turn. -/
theorem always_addDrawn {eids done : List String} {ledger : Ledger} (h : Open ledger done)
    (hnodup : eids.Nodup) (hfresh : ∀ eid ∈ eids, ledger.events eid = none) :
    Always (addDrawn g eids ledger) fun ledger' =>
      Open ledger' (done ++ eids) ∧ ledger'.edges = ledger.edges := by
  induction eids generalizing ledger done with
  | nil => exact always_pure ⟨by rwa [List.append_nil], rfl⟩
  | cons eid eids ih =>
      rw [List.nodup_cons] at hnodup
      rw [List.forall_mem_cons] at hfresh
      refine always_bind (always_randint (by decide) fun t _ _ => ?_)
      refine always_bind (always_randint (by decide) fun x _ _ => ?_)
      refine always_bind (always_randint (by decide) fun y _ _ => ?_)
      refine always_bind (always_randint (by decide) fun z _ _ => ?_)
      -- the id is fresh, so nothing is raised
      have hadd : ledger.addEvent eid t ⟨x, y, z⟩ =
          ({ ledger with events := Function.update ledger.events eid (some ⟨t, ⟨x, y, z⟩⟩) },
            .ok ()) := by
        rw [CausalLedger.addEvent, hfresh.1]
      rw [hadd]
      refine always_bind (always_ofExcept rfl ?_)
      have hopen : Open { ledger with
          events := Function.update ledger.events eid (some ⟨t, ⟨x, y, z⟩⟩) } (done ++ [eid]) := by
        apply h.steps (.recorded hfresh.1)
        · intro eid' heid'
          dsimp only
          by_cases heq : eid' = eid
          · rw [heq, Function.update_self]
            exact ⟨_, rfl⟩
          · rw [Function.update_of_ne heq]
            apply h.recorded
            simpa [heq] using heid'
        · simp [CausalLedger.Asserts]
      refine (ih hopen hnodup.2 fun eid' heid' => ?_).mono fun ledger' hledger' => ?_
      · have hne : eid' ≠ eid := by
          rintro rfl
          exact hnodup.1 heid'
        dsimp only
        rw [Function.update_of_ne hne]
        exact hfresh.2 eid' heid'
      · rw [List.append_assoc] at hledger'
        exact hledger'

/-- What the ledger did with an edge between recorded events. -/
structure Tried (ledger : Ledger) (eids : List String) (a b : String) (ledger' : Ledger)
    (record : EdgeRecord String) : Prop where
  opened : Open ledger' eids
  events : ledger'.events = ledger.events
  admitted : record.verdict = .admitted → ∃ ea eb, ledger.events a = some ea ∧
    ledger.events b = some eb ∧ ea.timeNs < eb.timeNs
  edges : ∀ p, p ∈ ledger'.edges ↔ p ∈ ledger.edges ∨ (record.verdict = .admitted ∧ p = (a, b))

/-- Between recorded events nothing is raised, and the record says whether the edge is there. -/
theorem always_tryEdge {ledger : Ledger} {eids : List String} {a b : String} (h : Open ledger eids)
    (ha : a ∈ eids) (hb : b ∈ eids) :
    Always (tryEdge ledger a b : Draws σ _ _) fun tried =>
      Tried ledger eids a b tried.1 tried.2 := by
  obtain ⟨ea, hea⟩ := h.recorded a ha
  obtain ⟨eb, heb⟩ := h.recorded b hb
  obtain ⟨⟨record, hok, hlater⟩, hevents, hedge⟩ := ledger.addEdge_recorded hea heb
  have hstep := ledger.addEdge_cases a b
  have htried : Tried ledger eids a b (ledger.addEdge a b).1 record := by
    refine ⟨h.steps hstep ?_ (by simp [CausalLedger.Asserts]), hevents, ?_, fun p => ?_⟩
    · rw [hevents]
      exact h.recorded
    · exact fun hadm => ⟨ea, eb, hea, heb, (hlater.mp hadm).earlier⟩
    · rw [hlater, Prod.ext_iff]
      exact hedge p.1 p.2
  exact always_bind (always_ofExcept hok (always_pure htried))

/-! ## Cycles -/

/-- A cycle whose edges were all admitted, of the trial that found it. -/
inductive CycleBypass where
  | two (trial : Nat) (edge : String × String)
  | three (trial : Nat) (edges : List (String × String))

/-- Two events and both edges between them; and three, with the edges around. Each in a ledger of its
own. -/
def cycleTrial (g : Generator σ) (i : Nat) : Draws σ (LedgerError String) (List CycleBypass) := do
  let a := drawnId i 0
  let b := drawnId i 1
  let c := drawnId i 2
  let ledger ← addDrawn g (drawnIds i) {}
  let (ledger, rAb) ← tryEdge ledger a b
  let (_, rBa) ← tryEdge ledger b a
  let ledger2 ← addDrawn g (drawnIds i) {}
  let (ledger2, r1) ← tryEdge ledger2 a b
  let (ledger2, r2) ← tryEdge ledger2 b c
  let (_, r3) ← tryEdge ledger2 c a
  pure ((if rAb.verdict = .admitted ∧ rBa.verdict = .admitted then [.two i (a, b)] else []) ++
    (if ∀ r ∈ [r1, r2, r3], r.verdict = .admitted then
      [.three i [(a, b), (b, c), (c, a)]] else []))

def attackLedgerCycleFuzz (g : Generator σ) (n : Nat := 2000) :
    Draws σ (LedgerError String) (Report CycleBypass) :=
  report "ledger_cycle_fuzz" n (trials n (cycleTrial g))

/-- So each is fresh when it is recorded. -/
theorem drawnIds_nodup (i : Nat) : (drawnIds i).Nodup := by
  have hids : drawnIds i = ["0", "1", "2"].map fun j => "E" ++ toString i ++ "-" ++ j := rfl
  rw [hids]
  apply List.Nodup.map
  · exact fun j k h => (String.append_right_inj _).mp h
  · decide

theorem mem_drawnIds {i j : Nat} (hj : j < 3) : drawnId i j ∈ drawnIds i :=
  List.mem_map_of_mem (List.mem_range.mpr hj)

/-- The ids of a trial are drawn into an empty ledger. -/
theorem always_drawn (i : Nat) :
    Always (addDrawn g (drawnIds i) {}) fun ledger =>
      Open ledger (drawnIds i) ∧ ledger.edges = ∅ :=
  always_addDrawn Open.empty (drawnIds_nodup i) fun _ _ => rfl

/-- No cycle gets through: the times of its events would be below themselves. -/
theorem always_cycleTrial (i : Nat) : Always (cycleTrial g i) fun found => found = [] := by
  have ha : drawnId i 0 ∈ drawnIds i := mem_drawnIds (by decide)
  have hb : drawnId i 1 ∈ drawnIds i := mem_drawnIds (by decide)
  have hc : drawnId i 2 ∈ drawnIds i := mem_drawnIds (by decide)
  refine always_bind ((always_drawn i).mono fun ledger hledger => ?_)
  refine always_bind ((always_tryEdge hledger.1 ha hb).mono fun tAb hAb => ?_)
  refine always_bind ((always_tryEdge hAb.opened hb ha).mono fun tBa hBa => ?_)
  refine always_bind ((always_drawn i).mono fun ledger2 hledger2 => ?_)
  refine always_bind ((always_tryEdge hledger2.1 ha hb).mono fun t1 h1 => ?_)
  refine always_bind ((always_tryEdge h1.opened hb hc).mono fun t2 h2 => ?_)
  refine always_bind ((always_tryEdge h2.opened hc ha).mono fun t3 h3 => ?_)
  apply always_pure
  -- along admitted edges the time goes up
  have htwo : ¬ (tAb.2.verdict = .admitted ∧ tBa.2.verdict = .admitted) := by
    rintro ⟨hadm, hadm'⟩
    obtain ⟨ea, eb, hea, heb, hlt⟩ := hAb.admitted hadm
    obtain ⟨eb', ea', heb', hea', hlt'⟩ := hBa.admitted hadm'
    rw [hAb.events] at heb' hea'
    cases hea.symm.trans hea'
    cases heb.symm.trans heb'
    omega
  have hthree : ¬ ∀ r ∈ [t1.2, t2.2, t3.2], r.verdict = .admitted := by
    intro hall
    obtain ⟨ea, eb, hea, heb, hlt⟩ := h1.admitted (hall _ (by simp))
    obtain ⟨eb', ec, heb', hec, hlt'⟩ := h2.admitted (hall _ (by simp))
    obtain ⟨ec', ea', hec', hea', hlt''⟩ := h3.admitted (hall _ (by simp))
    rw [h2.events, h1.events] at hec' hea'
    rw [h1.events] at heb' hec
    cases hea.symm.trans hea'
    cases heb.symm.trans heb'
    cases hec.symm.trans hec'
    omega
  rw [if_neg htwo, if_neg hthree]
  rfl

/-- **No cycle closes**, in any number of trials. -/
theorem always_attackLedgerCycleFuzz (n : Nat) :
    Always (attackLedgerCycleFuzz g n) (Clean "ledger_cycle_fuzz" n) :=
  always_report (always_trials fun i _ => always_cycleTrial i)

/-! ## Named scenarios -/

structure ScenarioBypass where
  scenario : String
  verdict : EdgeVerdict
  deriving DecidableEq

/-- Events at fixed times and places. -/
def addEvents (events : List (String × Stamp)) (ledger : Ledger) :
    Except (LedgerError String) Ledger :=
  events.foldlM (fun ledger e =>
    let added := ledger.addEvent e.1 e.2.timeNs e.2.posNm
    added.2.map fun _ => added.1) ledger

/-- The edges one after another, with their verdicts. -/
def addEdges : List (String × String) → Ledger → Except (LedgerError String) (List EdgeVerdict)
  | [], _ => .ok []
  | (a, b) :: edges, ledger => do
      let tried := ledger.addEdge a b
      let record ← tried.2
      let verdicts ← addEdges edges tried.1
      .ok (record.verdict :: verdicts)

/-- `B` is in the cone of `A` and `C` in that of `B`; `D` is spacelike to `A`. -/
def scenarioEvents : List (String × Stamp) :=
  [("A", ⟨0, ⟨0, 0, 0⟩⟩), ("B", ⟨10, ⟨cNmPerNs, 0, 0⟩⟩), ("C", ⟨20, ⟨2 * cNmPerNs, 0, 0⟩⟩),
    ("D", ⟨0, ⟨cNmPerNs, 0, 0⟩⟩)]

def attackLedgerNamedScenarios : Except (LedgerError String) (Report ScenarioBypass) := do
  let ledger ← addEvents scenarioEvents {}
  let verdicts ← addEdges [("A", "B"), ("B", "C"), ("C", "A"), ("B", "A"), ("A", "D")] ledger
  let attempts := ["backward_C_to_A", "backward_B_to_A", "spacelike_A_to_D"].zip (verdicts.drop 2)
  .ok
    { attack := "ledger_named_scenarios", trials := attempts.length
      bypasses := (attempts.filter fun p => p.2 = .admitted).map fun p => ⟨p.1, p.2⟩ }

/-- Nothing is drawn here: the scenarios are run. -/
theorem attackLedgerNamedScenarios_eq :
    attackLedgerNamedScenarios =
      .ok { attack := "ledger_named_scenarios", trials := 3, bypasses := [] } := by
  rfl

/-! ## Conflated claims -/

/-- What would show that edges and claims are taken for one another. -/
inductive ConflationKind where
  | admissibilityClaimMismatch (admitted claimed : Finset (String × String))
  | physicalAdmissibilityAcceptedAsDependency
  | observedDependencyWithoutEdgeOrClaim
  | admissibilityAloneSatisfiedObservedDependency
  | explicitClaimNotVisible
  | claimLeakedToReverseDirection

structure ConflationBypass where
  trial : Nat
  kind : ConflationKind

/-- The pairs that the gate admits, of those it is asked for. -/
def admittedPairs : List (String × String) → Ledger → Finset (String × String) →
    Draws σ (LedgerError String) (Ledger × Finset (String × String))
  | [], ledger, admitted => pure (ledger, admitted)
  | (a, b) :: pairs, ledger, admitted => do
      let (ledger, record) ← tryEdge ledger a b
      admittedPairs pairs ledger
        (if record.verdict = .admitted then insert (a, b) admitted else admitted)

/-- Whether `add_dependency_claim` takes the physical kind. It is to raise a `ValueError`. -/
def physicalAccepted (ledger : Ledger) (a b : String) : Except (LedgerError String) Bool :=
  match (ledger.addDependencyClaim a b EdgeKind.physicalAdmissibility.value "attacker" "1" none).2 with
  | .ok _ => .ok true
  | .error (.notDependencyKind _) => .ok false
  | .error (.claim _) => .ok false
  | .error e => .error e

/-- `sorted(EdgeKind.DEPENDENCY_KINDS)`. -/
def sortedDependencyKinds : List String :=
  (EdgeKind.dependencyKinds.map EdgeKind.value).insertionSort (· ≤ ·)

/-- Edges are tried, the physical kind is offered as a dependency, and then one dependency is claimed.
Before it nothing may be observed, and after it that one alone. -/
def conflationTrial (g : Generator σ) (i : Nat) :
    Draws σ (LedgerError String) (List ConflationBypass) := do
  let a := drawnId i 0
  let b := drawnId i 1
  let c := drawnId i 2
  let ledger ← addDrawn g (drawnIds i) {}
  let (ledger, admitted) ← admittedPairs [(a, b), (b, c), (a, c)] ledger ∅
  let claims := ledger.physicalClaims
  let claimed := (claims.map EdgeClaim.endpoints).toFinset
  let mismatch := if claimed ≠ admitted ∨ claims.length ≠ admitted.card then
    [⟨i, .admissibilityClaimMismatch admitted claimed⟩] else []
  let accepted ← ofExcept (physicalAccepted ledger a b)
  let laundered := if accepted then [⟨i, .physicalAdmissibilityAcceptedAsDependency⟩] else []
  let observed :=
    if ledger.hasObservedDependency a b ∧ (a, b) ∉ admitted then
      [⟨i, .observedDependencyWithoutEdgeOrClaim⟩]
    else if ledger.hasObservedDependency a b then
      [⟨i, .admissibilityAloneSatisfiedObservedDependency⟩]
    else []
  let kind ← choice g sortedDependencyKinds
  let asserted := ledger.addDependencyClaim a b kind "agent" (toString (i : Int)) none
  let _ ← ofExcept asserted.2
  let invisible := if asserted.1.hasObservedDependency a b then [] else
    [⟨i, .explicitClaimNotVisible⟩]
  let leaked := if asserted.1.hasObservedDependency b a then
    [⟨i, .claimLeakedToReverseDirection⟩] else []
  pure (mismatch ++ laundered ++ observed ++ invisible ++ leaked)

def attackEdgeClaimForgeryFuzz (g : Generator σ) (n : Nat := 2000) :
    Draws σ (LedgerError String) (Report ConflationBypass) :=
  report "edge_claim_forgery_fuzz" n (trials n (conflationTrial g))

/-- The edges of the ledger are what was admitted so far. By induction on the pairs. -/
theorem always_admittedPairs {eids : List String} {pairs : List (String × String)} {ledger : Ledger}
    {admitted : Finset (String × String)} (h : Open ledger eids) (hedges : ledger.edges = admitted)
    (hpairs : ∀ p ∈ pairs, p.1 ∈ eids ∧ p.2 ∈ eids) :
    Always (admittedPairs pairs ledger admitted : Draws σ _ _) fun r =>
      Open r.1 eids ∧ r.1.edges = r.2 := by
  induction pairs generalizing ledger admitted with
  | nil => exact always_pure ⟨h, hedges⟩
  | cons p pairs ih =>
      rw [List.forall_mem_cons] at hpairs
      refine always_bind ((always_tryEdge h hpairs.1.1 hpairs.1.2).mono fun tried htried => ?_)
      refine ih htried.opened ?_ hpairs.2
      ext q
      rw [htried.edges, hedges]
      split
      · next hadm => rw [Finset.mem_insert, and_iff_right hadm, or_comm]
      · next hadm => simp [hadm]

/-- The physical kind is no kind of a dependency. -/
theorem physicalAccepted_eq {ledger : Ledger} {eids : List String} {a b : String}
    (h : Open ledger eids) (ha : a ∈ eids) (hb : b ∈ eids) :
    physicalAccepted ledger a b = .ok false := by
  obtain ⟨ea, hea⟩ := h.recorded a ha
  obtain ⟨eb, heb⟩ := h.recorded b hb
  have hkind : EdgeKind.physicalAdmissibility.value ∉
      EdgeKind.dependencyKinds.map EdgeKind.value := by decide
  rw [physicalAccepted, CausalLedger.addDependencyClaim, hea, heb, if_neg (by simp), if_pos hkind]

/-- A dependency of a known kind is asserted, and that is the one that is then observed. -/
theorem addDependencyClaim_recorded {ledger : Ledger} {eids : List String} {a b kind at_ : String}
    (h : Open ledger eids) (ha : a ∈ eids) (hb : b ∈ eids)
    (hkind : kind ∈ EdgeKind.dependencyKinds.map EdgeKind.value) (hat : at_ ≠ "") :
    ∃ c, (ledger.addDependencyClaim a b kind "agent" at_ none).2 = .ok c ∧
      ∀ x y, (ledger.addDependencyClaim a b kind "agent" at_ none).1.hasObservedDependency x y =
        true ↔ (x, y) = (a, b) := by
  obtain ⟨ea, hea⟩ := h.recorded a ha
  obtain ⟨eb, heb⟩ := h.recorded b hb
  obtain ⟨k, -, rfl⟩ := List.mem_map.mp hkind
  obtain ⟨c, hc, -⟩ := EdgeClaim.make_of_known a b k (none : Option (List String))
    (by decide : "agent" ≠ "") hat
  have hok : (ledger.addDependencyClaim a b k.value "agent" at_ none).2 = .ok c := by
    rw [CausalLedger.addDependencyClaim, hea, heb, if_neg (by simp), if_neg (not_not.mpr hkind), hc]
  refine ⟨c, hok, fun x y => ?_⟩
  rw [CausalLedger.observed_step (ledger.addDependencyClaim_cases a b k.value "agent" at_ none),
    h.unobserved, hok]
  simp only [Bool.false_eq_true, false_or, CausalLedger.Asserts, Except.map]
  constructor
  · rintro ⟨k', by', at', refs', c', hcall, -⟩
    cases hcall
    rfl
  · intro heq
    cases heq
    exact ⟨k.value, "agent", at_, none, c, rfl, rfl⟩

/-- Edges and claims are kept apart. -/
theorem always_conflationTrial (i : Nat) :
    Always (conflationTrial g i) fun found => found = [] := by
  have ha : drawnId i 0 ∈ drawnIds i := mem_drawnIds (by decide)
  have hb : drawnId i 1 ∈ drawnIds i := mem_drawnIds (by decide)
  have hc : drawnId i 2 ∈ drawnIds i := mem_drawnIds (by decide)
  refine always_bind ((always_drawn i).mono fun ledger hledger => ?_)
  have hpairs : ∀ p ∈ [(drawnId i 0, drawnId i 1), (drawnId i 1, drawnId i 2),
      (drawnId i 0, drawnId i 2)], p.1 ∈ drawnIds i ∧ p.2 ∈ drawnIds i := by
    simp [ha, hb, hc]
  refine always_bind ((always_admittedPairs hledger.1 hledger.2 hpairs).mono fun r hr => ?_)
  refine always_bind (always_ofExcept (physicalAccepted_eq hr.1 ha hb) ?_)
  refine always_bind (always_choice (by decide) fun kind hkind => ?_)
  rw [sortedDependencyKinds, (List.perm_insertionSort _ _).mem_iff] at hkind
  obtain ⟨c, hok, hobserved⟩ := addDependencyClaim_recorded hr.1 ha hb hkind
    (CausalLedger.toString_ne_empty (i : Int))
  refine always_bind (always_ofExcept hok (always_pure ?_))
  -- the physical claims are the admitted pairs, each once
  have hclaimed : (r.1.physicalClaims.map EdgeClaim.endpoints).toFinset = r.2 := by
    ext p
    rw [List.mem_toFinset, hr.1.inv.claimed_iff, hr.2]
  have hcard : r.1.physicalClaims.length = r.2.card := by
    rw [← hclaimed, List.toFinset_card_of_nodup hr.1.inv.claims_nodup, List.length_map]
  have hne : drawnId i 0 ≠ drawnId i 1 := by
    intro heq
    have hnodup : [drawnId i 0, drawnId i 1, drawnId i 2].Nodup := drawnIds_nodup i
    rw [heq] at hnodup
    simp at hnodup
  have hforward := (hobserved (drawnId i 0) (drawnId i 1)).mpr rfl
  have hreverse := mt (hobserved (drawnId i 1) (drawnId i 0)).mp fun heq =>
    hne (congrArg Prod.snd heq)
  generalize r.1.addDependencyClaim _ _ _ _ _ _ = asserted at hforward hreverse ⊢
  simp [hclaimed, hcard, hr.1.unobserved, hforward, hreverse]

/-- **No claim is forged**, in any number of trials. -/
theorem always_attackEdgeClaimForgeryFuzz (n : Nat) :
    Always (attackEdgeClaimForgeryFuzz g n) (Clean "edge_claim_forgery_fuzz" n) :=
  always_report (always_trials fun i _ => always_conflationTrial i)

end HorizonProtocol.RedTeam
