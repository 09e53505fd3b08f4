import HorizonProtocol.Trajectory.TwoFloor
import HorizonProtocol.VectorClock

/-!
# Reconciling events of two nodes

`horizon/reconcile.py`: an event comes before another only when its vector clock happens before the
other's and the two-floor gate admits the edge. Both parts are strict orders of their own, so their
conjunction is one too, whichever way the positions of the events are known:

* `before_iff` — what `BEFORE` means.
* `reconcile_consistent` — reconciliation is a consistent order on every family of events.
-/

namespace HorizonProtocol.Trajectory

/-- What an event says of its place: a worldline, or an envelope around one. -/
inductive Locator where
  | worldline (w : Worldline)
  | envelope (e : TrajectoryEnvelope)

structure Event (Node : Type) where
  nodeId : Node
  vclock : VClock Node
  tCoordNs : Int
  locator : Locator

inductive EventOrder where
  | before
  | after
  | concurrent
  | apparatusLimited
  deriving DecidableEq

/-- The same verdict with the events exchanged. -/
def EventOrder.mirror : EventOrder → EventOrder
  | .before => .after
  | .after => .before
  | .concurrent => .concurrent
  | .apparatusLimited => .apparatusLimited

inductive Direction where
  | aToB
  | bToA
  deriving DecidableEq

structure PhysicalCheck where
  direction : Direction
  verdict : TwoFloorVerdict
  witness : TwoFloorWitness
  deriving DecidableEq

inductive ReconcileReason where
  | lineageClaimsAnEdgeTheLightConeForbids
  | noLineageEdgeEitherDirection
  deriving DecidableEq

structure ReconcileWitness (Node : Type) where
  nodeA : Node
  nodeB : Node
  lineageABeforeB : Bool
  lineageBBeforeA : Bool
  decidedBy : String := "vector_clock_lineage_and_light_cone_only"
  properTimeUsedForOrdering : Bool := false
  physicalCheck : Option PhysicalCheck := none
  reason : Option ReconcileReason := none
  deriving DecidableEq

structure ReconcileResult (Node : Type) where
  verdict : EventOrder
  witness : ReconcileWitness Node
  deriving DecidableEq

section Reconcile

variable {Node : Type} [DecidableEq Node]

omit [DecidableEq Node] in
/-- `_locator_arg`: a worldline is evaluated at the time of the event, an envelope is passed on. -/
def Event.locatorArg (event : Event Node) : Side :=
  match event.locator with
  | .envelope e => .envelope e
  | .worldline w => .point (w.positionAt event.tCoordNs)

/-- `_physical_verdict`: could the first event causally precede the second? -/
def physicalVerdict (fromEvent toEvent : Event Node) : Except TrajectoryError TwoFloorResult :=
  twoFloorVerdict fromEvent.tCoordNs fromEvent.locatorArg toEvent.tCoordNs toEvent.locatorArg

/-- The relation of `a` to `b`. -/
def reconcile (a b : Event Node) : Except TrajectoryError (ReconcileResult Node) :=
  let aBeforeB := a.vclock.happensBefore b.vclock
  let bBeforeA := b.vclock.happensBefore a.vclock
  let witness : ReconcileWitness Node :=
    { nodeA := a.nodeId, nodeB := b.nodeId
      lineageABeforeB := aBeforeB, lineageBBeforeA := bBeforeA }
  if aBeforeB then do
    let phys ← physicalVerdict a b
    let witness := { witness with physicalCheck := some ⟨.aToB, phys.verdict, phys.witness⟩ }
    match phys.verdict with
    | .admitted => return ⟨.before, witness⟩
    | .apparatusLimited => return ⟨.apparatusLimited, witness⟩
    | .rejected =>
      return ⟨.concurrent, { witness with reason := some .lineageClaimsAnEdgeTheLightConeForbids }⟩
  else if bBeforeA then do
    let phys ← physicalVerdict b a
    let witness := { witness with physicalCheck := some ⟨.bToA, phys.verdict, phys.witness⟩ }
    match phys.verdict with
    | .admitted => return ⟨.after, witness⟩
    | .apparatusLimited => return ⟨.apparatusLimited, witness⟩
    | .rejected =>
      return ⟨.concurrent, { witness with reason := some .lineageClaimsAnEdgeTheLightConeForbids }⟩
  else
    return ⟨.concurrent, { witness with reason := some .noLineageEdgeEitherDirection }⟩

/-! ## The case table -/

/-- The event is not before the contact of its envelope, if it has one. -/
def Event.Located (event : Event Node) : Prop := event.locatorArg.Covers event.tCoordNs

instance (event : Event Node) : Decidable event.Located :=
  inferInstanceAs (Decidable (event.locatorArg.Covers event.tCoordNs))

/-- Wherever the locators put the two events, light gets from the first to the second. -/
def Event.MustReach (a b : Event Node) : Prop :=
  Trajectory.MustReach a.tCoordNs a.locatorArg b.tCoordNs b.locatorArg

/-- What a lineage edge becomes under the physical check. -/
def edgeOrder (agreed : EventOrder) : TwoFloorVerdict → EventOrder
  | .admitted => agreed
  | .apparatusLimited => .apparatusLimited
  | .rejected => .concurrent

variable {a b c : Event Node}

omit [DecidableEq Node] in
theorem physicalVerdict_spec (ha : a.Located) (hb : b.Located) :
    ∃ phys, physicalVerdict a b = .ok phys ∧ (phys.verdict = .admitted ↔ a.MustReach b) := by
  obtain ⟨phys, hphys, hexact⟩ := twoFloorVerdict_spec ha hb
  exact ⟨phys, hphys, hexact.admitted_iff⟩

theorem reconcile_of_before (h : a.vclock.happensBefore b.vclock = true) {phys : TwoFloorResult}
    (hphys : physicalVerdict a b = .ok phys) :
    ∃ res, reconcile a b = .ok res ∧ res.verdict = edgeOrder .before phys.verdict := by
  unfold reconcile
  rw [hphys]
  dsimp only [bind, Except.bind, pure, Except.pure]
  rw [if_pos h]
  split
  · next hv => exact ⟨_, rfl, by rw [hv]; rfl⟩
  · next hv => exact ⟨_, rfl, by rw [hv]; rfl⟩
  · next hv => exact ⟨_, rfl, by rw [hv]; rfl⟩

theorem reconcile_of_after (h : b.vclock.happensBefore a.vclock = true) {phys : TwoFloorResult}
    (hphys : physicalVerdict b a = .ok phys) :
    ∃ res, reconcile a b = .ok res ∧ res.verdict = edgeOrder .after phys.verdict := by
  have hn : ¬ a.vclock.happensBefore b.vclock = true := fun hab =>
    asymm_of (fun a b : VClock Node => a.happensBefore b = true) h hab
  unfold reconcile
  rw [hphys]
  dsimp only [bind, Except.bind, pure, Except.pure]
  rw [if_neg hn, if_pos h]
  split
  · next hv => exact ⟨_, rfl, by rw [hv]; rfl⟩
  · next hv => exact ⟨_, rfl, by rw [hv]; rfl⟩
  · next hv => exact ⟨_, rfl, by rw [hv]; rfl⟩

theorem reconcile_of_neither (hab : ¬ a.vclock.happensBefore b.vclock = true)
    (hba : ¬ b.vclock.happensBefore a.vclock = true) :
    ∃ res, reconcile a b = .ok res ∧ res.verdict = .concurrent := by
  unfold reconcile
  dsimp only
  rw [if_neg hab, if_neg hba]
  exact ⟨_, rfl, rfl⟩

/-- Exchanging the events mirrors the verdict. -/
theorem reconcile_mirror (ha : a.Located) (hb : b.Located) :
    ∃ res res', reconcile a b = .ok res ∧ reconcile b a = .ok res' ∧
      res'.verdict = res.verdict.mirror := by
  have hmirror : ∀ v, edgeOrder .after v = (edgeOrder .before v).mirror ∧
      edgeOrder .before v = (edgeOrder .after v).mirror := by
    intro v
    cases v <;> exact ⟨rfl, rfl⟩
  by_cases hab : a.vclock.happensBefore b.vclock = true
  · obtain ⟨phys, hphys, -⟩ := physicalVerdict_spec ha hb
    obtain ⟨res, hres, hv⟩ := reconcile_of_before hab hphys
    obtain ⟨res', hres', hv'⟩ := reconcile_of_after hab hphys
    exact ⟨res, res', hres, hres', by rw [hv, hv', (hmirror _).1]⟩
  · by_cases hba : b.vclock.happensBefore a.vclock = true
    · obtain ⟨phys, hphys, -⟩ := physicalVerdict_spec hb ha
      obtain ⟨res, hres, hv⟩ := reconcile_of_after hba hphys
      obtain ⟨res', hres', hv'⟩ := reconcile_of_before hba hphys
      exact ⟨res, res', hres, hres', by rw [hv, hv', (hmirror _).2]⟩
    · obtain ⟨res, hres, hv⟩ := reconcile_of_neither hab hba
      obtain ⟨res', hres', hv'⟩ := reconcile_of_neither hba hab
      exact ⟨res, res', hres, hres', by rw [hv, hv']; rfl⟩

/-! ## The order -/

/-- `reconcile` answers `BEFORE`. -/
def Before (a b : Event Node) : Prop := ∃ res, reconcile a b = .ok res ∧ res.verdict = .before

/-- **What `BEFORE` means**: lineage, and light cone, both for certain. -/
theorem before_iff (ha : a.Located) (hb : b.Located) :
    Before a b ↔ a.vclock.happensBefore b.vclock = true ∧ a.MustReach b := by
  by_cases hab : a.vclock.happensBefore b.vclock = true
  · obtain ⟨phys, hphys, hexact⟩ := physicalVerdict_spec ha hb
    obtain ⟨res, hres, hv⟩ := reconcile_of_before hab hphys
    rw [← hexact]
    constructor
    · rintro ⟨_, hres', hbefore⟩
      cases hres.symm.trans hres'
      rw [hv] at hbefore
      refine ⟨hab, ?_⟩
      generalize phys.verdict = v at hbefore ⊢
      cases v with
      | admitted => rfl
      | rejected => cases hbefore
      | apparatusLimited => cases hbefore
    · rintro ⟨-, hadmitted⟩
      exact ⟨res, hres, by rw [hv, hadmitted]; rfl⟩
  · refine iff_of_false ?_ (fun h => hab h.1)
    rintro ⟨res, hres, hbefore⟩
    by_cases hba : b.vclock.happensBefore a.vclock = true
    · obtain ⟨phys, hphys, -⟩ := physicalVerdict_spec hb ha
      obtain ⟨_, hres', hv⟩ := reconcile_of_after hba hphys
      cases hres.symm.trans hres'
      rw [hbefore] at hv
      generalize phys.verdict = v at hv
      cases v <;> cases hv
    · obtain ⟨_, hres', hv⟩ := reconcile_of_neither hab hba
      cases hres.symm.trans hres'
      rw [hbefore] at hv
      cases hv

theorem Before.trans (ha : a.Located) (hb : b.Located) (hc : c.Located) (hab : Before a b)
    (hbc : Before b c) : Before a c := by
  rw [before_iff ha hb] at hab
  rw [before_iff hb hc] at hbc
  rw [before_iff ha hc]
  refine ⟨trans_of (fun a b : VClock Node => a.happensBefore b = true) hab.1 hbc.1, ?_⟩
  -- the light cones meet at any place the middle event allows
  exact LightCone.MustReach.trans hab.2 hbc.2 (Side.region_nonempty hb)

theorem Before.irrefl (ha : a.Located) : ¬ Before a a := fun h =>
  irrefl_of (fun a b : VClock Node => a.happensBefore b = true) _ ((before_iff ha ha).mp h).1

/-- **Reconciliation is a consistent order.** On every family of events, none before the contact of
its envelope: the gate always answers, exchanging the events mirrors the answer, `BEFORE` is a
strict order, and it means that the first clock happens before the second and that light gets from
every place the first locator allows to every place the second does. -/
theorem reconcile_consistent (family : List (Event Node)) (located : ∀ e ∈ family, e.Located) :
    (∀ a ∈ family, ∀ b ∈ family, ∃ res res', reconcile a b = .ok res ∧ reconcile b a = .ok res' ∧
      res'.verdict = res.verdict.mirror) ∧
    (∀ a ∈ family, ¬ Before a a) ∧
    (∀ a ∈ family, ∀ b ∈ family, Before a b → ¬ Before b a) ∧
    (∀ a ∈ family, ∀ b ∈ family, ∀ c ∈ family, Before a b → Before b c → Before a c) ∧
    (∀ a ∈ family, ∀ b ∈ family, Before a b →
      a.vclock.happensBefore b.vclock = true ∧ a.MustReach b) := by
  refine ⟨?_, ?_, ?_, ?_, ?_⟩
  · intro a ha b hb
    exact reconcile_mirror (located a ha) (located b hb)
  · intro a ha
    exact Before.irrefl (located a ha)
  · intro a ha b hb hab hba
    exact Before.irrefl (located a ha) (hab.trans (located a ha) (located b hb) (located a ha) hba)
  · intro a ha b hb c hc hab hbc
    exact hab.trans (located a ha) (located b hb) (located c hc) hbc
  · intro a ha b hb hab
    exact (before_iff (located a ha) (located b hb)).mp hab

end Reconcile

def departure : Event Nat where
  nodeId := 0
  vclock := Finmap.singleton 0 1
  tCoordNs := 0
  locator := .worldline (FixedWorldline ⟨0, 0, 0⟩)

/-- A thousand light-nanoseconds out, at a place known to about a meter. -/
def passage : Event Nat where
  nodeId := 1
  vclock := (Finmap.singleton 0 1).insert 1 1
  tCoordNs := 2000
  locator := .envelope drifting

/-- Ten nanoseconds later, on a ship that does half a nanometer in one. -/
def arrival : Event Nat where
  nodeId := 2
  vclock := ((Finmap.singleton 0 1).insert 1 1).insert 2 1
  tCoordNs := 2010
  locator := .worldline (LinearWorldline.toWorldline
    { p0Nm := ⟨299792458000, 0, 0⟩, t0Ns := 0
      vx := ⟨1, 2, by decide⟩, vy := ⟨0, 1, by decide⟩, vz := ⟨0, 1, by decide⟩ })

theorem reconcile_consistent_arrival : departure.MustReach arrival := by
  obtain ⟨-, -, -, htrans, hmeaning⟩ :=
    reconcile_consistent [departure, passage, arrival] (by decide)
  have hbefore : Before departure arrival :=
    htrans departure (by simp) passage (by simp) arrival (by simp) ⟨_, rfl, rfl⟩ ⟨_, rfl, rfl⟩
  exact (hmeaning departure (by simp) arrival (by simp) hbefore).2

end HorizonProtocol.Trajectory
