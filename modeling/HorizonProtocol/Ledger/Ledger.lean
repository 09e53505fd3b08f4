import HorizonProtocol.Geometry
import HorizonProtocol.Ledger.EdgeClaims
import HorizonProtocol.Machine
import HorizonProtocol.Worklist
import Mathlib.Data.Finset.Image

/-!
# The causal ledger

`horizon/ledger.py` and `horizon/reachability_cache.py`: events, the edges the light-cone gate
admitted, the log of those it rejected, the typed claims, and two reachability queries over the
admitted edges, one of which answers from an adjacency index that it builds on demand.

A Python set is iterated in an order it does not promise. `SetOrder` is any such order, and each
query brings its own.
-/

namespace HorizonProtocol

/-- An order in which a set is iterated. -/
structure SetOrder (α : Type) where
  iter : Finset α → List α
  nodup_iter : ∀ s, (iter s).Nodup
  mem_iter : ∀ s a, a ∈ iter s ↔ a ∈ s

inductive EdgeVerdict where
  | admitted
  | rejected
  deriving DecidableEq

/-- The kernel's witness with `strictly_later`. -/
structure EdgeWitness extends AdmissibilityWitness where
  strictlyLater : Bool

/-- `{"edge": [a, b], "verdict": …, "witness": …}`. -/
structure EdgeRecord (Eid : Type) where
  edge : Eid × Eid
  verdict : EdgeVerdict
  witness : EdgeWitness

/-- What a call may raise. -/
inductive LedgerError (Eid : Type) where
  /-- `ValueError`, "duplicate event id: …". -/
  | duplicateEventId (eid : Eid)
  /-- The `KeyError` of a lookup. -/
  | unknownEvent (eid : Eid)
  /-- `KeyError`, "both events must already be recorded via add_event". -/
  | eventsNotRecorded
  /-- `ValueError`, "add_dependency_claim expects a dependency kind (…), got …". -/
  | notDependencyKind (kind : String)
  /-- What the claim's constructor raised. -/
  | claim (e : EdgeClaimError)

/-! ## The reachability cache -/

namespace ReachabilityCache

variable {Eid : Type} [DecidableEq Eid]

/-- An edge appends its head to the entry of its tail. A node without an entry reads as the empty
list. -/
def buildAdjacency (edges : List (Eid × Eid)) : Eid → List Eid :=
  edges.foldl (fun adj e => Function.update adj e.1 (adj e.1 ++ [e.2])) fun _ => []

/-- The loop over the neighbours of a node: those that are new, or `none` when one of them is the
target. -/
def scanNeighbours (b : Eid) : List Eid → List Eid → Option (List Eid)
  | [], _ => some []
  | v :: vs, seen =>
      if v = b then none
      else if v ∉ seen then (scanNeighbours b vs (seen ++ [v])).map (v :: ·)
      else scanNeighbours b vs seen

/-- Breadth first, with the worklist as a queue. -/
def precedesFast (fuel : Nat) (adj : Eid → List Eid) (a b : Eid) : Option Bool :=
  if a = b then some false
  else Worklist.search (fun x seen => scanNeighbours b (adj x) seen)
    (fun queue fresh => queue ++ fresh) fuel [a] [a]

end ReachabilityCache

/-! ## The ledger -/

/-- `events` is a dictionary, `edges` a set, and `adjacencyCache` is `None` until a query builds the
index. -/
structure CausalLedger (Eid Ref : Type) where
  events : Eid → Option Stamp := fun _ => none
  edges : Finset (Eid × Eid) := ∅
  rejections : List (EdgeRecord Eid) := []
  edgeClaims : List (EdgeClaim Eid Ref) := []
  adjacencyCache : Option (Eid → List Eid) := none

namespace CausalLedger

variable {Eid Ref : Type} [DecidableEq Eid]

def addEvent (s : CausalLedger Eid Ref) (eid : Eid) (timeNs : Int) (posNm : Pos) :
    CausalLedger Eid Ref × Except (LedgerError Eid) Unit :=
  match s.events eid with
  | some _ => (s, .error (.duplicateEventId eid))
  | none => ({ s with events := Function.update s.events eid (some ⟨timeNs, posNm⟩) }, .ok ())

/-- The witness of an edge between two events. -/
def edgeWitness (ea eb : Stamp) : EdgeWitness where
  toAdmissibilityWitness := admissibilityWitness ea.timeNs ea.posNm eb.timeNs eb.posNm
  strictlyLater := decide (eb.timeNs > ea.timeNs)

/-- Whether the gate admits an edge between two events. -/
def admissible (ea eb : Stamp) : Bool :=
  decide (eb.timeNs > ea.timeNs) && causallyAdmissible ea.timeNs ea.posNm eb.timeNs eb.posNm

/-- Admit or reject an edge on physical admissibility alone. An edge admitted before is admitted
again without a trace. -/
def addEdge (s : CausalLedger Eid Ref) (a b : Eid) :
    CausalLedger Eid Ref × Except (LedgerError Eid) (EdgeRecord Eid) :=
  match s.events a with
  | none => (s, .error (.unknownEvent a))
  | some ea =>
      match s.events b with
      | none => (s, .error (.unknownEvent b))
      | some eb =>
          let w := edgeWitness ea eb
          if admissible ea eb then
            let isNew := (a, b) ∉ s.edges
            let s := { s with edges := insert (a, b) s.edges }
            if isNew then
              -- the index is out of date; the next query that needs it builds another
              let s := { s with adjacencyCache := none }
              -- the claim is tied to the geometric facts, not to a clock
              match EdgeClaim.make a b EdgeKind.physicalAdmissibility.value
                  "horizon.geometry.causally_admissible" (toString eb.timeNs) none with
              | .error e => (s, .error (.claim e))
              | .ok c => ({ s with edgeClaims := s.edgeClaims ++ [c] },
                  .ok ⟨(a, b), .admitted, w⟩)
            else
              -- a retry, which must not repeat the claim
              (s, .ok ⟨(a, b), .admitted, w⟩)
          else
            let record : EdgeRecord Eid := ⟨(a, b), .rejected, w⟩
            ({ s with rejections := s.rejections ++ [record] }, .ok record)

/-- Assert a dependency between two recorded events, whatever the geometry says. -/
def addDependencyClaim (s : CausalLedger Eid Ref) (a b : Eid) (kind assertedBy assertedAt : String)
    (evidenceRefs : Option (List Ref)) :
    CausalLedger Eid Ref × Except (LedgerError Eid) (EdgeClaim Eid Ref) :=
  -- no geometry is asked: "was it possible" and "did it happen" are different questions
  if (s.events a).isNone || (s.events b).isNone then (s, .error .eventsNotRecorded)
  else if kind ∉ EdgeKind.dependencyKinds.map EdgeKind.value then
    (s, .error (.notDependencyKind kind))
  else
    match EdgeClaim.make a b kind assertedBy assertedAt evidenceRefs with
    | .error e => (s, .error (.claim e))
    | .ok c => ({ s with edgeClaims := s.edgeClaims ++ [c] }, .ok c)

/-- Some dependency-type claim was recorded for exactly this pair. -/
def hasObservedDependency (s : CausalLedger Eid Ref) (a b : Eid) : Bool :=
  s.edgeClaims.any fun c =>
    decide (c.fromEvent = a) && decide (c.toEvent = b) &&
      decide (c.kind ∈ EdgeKind.dependencyKinds)

/-- Fuel for a search over the edges: each round but the last takes a node off the worklist, and
nodes get there as the start or as the head of an edge. -/
def searchFuel (s : CausalLedger Eid Ref) : Nat := s.edges.card + 2

/-- The loop of `precedes` over the edges, at node `x`: the heads of its edges that are new, or
`none` when one of them is the target. -/
def scanEdges (b x : Eid) : List (Eid × Eid) → List Eid → Option (List Eid)
  | [], _ => some []
  | (u, v) :: es, seen =>
      if u = x ∧ v ∉ seen then
        if v = b then none
        else (scanEdges b x es (seen ++ [v])).map (v :: ·)
      else scanEdges b x es seen

/-- The reference reachability query: depth first, with the worklist as a stack. -/
def precedes (order : SetOrder (Eid × Eid)) (s : CausalLedger Eid Ref) (a b : Eid) : Option Bool :=
  Worklist.search (fun x seen => scanEdges b x (order.iter s.edges) seen)
    (fun stack fresh => fresh.reverse ++ stack) s.searchFuel [] [a]

/-- The same query from the adjacency index, built now unless a query built it before. -/
def precedesFast (order : SetOrder (Eid × Eid)) (s : CausalLedger Eid Ref) (a b : Eid) :
    CausalLedger Eid Ref × Option Bool :=
  let adj := s.adjacencyCache.getD (ReachabilityCache.buildAdjacency (order.iter s.edges))
  ({ s with adjacencyCache := some adj }, ReachabilityCache.precedesFast s.searchFuel adj a b)

/-- Neither cone contains the other event. -/
def concurrent (s : CausalLedger Eid Ref) (a b : Eid) : Except (LedgerError Eid) Bool :=
  match s.events a, s.events b with
  | none, _ => .error (.unknownEvent a)
  | _, none => .error (.unknownEvent b)
  | some ea, some eb =>
      let ab := causallyAdmissible ea.timeNs ea.posNm eb.timeNs eb.posNm
      let ba := causallyAdmissible eb.timeNs eb.posNm ea.timeNs ea.posNm
      .ok (!ab && !ba)

/-! ## Runs -/

inductive Call (Eid Ref : Type) where
  | addEvent (eid : Eid) (timeNs : Int) (posNm : Pos)
  | addEdge (a b : Eid)
  | addDependencyClaim (a b : Eid) (kind assertedBy assertedAt : String)
      (evidenceRefs : Option (List Ref))
  | precedes (order : SetOrder (Eid × Eid)) (a b : Eid)
  | precedesFast (order : SetOrder (Eid × Eid)) (a b : Eid)

/-- What a call that does not raise returns. -/
inductive Reply (Eid Ref : Type) where
  | done
  | edge (r : EdgeRecord Eid)
  | claim (c : EdgeClaim Eid Ref)
  | reachable (r : Option Bool)

/-- A ledger that starts empty and takes calls in any order. -/
def machine :
    Machine (CausalLedger Eid Ref) (Call Eid Ref) (Except (LedgerError Eid) (Reply Eid Ref)) where
  init := {}
  step s
    | .addEvent eid timeNs posNm =>
        let r := s.addEvent eid timeNs posNm
        (r.1, r.2.map fun _ => .done)
    | .addEdge a b =>
        let r := s.addEdge a b
        (r.1, r.2.map .edge)
    | .addDependencyClaim a b kind assertedBy assertedAt evidenceRefs =>
        let r := s.addDependencyClaim a b kind assertedBy assertedAt evidenceRefs
        (r.1, r.2.map .claim)
    | .precedes order a b => (s, .ok (.reachable (s.precedes order a b)))
    | .precedesFast order a b =>
        let r := s.precedesFast order a b
        (r.1, .ok (.reachable r.2))

end CausalLedger

end HorizonProtocol
