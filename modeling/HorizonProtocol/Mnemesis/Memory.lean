import HorizonProtocol.Geometry
import HorizonProtocol.Machine
import HorizonProtocol.VectorClock
import Mathlib.Data.Finset.Dedup
import Mathlib.Logic.Function.Basic

/-!
# The causal memory

`mnemesis/memory.py`: a key/value store whose writes name the writes they supersede. A write is
stored when every write it names is known and causally before it, and refused otherwise; nothing
stored is ever removed. What a read shows of a key are the writes no other write of the key names.

The id of a write is a digest of its content, in which the claimed predecessors count as a set. The
digest is a parameter.
-/

namespace HorizonProtocol.Mnemesis

/-! ## Writes -/

/-- What the id of a write is the digest of. -/
structure WidInput (Wid Key Value Observer Clock : Type) where
  key : Key
  value : Value
  observer : Observer
  clock : Clock
  preds : Finset Wid
  deriving DecidableEq

/-- The arguments of a `put`. -/
structure Write (Wid Key Value Observer Clock : Type) where
  key : Key
  value : Value
  observer : Observer
  clock : Clock
  /-- Ids of the writes this one claims to supersede. -/
  preds : List Wid
  deriving DecidableEq

/-- What a reader is told about a write. -/
structure Provenance (Wid Key Value Observer Clock : Type) where
  wid : Wid
  key : Key
  value : Value
  observer : Observer
  clock : Clock
  supersedes : List Wid
  deriving DecidableEq

section Writes

variable {Wid Key Value Observer Clock : Type} [DecidableEq Wid]
variable (digest : WidInput Wid Key Value Observer Clock → Wid)

/-- The content of a write, with the predecessors as a set. -/
def Write.content (w : Write Wid Key Value Observer Clock) :
    WidInput Wid Key Value Observer Clock where
  key := w.key
  value := w.value
  observer := w.observer
  clock := w.clock
  preds := w.preds.toFinset

/-- `_wid`. -/
def Write.wid (w : Write Wid Key Value Observer Clock) : Wid := digest w.content

def Write.provenance (w : Write Wid Key Value Observer Clock) :
    Provenance Wid Key Value Observer Clock where
  wid := w.wid digest
  key := w.key
  value := w.value
  observer := w.observer
  clock := w.clock
  supersedes := w.preds

end Writes

/-! ## Orderings -/

/-- What the memory asks of an ordering, on the clocks of two writes, with evidence `W`. -/
structure Ordering (Clock W : Type) where
  before : Clock → Clock → Bool
  concurrent : Clock → Clock → Bool
  witness : Clock → Clock → W

/-- `before` as a relation. -/
def Ordering.Before {Clock W : Type} (o : Ordering Clock W) (a b : Clock) : Prop :=
  o.before a b = true

/-- Light-cone ordering. A stamp is before another that is strictly later inside its cone; two
stamps are concurrent when neither cone contains the other. -/
def geometricOrdering : Ordering Stamp AdmissibilityWitness where
  before a b := decide (b.timeNs > a.timeNs) &&
    causallyAdmissible a.timeNs a.posNm b.timeNs b.posNm
  concurrent a b :=
    let ab := causallyAdmissible a.timeNs a.posNm b.timeNs b.posNm
    let ba := causallyAdmissible b.timeNs b.posNm a.timeNs a.posNm
    !ab && !ba
  witness a b := admissibilityWitness a.timeNs a.posNm b.timeNs b.posNm

theorem geometricOrdering_before_iff {a b : Stamp} : geometricOrdering.Before a b ↔ a.Later b := by
  simp only [Ordering.Before, geometricOrdering, Bool.and_eq_true, decide_eq_true_eq]
  exact ⟨fun h => ⟨h.1, h.2⟩, fun h => ⟨h.earlier, h.cone⟩⟩

instance : IsStrictOrder Stamp geometricOrdering.Before where
  irrefl a h := Stamp.later_strict.irrefl a (geometricOrdering_before_iff.mp h)
  trans a b c hab hbc := geometricOrdering_before_iff.mpr (Stamp.later_strict.trans a b c
    (geometricOrdering_before_iff.mp hab) (geometricOrdering_before_iff.mp hbc))

section Logical

variable {Node : Type} [DecidableEq Node]

/-- Vector-clock ordering. -/
def logicalOrdering : Ordering (VClock Node) (VClock Node × VClock Node) where
  before a b := a.happensBefore b
  concurrent a b := a.concurrent b
  witness a b := (a, b)

instance : IsStrictOrder (VClock Node) logicalOrdering.Before :=
  VClock.happensBefore_strict

end Logical

/-! ## The memory -/

/-- An entry of the audit log. -/
inductive Rejection (Wid W : Type) where
  | unknownPredecessor (wid pred : Wid)
  | supersedesNonAncestor (wid pred : Wid) (witness : W)

inductive Verdict where
  | admitted
  | rejected
  deriving DecidableEq

/-- The answer to a `put` or a `resolve`. -/
inductive PutResult (Wid Key Value Observer Clock W : Type) where
  | admitted (wid : Wid) (provenance : Provenance Wid Key Value Observer Clock)
  | rejected (record : Rejection Wid W)
  | notAFrontierCandidate (key : Key) (chosenWid : Wid)

def PutResult.verdict {Wid Key Value Observer Clock W : Type} :
    PutResult Wid Key Value Observer Clock W → Verdict
  | .admitted .. => .admitted
  | .rejected _ => .rejected
  | .notAFrontierCandidate .. => .rejected

/-- The answer to a `get`. -/
inductive ReadResult (Wid Key Value Observer Clock : Type) where
  | empty (key : Key)
  | resolved (key : Key) (value : Value) (provenance : Provenance Wid Key Value Observer Clock)
  | conflict (key : Key) (candidates : List (Provenance Wid Key Value Observer Clock))
      (note : String)

inductive Status where
  | empty
  | resolved
  | conflict
  deriving DecidableEq

namespace ReadResult

variable {Wid Key Value Observer Clock : Type}

def status : ReadResult Wid Key Value Observer Clock → Status
  | .empty _ => .empty
  | .resolved .. => .resolved
  | .conflict .. => .conflict

/-- The values a reader has to choose from. -/
def values : ReadResult Wid Key Value Observer Clock → List Value
  | .empty _ => []
  | .resolved _ value _ => [value]
  | .conflict _ candidates _ => candidates.map (·.value)

end ReadResult

/-- `writes` and `byKey` are dictionaries, the entries of `byKey` in insertion order, and
`rejections` is the audit log. -/
structure CausalMemory (Wid Key Value Observer Clock W : Type) where
  writes : Wid → Option (Write Wid Key Value Observer Clock) := fun _ => none
  byKey : Key → List Wid := fun _ => []
  rejections : List (Rejection Wid W) := []

/-- The note of a conflict. -/
def conflictNote : String :=
  "concurrent writes retained with provenance; resolve explicitly (PGSD deferred selection)"

namespace CausalMemory

variable {Wid Key Value Observer Clock W : Type} [DecidableEq Wid] [DecidableEq Key]
variable (digest : WidInput Wid Key Value Observer Clock → Wid) (o : Ordering Clock W)

/-- The loop of `put` over the claimed predecessors: the first that is unknown or no ancestor. -/
def checkPreds (s : CausalMemory Wid Key Value Observer Clock W)
    (w : Write Wid Key Value Observer Clock) : List Wid → Option (Rejection Wid W)
  | [] => none
  | p :: ps =>
      match s.writes p with
      | none => some (.unknownPredecessor (w.wid digest) p)
      | some pred =>
          if !o.before pred.clock w.clock then
            some (.supersedesNonAncestor (w.wid digest) p (o.witness pred.clock w.clock))
          else checkPreds s w ps

/-- Store a write. -/
def record (s : CausalMemory Wid Key Value Observer Clock W)
    (w : Write Wid Key Value Observer Clock) : CausalMemory Wid Key Value Observer Clock W :=
  { s with
    writes := Function.update s.writes (w.wid digest) (some w)
    byKey := Function.update s.byKey w.key (s.byKey w.key ++ [w.wid digest]) }

def put (s : CausalMemory Wid Key Value Observer Clock W)
    (w : Write Wid Key Value Observer Clock) :
    CausalMemory Wid Key Value Observer Clock W × PutResult Wid Key Value Observer Clock W :=
  match s.writes (w.wid digest) with
  -- a retry of the same claim
  | some existing => (s, .admitted (existing.wid digest) (existing.provenance digest))
  | none =>
      match s.checkPreds digest o w w.preds with
      | some rejection =>
          -- refused for good: nothing holds the write back for a later try
          ({ s with rejections := s.rejections ++ [rejection] }, .rejected rejection)
      | none => (s.record digest w, .admitted (w.wid digest) (w.provenance digest))

/-- The stored writes of a key. Every id listed under a key is known, so none is lost here. -/
def writesForKey (s : CausalMemory Wid Key Value Observer Clock W) (key : Key) :
    List (Write Wid Key Value Observer Clock) :=
  (s.byKey key).filterMap s.writes

/-- The writes of a key that no other write of the key names. -/
def frontier (s : CausalMemory Wid Key Value Observer Clock W) (key : Key) :
    List (Write Wid Key Value Observer Clock) :=
  let ws := s.writesForKey key
  ws.filter fun w => !ws.any fun other =>
    decide (other.wid digest ≠ w.wid digest) && decide (w.wid digest ∈ other.preds)

def get (s : CausalMemory Wid Key Value Observer Clock W) (key : Key) :
    ReadResult Wid Key Value Observer Clock :=
  match s.frontier digest key with
  | [] => .empty key
  | [w] => .resolved key w.value (w.provenance digest)
  | ws => .conflict key (ws.map fun w => w.provenance digest) conflictNote

/-- A write that supersedes all current candidates and repeats the value of the chosen one. -/
def resolve (s : CausalMemory Wid Key Value Observer Clock W) (key : Key) (chosenWid : Wid)
    (observer : Observer) (clock : Clock) :
    CausalMemory Wid Key Value Observer Clock W × PutResult Wid Key Value Observer Clock W :=
  let preds := (s.frontier digest key).map fun w => w.wid digest
  -- the chosen id must be a current candidate, not merely a stored write
  match (s.frontier digest key).find? fun w => decide (w.wid digest = chosenWid) with
  | none => (s, .notAFrontierCandidate key chosenWid)
  | some chosen => s.put digest o { key, value := chosen.value, observer, clock, preds }

/-! ## Runs -/

inductive Call (Wid Key Value Observer Clock : Type) where
  | put (w : Write Wid Key Value Observer Clock)
  | resolve (key : Key) (chosenWid : Wid) (observer : Observer) (clock : Clock)

/-- A memory that starts empty and takes calls in any order. -/
def machine : Machine (CausalMemory Wid Key Value Observer Clock W)
    (Call Wid Key Value Observer Clock) (PutResult Wid Key Value Observer Clock W) where
  init := {}
  step s
    | .put w => s.put digest o w
    | .resolve key chosenWid observer clock => s.resolve digest o key chosenWid observer clock

end CausalMemory

end HorizonProtocol.Mnemesis
