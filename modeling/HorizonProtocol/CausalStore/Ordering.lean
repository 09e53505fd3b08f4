import HorizonProtocol.Geometry
import HorizonProtocol.VectorClock

/-!
# The ordering contract and its implementations

`causalstore/ordering.py`: the store asks an ordering whether one event is before another, whether
two are concurrent, whether their relation is decided, and for evidence. All three implementations
read nothing of an event but its clock, so they are given here on clocks; `Ordering.comap` turns
them into orderings of events.

* `GeometricOrdering` — light-cone order, silent where clock uncertainty could flip the verdict.
* `LogicalOrdering` — vector-clock happens-before.
* `HybridOrdering` — geometric where that resolves, logical elsewhere.
-/

namespace HorizonProtocol.CausalStore

/-! ## The contract -/

/-- The contract of an ordering over events `E` with evidence `W`. -/
structure Ordering (E W : Type) where
  before : E → E → Bool
  concurrent : E → E → Bool
  resolves : E → E → Bool
  witness : E → E → W

namespace Ordering

variable {E E' W : Type}

/-- `before` as a relation. -/
def Before (o : Ordering E W) (a b : E) : Prop := o.before a b = true

instance (o : Ordering E W) : DecidableRel o.Before :=
  fun a b => inferInstanceAs (Decidable (o.before a b = true))

/-- `concurrent` says that neither event is before the other. -/
def Exhaustive (o : Ordering E W) : Prop :=
  ∀ a b, o.concurrent a b = true ↔ ¬ o.Before a b ∧ ¬ o.Before b a

/-- What a store may expect of an ordering: a strict partial order, and `concurrent` its
incomparability. -/
structure Lawful (o : Ordering E W) : Prop where
  strict : IsStrictOrder E o.Before
  exhaustive : o.Exhaustive

/-- The ordering of events by the ordering of a part of them. -/
def comap (f : E' → E) (o : Ordering E W) : Ordering E' W where
  before a b := o.before (f a) (f b)
  concurrent a b := o.concurrent (f a) (f b)
  resolves a b := o.resolves (f a) (f b)
  witness a b := o.witness (f a) (f b)

theorem Lawful.comap {o : Ordering E W} (h : o.Lawful) (f : E' → E) : (o.comap f).Lawful where
  strict :=
    { irrefl := fun a => h.strict.irrefl (f a)
      trans := fun a b c => h.strict.trans (f a) (f b) (f c) }
  exhaustive a b := h.exhaustive (f a) (f b)

end Ordering

/-! ## Geometric -/

/-- `{"time_ns": int, "pos_nm": [x, y, z], "u_ns": int}`, the last entry optional. -/
structure GeoClock where
  timeNs : Int
  posNm : Pos
  uNs? : Option Int := none
  deriving DecidableEq

/-- `c.get("u_ns", 0)`. -/
def GeoClock.uNs (c : GeoClock) : Int := c.uNs?.getD 0

namespace GeometricOrdering

/-- Whether the elapsed time, moved by the combined uncertainty either way, stays on one side of
the light-time floor. -/
def resolves (a b : GeoClock) : Bool :=
  let dt := b.timeNs - a.timeNs
  let combinedU := a.uNs + b.uNs
  let requiredNs : Int := minLightTimeNs a.posNm b.posNm
  decide (dt - combinedU ≥ requiredNs) || decide (dt + combinedU < requiredNs)

def before (a b : GeoClock) : Bool :=
  if b.timeNs ≤ a.timeNs then false
  -- clock uncertainty could turn the order round
  else if !resolves a b then false
  else causallyAdmissible a.timeNs a.posNm b.timeNs b.posNm

def concurrent (a b : GeoClock) : Bool := !before a b && !before b a

/-- The kernel's witness with the uncertainty margin. -/
structure Witness extends AdmissibilityWitness where
  combinedUNs : Int
  requiredNs : Int
  resolves : Bool
  deriving DecidableEq

def witness (a b : GeoClock) : Witness where
  toAdmissibilityWitness := admissibilityWitness a.timeNs a.posNm b.timeNs b.posNm
  combinedUNs := a.uNs + b.uNs
  requiredNs := minLightTimeNs a.posNm b.posNm
  resolves := resolves a b

variable {a b : GeoClock}

theorem resolves_iff :
    resolves a b = true ↔
      minLightTimeNs a.posNm b.posNm + (a.uNs + b.uNs) ≤ b.timeNs - a.timeNs ∨
      b.timeNs - a.timeNs + (a.uNs + b.uNs) < minLightTimeNs a.posNm b.posNm := by
  simp only [resolves, Bool.or_eq_true, decide_eq_true_eq]
  omega

/-- `before` is later by at least the light-time floor and both uncertainties, and later at all. -/
theorem before_iff (hu : 0 ≤ a.uNs + b.uNs) :
    before a b = true ↔ a.timeNs < b.timeNs ∧
      minLightTimeNs a.posNm b.posNm + (a.uNs + b.uNs) ≤ b.timeNs - a.timeNs := by
  unfold before
  split
  · next h =>
      simp only [Bool.false_eq_true, false_iff, not_and]
      omega
  · next h =>
      split
      · next hr =>
          rw [Bool.not_eq_true', ← Bool.not_eq_true, resolves_iff] at hr
          simp only [Bool.false_eq_true, false_iff, not_and]
          omega
      · next hr =>
          rw [Bool.not_eq_true', Bool.not_eq_false, resolves_iff] at hr
          rw [causallyAdmissible_iff_minLightTime]
          omega

end GeometricOrdering

def geometricOrdering : Ordering GeoClock GeometricOrdering.Witness where
  before := GeometricOrdering.before
  concurrent := GeometricOrdering.concurrent
  resolves := GeometricOrdering.resolves
  witness := GeometricOrdering.witness

/-! ## Logical -/

section Logical

variable {Node : Type} [DecidableEq Node]

namespace LogicalOrdering

/-- `_leq`: every counter of either clock, missing ones read as zero. -/
def leq (x y : VClock Node) : Bool := x.leq y

def before (x y : VClock Node) : Bool := leq x y && !leq y x

def concurrent (x y : VClock Node) : Bool := !before x y && !before y x

/-- Vector clocks always decide. -/
def resolves (_ _ : VClock Node) : Bool := true

/-- Both clocks are the evidence. -/
def witness (x y : VClock Node) : VClock Node × VClock Node := (x, y)

theorem before_iff {x y : VClock Node} : before x y = true ↔ x.count < y.count :=
  VClock.happensBefore_iff

end LogicalOrdering

def logicalOrdering : Ordering (VClock Node) (VClock Node × VClock Node) where
  before := LogicalOrdering.before
  concurrent := LogicalOrdering.concurrent
  resolves := LogicalOrdering.resolves
  witness := LogicalOrdering.witness

theorem logicalOrdering_lawful : (logicalOrdering : Ordering (VClock Node) _).Lawful where
  strict := VClock.happensBefore_strict
  exhaustive x y := by
    simp [logicalOrdering, Ordering.Before, LogicalOrdering.concurrent]

/-! ## Hybrid -/

/-- An event clock that carries both a geometric stamp and a vector clock. -/
structure HybridClock (Node : Type) extends GeoClock where
  vc : VClock Node

instance : DecidableEq (HybridClock Node) := fun a b =>
  decidable_of_iff (a.toGeoClock = b.toGeoClock ∧ a.vc = b.vc) (by
    cases a
    cases b
    simp)

namespace HybridOrdering

def before (a b : HybridClock Node) : Bool :=
  if GeometricOrdering.resolves a.toGeoClock b.toGeoClock then
    GeometricOrdering.before a.toGeoClock b.toGeoClock
  else LogicalOrdering.before a.vc b.vc

def concurrent (a b : HybridClock Node) : Bool := !before a b && !before b a

def resolves (_ _ : HybridClock Node) : Bool := true

/-- The evidence of whichever ordering decided. -/
inductive Witness (Node : Type) where
  | geometric (w : GeometricOrdering.Witness)
  | logicalFallback (w : VClock Node × VClock Node)

def witness (a b : HybridClock Node) : Witness Node :=
  if GeometricOrdering.resolves a.toGeoClock b.toGeoClock then
    .geometric (GeometricOrdering.witness a.toGeoClock b.toGeoClock)
  else .logicalFallback (LogicalOrdering.witness a.vc b.vc)

end HybridOrdering

/-- The production default. -/
def hybridOrdering : Ordering (HybridClock Node) (HybridOrdering.Witness Node) where
  before := HybridOrdering.before
  concurrent := HybridOrdering.concurrent
  resolves := HybridOrdering.resolves
  witness := HybridOrdering.witness

theorem hybridOrdering_exhaustive :
    (hybridOrdering : Ordering (HybridClock Node) _).Exhaustive := fun a b => by
  simp [hybridOrdering, Ordering.Before, HybridOrdering.concurrent]

end Logical

end HorizonProtocol.CausalStore
