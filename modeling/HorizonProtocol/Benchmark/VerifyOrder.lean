import HorizonProtocol.Benchmark.Trace
import Mathlib.Logic.Relation

/-!
# The order checker

`benchmark_harness/verify_order.py`: whether the commit order of a system respects the dependencies
that a trace declares. The checker looks at each dependency by itself, and has nothing to say of one
whose ends were not both accepted.

* `verify_ok_iff` — what `ok` says of each dependency.
* `verify_orders_chains` — and so of chains of accepted operations, however long.
-/

namespace HorizonProtocol.Benchmark

/-- What the checker reads of a result, from any adapter. -/
structure Commit where
  accepted : Bool
  commitSeq : Option Int
  deriving DecidableEq

inductive ViolationReason where
  | missingResult
  | missingCommitSeq
  | dependencyNotOrderedBefore (dependencyCommitSeq dependentCommitSeq : Int)
  deriving DecidableEq

structure Violation (Id : Type) where
  opId : Id
  dependsOn : Id
  reason : ViolationReason
  deriving DecidableEq

structure OrderVerdict (Id : Type) where
  ok : Bool
  checkedEdges : Nat
  violations : List (Violation Id)

section Verify

variable {Id Region : Type}

/-- The dependencies of a trace, in the order in which the checker comes to them. -/
def edges (ops : List (Op Id Region)) : List (Id × Id) :=
  ops.flatMap fun op => op.dependsOn.map fun d => (op.opId, d)

/-- One round of the inner loop. -/
def checkEdge (results : Id → Option Commit) (opId depId : Id) : Option (Violation Id) :=
  match results opId, results depId with
  | some rOp, some rDep =>
    -- nothing committed on one side or both
    if !rOp.accepted || !rDep.accepted then none
    else
      match rOp.commitSeq, rDep.commitSeq with
      | some seqOp, some seqDep =>
        if seqDep < seqOp then none
        else some ⟨opId, depId, .dependencyNotOrderedBefore seqDep seqOp⟩
      | _, _ => some ⟨opId, depId, .missingCommitSeq⟩
  | _, _ => some ⟨opId, depId, .missingResult⟩

def verify (ops : List (Op Id Region)) (results : Id → Option Commit) : OrderVerdict Id :=
  let violations := (edges ops).filterMap fun e => checkEdge results e.1 e.2
  { ok := violations.isEmpty, checkedEdges := (edges ops).length, violations }

variable {ops : List (Op Id Region)} {results : Id → Option Commit} {a b : Id}

/-- An operation of the trace with id `b` declares that it depends on `a`. -/
def Link (ops : List (Op Id Region)) (a b : Id) : Prop := ∃ op ∈ ops, op.opId = b ∧ a ∈ op.dependsOn

/-- The operation was accepted and committed at this number. -/
def CommittedAt (results : Id → Option Commit) (a : Id) (seq : Int) : Prop :=
  results a = some ⟨true, some seq⟩

def Accepted (results : Id → Option Commit) (a : Id) : Prop :=
  ∃ seq?, results a = some ⟨true, seq?⟩

theorem mem_edges : (b, a) ∈ edges ops ↔ Link ops a b := by
  simp [edges, Link, and_assoc, and_comm]

/-- A dependency is in order when both ends have a result and, if both were accepted, both have a
number and that of the dependency is the smaller one. -/
theorem checkEdge_eq_none_iff :
    checkEdge results b a = none ↔
      (∃ r, results b = some r) ∧ (∃ r, results a = some r) ∧
      (Accepted results a → Accepted results b →
        ∃ s t, CommittedAt results a s ∧ CommittedAt results b t ∧ s < t) := by
  unfold checkEdge Accepted CommittedAt
  cases hb : results b with
  | none => simp
  | some rb =>
      cases ha : results a with
      | none => simp
      | some ra =>
          obtain ⟨accB, seqB⟩ := rb
          obtain ⟨accA, seqA⟩ := ra
          cases accA <;> cases accB <;> cases seqA <;> cases seqB <;> simp

/-- **What `ok` says**: every dependency is in order. -/
theorem verify_ok_iff :
    (verify ops results).ok = true ↔
      ∀ a b, Link ops a b → (∃ r, results b = some r) ∧ (∃ r, results a = some r) ∧
        (Accepted results a → Accepted results b →
          ∃ s t, CommittedAt results a s ∧ CommittedAt results b t ∧ s < t) := by
  simp only [verify, List.isEmpty_iff, List.filterMap_eq_nil_iff, Prod.forall, mem_edges,
    checkEdge_eq_none_iff]
  exact forall_comm

/-- **A checked order has no inverted chain of accepted operations.** Along dependencies, of any
number, between operations that were all accepted, the commit number grows. -/
theorem verify_orders_chains (hok : (verify ops results).ok = true)
    (hchain : Relation.TransGen
      (fun a b => Link ops a b ∧ Accepted results a ∧ Accepted results b) a b) :
    ∃ s t, CommittedAt results a s ∧ CommittedAt results b t ∧ s < t := by
  have hedge : ∀ {a b}, Link ops a b ∧ Accepted results a ∧ Accepted results b →
      ∃ s t, CommittedAt results a s ∧ CommittedAt results b t ∧ s < t := by
    rintro a b ⟨hlink, ha, hb⟩
    exact (verify_ok_iff.mp hok a b hlink).2.2 ha hb
  induction hchain with
  | single hlink => exact hedge hlink
  | tail _ hlink ih =>
      obtain ⟨s, t, hs, ht, hst⟩ := ih
      obtain ⟨t', u, ht', hu, htu⟩ := hedge hlink
      -- the middle operation has one number
      cases ht.symm.trans ht'
      exact ⟨s, u, hs, hu, hst.trans htu⟩

end Verify

/-- Three writes of one key, each after the one before. -/
def threeWrites : List (Op Nat Unit) :=
  [⟨1, "k", "v1", (), 0, []⟩, ⟨2, "k", "v2", (), 1, [1]⟩, ⟨3, "k", "v3", (), 2, [2]⟩]

/-- The second was refused, and the third committed before the first. -/
def middleRefused (opId : Nat) : Option Commit :=
  if opId = 1 then some ⟨true, some 5⟩
  else if opId = 2 then some ⟨false, none⟩
  else if opId = 3 then some ⟨true, some 1⟩ else none

theorem link_threeWrites : Link threeWrites 1 2 ∧ Link threeWrites 2 3 := by
  simp [Link, threeWrites]

theorem middleRefused_passes :
    (verify threeWrites middleRefused).ok = true ∧ Relation.TransGen (Link threeWrites) 1 3 ∧
    Accepted middleRefused 1 ∧ Accepted middleRefused 3 ∧
    ¬ ∃ s t, CommittedAt middleRefused 1 s ∧ CommittedAt middleRefused 3 t ∧ s < t := by
  refine ⟨by decide, ?_, ⟨_, rfl⟩, ⟨_, rfl⟩, ?_⟩
  · exact (Relation.TransGen.single link_threeWrites.1).tail link_threeWrites.2
  · rintro ⟨s, t, hs, ht, hlt⟩
    cases hs
    cases ht
    exact absurd hlt (by decide)

/-- Every operation commits at its own number. -/
def inOrder (opId : Nat) : Option Commit := some ⟨true, some opId⟩

theorem verify_orders_three :
    ∃ s t, CommittedAt inOrder 1 s ∧ CommittedAt inOrder 3 t ∧ s < t := by
  have hok : (verify threeWrites inOrder).ok = true := by decide
  have hacc : ∀ opId, Accepted inOrder opId := fun opId => ⟨some opId, rfl⟩
  apply verify_orders_chains hok
  apply Relation.TransGen.tail (Relation.TransGen.single _)
  · exact ⟨link_threeWrites.2, hacc 2, hacc 3⟩
  · exact ⟨link_threeWrites.1, hacc 1, hacc 2⟩

end HorizonProtocol.Benchmark
