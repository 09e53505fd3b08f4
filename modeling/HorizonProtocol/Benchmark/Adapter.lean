import HorizonProtocol.Benchmark.Trace
import HorizonProtocol.CausalStore.Hybrid

/-!
# The causal-store adapter

`benchmark_harness/adapters/causalstore_adapter.py`: each operation of a trace becomes a `write`,
with a clock built from the region it comes from and a counter of the operations of that region.
The adapter has its default ordering, `HybridOrdering`. The latency of a result is not modelled.
-/

namespace HorizonProtocol.Benchmark

open CausalStore (HashInput HybridClock hybridEvents Rejection WriteCall)

/-- What an adapter reports of an operation. -/
structure OpResult where
  opId : Nat
  accepted : Bool
  commitSeq : Option Nat
  rejectedReason : Option String
  deriving DecidableEq

/-- `{"pos_nm": (x, y, z), "u_ns": int}`. -/
structure RegionClock where
  posNm : Pos
  uNs : Int

inductive AdapterError (Region : Type) where
  /-- `f"causal-store adapter missing region_clocks entries for: {missing}"` -/
  | unavailable (missing : List Region)
  /-- `KeyError`, of a region the adapter was not set up for. -/
  | keyError (region : Region)
  deriving DecidableEq

/-- The `"reason"` of a witness. -/
def reason {Eid W : Type} : Rejection Eid W → String
  | .unknownPredecessor _ => "unknown_predecessor"
  | .supersedesNonAncestor _ => "supersedes_non_ancestor"
  | .staleWriteDominatedByExistingFrontier _ => "stale_write_dominated_by_existing_frontier"

/-- `CausalStoreAdapter`. -/
structure CausalStoreAdapter (Eid Region : Type) where
  regionClocks : Region → Option RegionClock
  store : CausalStore Eid String String Region (HybridClock Region) := {}
  /-- The next number of `itertools.count()`. -/
  seq : Nat := 0
  opToEvent : List (Nat × Eid) := []
  vcCounter : List (Region × Int) := []

namespace CausalStoreAdapter

variable {Eid Region : Type} [DecidableEq Eid] [DecidableEq Region]
variable (sha : HashInput String String Region (HybridClock Region) → Eid)

/-- The constructor and `setup`. -/
def setup (regionClocks : Region → Option RegionClock) (regions : List Region) :
    Except (AdapterError Region) (CausalStoreAdapter Eid Region) :=
  let missing := regions.filter fun r => (regionClocks r).isNone
  if !missing.isEmpty then .error (.unavailable missing)
  else .ok { regionClocks, vcCounter := Dict.ofPairs (regions.map fun r => (r, 0)) }

/-- The `write` of an operation: its clock counts the operations of the region, and it supersedes
what the operations it depends on wrote. -/
def callOf (opToEvent : List (Nat × Eid)) (rc : RegionClock) (count : Int) (op : Op Nat Region) :
    WriteCall Eid String String Region (HybridClock Region) where
  key := op.key
  value := op.value
  originNode := op.originRegion
  clock :=
    { timeNs := op.tLogicalNs, posNm := rc.posNm, uNs? := some rc.uNs,
      vc := Finmap.singleton op.originRegion count }
  supersedes := some (op.dependsOn.filterMap fun d => Dict.get? opToEvent d)

/-- `apply_op`. -/
def applyOp (a : CausalStoreAdapter Eid Region) (op : Op Nat Region) :
    Except (AdapterError Region) (CausalStoreAdapter Eid Region × OpResult) :=
  match a.regionClocks op.originRegion, Dict.get? a.vcCounter op.originRegion with
  | some rc, some n =>
      let a := { a with vcCounter := Dict.set a.vcCounter op.originRegion (n + 1) }
      let (store, result) := a.store.write sha (hybridEvents String String Region Region)
        (callOf a.opToEvent rc (n + 1) op)
      if result.verdict = .admitted then
        .ok ({ a with store, seq := a.seq + 1,
                      opToEvent := Dict.set a.opToEvent op.opId result.eventId },
          { opId := op.opId, accepted := true, commitSeq := some a.seq, rejectedReason := none })
      else
        .ok ({ a with store },
          { opId := op.opId, accepted := false, commitSeq := none,
            rejectedReason := result.witness.map reason })
  | _, _ => .error (.keyError op.originRegion)

/-- The operations one by one. -/
def replayFrom : CausalStoreAdapter Eid Region → List (Op Nat Region) →
    Except (AdapterError Region) (List OpResult)
  | _, [] => .ok []
  | a, op :: ops => do
      let (a, result) ← a.applyOp sha op
      let results ← replayFrom a ops
      return result :: results

/-- A trace through a new adapter. -/
def replay (regionClocks : Region → Option RegionClock) (regions : List Region)
    (ops : List (Op Nat Region)) : Except (AdapterError Region) (List OpResult) := do
  let a ← setup regionClocks regions
  a.replayFrom sha ops

variable {a : CausalStoreAdapter Eid Region} {op : Op Nat Region}

/-- In a region the adapter is set up for, `apply_op` answers with the verdict of one `write`. -/
theorem applyOp_spec {rc : RegionClock} {n : Int} (hrc : a.regionClocks op.originRegion = some rc)
    (hn : Dict.get? a.vcCounter op.originRegion = some n) :
    let w := a.store.write sha (hybridEvents String String Region Region)
      (callOf a.opToEvent rc (n + 1) op)
    ∃ a' r, a.applyOp sha op = .ok (a', r) ∧ r.opId = op.opId ∧
      a'.regionClocks = a.regionClocks ∧
      a'.vcCounter = Dict.set a.vcCounter op.originRegion (n + 1) ∧ a'.store = w.1 ∧
      (r.accepted = true ↔ w.2.verdict = .admitted) ∧
      (r.accepted = true → a'.opToEvent = Dict.set a.opToEvent op.opId w.2.eventId) := by
  intro w
  unfold applyOp
  rw [hrc, hn]
  dsimp only
  by_cases hverdict : w.2.verdict = .admitted
  · refine ⟨_, _, if_pos hverdict, rfl, rfl, rfl, rfl, ?_, fun _ => rfl⟩
    simp [hverdict]
  · refine ⟨_, _, if_neg hverdict, rfl, rfl, rfl, rfl, ?_, fun h => ?_⟩
    · simp [hverdict]
    · cases h

/-- A replay over regions the adapter is set up for has a result for every operation. -/
theorem replayFrom_total {regions : List Region} {ops : List (Op Nat Region)}
    (hrc : ∀ r ∈ regions, (a.regionClocks r).isSome)
    (hn : ∀ r ∈ regions, (Dict.get? a.vcCounter r).isSome)
    (hops : ∀ op ∈ ops, op.originRegion ∈ regions) :
    ∃ results, a.replayFrom sha ops = .ok results ∧ results.map (·.opId) = ops.map (·.opId) := by
  induction ops generalizing a with
  | nil => exact ⟨[], rfl, rfl⟩
  | cons op ops ih =>
      rw [List.forall_mem_cons] at hops
      obtain ⟨rc, hclock⟩ := Option.isSome_iff_exists.mp (hrc _ hops.1)
      obtain ⟨n, hcount⟩ := Option.isSome_iff_exists.mp (hn _ hops.1)
      obtain ⟨a', r, happly, hid, hclocks, hcounter, -⟩ := applyOp_spec sha hclock hcount
      obtain ⟨results, hresults, hids⟩ := ih (a := a') (hclocks ▸ hrc)
        (fun r hr => hcounter ▸ Dict.isSome_get?_set (hn r hr)) hops.2
      refine ⟨r :: results, ?_, by rw [List.map_cons, List.map_cons, hid, hids]⟩
      simp only [replayFrom, happly, hresults, bind, Except.bind, pure, Except.pure]

end CausalStoreAdapter

end HorizonProtocol.Benchmark
