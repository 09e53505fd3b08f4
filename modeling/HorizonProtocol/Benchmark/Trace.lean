import HorizonProtocol.Geometry
import HorizonProtocol.Dict
import Mathlib.Data.List.Nodup
import Mathlib.Data.Rat.Defs
import Mathlib.Algebra.Order.Ring.Rat

/-!
# Traces and their generator

`benchmark_harness/workload_gen.py`: a trace is a list of write operations with the operations each
depends on. `generateTrace` draws them from a small generator of its own, and decides by light time
whether a second write of a key depends on the first or is concurrent with it.

The digest of the seed is a parameter, and so is `int(contention_ratio * 1_000_000)`, a product of
floating-point numbers.

* `generateTrace_wellFormed` — ids are distinct and dependencies point backwards.
-/

namespace HorizonProtocol.Benchmark

/-! ## Operations -/

/-- One operation of a trace. Its `"type"` is always `"write"`. -/
structure Op (Id Region : Type) where
  opId : Id
  key : String
  value : String
  originRegion : Region
  tLogicalNs : Int
  dependsOn : List Id
  deriving DecidableEq

/-- Ids are distinct, and every `depends_on` names operations earlier in the trace. -/
structure WellFormed {Id Region : Type} (ops : List (Op Id Region)) : Prop where
  ids_nodup : (ops.map Op.opId).Nodup
  backward : ∀ (i : Nat) (op : Op Id Region), ops[i]? = some op → ∀ d ∈ op.dependsOn,
    ∃ (j : Nat) (pred : Op Id Region), j < i ∧ ops[j]? = some pred ∧ pred.opId = d

/-! ## The random numbers -/

inductive TraceError (Region : Type) where
  /-- `f"contention_ratio must be in [0,1], got {contention_ratio}"` -/
  | contentionRatio (got : ℚ)
  /-- `"n_ops and n_keys must be positive"` -/
  | notPositive
  /-- `f"region_positions_nm missing entries for: {missing}"` -/
  | missingPositions (missing : List Region)
  /-- `IndexError`, of an empty sequence or a position past its end. -/
  | indexError
  /-- `KeyError`, of a region without a position. -/
  | keyError (region : Region)
  deriving DecidableEq

/-- `_Rng`. -/
structure Rng where
  state : BitVec 64
  deriving DecidableEq

namespace Rng

/-- The constructor, given the first eight bytes of the digest of the seed. -/
def make (digest : BitVec 64) : Rng := ⟨if digest = 0 then 1 else digest⟩

def nextInt (rng : Rng) (n : Int) : Int × Rng :=
  let x := rng.state
  let x := x ^^^ (x <<< 13)
  let x := x ^^^ (x >>> 7)
  let x := x ^^^ (x <<< 17)
  (if n > 0 then x.toNat % n else 0, ⟨x⟩)

def choice {α Region : Type} (rng : Rng) (seq : List α) : Except (TraceError Region) (α × Rng) :=
  let (i, rng) := rng.nextInt seq.length
  match seq[i.toNat]? with
  | some a => .ok (a, rng)
  | none => .error .indexError

end Rng

/-! ## The generator -/

/-- The arguments of `generate_trace`. -/
structure TraceArgs (Region Seed : Type) where
  regions : List Region
  /-- `region_positions_nm`, a dictionary. -/
  regionPositionsNm : Region → Option Pos
  nKeys : Int
  nOps : Int
  contentionRatio : ℚ
  seed : Seed
  recentWindow : Int := 32
  timeStepRange : Int × Int := (1, 1000)

/-- The variables of the loop. -/
structure Generation (Region : Type) where
  rng : Rng
  trace : List (Op Nat Region) := []
  concurrentPairs : List (Nat × Nat) := []
  /-- The last writer of each key. -/
  lastWriterOfKey : List (String × Nat) := []
  recentKeys : List String := []
  tNs : Int := 0

/-- What `generate_trace` returns. -/
structure GeneratedTrace (Region Seed : Type) where
  trace : List (Op Nat Region)
  concurrentPairs : List (Nat × Nat)
  regions : List Region
  nKeys : Int
  contentionRatio : ℚ
  seed : Seed
  deriving DecidableEq

section Generator

variable {Region Seed : Type}
variable (digest : Seed → BitVec 64) (perMillion : ℚ → Int) (args : TraceArgs Region Seed)

/-- `f"k{rng.next_int(n_keys)}"`. -/
def drawKey (nKeys : Int) (rng : Rng) : String × Rng :=
  let (n, rng) := rng.nextInt nKeys
  ("k" ++ toString n, rng)

/-- Draws again while the key was ever touched, a bounded number of times. -/
def avoidTouched (nKeys : Int) (lastWriterOfKey : List (String × Nat)) :
    Nat → String × Rng → String × Rng
  | 0, drawn => drawn
  | retries + 1, (key, rng) =>
      if Dict.get? lastWriterOfKey key = none then (key, rng)
      else avoidTouched nKeys lastWriterOfKey retries (drawKey nKeys rng)

/-- The key of the next operation: a recent one on a contention roll, else a fresh one. -/
def pickKey (g : Generation Region) (rng : Rng) : Except (TraceError Region) (String × Rng) :=
  let fresh (rng : Rng) := avoidTouched args.nKeys g.lastWriterOfKey 50 (drawKey args.nKeys rng)
  if g.recentKeys.isEmpty then .ok (fresh rng)
  else
    let (roll, rng) := rng.nextInt 1000000
    if roll < perMillion args.contentionRatio then rng.choice g.recentKeys else .ok (fresh rng)

def position (region : Region) : Except (TraceError Region) Pos :=
  match args.regionPositionsNm region with
  | some p => .ok p
  | none => .error (.keyError region)

/-- How a write of `key` relates to the last writer of it: the dependencies of the new operation,
and the concurrent pair it makes. -/
def relate (g : Generation Region) (opId : Nat) (key : String) (originRegion : Region)
    (tNs : Int) : Except (TraceError Region) (List Nat × List (Nat × Nat)) :=
  match Dict.get? g.lastWriterOfKey key with
  | none => .ok ([], [])
  | some predId =>
      match g.trace[predId]? with
      | none => .error .indexError
      | some pred => do
          let p ← position args pred.originRegion
          let q ← position args originRegion
          let requiredNs : Int := minLightTimeNs p q
          let elapsedNs := tNs - pred.tLogicalNs
          -- time enough for a signal: a read-modify-write
          if elapsedNs ≥ requiredNs then return ([predId], [])
          else return ([], [(predId, opId)])

/-- The body of the loop. -/
def emit (g : Generation Region) (opId : Nat) : Except (TraceError Region) (Generation Region) := do
  let (lo, hi) := args.timeStepRange
  let (more, rng) := g.rng.nextInt (hi - lo + 1)
  let tNs := g.tNs + (lo + more)
  let (originRegion, rng) ← rng.choice args.regions
  let (key, rng) ← pickKey perMillion args g rng
  let (dependsOn, pairs) ← relate args g opId key originRegion tNs
  let op : Op Nat Region :=
    { opId, key, value := "v" ++ toString opId, originRegion, tLogicalNs := tNs, dependsOn }
  let recentKeys := g.recentKeys ++ [key]
  return { rng, tNs
           trace := g.trace ++ [op]
           concurrentPairs := g.concurrentPairs ++ pairs
           lastWriterOfKey := Dict.set g.lastWriterOfKey key opId
           recentKeys :=
             if recentKeys.length > args.recentWindow then recentKeys.tail else recentKeys }

/-- `generate_trace`. -/
def generateTrace : Except (TraceError Region) (GeneratedTrace Region Seed) :=
  let missing := args.regions.filter fun r => (args.regionPositionsNm r).isNone
  if !(decide (0 ≤ args.contentionRatio) && decide (args.contentionRatio ≤ 1)) then
    .error (.contentionRatio args.contentionRatio)
  else if args.nOps ≤ 0 || args.nKeys ≤ 0 then .error .notPositive
  else if !missing.isEmpty then .error (.missingPositions missing)
  else do
    let start : Generation Region := { rng := .make (digest args.seed) }
    let g ← (List.range args.nOps.toNat).foldlM (emit perMillion args) start
    return { trace := g.trace
             concurrentPairs := g.concurrentPairs
             regions := args.regions
             nKeys := args.nKeys
             contentionRatio := args.contentionRatio
             seed := args.seed }

/-! ## What the loop keeps -/

variable {perMillion args} {g g' : Generation Region}

theorem ok_of_bind {ε α β : Type} {x : Except ε α} {f : α → Except ε β} {b : β}
    (h : x >>= f = .ok b) : ∃ a, x = .ok a ∧ f a = .ok b := by
  cases x with
  | error e => cases h
  | ok a => exact ⟨a, rfl, h⟩

theorem position_eq_ok {region : Region} {p : Pos} :
    position args region = .ok p ↔ args.regionPositionsNm region = some p := by
  unfold position
  cases args.regionPositionsNm region <;> simp

/-- What `relate` finds: no writer of the key yet, or the last one of it, and then a dependency when
light had the time to come from there, or else a concurrent pair. -/
theorem relate_cases {opId : Nat} {key : String} {region : Region} {tNs : Int} {deps : List Nat}
    {pairs : List (Nat × Nat)} (h : relate args g opId key region tNs = .ok (deps, pairs)) :
    (Dict.get? g.lastWriterOfKey key = none ∧ deps = [] ∧ pairs = []) ∨
    ∃ predId pred p q, Dict.get? g.lastWriterOfKey key = some predId ∧
      g.trace[predId]? = some pred ∧ args.regionPositionsNm pred.originRegion = some p ∧
      args.regionPositionsNm region = some q ∧
      (((minLightTimeNs p q : Int) ≤ tNs - pred.tLogicalNs ∧ deps = [predId] ∧ pairs = []) ∨
        (tNs - pred.tLogicalNs < minLightTimeNs p q ∧ deps = [] ∧ pairs = [(predId, opId)])) := by
  unfold relate at h
  split at h
  · next hnone =>
      cases h
      exact Or.inl ⟨hnone, rfl, rfl⟩
  · next predId hlast =>
      split at h
      · cases h
      · next pred hpred =>
          obtain ⟨p, hp, h⟩ := ok_of_bind h
          obtain ⟨q, hq, h⟩ := ok_of_bind h
          dsimp only at h
          refine Or.inr ⟨predId, pred, p, q, hlast, hpred, position_eq_ok.mp hp,
            position_eq_ok.mp hq, ?_⟩
          split at h
          · next helapsed =>
              cases h
              exact Or.inl ⟨helapsed, rfl, rfl⟩
          · next helapsed =>
              cases h
              exact Or.inr ⟨not_le.mp helapsed, rfl, rfl⟩

theorem choice_ok {α : Type} {rng rng' : Rng} {seq : List α} {a : α}
    (h : (rng.choice seq : Except (TraceError Region) (α × Rng)) = .ok (a, rng')) : a ∈ seq := by
  unfold Rng.choice at h
  dsimp only at h
  split at h
  · next b hb =>
      cases h
      exact List.mem_of_getElem? hb
  · cases h

theorem Rng.nextInt_nonneg (rng : Rng) (n : Int) : 0 ≤ (rng.nextInt n).1 := by
  unfold Rng.nextInt
  dsimp only
  split
  · next hn => exact Int.emod_nonneg _ hn.ne'
  · exact le_rfl

/-- What one pass of the loop adds: an operation, the pairs it makes, and itself as the last writer
of its key. -/
structure Emits (args : TraceArgs Region Seed) (g : Generation Region) (opId : Nat)
    (g' : Generation Region) (op : Op Nat Region) (pairs : List (Nat × Nat)) : Prop where
  opId_eq : op.opId = opId
  region : op.originRegion ∈ args.regions
  time : op.tLogicalNs = g'.tNs
  step : g.tNs + args.timeStepRange.1 ≤ g'.tNs
  related : relate args g opId op.key op.originRegion op.tLogicalNs = .ok (op.dependsOn, pairs)
  trace : g'.trace = g.trace ++ [op]
  concurrentPairs : g'.concurrentPairs = g.concurrentPairs ++ pairs
  lastWriter : g'.lastWriterOfKey = Dict.set g.lastWriterOfKey op.key opId

theorem emit_spec {opId : Nat} (h : emit perMillion args g opId = .ok g') :
    ∃ op pairs, Emits args g opId g' op pairs := by
  unfold emit at h
  dsimp only at h
  obtain ⟨⟨region, rng⟩, hregion, h⟩ := ok_of_bind h
  obtain ⟨⟨key, rng⟩, -, h⟩ := ok_of_bind h
  obtain ⟨⟨deps, pairs⟩, hrelate, h⟩ := ok_of_bind h
  cases h
  refine ⟨_, pairs, ⟨rfl, choice_ok hregion, rfl, ?_, hrelate, rfl, rfl, rfl⟩⟩
  exact add_le_add le_rfl (le_add_of_nonneg_right (Rng.nextInt_nonneg _ _))

/-- What holds of the trace after `n` passes. -/
structure Emitted (args : TraceArgs Region Seed) (n : Nat) (ops : List (Op Nat Region)) : Prop where
  length : ops.length = n
  opId : ∀ (i : Nat) (op : Op Nat Region), ops[i]? = some op → op.opId = i
  region : ∀ op ∈ ops, op.originRegion ∈ args.regions
  /-- A dependency is on an earlier operation that light had the time to come from. -/
  light : ∀ (i : Nat) (op : Op Nat Region), ops[i]? = some op → ∀ d ∈ op.dependsOn,
    ∃ pred p q, d < i ∧ ops[d]? = some pred ∧
      args.regionPositionsNm pred.originRegion = some p ∧
      args.regionPositionsNm op.originRegion = some q ∧
      (minLightTimeNs p q : Int) ≤ op.tLogicalNs - pred.tLogicalNs

theorem Emitted.emit {n : Nat} (hg : Emitted args n g.trace)
    (h : emit perMillion args g n = .ok g') : Emitted args (n + 1) g'.trace := by
  obtain ⟨op, pairs, hop⟩ := emit_spec h
  rw [hop.trace]
  refine ⟨?_, ?_, ?_, ?_⟩
  · rw [List.length_append, hg.length, List.length_singleton]
  · intro i op' hop'
    rcases Log.getElem?_concat_eq_some_iff.mp hop' with hold | ⟨rfl, rfl⟩
    · exact hg.opId i op' hold
    · exact hop.opId_eq.trans hg.length.symm
  · rw [List.forall_mem_append, List.forall_mem_singleton]
    exact ⟨hg.region, hop.region⟩
  · intro i op' hop' d hd
    rcases Log.getElem?_concat_eq_some_iff.mp hop' with hold | ⟨rfl, rfl⟩
    · obtain ⟨pred, p, q, hlt, hpred, hlight⟩ := hg.light i op' hold d hd
      exact ⟨pred, p, q, hlt, Log.getElem?_concat_eq_some_iff.mpr (Or.inl hpred), hlight⟩
    · rcases relate_cases hop.related with
        ⟨-, hdeps, -⟩ | ⟨predId, pred, p, q, -, hpred, hp, hq, hcase⟩
      · rw [hdeps] at hd
        cases hd
      · rcases hcase with ⟨helapsed, hdeps, -⟩ | ⟨-, hdeps, -⟩
        · rw [hdeps, List.mem_singleton] at hd
          subst hd
          exact ⟨pred, p, q, Log.lt_length_of_getElem? hpred,
            Log.getElem?_concat_eq_some_iff.mpr (Or.inl hpred), hp, hq, helapsed⟩
        · rw [hdeps] at hd
          cases hd

theorem emitted_loop {start : Generation Region} (hstart : start.trace = []) {n : Nat}
    (h : (List.range n).foldlM (emit perMillion args) start = .ok g) : Emitted args n g.trace := by
  induction n generalizing g with
  | zero =>
      cases h
      rw [hstart]
      exact ⟨rfl, by simp, by simp, by simp⟩
  | succ n ih =>
      rw [List.range_succ, List.foldlM_append] at h
      obtain ⟨r, hr, h⟩ := ok_of_bind h
      rw [List.foldlM_cons] at h
      obtain ⟨r', hr', h⟩ := ok_of_bind h
      cases h
      exact (ih hr).emit hr'

/-- A trace that is emitted has passed the checks of the arguments. -/
theorem generateTrace_emitted {out : GeneratedTrace Region Seed}
    (h : generateTrace digest perMillion args = .ok out) :
    (∀ r ∈ args.regions, (args.regionPositionsNm r).isSome) ∧
      Emitted args args.nOps.toNat out.trace := by
  unfold generateTrace at h
  dsimp only at h
  split at h
  · cases h
  split at h
  · cases h
  split at h
  · cases h
  · next hmissing =>
      obtain ⟨g, hg, h⟩ := ok_of_bind h
      cases h
      refine ⟨?_, emitted_loop rfl hg⟩
      simpa [List.isEmpty_iff, Option.isSome_iff_ne_none] using hmissing

theorem Emitted.wellFormed {n : Nat} {ops : List (Op Nat Region)} (h : Emitted args n ops) :
    WellFormed ops where
  ids_nodup := by
    have hids : ops.map Op.opId = List.range n := by
      apply List.ext_getElem?
      intro i
      rw [List.getElem?_map]
      by_cases hi : i < n
      · obtain ⟨op, hop⟩ : ∃ op, ops[i]? = some op :=
          ⟨_, List.getElem?_eq_getElem (h.length ▸ hi)⟩
        rw [hop, List.getElem?_range hi, Option.map_some, h.opId i op hop]
      · rw [List.getElem?_eq_none (h.length ▸ not_lt.mp hi),
          List.getElem?_eq_none (by simpa using hi)]
        rfl
    rw [hids]
    exact List.nodup_range
  backward i op hop d hd := by
    obtain ⟨pred, p, q, hlt, hpred, -⟩ := h.light i op hop d hd
    exact ⟨d, pred, hlt, hpred, h.opId d pred hpred⟩

/-- **What the generator emits is well formed.** -/
theorem generateTrace_wellFormed {out : GeneratedTrace Region Seed}
    (h : generateTrace digest perMillion args = .ok out) : WellFormed out.trace :=
  (generateTrace_emitted digest h).2.wellFormed

end Generator

end HorizonProtocol.Benchmark
