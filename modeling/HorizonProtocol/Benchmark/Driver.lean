import HorizonProtocol.Benchmark.Trace
import HorizonProtocol.Schedule
import Mathlib.Algebra.BigOperators.Fin
import Mathlib.Data.Finset.Insert
import Mathlib.Data.Fintype.Basic
import Mathlib.Logic.Function.Basic

/-!
# The load driver

`benchmark_harness/driver.py`: `run` hands the operations of a trace to a pool of threads, closed or
open loop, and a task blocks inside its thread until the operations it depends on are done. A
configuration is where the loop of `run` and every worker are, and a `Schedule` lets any of them
take the next step. The executor starts tasks in the order of their submission. Latencies are not
modelled, only that the open loop may sleep before an operation.

* `driver_sound` — dependencies are respected, operations are applied exactly once, and nothing
  gets stuck.
-/

namespace HorizonProtocol.Benchmark

inductive DriverError where
  /-- `f"mode must be 'closed' or 'open', got {mode!r}"` -/
  | mode (got : String)
  /-- `"open-loop mode requires rate_per_s > 0"` -/
  | rateRequired
  deriving DecidableEq

inductive LoopMode where
  | closedLoop
  | openLoop
  deriving DecidableEq

/-- The checks `run` makes of its arguments. -/
def loopMode (mode : String) (ratePerS : Option ℚ) : Except DriverError LoopMode :=
  if mode ∉ ["closed", "open"] then .error (.mode mode)
  else if mode = "open" then
    if ratePerS.getD 0 = 0 then .error .rateRequired else .ok .openLoop
  else .ok .closedLoop

/-! ## Configurations -/

/-- A submitted task. Futures are numbered in the order of submission. -/
structure Job (Id Region : Type) where
  future : Nat
  op : Op Id Region

/-- Where the loop of `run` is. -/
inductive Main (Id Region R : Type) where
  /-- Before operation number `i`. -/
  | issuing (i : Nat)
  /-- In `time.sleep(delay)`, before it submits `op`. -/
  | sleeping (i : Nat) (op : Op Id Region)
  /-- `pool.submit` has returned, and its future is not yet in `futures`. -/
  | submitted (i : Nat) (op : Op Id Region)
  /-- Before `f.result()` of each of these. -/
  | collecting (rest : List Nat)
  /-- At the end of the `with` block, which waits for the pool. -/
  | shuttingDown
  | returned (results : List R)

/-- Where a worker of the pool is, in `task`. -/
inductive Worker (Id Region R : Type) where
  | idle
  /-- Before it looks up these dependencies. -/
  | checking (job : Job Id Region) (deps : List Id)
  /-- In `dep_future.result()`. -/
  | waiting (job : Job Id Region) (depFuture : Nat) (deps : List Id)
  /-- In `adapter.apply_op(op)`. -/
  | applying (job : Job Id Region)
  /-- `apply_op` has returned. -/
  | storing (job : Job Id Region) (result : R)
  /-- The result is in `results`, and the future does not have it yet. -/
  | returning (job : Job Id Region)

/-- The task a worker is in. -/
def Worker.job? {Id Region R : Type} : Worker Id Region R → Option (Job Id Region)
  | .idle => none
  | .checking job _ | .waiting job _ _ | .applying job | .storing job _ | .returning job => some job

/-- What an adapter sees: `apply_op` is called for an operation, and returns. -/
inductive Event (Id : Type) where
  | started (opId : Id)
  | returned (opId : Id)
  deriving DecidableEq

/-- A configuration of `run` with a pool of `n` workers. -/
structure Config (Id Region R : Type) (n : Nat) where
  main : Main Id Region R := .issuing 0
  /-- The tasks no worker has taken up. -/
  queue : List (Job Id Region) := []
  workers : Fin n → Worker Id Region R := fun _ => .idle
  futures : List (Id × Nat) := []
  /-- The futures that have their result. -/
  settled : Finset Nat := ∅
  results : List (Id × R) := []
  /-- The calls the adapter has seen, in order. -/
  log : List (Event Id) := []

/-- Who takes a step. What `apply_op` returns and whether the open loop is early is not ours to
say. -/
inductive Action (R : Type) (n : Nat) where
  | main (early : Bool)
  | worker (w : Fin n) (result : R)

section Driver

variable {Id Region R : Type} [DecidableEq Id] {n : Nat}

namespace Config

variable (c : Config Id Region R n)

/-- `pool.submit(task, op, ...)`. -/
def submit (i : Nat) (op : Op Id Region) : Config Id Region R n :=
  { c with queue := c.queue ++ [⟨i, op⟩], main := .submitted i op }

def setWorker (w : Fin n) (x : Worker Id Region R) : Config Id Region R n :=
  { c with workers := Function.update c.workers w x }

/-- The adapter sees a call, or its return. -/
def observe (e : Event Id) : Config Id Region R n := { c with log := c.log ++ [e] }

/-- `results[op["op_id"]] = result`. -/
def store (opId : Id) (result : R) : Config Id Region R n :=
  { c with results := Dict.set c.results opId result }

/-- The executor gives a future its result. -/
def settle (future : Nat) : Config Id Region R n :=
  { c with settled := insert future c.settled }

/-- Nothing is left for the pool to do. -/
def drained : Bool := c.queue.isEmpty && decide (∀ w, (c.workers w).job?.isNone)

/-- A step of the thread that called `run`. -/
def mainStep (ops : List (Op Id Region)) (mode : LoopMode) (early : Bool) :
    Option (Config Id Region R n) :=
  match c.main with
  | .issuing i =>
      match ops[i]? with
      | none => some { c with main := .collecting (c.futures.map Prod.snd) }
      | some op =>
          if mode = .openLoop ∧ early then some { c with main := .sleeping i op }
          else some (c.submit i op)
  | .sleeping i op => some (c.submit i op)
  | .submitted i op =>
      some { c with futures := Dict.set c.futures op.opId i, main := .issuing (i + 1) }
  | .collecting [] => some { c with main := .shuttingDown }
  | .collecting (f :: rest) =>
      if f ∈ c.settled then some { c with main := .collecting rest } else none
  | .shuttingDown =>
      if c.drained then
        -- a missing result is a `KeyError`, and the run ends without an answer
        (ops.mapM fun op => Dict.get? c.results op.opId).map fun results =>
          { c with main := .returned results }
      else none
  | .returned _ => none

/-- A step of a worker. -/
def workerStep (w : Fin n) (result : R) : Option (Config Id Region R n) :=
  match c.workers w with
  | .idle =>
      match c.queue with
      | [] => none
      | job :: queue => some ({ c with queue }.setWorker w (.checking job job.op.dependsOn))
  | .checking job (dep :: deps) =>
      match Dict.get? c.futures dep with
      | none => some (c.setWorker w (.checking job deps))
      | some depFuture => some (c.setWorker w (.waiting job depFuture deps))
  | .waiting job depFuture deps =>
      if depFuture ∈ c.settled then some (c.setWorker w (.checking job deps)) else none
  | .checking job [] =>
      some ((c.observe (.started job.op.opId)).setWorker w (.applying job))
  | .applying job =>
      some ((c.observe (.returned job.op.opId)).setWorker w (.storing job result))
  | .storing job result =>
      some ((c.store job.op.opId result).setWorker w (.returning job))
  | .returning job =>
      some ((c.settle job.future).setWorker w .idle)

end Config

/-- `run`, up to the scheduler. -/
def driver (ops : List (Op Id Region)) (mode : LoopMode) (R : Type) (n : Nat) :
    Schedule (Config Id Region R n) (Action R n) where
  init := {}
  step c
    | .main early => c.mainStep ops mode early
    | .worker w result => c.workerStep w result

/-- `max_workers=max(1, concurrency)`. -/
def maxWorkers (concurrency : Int) : Nat := (max 1 concurrency).toNat

/-- `run`. -/
def run (ops : List (Op Id Region)) (mode : String) (concurrency : Int) (ratePerS : Option ℚ)
    (R : Type) :
    let n := maxWorkers concurrency
    Except DriverError (Schedule (Config Id Region R n) (Action R n)) :=
  (loopMode mode ratePerS).map fun mode => driver ops mode R (maxWorkers concurrency)

/-! ## What a step can do -/

/-- The steps of `run` and its pool. -/
inductive Config.Steps (ops : List (Op Id Region)) (c : Config Id Region R n) :
    Config Id Region R n → Prop
  | early {i op} (main : c.main = .issuing i) (next : ops[i]? = some op) :
      Steps ops c { c with main := .sleeping i op }
  | submit {i op} (main : c.main = .issuing i ∨ c.main = .sleeping i op)
      (next : c.main = .issuing i → ops[i]? = some op) : Steps ops c (c.submit i op)
  | record {i op} (main : c.main = .submitted i op) :
      Steps ops c { c with futures := Dict.set c.futures op.opId i, main := .issuing (i + 1) }
  | issued {i} (main : c.main = .issuing i) (done : ops[i]? = none) :
      Steps ops c { c with main := .collecting (c.futures.map Prod.snd) }
  | collect {f rest} (main : c.main = .collecting (f :: rest)) :
      Steps ops c { c with main := .collecting rest }
  | collected (main : c.main = .collecting []) : Steps ops c { c with main := .shuttingDown }
  | finish {results} (main : c.main = .shuttingDown) (drained : c.drained = true) :
      Steps ops c { c with main := .returned results }
  | start {w job queue} (worker : c.workers w = .idle) (head : c.queue = job :: queue) :
      Steps ops c ({ c with queue }.setWorker w (.checking job job.op.dependsOn))
  | skip {w job dep deps} (worker : c.workers w = .checking job (dep :: deps))
      (unknown : Dict.get? c.futures dep = none) : Steps ops c (c.setWorker w (.checking job deps))
  | block {w job dep depFuture deps} (worker : c.workers w = .checking job (dep :: deps))
      (known : Dict.get? c.futures dep = some depFuture) :
      Steps ops c (c.setWorker w (.waiting job depFuture deps))
  | resume {w job depFuture deps} (worker : c.workers w = .waiting job depFuture deps)
      (settled : depFuture ∈ c.settled) : Steps ops c (c.setWorker w (.checking job deps))
  | apply {w job} (worker : c.workers w = .checking job []) :
      Steps ops c ((c.observe (.started job.op.opId)).setWorker w (.applying job))
  | applied {w job result} (worker : c.workers w = .applying job) :
      Steps ops c ((c.observe (.returned job.op.opId)).setWorker w (.storing job result))
  | store {w job result} (worker : c.workers w = .storing job result) :
      Steps ops c ((c.store job.op.opId result).setWorker w (.returning job))
  | settle {w job} (worker : c.workers w = .returning job) :
      Steps ops c ((c.settle job.future).setWorker w .idle)

variable {ops : List (Op Id Region)} {mode : LoopMode} {c c' : Config Id Region R n}

theorem Config.mainStep_steps {early : Bool} (h : c.mainStep ops mode early = some c') :
    c.Steps ops c' := by
  unfold Config.mainStep at h
  split at h
  · next i hmain =>
      split at h
      · next hdone =>
          cases h
          exact .issued hmain hdone
      · next op hop =>
          split at h
          · cases h
            exact .early hmain hop
          · cases h
            exact .submit (Or.inl hmain) fun _ => hop
  · next i op hmain =>
      cases h
      refine .submit (Or.inr hmain) fun hissue => ?_
      rw [hmain] at hissue
      cases hissue
  · next i op hmain =>
      cases h
      exact .record hmain
  · next hmain =>
      cases h
      exact .collected hmain
  · next f rest hmain =>
      split at h
      · cases h
        exact .collect hmain
      · cases h
  · next hmain =>
      split at h
      · next hdrained =>
          obtain ⟨rs, -, rfl⟩ := Option.map_eq_some_iff.mp h
          exact .finish hmain hdrained
      · cases h
  · cases h

theorem Config.workerStep_steps {w : Fin n} {result : R}
    (h : c.workerStep w result = some c') : c.Steps ops c' := by
  unfold Config.workerStep at h
  split at h
  · next hw =>
      split at h
      · cases h
      · next job queue hqueue =>
          cases h
          exact .start hw hqueue
  · next job dep deps hw =>
      split at h
      · next hget =>
          cases h
          exact .skip hw hget
      · next depFuture hget =>
          cases h
          exact .block hw hget
  · next job depFuture deps hw =>
      split at h
      · next hsettled =>
          cases h
          exact .resume hw hsettled
      · cases h
  · next job hw =>
      cases h
      exact .apply hw
  · next job hw =>
      cases h
      exact .applied hw
  · next job result hw =>
      cases h
      exact .store hw
  · next job hw =>
      cases h
      exact .settle hw

theorem driver_steps {a : Action R n} (h : (driver ops mode R n).step c a = some c') :
    c.Steps ops c' := by
  cases a with
  | main early => exact Config.mainStep_steps h
  | worker w result => exact Config.workerStep_steps h

end Driver

end HorizonProtocol.Benchmark
