import HorizonProtocol.Benchmark.DriverRuns
import Mathlib.Algebra.BigOperators.Group.Finset.Piecewise
import Mathlib.Algebra.Order.BigOperators.Group.List

/-!
# The load driver always finishes

The earliest unfinished task is in the queue with every worker idle, or in a worker and waiting for
nothing, so some step is possible until `run` has returned. Every step lowers `Config.cost`.

* `Inv.returned_of_stuck` — only a finished run is stuck.
* `cost_lt` — every step is progress.
* `driver_sound` — what follows for a run, whatever its schedule.
-/

namespace HorizonProtocol.Benchmark

variable {Id Region R : Type} [DecidableEq Id] {n : Nat}
variable {ops : List (Op Id Region)} {mode : LoopMode} {c c' : Config Id Region R n}

/-! ## Something can always go on -/

/-- A worker whose task waits for nothing unfinished can go on. -/
theorem exists_workerStep [Inhabited R] {w : Fin n} {job : Job Id Region}
    (hjob : (c.workers w).job? = some job)
    (hdeps : ∀ depFuture deps, c.workers w = .waiting job depFuture deps → depFuture ∈ c.settled) :
    c.workerStep w default ≠ none := by
  unfold Config.workerStep
  cases hw : c.workers w with
  | idle =>
      rw [hw] at hjob
      cases hjob
  | checking job' deps =>
      cases deps with
      | nil => simp
      | cons dep deps =>
          dsimp only
          split <;> simp
  | waiting job' depFuture deps =>
      rw [hw] at hjob
      cases hjob
      simp [hdeps depFuture deps hw]
  | applying job' | storing job' result | returning job' => simp

/-- **The earliest unfinished task can go on**, in its worker or by being taken up. -/
theorem Inv.not_stuck [Inhabited R] (hn : 0 < n) (h : Inv ops c) {k : Nat}
    (hk : k < c.main.handed ops.length) (hnot : k ∉ c.settled)
    (hleast : ∀ j < k, j ∈ c.settled) : ¬ (driver ops mode R n).Stuck c := by
  intro hstuck
  rcases lt_or_ge k (c.taken ops) with htaken | hqueued
  -- a worker is in it, and what it waits for is an earlier task
  · obtain ⟨w, job, hjob, rfl⟩ := (h.pooled.covered k htaken).resolve_left hnot
    refine exists_workerStep hjob (fun depFuture deps hw => ?_) (hstuck (.worker w default))
    have hok := h.logged.worker w
    rw [hw] at hok
    exact hleast depFuture hok.2.1
  -- no task was taken up since, and those before it are settled: any worker can take it up
  · have hidle : ∀ w, c.workers w = .idle := by
      intro w
      have hnone : (c.workers w).job? = none := by
        by_contra hsome
        obtain ⟨job, hjob⟩ := Option.ne_none_iff_exists'.mp hsome
        obtain ⟨hlt, hnot', -⟩ := h.pooled.held w job hjob
        exact hnot' (hleast job.future (hlt.trans_le hqueued))
      cases hw : c.workers w with
      | idle => rfl
      | checking | waiting | applying | storing | returning =>
          rw [hw] at hnone
          cases hnone
    have hstep := hstuck (.worker ⟨0, hn⟩ default)
    change c.workerStep ⟨0, hn⟩ default = none at hstep
    unfold Config.workerStep at hstep
    rw [hidle] at hstep
    cases hqueue : c.queue with
    | nil =>
        rw [Config.taken, hqueue, List.length_nil] at hqueued
        omega
    | cons job queue =>
        rw [hqueue] at hstep
        cases hstep

/-- In a run that is stuck all submitted tasks are settled, by induction on their order: there is no
earliest one that is not. -/
theorem Inv.all_settled [Inhabited R] (hn : 0 < n) (h : Inv ops c)
    (hstuck : (driver ops mode R n).Stuck c) : ∀ k < c.main.handed ops.length, k ∈ c.settled := by
  intro k
  induction k using Nat.strongRecOn with
  | ind k ih =>
      intro hk
      by_contra hnot
      exact h.not_stuck hn hk hnot (fun j hj => ih j hj (hj.trans hk)) hstuck

/-- With everything settled the pool is drained. -/
theorem Inv.drained (h : Inv ops c) (hall : ∀ k < c.main.handed ops.length, k ∈ c.settled) :
    c.drained = true := by
  have hle : c.taken ops ≤ c.main.handed ops.length := Nat.sub_le _ _
  simp only [Config.drained, Bool.and_eq_true, List.isEmpty_iff, decide_eq_true_eq,
    Option.isNone_iff_eq_none]
  constructor
  · rw [← List.length_eq_zero_iff]
    by_contra hne
    have hlen := h.issued.length_queue_le
    have hlast := h.pooled.settled_lt _ (hall (c.main.handed ops.length - 1) (by omega))
    rw [Config.taken] at hlast
    omega
  · intro w
    by_contra hsome
    obtain ⟨job, hjob⟩ := Option.ne_none_iff_exists'.mp hsome
    obtain ⟨hlt, hnot, -⟩ := h.pooled.held w job hjob
    exact hnot (hall job.future (hlt.trans_le hle))

theorem mapM_ne_none {α β : Type} {f : α → Option β} {l : List α}
    (h : ∀ a ∈ l, (f a).isSome) : l.mapM f ≠ none := by
  induction l with
  | nil => simp
  | cons a l ih =>
      rw [List.forall_mem_cons] at h
      obtain ⟨b, hb⟩ := Option.isSome_iff_exists.mp h.1
      obtain ⟨bs, hbs⟩ := Option.ne_none_iff_exists'.mp (ih h.2)
      simp [List.mapM_cons, hb, hbs]

/-- **Only a finished run is stuck.** The loop waits for what is settled or for a drained pool, and when
it returns it finds a result for every operation. -/
theorem Inv.returned_of_stuck [Inhabited R] (hn : 0 < n) (h : Inv ops c)
    (hstuck : (driver ops mode R n).Stuck c) : ∃ results, c.main = .returned results := by
  have hall := h.all_settled hn hstuck
  have hstep := hstuck (.main false)
  change c.mainStep ops mode false = none at hstep
  unfold Config.mainStep at hstep
  have hmain := h.issued.main
  cases hat : c.main with
  | issuing i =>
      rw [hat] at hstep
      dsimp only at hstep
      split at hstep
      · cases hstep
      · simp at hstep
  | sleeping i op | submitted i op =>
      rw [hat] at hstep
      cases hstep
  | collecting rest =>
      rw [hat] at hstep hmain hall
      cases rest with
      | nil => cases hstep
      | cons f rest => simp [hall f (hmain f List.mem_cons_self)] at hstep
  | shuttingDown =>
      have hdrained := h.drained hall
      rw [hat] at hstep hall
      simp only [hdrained, if_true, Option.map_eq_none_iff] at hstep
      refine absurd hstep (mapM_ne_none fun op hop => ?_)
      obtain ⟨k, hk⟩ := List.getElem?_of_mem hop
      have hlt := (List.getElem?_eq_some_iff.mp hk).1
      exact (h.logged.done k (hall k hlt) op hk).2.2
  | returned results => exact ⟨results, rfl⟩

/-! ## Every step is progress -/

/-- The steps a task takes that is not taken up: two for each dependency (to block on it and to go on),
and to be taken up, called, answered, stored and settled. -/
def Op.cost (op : Op Id Region) : Nat := 2 * op.dependsOn.length + 5

/-- The steps a worker takes yet, at most. -/
def Worker.cost : Worker Id Region R → Nat
  | .idle => 0
  | .checking _ deps => 2 * deps.length + 4
  | .waiting _ _ deps => 2 * deps.length + 5
  | .applying _ => 3
  | .storing _ _ => 2
  | .returning _ => 1

/-- The steps that operations not yet submitted cost, and the end of `run`. -/
def restCost (ops : List (Op Id Region)) (i : Nat) : Nat :=
  ((ops.drop i).map fun op => op.cost + 3).sum + ops.length + 3

def Main.cost (ops : List (Op Id Region)) : Main Id Region R → Nat
  | .issuing i => restCost ops i
  | .sleeping i op => op.cost + 2 + restCost ops (i + 1)
  | .submitted i _ => 1 + restCost ops (i + 1)
  | .collecting rest => rest.length + 2
  | .shuttingDown => 1
  | .returned _ => 0

/-- The steps a run takes yet, at most. -/
def Config.cost (ops : List (Op Id Region)) (c : Config Id Region R n) : Nat :=
  c.main.cost ops + (c.queue.map fun job => job.op.cost).sum + ∑ w, (c.workers w).cost

omit [DecidableEq Id] in
theorem restCost_of_getElem? {i : Nat} {op : Op Id Region} (h : ops[i]? = some op) :
    restCost ops i = op.cost + 3 + restCost ops (i + 1) := by
  obtain ⟨hlt, rfl⟩ := List.getElem?_eq_some_iff.mp h
  unfold restCost
  rw [List.drop_eq_getElem_cons hlt, List.map_cons, List.sum_cons]
  omega

omit [DecidableEq Id] in
theorem sum_setWorker (c : Config Id Region R n) (w : Fin n) (x : Worker Id Region R) :
    ∑ w', ((c.setWorker w x).workers w').cost + (c.workers w).cost =
      ∑ w', (c.workers w').cost + x.cost := by
  rw [← Finset.add_sum_erase _ _ (Finset.mem_univ w),
    ← Finset.add_sum_erase _ (fun w' => (c.workers w').cost) (Finset.mem_univ w)]
  have hrest : ∑ w' ∈ Finset.univ.erase w, ((c.setWorker w x).workers w').cost =
      ∑ w' ∈ Finset.univ.erase w, (c.workers w').cost := by
    apply Finset.sum_congr rfl
    intro w' hw'
    rw [Config.workers_setWorker, Function.update_of_ne (Finset.ne_of_mem_erase hw')]
  rw [hrest, Config.workers_setWorker, Function.update_self]
  omega

omit [DecidableEq Id] in
/-- A worker that goes on to a cheaper place, while nothing else gets more expensive. -/
theorem cost_setWorker_lt {w : Fin n} {x : Worker Id Region R}
    (h : x.cost < (c.workers w).cost) : (c.setWorker w x).cost ops < c.cost ops := by
  have hsum := sum_setWorker c w x
  show c.main.cost ops + (c.queue.map fun job => job.op.cost).sum + _ < _
  unfold Config.cost
  omega

/-- Every step is progress. What a step makes dearer, the queue or a worker, is paid for by where the
task comes from: an operation still to be submitted costs three more than its task, and a task one more
than the worker that has taken it up. -/
theorem cost_lt (hi : Issued ops c) (hstep : c.Steps ops c') : c'.cost ops < c.cost ops := by
  have hmain := hi.main
  cases hstep with
  | @early i op hat hop =>
      have hcost := restCost_of_getElem? hop
      simp only [Config.cost, hat, Main.cost]
      omega
  | @submit i op hat hop =>
      show 1 + restCost ops (i + 1) + ((c.queue ++ [Job.mk i op]).map fun job => job.op.cost).sum +
        ∑ w, (c.workers w).cost < c.cost ops
      rw [List.map_append, List.sum_append, List.map_singleton, List.sum_singleton, Config.cost]
      dsimp only
      rcases hat with hat | hat
      · have hcost := restCost_of_getElem? (hop hat)
        rw [hat, Main.cost]
        omega
      · rw [hat, Main.cost]
        omega
  | record hat =>
      simp only [Config.cost, hat, Main.cost]
      omega
  | @issued i hat hdone =>
      -- there is a future to collect for each operation at most
      have hlen : (c.futures.map Prod.snd).length ≤ ops.length := by
        rw [List.length_map, hi.futures, List.length_take, entries, List.length_mapIdx]
        exact Nat.min_le_right _ _
      simp only [Config.cost, hat, Main.cost, restCost]
      omega
  | collect hat =>
      simp only [Config.cost, hat, Main.cost, List.length_cons]
      omega
  | collected hat =>
      simp only [Config.cost, hat, Main.cost, List.length_nil]
      omega
  | finish hat =>
      simp only [Config.cost, hat, Main.cost]
      omega
  | @start w job queue hidle hhead =>
      have hsum := sum_setWorker { c with queue } w (.checking job job.op.dependsOn)
      show c.main.cost ops + (queue.map fun job => job.op.cost).sum + _ < _
      simp only [hidle, Worker.cost] at hsum
      simp only [Config.cost, hhead, List.map_cons, List.sum_cons, Op.cost]
      simp only [Worker.cost]
      omega
  | skip hw | block hw | resume hw =>
      apply cost_setWorker_lt
      rw [hw]
      simp only [Worker.cost, List.length_cons]
      omega
  | apply hw | applied hw | store hw | settle hw =>
      apply cost_setWorker_lt
      show _ < (c.workers _).cost
      rw [hw]
      simp [Worker.cost]

/-! ## The driver -/

/-- **The load driver respects dependencies and never deadlocks.** However its threads are
scheduled, with any number of workers and in either mode: a call of `apply_op` comes after the
return of all that its operation depends on; each operation is applied at most once, and exactly
once when `run` has returned; only then is nothing possible; and no run goes on for ever. -/
theorem driver_sound [Inhabited R] (hops : WellFormed ops) {mode : String} {concurrency : Int}
    {ratePerS : Option ℚ} {M} (hrun : run ops mode concurrency ratePerS R = .ok M) :
    (∀ c, M.Reachable c →
      (∀ l₁ l₂ op, op ∈ ops → c.log = l₁ ++ .started op.opId :: l₂ →
        ∀ d ∈ op.dependsOn, .returned d ∈ l₁) ∧
      (∀ op ∈ ops, c.log.count (.started op.opId) ≤ 1 ∧ c.log.count (.returned op.opId) ≤ 1) ∧
      (M.Stuck c → ∃ results, c.main = .returned results) ∧
      (∀ results, c.main = .returned results → ∀ op ∈ ops,
        c.log.count (.started op.opId) = 1 ∧ c.log.count (.returned op.opId) = 1)) ∧
    (∃ bound, ∀ as c, M.run as = some c → as.length ≤ bound) ∧
    ∀ as c, M.run as = some c →
      ∃ bs c' results, M.run (as ++ bs) = some c' ∧ c'.main = .returned results := by
  obtain ⟨mode, -, rfl⟩ : ∃ m, loopMode mode ratePerS = .ok m ∧
      driver ops m R (maxWorkers concurrency) = M := by
    unfold run at hrun
    cases hmode : loopMode mode ratePerS with
    | error e =>
        rw [hmode] at hrun
        cases hrun
    | ok m =>
        rw [hmode] at hrun
        exact ⟨m, rfl, Except.ok.inj hrun⟩
  have hpos : 0 < maxWorkers concurrency := by
    unfold maxWorkers
    omega
  have hstep : ∀ (c : Config Id Region R (maxWorkers concurrency)) a c', Inv ops c →
      (driver ops mode R _).step c a = some c' → Inv ops c' ∧ c'.cost ops < c.cost ops :=
    fun c a c' hinv h =>
      ⟨hinv.steps hops (driver_steps h), cost_lt hinv.issued (driver_steps h)⟩
  refine ⟨fun c hc => ?_, ?_, ?_⟩
  · have hinv := Inv.reachable hops hc
    refine ⟨hinv.logged.ordered, ?_, hinv.returned_of_stuck hpos, ?_⟩
    · intro op _
      have hcount := List.nodup_iff_count_le_one.mp hinv.logged.nodup
      exact ⟨hcount _, hcount _⟩
    · intro results hres op hop
      obtain ⟨k, hk⟩ := List.getElem?_of_mem hop
      have hset := hinv.finished results hres k (List.getElem?_eq_some_iff.mp hk).1
      obtain ⟨hstarted, hreturned, -⟩ := hinv.logged.done k hset op hk
      exact ⟨List.count_eq_one_of_mem hinv.logged.nodup hstarted,
        List.count_eq_one_of_mem hinv.logged.nodup hreturned⟩
  · refine ⟨(driver ops mode R (maxWorkers concurrency)).init.cost ops, fun as c has => ?_⟩
    have hlen := Schedule.length_le Inv.init hstep has
    exact (Nat.le_add_right _ _).trans hlen
  · intro as c has
    obtain ⟨bs, c', hbs, results, hres⟩ := Schedule.finishes Inv.init hstep
      (fun c hinv => hinv.returned_of_stuck hpos) has
    exact ⟨bs, c', results, hbs, hres⟩

/-- Two writes of a key, the second after the first. -/
def chainTrace : List (Op Nat Unit) := [⟨0, "k0", "v0", (), 1, []⟩, ⟨1, "k0", "v1", (), 2, [0]⟩]

theorem chainTrace_wellFormed : WellFormed chainTrace where
  ids_nodup := by decide
  backward i op hop d hd := by
    match i with
    | 0 =>
        cases hop
        cases hd
    | 1 =>
        cases hop
        exact ⟨0, _, by decide, rfl, (List.mem_singleton.mp hd).symm⟩

/-- A single worker is enough, although it blocks. -/
theorem driver_sound_chain :
    ∃ M, run chainTrace "closed" 1 none Bool = .ok M ∧
      ∀ c, M.Reachable c → M.Stuck c → ∃ results, c.main = .returned results := by
  have hrun : run chainTrace "closed" 1 none Bool =
      .ok (driver chainTrace .closedLoop Bool (maxWorkers 1)) := rfl
  exact ⟨_, hrun, fun c hc => ((driver_sound chainTrace_wellFormed hrun).1 c hc).2.2.1⟩

end HorizonProtocol.Benchmark
