import HorizonProtocol.Benchmark.Driver
import Mathlib.Data.List.Indexes
import Mathlib.Data.List.Count

/-!
# Runs of the load driver

Three invariants carry the argument, and each has a lemma for the steps that change it. Together they
hold in all that a run reaches.

* `Issued` — which tasks are submitted, and which of them are in the queue. It needs no other.
* `Pooled` — every task taken up is settled or in exactly one worker. So no operation is applied twice,
  and a drained pool has settled all. It needs `Issued`, for the next task of the queue.
* `Logged` — what the adapter has seen of each task, and that a call comes after what it depends on. It
  needs both: an operation that no worker is in has not been called.
* `Inv.reachable` — the three of them along every run.
-/

namespace HorizonProtocol.Benchmark

variable {Id Region R : Type} {n : Nat}
variable {ops : List (Op Id Region)} {c c' : Config Id Region R n}

/-- An id names one place of the trace, so what is known of an id is known of its task. -/
theorem WellFormed.index_unique (h : WellFormed ops) {i j : Nat} {op pred : Op Id Region}
    (hi : ops[i]? = some op) (hj : ops[j]? = some pred) (hid : op.opId = pred.opId) : i = j := by
  obtain ⟨hilt, rfl⟩ := List.getElem?_eq_some_iff.mp hi
  obtain ⟨hjlt, rfl⟩ := List.getElem?_eq_some_iff.mp hj
  have hmap := h.ids_nodup
  rw [List.nodup_iff_injective_get] at hmap
  have hi' : i < (ops.map Op.opId).length := by simpa using hilt
  have hj' : j < (ops.map Op.opId).length := by simpa using hjlt
  have hfin : (⟨i, hi'⟩ : Fin _) = ⟨j, hj'⟩ := by
    apply hmap
    simpa using hid
  exact congrArg Fin.val hfin

/-! ## Submission -/

/-- The tasks of a trace. -/
def jobs (ops : List (Op Id Region)) : List (Job Id Region) := ops.mapIdx Job.mk

/-- `futures`, when every operation is submitted. -/
def entries (ops : List (Op Id Region)) : List (Id × Nat) := ops.mapIdx fun i op => (op.opId, i)

namespace Main

/-- How many tasks are submitted. -/
def handed (total : Nat) : Main Id Region R → Nat
  | .issuing i | .sleeping i _ => i
  | .submitted i _ => i + 1
  | _ => total

/-- How many futures are in `futures`. -/
def noted (total : Nat) : Main Id Region R → Nat
  | .issuing i | .sleeping i _ | .submitted i _ => i
  | _ => total

/-- The loop is at an operation of the trace, and waits for its futures. -/
def Ok (ops : List (Op Id Region)) : Main Id Region R → Prop
  | .issuing i => i ≤ ops.length
  | .sleeping i op | .submitted i op => ops[i]? = some op
  | .collecting rest => ∀ f ∈ rest, f < ops.length
  | _ => True

theorem Ok.handed_le {m : Main Id Region R} (h : m.Ok ops) : m.handed ops.length ≤ ops.length := by
  cases m with
  | issuing i => exact h
  | sleeping i op => exact (List.getElem?_eq_some_iff.mp h).1.le
  | submitted i op => exact (List.getElem?_eq_some_iff.mp h).1
  | collecting rest | shuttingDown | returned results => exact le_rfl

/-- At most one future is not noted. -/
theorem handed_le_noted (m : Main Id Region R) (total : Nat) :
    m.handed total ≤ m.noted total + 1 := by
  cases m <;> simp [handed, noted]

end Main

/-- What is submitted, and what of it is in the queue. All three say how far the loop of `run` is; the
workers have no part in it but to shorten the queue from its front. -/
structure Issued (ops : List (Op Id Region)) (c : Config Id Region R n) : Prop where
  main : c.main.Ok ops
  /-- The queue is the end of what is submitted. -/
  queue : c.queue <:+ (jobs ops).take (c.main.handed ops.length)
  futures : c.futures = (entries ops).take (c.main.noted ops.length)

/-- How many tasks workers have taken up. -/
def Config.taken (ops : List (Op Id Region)) (c : Config Id Region R n) : Nat :=
  c.main.handed ops.length - c.queue.length

theorem jobs_getElem? (i : Nat) : (jobs ops)[i]? = ops[i]?.map (Job.mk i) := by
  simp [jobs, List.getElem?_mapIdx]

theorem entries_getElem? (i : Nat) :
    (entries ops)[i]? = ops[i]?.map fun op => (op.opId, i) := by
  simp [entries, List.getElem?_mapIdx]

theorem keys_entries : (entries ops).map Prod.fst = ops.map Op.opId := by
  apply List.ext_getElem?
  intro i
  rw [List.getElem?_map, entries_getElem?, List.getElem?_map, Option.map_map]
  rfl

/-- One submission more. -/
theorem take_succ_jobs {i : Nat} {op : Op Id Region} (h : ops[i]? = some op) :
    (jobs ops).take (i + 1) = (jobs ops).take i ++ [⟨i, op⟩] := by
  rw [List.take_add_one, jobs_getElem?, h]
  rfl

theorem take_succ_entries {i : Nat} {op : Op Id Region} (h : ops[i]? = some op) :
    (entries ops).take (i + 1) = (entries ops).take i ++ [(op.opId, i)] := by
  rw [List.take_add_one, entries_getElem?, h]
  rfl

theorem length_take_jobs {i : Nat} (h : i ≤ ops.length) : ((jobs ops).take i).length = i := by
  rw [List.length_take, jobs, List.length_mapIdx, Nat.min_eq_left h]

/-- The futures that are noted when the loop is at `i` are those of the operations before. -/
theorem mem_take_entries {i k : Nat} {d : Id} :
    (d, k) ∈ (entries ops).take i ↔ k < i ∧ ∃ op, ops[k]? = some op ∧ op.opId = d := by
  constructor
  · intro h
    obtain ⟨j, hj, hget⟩ := List.mem_take_iff_getElem.mp h
    have hent := List.getElem?_eq_some_iff.mpr ⟨_, hget⟩
    rw [entries_getElem?, Option.map_eq_some_iff] at hent
    obtain ⟨op, hop, heq⟩ := hent
    cases heq
    exact ⟨by omega, op, hop, rfl⟩
  · rintro ⟨hlt, op, hop, rfl⟩
    apply List.mem_of_getElem?
    rw [List.getElem?_take_of_lt hlt, entries_getElem?, hop]
    rfl

/-! ### What a step does to it -/

namespace Issued

theorem init : Issued ops ({} : Config Id Region R n) where
  main := Nat.zero_le _
  queue := List.nil_suffix
  futures := rfl

/-- So `taken` loses nothing to the subtraction. -/
theorem length_queue_le (h : Issued ops c) : c.queue.length ≤ c.main.handed ops.length := by
  rw [← length_take_jobs h.main.handed_le]
  exact h.queue.length_le

/-- The first task of the queue is the next one. -/
theorem head (h : Issued ops c) {job : Job Id Region} {queue : List (Job Id Region)}
    (hqueue : c.queue = job :: queue) :
    job.future = c.taken ops ∧ ops[job.future]? = some job.op := by
  -- what is before the queue is what has been taken up
  obtain ⟨pre, hpre⟩ := h.queue
  have hlen := congrArg List.length hpre
  rw [length_take_jobs h.main.handed_le, List.length_append] at hlen
  have htaken : c.taken ops = pre.length := by
    unfold Config.taken
    omega
  rw [hqueue] at hpre
  have hget : ((jobs ops).take (c.main.handed ops.length))[pre.length]? = some job := by
    rw [← hpre, List.getElem?_append_right le_rfl, Nat.sub_self]
    rfl
  rw [List.getElem?_take_of_lt (by rw [hqueue, List.length_cons] at hlen; omega), jobs_getElem?,
    Option.map_eq_some_iff] at hget
  obtain ⟨op, hop, rfl⟩ := hget
  exact ⟨htaken.symm, hop⟩

variable [DecidableEq Id]

/-- An id is noted once: its place in `futures` is new, and at the end. -/
theorem record (hops : WellFormed ops) (h : Issued ops c) {i : Nat} {op : Op Id Region}
    (hmain : c.main = .submitted i op) :
    Dict.set c.futures op.opId i = (entries ops).take (i + 1) := by
  have hop : ops[i]? = some op := by
    have hok := h.main
    rw [hmain] at hok
    exact hok
  have hfutures := h.futures
  rw [hmain] at hfutures
  rw [take_succ_entries hop, hfutures]
  apply Dict.set_of_notMem
  intro hmem
  obtain ⟨⟨d, k⟩, hent, rfl⟩ := List.mem_map.mp hmem
  obtain ⟨hlt, pred, hpred, hid⟩ := mem_take_entries.mp hent
  exact absurd (hops.index_unique hpred hop hid) hlt.ne

/-- The loop goes on by one, or a worker takes the first task of the queue; nothing else has a part
in it. -/
theorem steps (hops : WellFormed ops) (h : Issued ops c) (hstep : c.Steps ops c') :
    Issued ops c' := by
  have hmain := h.main
  have hqueue := h.queue
  have hfutures := h.futures
  cases hstep with
  | @early i op hat hop =>
      rw [hat] at hqueue hfutures
      exact ⟨hop, hqueue, hfutures⟩
  | @submit i op hat hop =>
      have hget : ops[i]? = some op := by
        rcases hat with hat | hat
        · exact hop hat
        · rw [hat] at hmain
          exact hmain
      have hhanded : c.main.handed ops.length = i ∧ c.main.noted ops.length = i := by
        rcases hat with hat | hat <;> rw [hat] <;> exact ⟨rfl, rfl⟩
      rw [hhanded.1] at hqueue
      rw [hhanded.2] at hfutures
      refine ⟨hget, ?_, hfutures⟩
      -- queue and tasks submitted grow by the same one at the end
      show c.queue ++ [⟨i, op⟩] <:+ (jobs ops).take (i + 1)
      rw [take_succ_jobs hget]
      obtain ⟨pre, hpre⟩ := hqueue
      exact ⟨pre, by rw [← List.append_assoc, hpre]⟩
  | @record i op hat =>
      have hset := h.record hops hat
      rw [hat] at hmain hqueue
      exact ⟨(List.getElem?_eq_some_iff.mp hmain).1, hqueue, hset⟩
  | @issued i hat hdone =>
      rw [hat] at hmain hqueue hfutures
      have hi : i = ops.length := le_antisymm hmain (List.getElem?_eq_none_iff.mp hdone)
      subst hi
      -- the loop has come to its end, and waits for the futures it has noted
      refine ⟨?_, hqueue, hfutures⟩
      intro f hf
      obtain ⟨⟨d, k⟩, hent, rfl⟩ := List.mem_map.mp hf
      rw [hfutures] at hent
      exact (mem_take_entries.mp hent).1
  | @collect f rest hat =>
      rw [hat] at hmain hqueue hfutures
      exact ⟨fun g hg => hmain g (List.mem_cons_of_mem _ hg), hqueue, hfutures⟩
  | collected hat =>
      rw [hat] at hqueue hfutures
      exact ⟨trivial, hqueue, hfutures⟩
  | finish hat =>
      rw [hat] at hqueue hfutures
      exact ⟨trivial, hqueue, hfutures⟩
  | @start w job queue _ hhead =>
      rw [hhead] at hqueue
      exact ⟨hmain, (List.suffix_cons job queue).trans hqueue, hfutures⟩
  | skip | block | resume | apply | applied | store | settle => exact ⟨hmain, hqueue, hfutures⟩

end Issued

/-! ## The pool -/

/-- The task each worker is in. -/
def Config.holding (c : Config Id Region R n) (w : Fin n) : Option (Job Id Region) :=
  (c.workers w).job?

/-- Every task taken up is settled, or in exactly one worker. It speaks of the tasks that are held and
not of what the workers do with them, so that only taking up and settling a task change it. -/
structure Pooled (ops : List (Op Id Region)) (holding : Fin n → Option (Job Id Region))
    (settled : Finset Nat) (taken : Nat) : Prop where
  settled_lt : ∀ k ∈ settled, k < taken
  /-- So a task in a worker is that of its place in the trace. -/
  held : ∀ w job, holding w = some job →
    job.future < taken ∧ job.future ∉ settled ∧ ops[job.future]? = some job.op
  holder_unique : ∀ w w' job job', holding w = some job → holding w' = some job' →
    job.future = job'.future → w = w'
  covered : ∀ k < taken, k ∈ settled ∨ ∃ w job, holding w = some job ∧ job.future = k

namespace Pooled

variable {holding : Fin n → Option (Job Id Region)} {settled : Finset Nat} {taken : Nat}
variable {w : Fin n} {job : Job Id Region}

/-- Nothing is taken up before the first step. -/
theorem init : Pooled ops (fun _ : Fin n => none) ∅ 0 where
  settled_lt k hk := absurd hk (Finset.notMem_empty k)
  held w job h := by cases h
  holder_unique w w' job job' h := by cases h
  covered k hk := absurd hk (Nat.not_lt_zero k)

/-- An idle worker takes up the next task. No other worker is in it, since all theirs were taken up
before. -/
theorem take (h : Pooled ops holding settled taken) (hidle : holding w = none)
    (hnext : job.future = taken) (hop : ops[job.future]? = some job.op) :
    Pooled ops (Function.update holding w (some job)) settled (taken + 1) where
  settled_lt k hk := (h.settled_lt k hk).trans (Nat.lt_succ_self _)
  held w' job' hheld := by
    by_cases hw : w' = w
    · subst hw
      rw [Function.update_self] at hheld
      cases hheld
      refine ⟨by omega, fun hk => ?_, hop⟩
      exact absurd (h.settled_lt _ hk) (by omega)
    · rw [Function.update_of_ne hw] at hheld
      obtain ⟨hlt, hnot, hop'⟩ := h.held w' job' hheld
      exact ⟨by omega, hnot, hop'⟩
  holder_unique w₁ w₂ job₁ job₂ h₁ h₂ heq := by
    by_cases hw₁ : w₁ = w
    · by_cases hw₂ : w₂ = w
      · rw [hw₁, hw₂]
      · subst hw₁
        rw [Function.update_self] at h₁
        rw [Function.update_of_ne hw₂] at h₂
        cases h₁
        exact absurd (h.held w₂ job₂ h₂).1 (by omega)
    · rw [Function.update_of_ne hw₁] at h₁
      by_cases hw₂ : w₂ = w
      · subst hw₂
        rw [Function.update_self] at h₂
        cases h₂
        exact absurd (h.held w₁ job₁ h₁).1 (by omega)
      · rw [Function.update_of_ne hw₂] at h₂
        exact h.holder_unique w₁ w₂ job₁ job₂ h₁ h₂ heq
  covered k hk := by
    by_cases hlast : k = taken
    · exact Or.inr ⟨w, job, Function.update_self .., hnext.trans hlast.symm⟩
    · rcases h.covered k (by omega) with hset | ⟨w', job', hheld, hfut⟩
      · exact Or.inl hset
      · have hw : w' ≠ w := by
          rintro rfl
          rw [hidle] at hheld
          cases hheld
        exact Or.inr ⟨w', job', by rwa [Function.update_of_ne hw], hfut⟩

/-- A worker settles its task, which no other worker is in. -/
theorem settle (h : Pooled ops holding settled taken) (hjob : holding w = some job) :
    Pooled ops (Function.update holding w none) (insert job.future settled) taken where
  settled_lt k hk := by
    rcases Finset.mem_insert.mp hk with rfl | hk
    · exact (h.held w job hjob).1
    · exact h.settled_lt k hk
  held w' job' hheld := by
    by_cases hw : w' = w
    · subst hw
      rw [Function.update_self] at hheld
      cases hheld
    · rw [Function.update_of_ne hw] at hheld
      obtain ⟨hlt, hnot, hop⟩ := h.held w' job' hheld
      refine ⟨hlt, ?_, hop⟩
      rw [Finset.mem_insert, not_or]
      exact ⟨fun heq => hw (h.holder_unique w' w job' job hheld hjob heq), hnot⟩
  holder_unique w₁ w₂ job₁ job₂ h₁ h₂ heq := by
    by_cases hw₁ : w₁ = w
    · subst hw₁
      rw [Function.update_self] at h₁
      cases h₁
    · by_cases hw₂ : w₂ = w
      · subst hw₂
        rw [Function.update_self] at h₂
        cases h₂
      · rw [Function.update_of_ne hw₁] at h₁
        rw [Function.update_of_ne hw₂] at h₂
        exact h.holder_unique w₁ w₂ job₁ job₂ h₁ h₂ heq
  covered k hk := by
    by_cases hlast : k = job.future
    · exact Or.inl (hlast ▸ Finset.mem_insert_self _ _)
    · rcases h.covered k hk with hset | ⟨w', job', hheld, hfut⟩
      · exact Or.inl (Finset.mem_insert_of_mem hset)
      · have hw : w' ≠ w := by
          rintro rfl
          rw [hjob] at hheld
          cases hheld
          exact hlast hfut.symm
        exact Or.inr ⟨w', job', by rwa [Function.update_of_ne hw], hfut⟩

end Pooled

namespace Config

@[simp] theorem workers_setWorker (c : Config Id Region R n) (w : Fin n)
    (x : Worker Id Region R) : (c.setWorker w x).workers = Function.update c.workers w x := rfl

@[simp] theorem log_setWorker (c : Config Id Region R n) (w : Fin n) (x : Worker Id Region R) :
    (c.setWorker w x).log = c.log := rfl

@[simp] theorem results_setWorker (c : Config Id Region R n) (w : Fin n)
    (x : Worker Id Region R) : (c.setWorker w x).results = c.results := rfl

theorem holding_eq {w : Fin n} {x : Worker Id Region R} (hw : c.workers w = x) :
    c.holding w = x.job? := by
  rw [holding, hw]

/-- What holds of every worker still does, if it holds of the one that moves. -/
theorem forall_workers {P : Worker Id Region R → Prop} {w : Fin n} {x : Worker Id Region R}
    (hx : P x) (h : ∀ w', P (c.workers w')) : ∀ w', P ((c.setWorker w x).workers w') := by
  intro w'
  by_cases hw : w' = w
  · subst hw
    simpa using hx
  · simpa [hw] using h w'

/-- What some worker shows, some worker still shows, unless it was this one and it does not. -/
theorem exists_worker (f : Worker Id Region R → Option Nat) {w : Fin n} {x : Worker Id Region R}
    {k : Nat} (h : ∃ w', f (c.workers w') = some k) (hx : f (c.workers w) = some k → f x = some k) :
    ∃ w', f ((c.setWorker w x).workers w') = some k := by
  obtain ⟨w', hw'⟩ := h
  refine ⟨w', ?_⟩
  by_cases hw : w' = w
  · subst hw
    simpa using hx hw'
  · simpa [hw] using hw'

/-- The task of a worker that moves is that of the place it moves to. -/
theorem holding_setWorker (c : Config Id Region R n) (w : Fin n) (x : Worker Id Region R) :
    (c.setWorker w x).holding = Function.update c.holding w x.job? := by
  funext w'
  by_cases hw : w' = w
  · subst hw
    simp [holding]
  · simp [holding, hw]

theorem holding_setWorker_of_same {w : Fin n} {x : Worker Id Region R}
    (h : x.job? = (c.workers w).job?) : (c.setWorker w x).holding = c.holding := by
  rw [holding_setWorker, h]
  exact Function.update_eq_self w c.holding

end Config

/-- Two steps change who holds what: a worker starts on the first task of the queue, and a worker
settles its task. The steps of the loop keep the number of tasks taken up, and the other steps of a
worker keep its task. -/
theorem pooled_steps [DecidableEq Id] (hi : Issued ops c)
    (h : Pooled ops c.holding c.settled (c.taken ops)) (hstep : c.Steps ops c') :
    Pooled ops c'.holding c'.settled (c'.taken ops) := by
  have hmain := hi.main
  cases hstep with
  | early hat | record hat | collect hat | collected hat | finish hat =>
      rw [Config.taken, hat] at h
      exact h
  | @submit i op hat hop =>
      have hhanded : c.main.handed ops.length = i := by
        rcases hat with hat | hat <;> rw [hat] <;> rfl
      have htaken : (c.submit i op).taken ops = c.taken ops := by
        show i + 1 - (c.queue ++ [Job.mk i op]).length = _
        rw [Config.taken, hhanded, List.length_append, List.length_singleton]
        omega
      rw [htaken]
      exact h
  | @issued i hat hdone =>
      rw [hat] at hmain
      have hi : i = ops.length := le_antisymm hmain (List.getElem?_eq_none_iff.mp hdone)
      rw [Config.taken, hat, Main.handed, hi] at h
      exact h
  | @start w job queue hidle hhead =>
      obtain ⟨hnext, hop⟩ := hi.head hhead
      have hlen := hi.length_queue_le
      have htaken : Config.taken ops ({ c with queue }.setWorker w
          (.checking job job.op.dependsOn)) = c.taken ops + 1 := by
        show c.main.handed ops.length - queue.length = _
        rw [hhead, List.length_cons] at hlen
        rw [Config.taken, hhead, List.length_cons]
        omega
      rw [htaken, Config.holding_setWorker]
      exact h.take (by simp [Config.holding, hidle, Worker.job?]) hnext hop
  | skip hw | block hw | resume hw | apply hw | applied hw | store hw =>
      rw [Config.holding_setWorker_of_same]
      · exact h
      · show _ = (c.workers _).job?
        rw [hw]
        rfl
  | settle hw =>
      rw [Config.holding_setWorker]
      apply h.settle
      exact Config.holding_eq hw

/-! ## What the adapter has seen -/

/-- Every call in the log comes after the return of all that its operation depends on. -/
def Ordered (ops : List (Op Id Region)) (log : List (Event Id)) : Prop :=
  ∀ l₁ l₂ op, op ∈ ops → log = l₁ ++ .started op.opId :: l₂ → ∀ d ∈ op.dependsOn, .returned d ∈ l₁

/-- Only the event at the end is new to look at. -/
theorem Ordered.concat {log : List (Event Id)} {e : Event Id} (h : Ordered ops log)
    (he : ∀ op ∈ ops, e = .started op.opId → ∀ d ∈ op.dependsOn, .returned d ∈ log) :
    Ordered ops (log ++ [e]) := by
  intro l₁ l₂ op hop heq d hd
  rcases Log.concat_eq_split_iff.mp heq with ⟨rfl, hlast, -⟩ | ⟨l₂, hlog, -⟩
  · exact he op hop hlast.symm d hd
  · exact h l₁ l₂ op hop hlog d hd

namespace Worker

/-- The task whose `apply_op` the worker has called. -/
def called? : Worker Id Region R → Option Nat
  | .idle | .checking _ _ | .waiting _ _ _ => none
  | .applying job | .storing job _ | .returning job => some job.future

/-- The task whose `apply_op` has returned to the worker. -/
def answered? : Worker Id Region R → Option Nat
  | .idle | .checking _ _ | .waiting _ _ _ | .applying _ => none
  | .storing job _ | .returning job => some job.future

theorem called_of_answered {x : Worker Id Region R} {k : Nat} (h : x.answered? = some k) :
    x.called? = some k := by
  cases x <;> first | exact h | cases h

theorem job?_of_called {x : Worker Id Region R} {k : Nat} (h : x.called? = some k) :
    ∃ job, x.job? = some job ∧ job.future = k := by
  cases x with
  | idle | checking job deps | waiting job depFuture deps => cases h
  | applying job | storing job result | returning job => exact ⟨job, rfl, Option.some.inj h⟩

end Worker

variable [DecidableEq Id]

/-- What a worker has done for its task. Whatever it is not to look up any more has returned. -/
def Worker.Ok (ops : List (Op Id Region)) (log : List (Event Id)) (results : List (Id × R)) :
    Worker Id Region R → Prop
  | .idle => True
  | .checking job deps =>
      deps ⊆ job.op.dependsOn ∧ ∀ d ∈ job.op.dependsOn, d ∈ deps ∨ .returned d ∈ log
  | .waiting job depFuture deps =>
      deps ⊆ job.op.dependsOn ∧ depFuture < job.future ∧ ∃ pred, ops[depFuture]? = some pred ∧
        ∀ d ∈ job.op.dependsOn, d = pred.opId ∨ d ∈ deps ∨ .returned d ∈ log
  | .applying job => .started job.op.opId ∈ log
  | .storing job _ => .started job.op.opId ∈ log ∧ .returned job.op.opId ∈ log
  | .returning job => .started job.op.opId ∈ log ∧ .returned job.op.opId ∈ log ∧
      (Dict.get? results job.op.opId).isSome

/-- What a worker has done stays done, as the log and the results grow. -/
theorem Worker.Ok.mono {log log' : List (Event Id)} {results results' : List (Id × R)}
    {x : Worker Id Region R} (h : x.Ok ops log results) (hlog : log ⊆ log')
    (hres : ∀ d, (Dict.get? results d).isSome → (Dict.get? results' d).isSome) :
    x.Ok ops log' results' := by
  cases x with
  | idle => trivial
  | checking job deps => exact ⟨h.1, fun d hd => (h.2 d hd).imp_right (hlog ·)⟩
  | waiting job depFuture deps =>
      obtain ⟨hsub, hlt, pred, hpred, hdeps⟩ := h
      exact ⟨hsub, hlt, pred, hpred, fun d hd => (hdeps d hd).imp_right (Or.imp_right (hlog ·))⟩
  | applying job => exact hlog h
  | storing job result => exact ⟨hlog h.1, hlog h.2⟩
  | returning job => exact ⟨hlog h.1, hlog h.2.1, hres _ h.2.2⟩

/-- The log and the results tell how far each task is. `done` and `worker` say what has happened to a
task; `started` and `returned` say the converse, that nothing is in the log but for a reason, and with
`Pooled` they give that no event comes twice. -/
structure Logged (ops : List (Op Id Region)) (c : Config Id Region R n) : Prop where
  worker : ∀ w, (c.workers w).Ok ops c.log c.results
  /-- A settled task was called, has returned, and its result is stored. -/
  done : ∀ k ∈ c.settled, ∀ op, ops[k]? = some op →
    .started op.opId ∈ c.log ∧ .returned op.opId ∈ c.log ∧ (Dict.get? c.results op.opId).isSome
  started : ∀ k op, ops[k]? = some op → .started op.opId ∈ c.log →
    k ∈ c.settled ∨ ∃ w, (c.workers w).called? = some k
  returned : ∀ k op, ops[k]? = some op → .returned op.opId ∈ c.log →
    k ∈ c.settled ∨ ∃ w, (c.workers w).answered? = some k
  nodup : c.log.Nodup
  ordered : Ordered ops c.log

namespace Logged

theorem init : Logged ops ({} : Config Id Region R n) where
  worker _ := trivial
  done k hk := absurd hk (Finset.notMem_empty k)
  started k op _ h := absurd h List.not_mem_nil
  returned k op _ h := absurd h List.not_mem_nil
  nodup := List.nodup_nil
  ordered l₁ l₂ op _ heq := by simp at heq

/-- A worker moves on to a place where it has done what it is to have done. -/
theorem move (h : Logged ops c) {w : Fin n} {x : Worker Id Region R} (hx : x.Ok ops c.log c.results)
    (hcalled : (c.workers w).called? = x.called?)
    (hanswered : (c.workers w).answered? = x.answered?) : Logged ops (c.setWorker w x) where
  worker := Config.forall_workers hx h.worker
  done := h.done
  started k op hop hmem :=
    (h.started k op hop hmem).imp_right fun hw =>
      Config.exists_worker Worker.called? hw fun hk => hcalled ▸ hk
  returned k op hop hmem :=
    (h.returned k op hop hmem).imp_right fun hw =>
      Config.exists_worker Worker.answered? hw fun hk => hanswered ▸ hk
  nodup := h.nodup
  ordered := h.ordered

/-- A result that is stored takes nothing away. -/
theorem store (h : Logged ops c) (d : Id) (r : R) : Logged ops (c.store d r) where
  worker w := (h.worker w).mono (List.Subset.refl _) fun _ => Dict.isSome_get?_set
  done k hk op hop :=
    let ⟨hstarted, hreturned, hres⟩ := h.done k hk op hop
    ⟨hstarted, hreturned, Dict.isSome_get?_set hres⟩
  started := h.started
  returned := h.returned
  nodup := h.nodup
  ordered := h.ordered

variable {w : Fin n} {job : Job Id Region}

/-- An event more in the log, and the worker it comes from where it is then to be. -/
theorem worker_observe (h : Logged ops c) (e : Event Id) {x : Worker Id Region R}
    (hx : x.Ok ops (c.log ++ [e]) c.results) :
    ∀ w', (((c.observe e).setWorker w x).workers w').Ok ops (c.log ++ [e]) c.results := by
  apply Config.forall_workers hx
  intro w'
  exact (h.worker w').mono (List.subset_append_left _ _) fun _ => id

theorem done_observe (h : Logged ops c) (e : Event Id) :
    ∀ k ∈ c.settled, ∀ op, ops[k]? = some op → .started op.opId ∈ c.log ++ [e] ∧
      .returned op.opId ∈ c.log ++ [e] ∧ (Dict.get? c.results op.opId).isSome := by
  intro k hk op hop
  obtain ⟨hstarted, hreturned, hres⟩ := h.done k hk op hop
  exact ⟨List.mem_append_left _ hstarted, List.mem_append_left _ hreturned, hres⟩

/-- A task that no worker has called, and that is not settled, has not been called at all. -/
theorem not_started (hp : Pooled ops c.holding c.settled (c.taken ops)) (h : Logged ops c)
    (hjob : c.holding w = some job) (hcalled : (c.workers w).called? = none) :
    .started job.op.opId ∉ c.log := by
  intro hmem
  obtain ⟨-, hnot, hop⟩ := hp.held w job hjob
  rcases h.started _ _ hop hmem with hset | ⟨w', hw'⟩
  · exact hnot hset
  · obtain ⟨job', hjob', hfut⟩ := Worker.job?_of_called hw'
    obtain rfl := hp.holder_unique w w' job job' hjob hjob' hfut.symm
    rw [hcalled] at hw'
    cases hw'

/-- A task whose call has not returned to its worker has not returned at all. -/
theorem not_returned (hp : Pooled ops c.holding c.settled (c.taken ops)) (h : Logged ops c)
    (hjob : c.holding w = some job) (hanswered : (c.workers w).answered? = none) :
    .returned job.op.opId ∉ c.log := by
  intro hmem
  obtain ⟨-, hnot, hop⟩ := hp.held w job hjob
  rcases h.returned _ _ hop hmem with hset | ⟨w', hw'⟩
  · exact hnot hset
  · obtain ⟨job', hjob', hfut⟩ := Worker.job?_of_called (Worker.called_of_answered hw')
    obtain rfl := hp.holder_unique w w' job job' hjob hjob' hfut.symm
    rw [hanswered] at hw'
    cases hw'

/-- The call: nothing is left to look up, so all that the operation depends on has returned. It is the
first call of its task, which is in this worker and in no other. -/
theorem apply (hops : WellFormed ops) (hp : Pooled ops c.holding c.settled (c.taken ops))
    (h : Logged ops c) (hw : c.workers w = .checking job []) :
    Logged ops ((c.observe (.started job.op.opId)).setWorker w (.applying job)) := by
  have hjob : c.holding w = some job := Config.holding_eq hw
  have hcalled : (c.workers w).called? = none := by
    rw [hw]
    rfl
  have hanswered : (c.workers w).answered? = none := by
    rw [hw]
    rfl
  have hget := (hp.held w job hjob).2.2
  refine ⟨?_, ?_, ?_, ?_, ?_, ?_⟩
  · exact h.worker_observe _ (List.mem_append_right _ (List.mem_singleton_self _))
  · exact h.done_observe _
  · intro k op hop hmem
    rcases List.mem_append.mp hmem with hold | hnew
    · refine (h.started k op hop hold).imp_right fun hbusy => ?_
      exact Config.exists_worker Worker.called? hbusy fun hk => absurd (hcalled.symm.trans hk) nofun
    · obtain rfl := hops.index_unique hop hget (by simpa using hnew)
      exact Or.inr ⟨w, by simp [Worker.called?]⟩
  · intro k op hop hmem
    rcases List.mem_append.mp hmem with hold | hnew
    · refine (h.returned k op hop hold).imp_right fun hbusy => ?_
      exact Config.exists_worker Worker.answered? hbusy
        fun hk => absurd (hanswered.symm.trans hk) nofun
    · simp at hnew
  · apply List.Nodup.append h.nodup (List.nodup_singleton _)
    rw [List.disjoint_singleton]
    exact h.not_started hp hjob hcalled
  -- what the worker has looked up is all that the operation of this event depends on
  · apply h.ordered.concat
    intro op hop heq d hd
    obtain ⟨k, hk⟩ := List.getElem?_of_mem hop
    obtain rfl := hops.index_unique hk hget (by simpa using heq.symm)
    obtain rfl : job.op = op := Option.some.inj (hget.symm.trans hk)
    have hok := h.worker w
    rw [hw] at hok
    exact (hok.2 d hd).resolve_left List.not_mem_nil

/-- The return: it is not a call, so the order of the log is not touched. -/
theorem applied (hops : WellFormed ops) (hp : Pooled ops c.holding c.settled (c.taken ops))
    (h : Logged ops c) (hw : c.workers w = .applying job) (r : R) :
    Logged ops ((c.observe (.returned job.op.opId)).setWorker w (.storing job r)) := by
  have hjob : c.holding w = some job := Config.holding_eq hw
  have hcalled : (c.workers w).called? = some job.future := by
    rw [hw]
    rfl
  have hanswered : (c.workers w).answered? = none := by
    rw [hw]
    rfl
  have hget := (hp.held w job hjob).2.2
  have hok := h.worker w
  rw [hw] at hok
  refine ⟨?_, ?_, ?_, ?_, ?_, ?_⟩
  · exact h.worker_observe _
      ⟨List.mem_append_left _ hok, List.mem_append_right _ (List.mem_singleton_self _)⟩
  · exact h.done_observe _
  · intro k op hop hmem
    rcases List.mem_append.mp hmem with hold | hnew
    · refine (h.started k op hop hold).imp_right fun hbusy => ?_
      exact Config.exists_worker Worker.called? hbusy fun hk => hcalled.symm.trans hk
    · simp at hnew
  · intro k op hop hmem
    rcases List.mem_append.mp hmem with hold | hnew
    · refine (h.returned k op hop hold).imp_right fun hbusy => ?_
      exact Config.exists_worker Worker.answered? hbusy
        fun hk => absurd (hanswered.symm.trans hk) nofun
    · obtain rfl := hops.index_unique hop hget (by simpa using hnew)
      exact Or.inr ⟨w, by simp [Worker.answered?]⟩
  · apply List.Nodup.append h.nodup (List.nodup_singleton _)
    rw [List.disjoint_singleton]
    exact h.not_returned hp hjob hanswered
  · apply h.ordered.concat
    intro op _ heq
    cases heq

/-- What the worker showed of its task, the set of settled tasks shows from now on. -/
theorem settle (hp : Pooled ops c.holding c.settled (c.taken ops)) (h : Logged ops c)
    (hw : c.workers w = .returning job) :
    Logged ops ((c.settle job.future).setWorker w .idle) := by
  have hjob : c.holding w = some job := Config.holding_eq hw
  have hcalled : (c.workers w).called? = some job.future := by
    rw [hw]
    rfl
  have hanswered : (c.workers w).answered? = some job.future := by
    rw [hw]
    rfl
  have hget := (hp.held w job hjob).2.2
  have hok := h.worker w
  rw [hw] at hok
  -- the same for what a worker has called and for what has returned to it
  have hdone : ∀ (f : Worker Id Region R → Option Nat) (k : Nat),
      f (c.workers w) = some job.future → (k ∈ c.settled ∨ ∃ w', f (c.workers w') = some k) →
      k ∈ insert job.future c.settled ∨
        ∃ w', f (((c.settle job.future).setWorker w .idle).workers w') = some k := by
    intro f k hf hk
    rcases eq_or_ne k job.future with rfl | hne
    · exact Or.inl (Finset.mem_insert_self _ _)
    · refine hk.imp Finset.mem_insert_of_mem fun hbusy => ?_
      exact Config.exists_worker f hbusy
        fun hk => absurd (Option.some.inj (hk.symm.trans hf)) hne
  refine ⟨?_, ?_, ?_, ?_, h.nodup, h.ordered⟩
  · exact Config.forall_workers trivial h.worker
  · intro k hk op hop
    rcases Finset.mem_insert.mp hk with rfl | hk
    · obtain rfl : job.op = op := Option.some.inj (hget.symm.trans hop)
      exact hok
    · exact h.done k hk op hop
  · exact fun k op hop hmem => hdone Worker.called? k hcalled (h.started k op hop hmem)
  · exact fun k op hop hmem => hdone Worker.answered? k hanswered (h.returned k op hop hmem)

/-- What a task depends on is an earlier task, and its future is known by the time it is looked
up. -/
theorem known (hops : WellFormed ops) (hi : Issued ops c)
    (hp : Pooled ops c.holding c.settled (c.taken ops)) (hjob : c.holding w = some job) {d : Id}
    (hd : d ∈ job.op.dependsOn) : ∃ f pred, Dict.get? c.futures d = some f ∧ f < job.future ∧
      ops[f]? = some pred ∧ pred.opId = d := by
  obtain ⟨htaken, -, hget⟩ := hp.held w job hjob
  obtain ⟨f, pred, hlt, hpred, hid⟩ := hops.backward _ _ hget d hd
  refine ⟨f, pred, ?_, hlt, hpred, hid⟩
  -- an id is noted once, so the future found for it is the one of `pred`
  have hkeys : (c.futures.map Prod.fst).Nodup := by
    rw [hi.futures]
    apply List.Nodup.sublist _ (keys_entries ▸ hops.ids_nodup)
    exact (List.take_sublist _ _).map _
  rw [Dict.get?_eq_some hkeys, hi.futures, mem_take_entries]
  -- all but the last submitted future are noted, and `pred` is before a task that was taken up
  have hhanded := Main.handed_le_noted c.main ops.length
  have hle : c.taken ops ≤ c.main.handed ops.length := Nat.sub_le _ _
  exact ⟨by omega, pred, hpred, hid⟩

/-- Of the steps of a worker, `apply` and `applied` write to the log. The others move the worker on with
what it already has: `skip` cannot be taken, since what a task depends on is known, and `resume` has the
return of what it waited for. -/
theorem steps (hops : WellFormed ops) (hi : Issued ops c)
    (hp : Pooled ops c.holding c.settled (c.taken ops)) (h : Logged ops c)
    (hstep : c.Steps ops c') : Logged ops c' := by
  cases hstep with
  | early | submit | record | issued | collect | collected | finish =>
      exact ⟨h.worker, h.done, h.started, h.returned, h.nodup, h.ordered⟩
  | @start w job queue hw =>
      have hq : Logged ops { c with queue } :=
        ⟨h.worker, h.done, h.started, h.returned, h.nodup, h.ordered⟩
      apply hq.move
      · exact ⟨List.Subset.refl _, fun d hd => Or.inl hd⟩
      · show (c.workers w).called? = none
        rw [hw]
        rfl
      · show (c.workers w).answered? = none
        rw [hw]
        rfl
  | @skip w job dep deps hw hunknown =>
      have hjob : c.holding w = some job := Config.holding_eq hw
      have hok := h.worker w
      rw [hw] at hok
      -- the future of an earlier operation is in `futures` by then
      obtain ⟨f, pred, hknown, -⟩ := known hops hi hp hjob (hok.1 List.mem_cons_self)
      rw [hunknown] at hknown
      cases hknown
  | @block w job dep depFuture deps hw hget =>
      have hjob : c.holding w = some job := Config.holding_eq hw
      have hok := h.worker w
      rw [hw] at hok
      obtain ⟨f, pred, hknown, hlt, hpred, rfl⟩ :=
        known hops hi hp hjob (hok.1 List.mem_cons_self)
      obtain rfl : depFuture = f := Option.some.inj (hget.symm.trans hknown)
      apply h.move
      · refine ⟨List.Subset.trans (List.subset_cons_self _ _) hok.1, hlt, pred, hpred, fun d hd => ?_⟩
        simpa [or_assoc] using hok.2 d hd
      · rw [hw]
        rfl
      · rw [hw]
        rfl
  | @resume w job depFuture deps hw hsettled =>
      have hok := h.worker w
      rw [hw] at hok
      obtain ⟨hsub, -, pred, hpred, hdeps⟩ := hok
      apply h.move
      · refine ⟨hsub, fun d hd => ?_⟩
        rcases hdeps d hd with rfl | hrest
        · exact Or.inr (h.done depFuture hsettled pred hpred).2.1
        · exact hrest
      · rw [hw]
        rfl
      · rw [hw]
        rfl
  | apply hw => exact apply hops hp h hw
  | applied hw => exact applied hops hp h hw _
  | @store w job r hw =>
      have hok := h.worker w
      rw [hw] at hok
      apply (h.store job.op.opId r).move
      · refine ⟨hok.1, hok.2, ?_⟩
        show (Dict.get? (Dict.set c.results job.op.opId r) job.op.opId).isSome
        rw [Dict.get?_set, if_pos rfl]
        rfl
      · show (c.workers w).called? = _
        rw [hw]
        rfl
      · show (c.workers w).answered? = _
        rw [hw]
        rfl
  | settle hw => exact settle hp h hw

end Logged

/-! ## The invariant -/

/-- What holds in every configuration a run reaches. The last part is what `run` returns on. -/
structure Inv (ops : List (Op Id Region)) (c : Config Id Region R n) : Prop where
  issued : Issued ops c
  pooled : Pooled ops c.holding c.settled (c.taken ops)
  logged : Logged ops c
  finished : ∀ results, c.main = .returned results → ∀ k < ops.length, k ∈ c.settled

namespace Inv

theorem init : Inv ops ({} : Config Id Region R n) where
  issued := Issued.init
  pooled := Pooled.init
  logged := Logged.init
  finished results h := by cases h

/-- A drained pool has settled all that was submitted. -/
theorem settled_of_drained (h : Inv ops c) (hdrained : c.drained = true) {k : Nat}
    (hk : k < c.main.handed ops.length) : k ∈ c.settled := by
  simp only [Config.drained, Bool.and_eq_true, List.isEmpty_iff, decide_eq_true_eq,
    Option.isNone_iff_eq_none] at hdrained
  have htaken : c.taken ops = c.main.handed ops.length := by
    rw [Config.taken, hdrained.1]
    rfl
  rcases h.pooled.covered k (htaken ▸ hk) with hset | ⟨w, job, hjob, -⟩
  · exact hset
  · have hnone : c.holding w = none := hdrained.2 w
    rw [hnone] at hjob
    cases hjob

/-- Each part is kept by its own lemma, and by those before it. -/
theorem steps (hops : WellFormed ops) (h : Inv ops c) (hstep : c.Steps ops c') : Inv ops c' where
  issued := h.issued.steps hops hstep
  pooled := pooled_steps h.issued h.pooled hstep
  logged := h.logged.steps hops h.issued h.pooled hstep
  finished results hres k hk := by
    cases hstep with
    | early | submit | record | issued | collect | collected => cases hres
    | finish hat hdrained =>
        apply h.settled_of_drained hdrained
        rw [hat]
        exact hk
    | start | skip | block | resume | apply | applied | store => exact h.finished results hres k hk
    | settle => exact Finset.mem_insert_of_mem (h.finished results hres k hk)

/-- By induction on the run, whatever the order of the steps. -/
theorem reachable (hops : WellFormed ops) {mode : LoopMode}
    (h : (driver ops mode R n).Reachable c) : Inv ops c :=
  h.induction init fun _ _ _ hinv hstep => hinv.steps hops (driver_steps hstep)

end Inv

end HorizonProtocol.Benchmark
