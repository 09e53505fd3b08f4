import HorizonProtocol.Benchmark.HarnessRuns

/-!
# The adapters of the harness

`adapters/baseline_adapter.py` and `adapters/sql_common.py`, as threads run them. A critical section
of a lock is one step, and what a database answers to a statement is any answer at all. What `apply_op`
does not guard succeeds: the connection of a thread opens, and a ROLLBACK after an error goes through.
Where one of them raises, `f.result()` raises it again and the run has no results.

* `baseline_total_order` — the baseline commits everything, in a total order that respects the
  dependencies.
* `sql_order` — the order an SQL adapter reports respects them whatever the database does.
-/

namespace HorizonProtocol.Benchmark

variable {Region : Type}

/-! ## The total-order baseline -/

inductive BaselineFrame where
  | entered (opId : Nat)
  | counted (opId seq : Nat)

/-- `TotalOrderBaselineAdapter`. -/
def totalOrderBaseline : Adapter Region Unit BaselineFrame Unit where
  setup := ()
  enter op := .entered op.opId
  step _ frame _ :=
    match frame with
    | .entered d => some (.count (.counted d))
    | .counted d seq => some (.ret ⟨d, true, some seq, none⟩)

namespace BaselineFrame

def opId : BaselineFrame → Nat
  | entered d | counted d _ => d

def number? : BaselineFrame → Option Nat
  | entered _ => none
  | counted _ seq => some seq

def cost : BaselineFrame → Nat
  | entered _ => 1
  | counted _ _ => 0

end BaselineFrame

theorem totalOrderBaseline_counts :
    (totalOrderBaseline : Adapter Region _ _ _).Counts BaselineFrame.opId BaselineFrame.number?
      fun r => r.accepted = true where
  enter op := ⟨rfl, rfl⟩
  go {s l a s' l'} h := by cases l <;> cases h
  count {s l a f} h := by
    cases l with
    | entered d =>
        cases h
        exact ⟨rfl, fun _ => ⟨rfl, rfl⟩⟩
    | counted d seq => cases h
  ret {s l a r} h := by
    cases l with
    | entered d => cases h
    | counted d seq =>
        cases h
        exact ⟨rfl, rfl, rfl, rfl⟩

theorem totalOrderBaseline_live {ops : List (Op Nat Region)} :
    totalOrderBaseline.Live ops BaselineFrame.cost 1 where
  enter op _ := le_rfl
  answers s l := by
    refine ⟨(), ?_⟩
    cases l <;> exact Option.some_ne_none _
  go {s l a s' l'} h := by cases l <;> cases h
  count {s l a f} h k := by
    cases l with
    | entered d =>
        cases h
        exact Nat.zero_lt_one
    | counted d seq => cases h

/-- **The baseline serializes everything.** However the threads are scheduled, the run ends, every
operation is accepted, the commit numbers are `0` to `n - 1`, each once, and the order they give
respects every dependency. -/
theorem baseline_total_order {ops : List (Op Nat Region)} (hops : WellFormed ops) {mode : String}
    {concurrency : Int} {ratePerS : Option ℚ} {M}
    (hrun : runAdapter totalOrderBaseline ops mode concurrency ratePerS = .ok M) :
    Finishes M fun rs =>
      rs.map OpResult.opId = ops.map Op.opId ∧ (∀ r ∈ rs, r.accepted = true) ∧
      (rs.filterMap OpResult.commitSeq).Perm (List.range ops.length) ∧
      (verify ops (commits rs)).ok = true := by
  have hsound := harness_sound totalOrderBaseline_counts totalOrderBaseline_live hops hrun
  refine { hsound with answered := fun b hb rs hrs => ?_ }
  obtain ⟨horder, hall⟩ := hsound.answered b hb rs hrs
  refine ⟨horder.ids, hall, ?_, horder.verified⟩
  have hlen : rs.countP OpResult.accepted = ops.length := by
    rw [List.countP_eq_length.mpr hall, ← List.length_map OpResult.opId, horder.ids,
      List.length_map]
  rw [← hlen]
  exact horder.numbers

theorem baseline_total_order_chain :
    ∃ M, runAdapter totalOrderBaseline chainTrace "closed" 8 none = .ok M ∧
      Finishes M fun rs => rs.map OpResult.opId = chainTrace.map Op.opId ∧
        (∀ r ∈ rs, r.accepted = true) ∧
        (rs.filterMap OpResult.commitSeq).Perm (List.range chainTrace.length) ∧
        (verify chainTrace (commits rs)).ok = true := by
  have hrun : runAdapter totalOrderBaseline chainTrace "closed" 8 none =
      .ok (harness totalOrderBaseline chainTrace .closedLoop (maxWorkers 8)) := rfl
  exact ⟨_, hrun, baseline_total_order chainTrace_wellFormed hrun⟩

/-! ## SQL databases -/

/-- What a database answers a statement, or the call that sends it raises. -/
inductive SqlAnswer where
  | done
  | row (found : Bool)
  | raised (exc : String)

inductive SqlFrame where
  /-- Before `_CHECK_DEP_SQL` of its first dependency. -/
  | checking (op : Nat) (depId : Nat)
  /-- Before `_INSERT_SQL`. -/
  | inserting (op : Nat)
  /-- Before `conn.commit()`. -/
  | committing (op : Nat)
  /-- Before `conn.rollback()`, of an operation whose dependency is not there. -/
  | refusing (op : Nat)
  /-- Before `conn.rollback()`, of an operation that has raised. -/
  | rollingBack (op : Nat) (reason : String)
  /-- Before `next(self._seq)`, which a lock guards. -/
  | committed (op : Nat)
  | counted (op seq : Nat)

/-- `PostgresWireAdapter`, on the connection of its thread. The ROLLBACK of the `except` branch has no
branch for an error of its own. -/
def postgresWire : Adapter Region Unit SqlFrame SqlAnswer where
  setup := ()
  enter op :=
    match op.dependsOn with
    | [] => .inserting op.opId
    | depId :: _ => .checking op.opId depId
  step _ frame answer :=
    match frame, answer with
    | .checking d _, .row true => some (.go () (.inserting d))
    | .checking d _, .row false => some (.go () (.refusing d))
    | .refusing d, .done => some (.ret ⟨d, false, none, some "unknown_predecessor"⟩)
    | .inserting d, .done => some (.go () (.committing d))
    | .committing d, .done => some (.go () (.committed d))
    | .checking d _, .raised exc | .refusing d, .raised exc | .inserting d, .raised exc
    | .committing d, .raised exc => some (.go () (.rollingBack d ("sql_error:" ++ exc)))
    | .rollingBack d reason, .done => some (.ret ⟨d, false, none, some reason⟩)
    | .committed d, .done => some (.count (.counted d))
    | .counted d seq, .done => some (.ret ⟨d, true, some seq, none⟩)
    | _, _ => none

namespace SqlFrame

def opId : SqlFrame → Nat
  | checking d _ | inserting d | committing d | refusing d | rollingBack d _ | committed d
  | counted d _ => d

def number? : SqlFrame → Option Nat
  | counted _ seq => some seq
  | _ => none

def cost : SqlFrame → Nat
  | checking _ _ => 4
  | inserting _ => 3
  | committing _ => 2
  | refusing _ | committed _ => 1
  | rollingBack _ _ | counted _ _ => 0

end SqlFrame

/-- A result gives a reason exactly when it reports a refusal. -/
def OpResult.Reasoned (r : OpResult) : Prop := r.rejectedReason.isSome = !r.accepted

theorem postgresWire_counts :
    (postgresWire : Adapter Region _ _ _).Counts SqlFrame.opId SqlFrame.number?
      OpResult.Reasoned where
  enter op := by
    simp only [postgresWire]
    cases op.dependsOn <;> exact ⟨rfl, rfl⟩
  go {s l a s' l'} h := by
    unfold postgresWire at h
    dsimp only at h
    split at h <;> cases h <;> exact ⟨rfl, rfl⟩
  count {s l a f} h := by
    unfold postgresWire at h
    dsimp only at h
    split at h <;> cases h
    exact ⟨rfl, fun _ => ⟨rfl, rfl⟩⟩
  ret {s l a r} h := by
    unfold postgresWire at h
    dsimp only at h
    split at h <;> cases h <;> exact ⟨rfl, rfl, rfl, rfl⟩

theorem postgresWire_live {ops : List (Op Nat Region)} :
    postgresWire.Live ops SqlFrame.cost 4 where
  enter op _ := by
    simp only [postgresWire]
    cases op.dependsOn <;> simp [SqlFrame.cost]
  answers s l := by
    cases l with
    | checking d depId => exact ⟨.row true, Option.some_ne_none _⟩
    | inserting | committing | refusing | rollingBack | committed | counted =>
        exact ⟨.done, Option.some_ne_none _⟩
  go {s l a s' l'} h := by
    unfold postgresWire at h
    dsimp only at h
    split at h <;> cases h <;> simp [SqlFrame.cost]
  count {s l a f} h k := by
    unfold postgresWire at h
    dsimp only at h
    split at h <;> cases h
    exact Nat.zero_lt_one

/-- **A number after the commit is enough.** Whatever the database answers to each statement of each
thread (a ROLLBACK after an error goes through), and however the threads are scheduled: the run ends,
what is accepted is numbered without gaps, what is refused has no number and a reason, and the order
passes the checker. -/
theorem sql_order {ops : List (Op Nat Region)} (hops : WellFormed ops) {mode : String}
    {concurrency : Int} {ratePerS : Option ℚ} {M}
    (hrun : runAdapter postgresWire ops mode concurrency ratePerS = .ok M) :
    Finishes M fun rs => CommitOrder ops rs ∧ ∀ r ∈ rs, r.Reasoned :=
  harness_sound postgresWire_counts postgresWire_live hops hrun

theorem sql_order_chain :
    ∃ M, runAdapter postgresWire chainTrace "open" 2 (some 5) = .ok M ∧
      Finishes M fun rs => CommitOrder chainTrace rs ∧ ∀ r ∈ rs, r.Reasoned := by
  have hrun : runAdapter postgresWire chainTrace "open" 2 (some 5) =
      .ok (harness postgresWire chainTrace .openLoop (maxWorkers 2)) := rfl
  exact ⟨_, hrun, sql_order chainTrace_wellFormed hrun⟩

end HorizonProtocol.Benchmark
