import HorizonProtocol.Benchmark.DriverProgress
import HorizonProtocol.Benchmark.Harness
import HorizonProtocol.Benchmark.VerifyOrder

/-!
# Runs of the harness

What `driver.run` returns over an adapter, and `verify_order.py` of it.

* `harness_sound` — the numbers are a count that respects all dependencies, whatever the calls do
  besides; and when no call waits for another, every schedule comes to an end.
-/

namespace HorizonProtocol.Benchmark

variable {Region S L Answer : Type} {n : Nat}
variable {P : OpResult → Prop} {counted : List Nat} {d : Nat}

/-! ## The commit order -/

/-- `{r.op_id: r for r in results}`, and what the checker reads of a result. -/
def commits (rs : List OpResult) (d : Nat) : Option Commit :=
  (Dict.get? (Dict.ofPairs (rs.map fun r => (r.opId, r))) d).map fun r =>
    ⟨r.accepted, r.commitSeq.map Int.ofNat⟩

section Commits

variable {ops : List (Op Nat Region)} {rs : List OpResult}

/-- The results are in the order of the trace. -/
theorem opIds_eq (h : List.Forall₂ (fun op r => Reports P counted op.opId r) ops rs) :
    rs.map OpResult.opId = ops.map Op.opId := by
  induction h with
  | nil => rfl
  | cons hr _ ih => rw [List.map_cons, List.map_cons, hr.opId, ih]

theorem reports_of_mem (h : List.Forall₂ (fun op r => Reports P counted op.opId r) ops rs)
    {r : OpResult} (hr : r ∈ rs) : Reports P counted r.opId r := by
  induction h with
  | nil => cases hr
  | cons hhead _ ih =>
      rcases List.mem_cons.mp hr with rfl | hr
      · rw [hhead.opId]
        exact hhead
      · exact ih hr

theorem commits_eq_some (hops : WellFormed ops)
    (h : List.Forall₂ (fun op r => Reports P counted op.opId r) ops rs) {c : Commit} :
    commits rs d = some c ↔
      ∃ r ∈ rs, r.opId = d ∧ c = ⟨r.accepted, r.commitSeq.map Int.ofNat⟩ := by
  have hkeys : ((rs.map fun r => (r.opId, r)).map Prod.fst).Nodup := by
    rw [List.map_map]
    show (rs.map OpResult.opId).Nodup
    rw [opIds_eq h]
    exact hops.ids_nodup
  rw [commits, Dict.ofPairs_of_nodup hkeys, Option.map_eq_some_iff]
  simp only [Dict.get?_eq_some hkeys, List.mem_map, Prod.mk.injEq]
  constructor
  · rintro ⟨r, ⟨r', hr', rfl, rfl⟩, rfl⟩
    exact ⟨r', hr', rfl, rfl⟩
  · rintro ⟨r, hr, rfl, rfl⟩
    exact ⟨r, ⟨r, hr, rfl, rfl⟩, rfl⟩

/-- **Numbers taken in the order of the calls pass the checker.** A dependency with a greater number would
have taken it after the operation that depends on it. -/
theorem verify_of_reports (hops : WellFormed ops)
    (h : List.Forall₂ (fun op r => Reports P counted op.opId r) ops rs)
    (hordered : ∀ l₁ l₂ op, op ∈ ops → counted = l₁ ++ op.opId :: l₂ →
      ∀ d ∈ op.dependsOn, d ∉ l₂) : (verify ops (commits rs)).ok = true := by
  have hresult : ∀ op ∈ ops, ∃ r ∈ rs, r.opId = op.opId := by
    intro op hop
    have hmem : op.opId ∈ rs.map OpResult.opId := by
      rw [opIds_eq h]
      exact List.mem_map_of_mem hop
    exact List.mem_map.mp hmem
  rw [verify_ok_iff]
  rintro a b ⟨op, hop, rfl, hdep⟩
  obtain ⟨i, hi⟩ := List.getElem?_of_mem hop
  obtain ⟨j, pred, hji, hj, rfl⟩ := hops.backward i op hi a hdep
  obtain ⟨r, hr, hrid⟩ := hresult op hop
  obtain ⟨r', hr', hrid'⟩ := hresult pred (List.mem_of_getElem? hj)
  have hc := (commits_eq_some hops h).mpr ⟨r, hr, hrid, rfl⟩
  have hc' := (commits_eq_some hops h).mpr ⟨r', hr', hrid', rfl⟩
  refine ⟨⟨_, hc⟩, ⟨_, hc'⟩, ?_⟩
  rintro ⟨s', hs'⟩ ⟨s, hs⟩
  have hrep := reports_of_mem h hr
  have hrep' := reports_of_mem h hr'
  rw [hc, Option.some.injEq, Commit.mk.injEq, hrep.accepted] at hs
  rw [hc', Option.some.injEq, Commit.mk.injEq, hrep'.accepted] at hs'
  obtain ⟨k, hk⟩ := Option.isSome_iff_exists.mp hs.1
  obtain ⟨k', hk'⟩ := Option.isSome_iff_exists.mp hs'.1
  have hat := hrep.number
  have hat' := hrep'.number
  rw [hk, hrid] at hat
  rw [hk', hrid'] at hat'
  refine ⟨k', k, ?_, ?_, ?_⟩
  · rw [CommittedAt, hc', hrep'.accepted, hk']
    rfl
  · rw [CommittedAt, hc, hrep.accepted, hk]
    rfl
  -- the dependency is not among those that took a number after the operation
  · obtain ⟨hlt, hget⟩ := List.getElem?_eq_some_iff.mp hat
    have hsplit : counted = counted.take k ++ op.opId :: counted.drop (k + 1) := by
      rw [← hget, List.getElem_cons_drop, List.take_append_drop]
    have hnot := hordered _ _ op hop hsplit pred.opId hdep
    rw [Nat.cast_lt]
    by_contra! hle
    rcases hle.lt_or_eq with hlt' | rfl
    · apply hnot
      apply List.mem_of_getElem?
      rw [List.getElem?_drop, show k + 1 + (k' - (k + 1)) = k' by omega]
      exact hat'
    -- nor does it share its number, being another operation
    · have hid : op.opId = pred.opId := Option.some.inj (hat.symm.trans hat')
      have hidx := hops.index_unique hi hj hid
      omega

/-- **The numbers of what was accepted are a count**, without gaps and each given once. A number is the
place of its operation among those that took one, and of each of these there is a result. -/
theorem numbers_perm (hops : WellFormed ops)
    (h : List.Forall₂ (fun op r => Reports P counted op.opId r) ops rs) (hnodup : counted.Nodup)
    (hcounted : ∀ d ∈ counted, d ∈ ops.map Op.opId) :
    (rs.filterMap OpResult.commitSeq).Perm (List.range (rs.countP OpResult.accepted)) := by
  have hat : ∀ r ∈ rs, ∀ k, r.commitSeq = some k → counted[k]? = some r.opId := by
    intro r hr k hk
    have hnum := (reports_of_mem h hr).number
    rwa [hk] at hnum
  have hids : rs.Pairwise fun r r' => r.opId ≠ r'.opId := by
    rw [← List.pairwise_map, opIds_eq h]
    exact hops.ids_nodup
  have hperm : (rs.filterMap OpResult.commitSeq).Perm (List.range counted.length) := by
    rw [List.perm_ext_iff_of_nodup _ List.nodup_range]
    · intro k
      rw [List.mem_filterMap, List.mem_range]
      constructor
      · rintro ⟨r, hr, hk⟩
        exact Log.lt_length_of_getElem? (hat r hr k hk)
      · intro hk
        have hmem := hcounted _ (List.getElem_mem hk)
        rw [← opIds_eq h] at hmem
        obtain ⟨r, hr, hid⟩ := List.mem_map.mp hmem
        refine ⟨r, hr, ?_⟩
        have hnum := (reports_of_mem h hr).number
        cases hseq : r.commitSeq with
        | none =>
            rw [hseq, hid] at hnum
            exact absurd (List.getElem_mem hk) hnum
        | some k' =>
            obtain ⟨hk', hget⟩ := List.getElem?_eq_some_iff.mp (hat r hr k' hseq)
            rw [hid, hnodup.getElem_inj_iff] at hget
            rw [hget]
    · rw [List.Nodup, List.pairwise_filterMap]
      refine hids.imp_of_mem fun {r r'} hr hr' hne k hk k' hk' heq => hne ?_
      subst heq
      exact Option.some.inj ((hat r hr k hk).symm.trans (hat r' hr' k hk'))
  have hlen : (rs.filterMap OpResult.commitSeq).length = rs.countP OpResult.accepted := by
    rw [List.length_filterMap_eq_countP]
    refine List.countP_congr fun r hr => ?_
    rw [(reports_of_mem h hr).accepted]
  rw [← hlen, hperm.length_eq, List.length_range]
  exact hperm

end Commits

/-! ## Progress -/

/-- No call waits for another, and none goes on for more than `bound` steps. What the system under test
answers is not the concern: only that there is an answer the call can go on from. -/
structure Adapter.Live (A : Adapter Region S L Answer) (ops : List (Op Nat Region))
    (cost : L → Nat) (bound : Nat) : Prop where
  enter op : op ∈ ops → cost (A.enter op) ≤ bound
  answers s l : ∃ a, A.step s l a ≠ none
  go {s l a s' l'} : A.step s l a = some (.go s' l') → cost l' < cost l
  count {s l a f} : A.step s l a = some (.count f) → ∀ k, cost (f k) < cost l

/-- The steps the driver and the calls take yet, at most. A step of the driver is worth a whole call and
one more, since it may begin one. -/
def Bench.cost (cost : L → Nat) (bound : Nat) (ops : List (Op Nat Region))
    (b : Bench Region S L n) : Nat :=
  b.driver.cost ops * (bound + 1) + ∑ w, (b.frames w).elim 0 cost

/-- What a sum over the workers changes by when one of them moves, without subtraction. -/
theorem sum_update (f : Fin n → Option L) (g : Option L → Nat) (w : Fin n) (x : Option L) :
    ∑ w', g (Function.update f w x w') + g (f w) = ∑ w', g (f w') + g x := by
  rw [← Finset.add_sum_erase _ _ (Finset.mem_univ w),
    ← Finset.add_sum_erase _ (fun w' => g (f w')) (Finset.mem_univ w)]
  have hrest : ∑ w' ∈ Finset.univ.erase w, g (Function.update f w x w') =
      ∑ w' ∈ Finset.univ.erase w, g (f w') := by
    apply Finset.sum_congr rfl
    intro w' hw'
    rw [Function.update_of_ne (Finset.ne_of_mem_erase hw')]
  rw [hrest, Function.update_self]
  omega

section Progress

variable {A : Adapter Region S L Answer} {opOf : L → Nat} {number? : L → Option Nat}
variable {cost : L → Nat} {bound : Nat}
variable {ops : List (Op Nat Region)} {mode : LoopMode} {b b' : Bench Region S L n}

/-- A step of the driver pays for a call. -/
theorem Bench.cost_lt_of_driver {driver : Config Nat Region OpResult n} {frames : Fin n → Option L}
    (hdriver : driver.cost ops < b.driver.cost ops)
    (hframes : ∑ w, (frames w).elim 0 cost ≤ ∑ w, (b.frames w).elim 0 cost + bound) :
    driver.cost ops * (bound + 1) + ∑ w, (frames w).elim 0 cost < b.cost cost bound ops := by
  have hmul : (driver.cost ops + 1) * (bound + 1) ≤ b.driver.cost ops * (bound + 1) :=
    Nat.mul_le_mul_right _ hdriver
  rw [Nat.succ_mul] at hmul
  unfold Bench.cost
  omega

/-- Every step of a bench is progress, of the driver or of a call. -/
theorem Bench.cost_lt (hL : A.Live ops cost bound) (hops : WellFormed ops) (h : Inv ops b.driver)
    {a : BenchAction Answer n} (hstep : b.step A ops mode a = some b') : b'.cost cost bound ops < b.cost cost bound ops := by
  cases a with
  | main early =>
      obtain ⟨driver, hdriver, rfl⟩ := Option.map_eq_some_iff.mp hstep
      exact cost_lt_of_driver (Benchmark.cost_lt h.issued (Config.mainStep_steps hdriver))
        (Nat.le_add_right _ _)
  | worker w =>
      unfold Bench.step at hstep
      dsimp only at hstep
      split at hstep
      · cases hstep
      · obtain ⟨driver, hdriver, rfl⟩ := Option.map_eq_some_iff.mp hstep
        have hcost := Benchmark.cost_lt h.issued (Config.workerStep_steps hdriver)
        split
        -- the worker calls `apply_op`
        · next job hw =>
            have hsum := sum_update b.frames (fun o => o.elim 0 cost) w (some (A.enter job.op))
            have hinv := h.steps hops (Config.workerStep_steps hdriver)
            have hle := hL.enter job.op
              (List.mem_of_getElem? (hinv.pooled.held w job (Config.holding_eq hw)).2.2)
            simp only [Option.elim_some] at hsum
            refine cost_lt_of_driver hcost ?_
            dsimp only
            omega
        · exact cost_lt_of_driver hcost (Nat.le_add_right _ _)
  | call w answer =>
      unfold Bench.step at hstep
      dsimp only at hstep
      split at hstep
      · next job l hw hl =>
          unfold Bench.callStep at hstep
          split at hstep
          · cases hstep
          · next shared l' hmove =>
              cases hstep
              have hsum := sum_update b.frames (fun o => o.elim 0 cost) w (some l')
              have hlt := hL.go hmove
              simp only [hl, Option.elim_some] at hsum
              simp only [Bench.cost]
              omega
          · next l' hmove =>
              cases hstep
              have hsum := sum_update b.frames (fun o => o.elim 0 cost) w
                (some (l' b.counted.length))
              have hlt := hL.count hmove b.counted.length
              simp only [hl, Option.elim_some] at hsum
              simp only [Bench.cost]
              omega
          · next r hmove =>
              obtain ⟨driver, hdriver, rfl⟩ := Option.map_eq_some_iff.mp hstep
              have hsum := sum_update b.frames (fun o => o.elim 0 cost) w none
              simp only [Option.elim_none] at hsum
              refine cost_lt_of_driver
                (Benchmark.cost_lt h.issued (Config.workerStep_steps hdriver)) ?_
              dsimp only
              omega
      · cases hstep

/-- While no call is over, the next step of one is possible. -/
theorem Bench.callStep_ne_none (hL : A.Live ops cost bound) {w : Fin n} {job : Job Nat Region}
    (hw : b.driver.workers w = .applying job) (l : L) : ∃ a, b.callStep A w job l a ≠ none := by
  obtain ⟨a, ha⟩ := hL.answers b.shared l
  refine ⟨a, ?_⟩
  unfold callStep
  split
  · next hmove => exact absurd hmove ha
  · exact nofun
  · exact nofun
  · unfold Config.workerStep
    rw [hw]
    exact nofun

/-- What `apply_op` returns is of no concern to a worker outside of a call. -/
theorem Config.workerStep_eq {c : Config Nat Region OpResult n} {w : Fin n} (r r' : OpResult)
    (hcall : ∀ job, c.workers w ≠ .applying job) : c.workerStep w r = c.workerStep w r' := by
  unfold Config.workerStep
  split
  · rfl
  · rfl
  · rfl
  · rfl
  · next job hw => exact absurd hw (hcall job)
  · rfl
  · rfl

/-- Only a finished run is stuck, as it is for the driver alone: its own step is possible for a worker
outside of a call, and the next one of the call for a worker in it. -/
theorem BenchInv.returned_of_stuck (hn : 0 < n) (hL : A.Live ops cost bound)
    (h : BenchInv opOf number? P ops b) (hstuck : (harness A ops mode n).Stuck b) :
    ∃ rs, b.driver.main = .returned rs := by
  have : Inhabited OpResult := ⟨⟨0, false, none, none⟩⟩
  suffices hdriver : (Benchmark.driver ops mode OpResult n).Stuck b.driver from
    h.driver.returned_of_stuck hn hdriver
  rintro (early | ⟨w, r⟩)
  · exact Option.map_eq_none_iff.mp (hstuck (.main early))
  · by_cases hcall : ∃ job, b.driver.workers w = .applying job
    · obtain ⟨job, hw⟩ := hcall
      obtain ⟨l, hl, -⟩ := h.frame w job hw
      obtain ⟨a, ha⟩ := Bench.callStep_ne_none hL hw l
      have hnone := hstuck (.call w a)
      simp only [harness, Bench.step, hw, hl] at hnone
      exact absurd hnone ha
    · have hcall' : ∀ job, b.driver.workers w ≠ .applying job := fun job hw => hcall ⟨job, hw⟩
      have hnone := hstuck (.worker w)
      simp only [harness, Bench.step] at hnone
      have hworker := Option.map_eq_none_iff.mp hnone
      rw [Config.workerStep_eq _ r hcall'] at hworker
      exact hworker

end Progress

/-! ## The harness -/

/-- `driver.run(adapter, trace, mode, concurrency, rate_per_s)`. -/
def runAdapter (A : Adapter Region S L Answer) (ops : List (Op Nat Region)) (mode : String)
    (concurrency : Int) (ratePerS : Option ℚ) :
    let n := maxWorkers concurrency
    Except DriverError (Schedule (Bench Region S L n) (BenchAction Answer n)) :=
  (loopMode mode ratePerS).map fun mode => harness A ops mode (maxWorkers concurrency)

theorem runAdapter_eq_ok {A : Adapter Region S L Answer} {ops : List (Op Nat Region)}
    {mode : String} {concurrency : Int} {ratePerS : Option ℚ} {M}
    (hrun : runAdapter A ops mode concurrency ratePerS = .ok M) :
    ∃ m, harness A ops m (maxWorkers concurrency) = M := by
  unfold runAdapter at hrun
  cases hmode : loopMode mode ratePerS with
  | error e =>
      rw [hmode] at hrun
      cases hrun
  | ok m =>
      rw [hmode] at hrun
      exact ⟨m, Except.ok.inj hrun⟩

/-- A run that answered: a result for each operation, in the order of the trace, the numbers of what
was accepted, and a commit order that passes. -/
structure CommitOrder (ops : List (Op Nat Region)) (rs : List OpResult) : Prop where
  ids : rs.map OpResult.opId = ops.map Op.opId
  accepted : ∀ r ∈ rs, r.accepted = r.commitSeq.isSome
  numbers : (rs.filterMap OpResult.commitSeq).Perm (List.range (rs.countP OpResult.accepted))
  verified : (verify ops (commits rs)).ok = true

/-- All schedules of `M` end, whatever they have done so far, in a run that answered. -/
structure Finishes {A : Type} (M : Schedule (Bench Region S L n) A)
    (Answered : List OpResult → Prop) : Prop where
  bounded : ∃ bound, ∀ as b, M.run as = some b → as.length ≤ bound
  ends : ∀ as b, M.run as = some b →
    ∃ bs b' rs, M.run (as ++ bs) = some b' ∧ b'.driver.main = .returned rs
  answered : ∀ b, M.Reachable b → ∀ rs, b.driver.main = .returned rs → Answered rs

theorem Finishes.mono {A : Type} {M : Schedule (Bench Region S L n) A}
    {P Q : List OpResult → Prop} (h : Finishes M P) (hPQ : ∀ rs, P rs → Q rs) : Finishes M Q :=
  ⟨h.bounded, h.ends, fun b hb rs hrs => hPQ rs (h.answered b hb rs hrs)⟩

/-- **The harness orders what its adapter commits, and always answers.** The calls share a counter,
and do what they like before and after they take a number of it. -/
theorem harness_sound {A : Adapter Region S L Answer} {opOf : L → Nat} {number? : L → Option Nat}
    {ops : List (Op Nat Region)} {cost : L → Nat} {bound : Nat} (hA : A.Counts opOf number? P)
    (hL : A.Live ops cost bound) (hops : WellFormed ops) {mode : String} {concurrency : Int}
    {ratePerS : Option ℚ} {M} (hrun : runAdapter A ops mode concurrency ratePerS = .ok M) :
    Finishes M fun rs => CommitOrder ops rs ∧ ∀ r ∈ rs, P r := by
  obtain ⟨mode, rfl⟩ := runAdapter_eq_ok hrun
  have hpos : 0 < maxWorkers concurrency := by
    unfold maxWorkers
    omega
  -- a step keeps the invariant and is progress; the rules of schedules do the rest
  have hstep : ∀ (b : Bench Region S L (maxWorkers concurrency)) a b',
      BenchInv opOf number? P ops b → (harness A ops mode _).step b a = some b' →
      BenchInv opOf number? P ops b' ∧ b'.cost cost bound ops < b.cost cost bound ops :=
    fun b a b' hinv h => ⟨hinv.step hA hops h, Bench.cost_lt hL hops hinv.driver h⟩
  refine ⟨⟨(harness A ops mode (maxWorkers concurrency)).init.cost cost bound ops,
    fun as b has => ?_⟩, fun as b has => ?_, fun b hb rs hrs => ?_⟩
  · exact (Nat.le_add_right _ _).trans (Schedule.length_le BenchInv.init hstep has)
  · obtain ⟨bs, b', hbs, rs, hrs⟩ := Schedule.finishes BenchInv.init hstep
      (fun b hinv => hinv.returned_of_stuck hpos hL) has
    exact ⟨bs, b', rs, hbs, hrs⟩
  · have hinv := BenchInv.reachable hA hops hb
    have hreports := hinv.answers rs hrs
    refine ⟨⟨opIds_eq hreports, fun r hr => (reports_of_mem hreports hr).accepted, ?_, ?_⟩,
      fun r hr => (reports_of_mem hreports hr).holds⟩
    · exact numbers_perm hops hreports hinv.nodup fun d hd => (hinv.called d hd).2
    · exact verify_of_reports hops hreports hinv.ordered

end HorizonProtocol.Benchmark
