import HorizonProtocol.Benchmark.Harness

/-!
# Proof outlines of adapters

What a call knows while other threads are in theirs. An `Outline` says what holds of the shared
state, and of it and an operation before, during and after its call; a step of one call keeps what
the calls of all other operations know. A call may rely on what its dependencies left behind, since
the driver has let them return.

* `OutlineInv.reachable` — an outline holds however the calls are interleaved.
-/

namespace HorizonProtocol.Benchmark

variable {Region S L Answer : Type} {n : Nat}

/-- A proof outline of `apply_op`. `Before`, `During` and `After` speak of one operation, so an adapter
is proved right one call at a time; `stable` is what its calls owe to each other. -/
structure Adapter.Outline (A : Adapter Region S L Answer) (ops : List (Op Nat Region))
    (Shared : S → Prop) (Before : S → Op Nat Region → Prop) (During : S → Op Nat Region → L → Prop)
    (After : S → Op Nat Region → Prop) : Prop where
  setup : Shared A.setup
  before op : op ∈ ops → Before A.setup op
  /-- The dependencies have returned by then. -/
  enter {s op} : op ∈ ops → Before s op →
    (∀ pred ∈ ops, pred.opId ∈ op.dependsOn → After s pred) → During s op (A.enter op)
  go {s op l a s' l'} : op ∈ ops → A.step s l a = some (.go s' l') → Shared s → During s op l →
    Shared s' ∧ During s' op l'
  /-- A step of one call is no concern of the others. -/
  stable {s op l a s' l' op'} : A.step s l a = some (.go s' l') → During s op l →
    op' ∈ ops → op'.opId ≠ op.opId →
    (Before s op' → Before s' op') ∧ (∀ l'', During s op' l'' → During s' op' l'') ∧
      (After s op' → After s' op')
  count {s op l a f} : A.step s l a = some (.count f) → During s op l → ∀ k, During s op (f k)
  ret {s op l a r} : A.step s l a = some (.ret r) → During s op l → After s op

/-- The outline holds of a bench: the log of the driver says where each call is, and the frame of a worker
what it knows. -/
structure OutlineInv (ops : List (Op Nat Region)) (Shared : S → Prop)
    (Before : S → Op Nat Region → Prop) (During : S → Op Nat Region → L → Prop)
    (After : S → Op Nat Region → Prop) (b : Bench Region S L n) : Prop where
  driver : Inv ops b.driver
  shared : Shared b.shared
  before : ∀ op ∈ ops, .started op.opId ∉ b.driver.log → Before b.shared op
  during : ∀ w job, b.driver.workers w = .applying job → ∃ l, b.frames w = some l ∧
    During b.shared job.op l
  after : ∀ op ∈ ops, .returned op.opId ∈ b.driver.log → After b.shared op

namespace OutlineInv

variable {A : Adapter Region S L Answer} {ops : List (Op Nat Region)} {mode : LoopMode}
variable {Shared : S → Prop} {Before : S → Op Nat Region → Prop}
variable {During : S → Op Nat Region → L → Prop} {After : S → Op Nat Region → Prop}
variable {b b' : Bench Region S L n} {w : Fin n} {job : Job Nat Region}

theorem init (hA : A.Outline ops Shared Before During After) :
    OutlineInv ops Shared Before During After { shared := A.setup : Bench Region S L n } where
  driver := Inv.init
  shared := hA.setup
  before op hop _ := hA.before op hop
  during w job h := by cases h
  after op _ h := absurd h List.not_mem_nil

/-- The operation of a worker is one of the trace. -/
theorem op_mem (h : OutlineInv ops Shared Before During After b)
    (hjob : b.driver.holding w = some job) : job.op ∈ ops :=
  List.mem_of_getElem? (h.driver.pooled.held w job hjob).2.2

/-- A step of a worker that is in no call. It may enter one; else it leaves the shared state, the frames
and the log as they are. -/
theorem worker (hA : A.Outline ops Shared Before During After) (hops : WellFormed ops)
    (h : OutlineInv ops Shared Before During After b)
    (hcall : ∀ job, b.driver.workers w ≠ .applying job) (hstep : b.workerStep A w = some b') :
    OutlineInv ops Shared Before During After b' := by
  obtain ⟨driver, hdriver, rfl⟩ := Option.map_eq_some_iff.mp hstep
  have hinv := h.driver.steps hops (Config.workerStep_steps hdriver)
  cases Config.workerStep_moves hdriver hcall with
  | @on _ x hworkers hmain hlog hresults hcalls hholds =>
      have hx : ∀ {w'}, driver.workers w' = if w' = w then x else b.driver.workers w' := by
        intro w'
        rw [hworkers, Function.update_apply]
      -- the calls of the others go on from the frames they have
      have hshared : ∀ frames, (∀ w' job, driver.workers w' = .applying job →
          frames w' = b.frames w') → OutlineInv ops Shared Before During After
            { b with driver, frames } := by
        intro frames hframes
        refine ⟨hinv, h.shared, ?_, fun w' job hw' => ?_, ?_⟩
        · rw [hlog]
          exact h.before
        · have hold := hx.symm.trans hw'
          split at hold
          · exact absurd hold (hcalls job)
          · obtain ⟨l, hl, hduring⟩ := h.during w' job hold
            exact ⟨l, (hframes w' job hw').trans hl, hduring⟩
        · rw [hlog]
          exact h.after
      split
      · next job hw =>
          rw [hx, if_pos rfl] at hw
          exact absurd hw (hcalls job)
      · exact hshared b.frames fun _ _ _ => rfl
  | @call job hw =>
      have hop := h.op_mem (Config.holding_eq hw)
      have hfresh : .started job.op.opId ∉ b.driver.log := by
        apply Logged.not_started h.driver.pooled h.driver.logged (Config.holding_eq hw)
        rw [hw]
        rfl
      have hx : ∀ w', ((b.driver.observe (.started job.op.opId)).setWorker w
          (.applying job)).workers w' = if w' = w then .applying job else b.driver.workers w' :=
        fun w' => Function.update_apply _ _ _ _
      -- the driver let the dependencies return first
      have hdeps : ∀ pred ∈ ops, pred.opId ∈ job.op.dependsOn → After b.shared pred := by
        intro pred hpred hdep
        exact h.after pred hpred (hinv.logged.ordered _ [] job.op hop rfl _ hdep)
      simp only [hx, if_true]
      refine ⟨hinv, h.shared, fun op hop' hnot => ?_, fun w' job' hw' => ?_, fun op hop' hret => ?_⟩
      · exact h.before op hop' fun hmem => hnot (List.mem_append_left _ hmem)
      -- this worker enters its call, the others stay in theirs
      · by_cases heq : w' = w
        · subst heq
          cases (if_pos rfl).symm.trans ((hx w').symm.trans hw')
          exact ⟨A.enter job.op, Function.update_self _ _ _,
            hA.enter hop (h.before job.op hop hfresh) hdeps⟩
        · obtain ⟨l, hl, hduring⟩ :=
            h.during w' job' ((if_neg heq).symm.trans ((hx w').symm.trans hw'))
          exact ⟨l, (Function.update_of_ne heq _ _).trans hl, hduring⟩
      · apply h.after op hop'
        rcases List.mem_append.mp hret with hold | hnew
        · exact hold
        · cases List.mem_singleton.mp hnew
  | @store job r hw =>
      have hx : ∀ w', ((b.driver.store job.op.opId r).setWorker w
          (.returning job)).workers w' = if w' = w then .returning job else b.driver.workers w' :=
        fun w' => Function.update_apply _ _ _ _
      simp only [hx, if_true]
      refine ⟨hinv, h.shared, h.before, fun w' job' hw' => ?_, h.after⟩
      have hold := (hx w').symm.trans hw'
      split at hold
      · cases hold
      · exact h.during w' job' hold

/-- A step of a call: it changes the shared state, takes a number, or returns. The operations that other
workers are in are not its own, since a task is in one worker. -/
theorem call (hA : A.Outline ops Shared Before During After) (hops : WellFormed ops)
    (h : OutlineInv ops Shared Before During After b)
    (hw : b.driver.workers w = .applying job) {l : L} (hl : b.frames w = some l) {answer : Answer}
    (hstep : b.callStep A w job l answer = some b') :
    OutlineInv ops Shared Before During After b' := by
  have hheld : b.driver.holding w = some job := Config.holding_eq hw
  have hop := h.op_mem hheld
  have hduring : During b.shared job.op l := by
    obtain ⟨l₀, hl₀, hduring⟩ := h.during w job hw
    rwa [Option.some.inj (hl₀.symm.trans hl)] at hduring
  have hne : ∀ w' job', b.driver.workers w' = .applying job' → w' ≠ w →
      job'.op.opId ≠ job.op.opId := by
    intro w' job' hw' hne hid
    obtain ⟨-, -, hget⟩ := h.driver.pooled.held w' job' (Config.holding_eq hw')
    obtain ⟨-, -, hget'⟩ := h.driver.pooled.held w job hheld
    exact hne (h.driver.pooled.holder_unique w' w job' job (Config.holding_eq hw') hheld
      (hops.index_unique hget hget' hid))
  have hstarted : .started job.op.opId ∈ b.driver.log := by
    have hok := h.driver.logged.worker w
    rw [hw] at hok
    exact hok
  have hnot : .returned job.op.opId ∉ b.driver.log := by
    apply Logged.not_returned h.driver.pooled h.driver.logged hheld
    rw [hw]
    rfl
  unfold Bench.callStep at hstep
  split at hstep
  · cases hstep
  -- a step on the shared state, which is no concern of the others
  · next shared l' hmove =>
      cases hstep
      obtain ⟨hshared, hduring'⟩ := hA.go hop hmove h.shared hduring
      refine ⟨h.driver, hshared, fun op hop' hfresh => ?_, fun w' job' hw' => ?_,
        fun op hop' hret => ?_⟩
      · refine (hA.stable hmove hduring hop' ?_).1 (h.before op hop' hfresh)
        rintro heq
        exact hfresh (heq ▸ hstarted)
      · by_cases heq : w' = w
        · subst heq
          cases hw.symm.trans hw'
          exact ⟨l', Function.update_self _ _ _, hduring'⟩
        · obtain ⟨l'', hl'', hduring''⟩ := h.during w' job' hw'
          have hop' := h.op_mem (Config.holding_eq hw')
          exact ⟨l'', (Function.update_of_ne heq _ _).trans hl'',
            (hA.stable hmove hduring hop' (hne w' job' hw' heq)).2.1 l'' hduring''⟩
      · refine (hA.stable hmove hduring hop' ?_).2.2 (h.after op hop' hret)
        rintro heq
        exact hnot (heq ▸ hret)
  -- a number from the counter
  · next l' hmove =>
      cases hstep
      refine ⟨h.driver, h.shared, h.before, fun w' job' hw' => ?_, h.after⟩
      by_cases heq : w' = w
      · subst heq
        cases hw.symm.trans hw'
        exact ⟨_, Function.update_self _ _ _, hA.count hmove hduring _⟩
      · obtain ⟨l'', hl'', hduring''⟩ := h.during w' job' hw'
        exact ⟨l'', (Function.update_of_ne heq _ _).trans hl'', hduring''⟩
  -- the return, which the log now shows
  · next r hmove =>
      obtain ⟨driver, hdriver, rfl⟩ := Option.map_eq_some_iff.mp hstep
      have hinv := h.driver.steps hops (Config.workerStep_steps hdriver)
      have hafter := hA.ret hmove hduring
      unfold Config.workerStep at hdriver
      rw [hw] at hdriver
      cases hdriver
      have hx : ∀ w', ((b.driver.observe (.returned job.op.opId)).setWorker w
          (.storing job r)).workers w' = if w' = w then .storing job r else b.driver.workers w' :=
        fun w' => Function.update_apply _ _ _ _
      refine ⟨hinv, h.shared, fun op hop' hfresh => ?_, fun w' job' hw' => ?_,
        fun op hop' hret => ?_⟩
      · exact h.before op hop' fun hmem => hfresh (List.mem_append_left _ hmem)
      · by_cases heq : w' = w
        · cases (if_pos heq).symm.trans ((hx w').symm.trans hw')
        · obtain ⟨l'', hl'', hduring''⟩ :=
            h.during w' job' ((if_neg heq).symm.trans ((hx w').symm.trans hw'))
          exact ⟨l'', (Function.update_of_ne heq _ _).trans hl'', hduring''⟩
      · rcases List.mem_append.mp hret with hold | hnew
        · exact h.after op hop' hold
        · have hid : op.opId = job.op.opId := Event.returned.inj (List.mem_singleton.mp hnew)
          rw [List.inj_on_of_nodup_map hops.ids_nodup hop' hop hid]
          exact hafter

/-- **An outline holds however the calls are interleaved.** By induction on the run; the main thread is in
no call. -/
theorem reachable (hA : A.Outline ops Shared Before During After) (hops : WellFormed ops)
    (h : (harness A ops mode n).Reachable b) : OutlineInv ops Shared Before During After b := by
  refine h.induction (init hA) fun b a b' hinv hstep => ?_
  cases a with
  | main early =>
      obtain ⟨driver, hdriver, rfl⟩ := Option.map_eq_some_iff.mp hstep
      obtain ⟨hworkers, -, hlog, -⟩ := Config.mainStep_spec hdriver
      refine ⟨hinv.driver.steps hops (Config.mainStep_steps hdriver), hinv.shared, ?_, ?_, ?_⟩
      · rw [hlog]
        exact hinv.before
      · rw [hworkers]
        exact hinv.during
      · rw [hlog]
        exact hinv.after
  | worker w =>
      change b.step A ops mode (.worker w) = some b' at hstep
      unfold Bench.step at hstep
      dsimp only at hstep
      split at hstep
      · cases hstep
      · next hcall => exact hinv.worker hA hops hcall hstep
  | call w answer =>
      change b.step A ops mode (.call w answer) = some b' at hstep
      unfold Bench.step at hstep
      dsimp only at hstep
      split at hstep
      · next job l hw hl => exact hinv.call hA hops hw hl hstep
      · cases hstep

end OutlineInv

end HorizonProtocol.Benchmark
