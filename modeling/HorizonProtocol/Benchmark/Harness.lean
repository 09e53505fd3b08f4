import HorizonProtocol.Benchmark.Adapter
import HorizonProtocol.Benchmark.DriverRuns

/-!
# Adapters under the driver

`benchmark_harness/adapters/base.py`: the driver calls `apply_op` from many threads at once, and an
adapter numbers what it commits with an `itertools.count()` that all calls share. An `Adapter` is
what one call does, a step at a time; a `Bench` is the driver with the calls its workers are in, and
a scheduler lets any of them go on. `BenchInv` is what all interleavings keep: a call takes its
number while it runs, so the numbers are in the order of the calls.
-/

namespace HorizonProtocol.Benchmark

/-! ## Calls -/

/-- What a step of a call does. -/
inductive Move (S L : Type) where
  /-- It goes on, after a change of what the calls share. -/
  | go (shared : S) (frame : L)
  /-- `next(self._seq)`. -/
  | count (frame : Nat → L)
  | ret (result : OpResult)

/-- `apply_op`, as the thread that runs it does it. What the system under test answers, and whatever
else the code does not decide, is an `Answer`. -/
structure Adapter (Region S L Answer : Type) where
  /-- What the calls share after `setup`. -/
  setup : S
  enter : Op Nat Region → L
  step : S → L → Answer → Option (Move S L)

/-- The driver, and the calls its workers are in. -/
structure Bench (Region S L : Type) (n : Nat) where
  driver : Config Nat Region OpResult n := {}
  shared : S
  frames : Fin n → Option L := fun _ => none
  /-- The operations that have taken a number, in order: the next number is how many there are. -/
  counted : List Nat := []

/-- Who takes a step: the thread that called `run`, or a worker, outside of a call or in it. -/
inductive BenchAction (Answer : Type) (n : Nat) where
  | main (early : Bool)
  | worker (w : Fin n)
  | call (w : Fin n) (answer : Answer)

variable {Region S L Answer : Type} {n : Nat}

namespace Bench

/-- A step of a worker that is in no call. When it calls `apply_op`, the call begins. -/
def workerStep (A : Adapter Region S L Answer) (b : Bench Region S L n) (w : Fin n) :
    Option (Bench Region S L n) :=
  (b.driver.workerStep w ⟨0, false, none, none⟩).map fun driver =>
    match driver.workers w with
    | .applying job => { b with driver, frames := Function.update b.frames w (some (A.enter job.op)) }
    | _ => { b with driver }

/-- A step of the call that a worker is in. When it returns, so does `apply_op`. -/
def callStep (A : Adapter Region S L Answer) (b : Bench Region S L n) (w : Fin n)
    (job : Job Nat Region) (frame : L) (answer : Answer) : Option (Bench Region S L n) :=
  match A.step b.shared frame answer with
  | none => none
  | some (.go shared frame) =>
      some { b with shared, frames := Function.update b.frames w (some frame) }
  | some (.count frame) =>
      some { b with frames := Function.update b.frames w (some (frame b.counted.length))
                    counted := b.counted ++ [job.op.opId] }
  | some (.ret result) =>
      (b.driver.workerStep w result).map fun driver =>
        { b with driver, frames := Function.update b.frames w none }

def step (A : Adapter Region S L Answer) (ops : List (Op Nat Region)) (mode : LoopMode)
    (b : Bench Region S L n) : BenchAction Answer n → Option (Bench Region S L n)
  | .main early => (b.driver.mainStep ops mode early).map fun driver => { b with driver }
  | .worker w =>
      match b.driver.workers w with
      | .applying _ => none
      | _ => b.workerStep A w
  | .call w answer =>
      match b.driver.workers w, b.frames w with
      | .applying job, some frame => b.callStep A w job frame answer
      | _, _ => none

end Bench

/-- `driver.run(adapter, trace, ...)`. -/
def harness (A : Adapter Region S L Answer) (ops : List (Op Nat Region)) (mode : LoopMode)
    (n : Nat) : Schedule (Bench Region S L n) (BenchAction Answer n) where
  init := { shared := A.setup }
  step b a := b.step A ops mode a

/-! ## What the driver does between calls -/

section Driver

variable {Id R : Type} [DecidableEq Id] {ops : List (Op Id Region)} {mode : LoopMode}
variable {c c' : Config Id Region R n}

/-- The thread that called `run` touches nothing of the workers, and returns what is in
`results`. -/
theorem Config.mainStep_spec {early : Bool} (h : c.mainStep ops mode early = some c') :
    c'.workers = c.workers ∧ c'.results = c.results ∧ c'.log = c.log ∧
      ∀ rs, c'.main = .returned rs →
        (ops.mapM fun op => Dict.get? c.results op.opId) = some rs := by
  unfold Config.mainStep at h
  split at h
  · split at h
    · cases h
      exact ⟨rfl, rfl, rfl, fun _ hmain => by cases hmain⟩
    · split at h <;> cases h <;> exact ⟨rfl, rfl, rfl, fun _ hmain => by cases hmain⟩
  · cases h
    exact ⟨rfl, rfl, rfl, fun _ hmain => by cases hmain⟩
  · cases h
    exact ⟨rfl, rfl, rfl, fun _ hmain => by cases hmain⟩
  · cases h
    exact ⟨rfl, rfl, rfl, fun _ hmain => by cases hmain⟩
  · split at h
    · cases h
      exact ⟨rfl, rfl, rfl, fun _ hmain => by cases hmain⟩
    · cases h
  · split at h
    · obtain ⟨rs, hrs, rfl⟩ := Option.map_eq_some_iff.mp h
      refine ⟨rfl, rfl, rfl, fun rs' hmain => ?_⟩
      cases hmain
      exact hrs
    · cases h
  · cases h

/-- What a step of worker `w` outside of a call changes. -/
inductive Config.Moves (c : Config Id Region R n) (w : Fin n) : Config Id Region R n → Prop
  /-- It waits or looks on. -/
  | on {c' x} (workers : c'.workers = Function.update c.workers w x) (main : c'.main = c.main)
      (log : c'.log = c.log) (results : c'.results = c.results)
      (calls : ∀ job, x ≠ .applying job) (holds : ∀ job r, x ≠ .storing job r) : Moves c w c'
  | call {job} (worker : c.workers w = .checking job []) :
      Moves c w ((c.observe (.started job.op.opId)).setWorker w (.applying job))
  | store {job r} (worker : c.workers w = .storing job r) :
      Moves c w ((c.store job.op.opId r).setWorker w (.returning job))

theorem Config.workerStep_moves {w : Fin n} {r : R} (h : c.workerStep w r = some c')
    (hcall : ∀ job, c.workers w ≠ .applying job) : c.Moves w c' := by
  unfold Config.workerStep at h
  split at h
  · split at h
    · cases h
    · cases h
      exact .on rfl rfl rfl rfl nofun nofun
  · split at h <;> cases h <;> exact .on rfl rfl rfl rfl nofun nofun
  · split at h <;> cases h
    exact .on rfl rfl rfl rfl nofun nofun
  · next job hw =>
      cases h
      exact .call hw
  · next job hw => exact absurd hw (hcall job)
  · next job r hw =>
      cases h
      exact .store hw
  · cases h
    exact .on rfl rfl rfl rfl nofun nofun

end Driver

/-! ## Numbers -/

/-- The number of an operation, or that it has none. -/
def Numbered (counted : List Nat) (d : Nat) : Option Nat → Prop
  | some k => counted[k]? = some d
  | none => d ∉ counted

/-- The result is that of the operation, which was accepted just when it has a number. `P` is what
else all results of an adapter have. -/
structure Reports (P : OpResult → Prop) (counted : List Nat) (d : Nat) (r : OpResult) : Prop where
  opId : r.opId = d
  accepted : r.accepted = r.commitSeq.isSome
  number : Numbered counted d r.commitSeq
  holds : P r

variable {P : OpResult → Prop} {counted : List Nat} {d d' : Nat}

theorem Numbered.concat {number? : Option Nat} (h : Numbered counted d number?)
    (hne : d ≠ d') : Numbered (counted ++ [d']) d number? := by
  cases number? with
  | some k => exact Log.getElem?_concat_eq_some_iff.mpr (Or.inl h)
  | none =>
      show d ∉ counted ++ [d']
      rw [List.mem_append, List.mem_singleton, not_or]
      exact ⟨h, hne⟩

theorem Reports.concat {r : OpResult} (h : Reports P counted d r) (hne : d ≠ d') :
    Reports P (counted ++ [d']) d r :=
  ⟨h.opId, h.accepted, h.number.concat hne, h.holds⟩

/-- A call takes at most one number, and its result has it. -/
structure Adapter.Counts (A : Adapter Region S L Answer) (opOf : L → Nat)
    (number? : L → Option Nat) (P : OpResult → Prop) : Prop where
  enter op : opOf (A.enter op) = op.opId ∧ number? (A.enter op) = none
  go {s l a s' l'} : A.step s l a = some (.go s' l') → opOf l' = opOf l ∧ number? l' = number? l
  count {s l a f} : A.step s l a = some (.count f) →
    number? l = none ∧ ∀ k, opOf (f k) = opOf l ∧ number? (f k) = some k
  ret {s l a r} : A.step s l a = some (.ret r) →
    r.opId = opOf l ∧ r.accepted = r.commitSeq.isSome ∧ r.commitSeq = number? l ∧ P r

theorem forall₂_of_mapM {α β : Type} {f : α → Option β} {Q : α → β → Prop}
    (hQ : ∀ a b, f a = some b → Q a b) {l : List α} {bs : List β} (h : l.mapM f = some bs) :
    List.Forall₂ Q l bs := by
  induction l generalizing bs with
  | nil =>
      cases h
      exact .nil
  | cons a l ih =>
      rw [List.mapM_cons] at h
      obtain ⟨b, hb, h⟩ := Option.bind_eq_some_iff.mp h
      obtain ⟨bs, hbs, h⟩ := Option.bind_eq_some_iff.mp h
      cases h
      exact .cons (hQ a b hb) (ih hbs)

/-- What holds however the calls are interleaved. A number is followed from the call that takes it to
the result that reports it: in the frame, in the worker that stores the result, in `results`, and in what
`run` returns. -/
structure BenchInv (opOf : L → Nat) (number? : L → Option Nat) (P : OpResult → Prop)
    (ops : List (Op Nat Region)) (b : Bench Region S L n) : Prop where
  driver : Inv ops b.driver
  frame : ∀ w job, b.driver.workers w = .applying job → ∃ l, b.frames w = some l ∧
    opOf l = job.op.opId ∧ Numbered b.counted job.op.opId (number? l)
  storing : ∀ w job r, b.driver.workers w = .storing job r → Reports P b.counted job.op.opId r
  results : ∀ d r, Dict.get? b.driver.results d = some r →
    .returned d ∈ b.driver.log ∧ Reports P b.counted d r
  nodup : b.counted.Nodup
  called : ∀ d ∈ b.counted, .started d ∈ b.driver.log ∧ d ∈ ops.map Op.opId
  /-- What an operation depends on took no number after it. -/
  ordered : ∀ l₁ l₂ op, op ∈ ops → b.counted = l₁ ++ op.opId :: l₂ → ∀ d ∈ op.dependsOn, d ∉ l₂
  answers : ∀ rs, b.driver.main = .returned rs →
    List.Forall₂ (fun op r => Reports P b.counted op.opId r) ops rs

namespace BenchInv

variable {A : Adapter Region S L Answer} {opOf : L → Nat} {number? : L → Option Nat}
variable {ops : List (Op Nat Region)} {mode : LoopMode} {b b' : Bench Region S L n}
variable {w : Fin n} {job : Job Nat Region}

theorem init : BenchInv opOf number? P ops { shared := A.setup : Bench Region S L n } where
  driver := Inv.init
  frame w job h := by cases h
  storing w job r h := by cases h
  results d r h := by cases h
  nodup := List.nodup_nil
  called d hd := absurd hd List.not_mem_nil
  ordered l₁ l₂ op _ heq := by simp at heq
  answers rs h := by cases h

/-- Two workers are at different operations. -/
theorem opId_ne (hops : WellFormed ops) (h : BenchInv opOf number? P ops b) {w w' : Fin n}
    {job job' : Job Nat Region} (hjob : b.driver.holding w = some job)
    (hjob' : b.driver.holding w' = some job') (hne : w ≠ w') : job.op.opId ≠ job'.op.opId := by
  intro hid
  obtain ⟨-, -, hop⟩ := h.driver.pooled.held w job hjob
  obtain ⟨-, -, hop'⟩ := h.driver.pooled.held w' job' hjob'
  exact hne (h.driver.pooled.holder_unique w w' job job' hjob hjob'
    (hops.index_unique hop hop' hid))

/-- An operation that is in a call has not returned. -/
theorem not_returned (h : BenchInv opOf number? P ops b) (hw : b.driver.workers w = .applying job) :
    .returned job.op.opId ∉ b.driver.log := by
  apply Logged.not_returned h.driver.pooled h.driver.logged (Config.holding_eq hw)
  rw [hw]
  rfl

/-- When `run` has returned, no worker is in a call. -/
theorem not_applying (h : BenchInv opOf number? P ops b) {rs : List OpResult}
    (hmain : b.driver.main = .returned rs) : ∀ w job, b.driver.workers w ≠ .applying job := by
  intro w job hw
  obtain ⟨-, hnot, hop⟩ := h.driver.pooled.held w job (Config.holding_eq hw)
  exact hnot (h.driver.finished rs hmain _ (List.getElem?_eq_some_iff.mp hop).1)

/-! ### Its steps -/

/-- A step of the thread that called `run`: in the last one it gathers the results. -/
theorem main (hops : WellFormed ops) (h : BenchInv opOf number? P ops b) {early : Bool}
    {driver : Config Nat Region OpResult n} (hstep : b.driver.mainStep ops mode early = some driver) :
    BenchInv opOf number? P ops { b with driver } := by
  obtain ⟨hworkers, hresults, hlog, hmain⟩ := Config.mainStep_spec hstep
  refine ⟨h.driver.steps hops (Config.mainStep_steps hstep), ?_, ?_, ?_, h.nodup, ?_, h.ordered, ?_⟩
  · intro w job hw
    exact h.frame w job (hworkers ▸ hw)
  · intro w job r hw
    exact h.storing w job r (hworkers ▸ hw)
  · intro d r hd
    rw [hlog]
    exact h.results d r (hresults ▸ hd)
  · intro d hd
    rw [hlog]
    exact h.called d hd
  · intro rs hrs
    exact forall₂_of_mapM (fun op r hget => (h.results op.opId r hget).2) (hmain rs hrs)

/-- A worker takes the number of its operation. What is known of the other operations stays so, since theirs
are other ids, and a number already taken keeps its place. -/
theorem count (hops : WellFormed ops) (h : BenchInv opOf number? P ops b)
    (hw : b.driver.workers w = .applying job) {l l' : L} (hl : b.frames w = some l)
    (hnone : number? l = none) (hid : opOf l' = opOf l)
    (hnumber : number? l' = some b.counted.length) :
    BenchInv opOf number? P ops
      { b with frames := Function.update b.frames w (some l')
               counted := b.counted ++ [job.op.opId] } := by
  have hheld : b.driver.holding w = some job := Config.holding_eq hw
  have hnot := h.not_returned hw
  obtain ⟨l₀, hl₀, hidl, hfresh⟩ := h.frame w job hw
  obtain rfl : l₀ = l := Option.some.inj (hl₀.symm.trans hl)
  rw [hnone] at hfresh
  have hstarted : .started job.op.opId ∈ b.driver.log := by
    have hok := h.driver.logged.worker w
    rw [hw] at hok
    exact hok
  refine ⟨h.driver, ?_, ?_, ?_, ?_, ?_, ?_, ?_⟩
  · intro w' job' hw'
    by_cases heq : w' = w
    · subst heq
      cases hw.symm.trans hw'
      refine ⟨l', Function.update_self _ _ _, hid.trans hidl, ?_⟩
      rw [hnumber]
      exact List.getElem?_concat_length
    · obtain ⟨l'', hl'', hid'', hnum⟩ := h.frame w' job' hw'
      refine ⟨l'', by rw [← hl'']; exact Function.update_of_ne heq _ _, hid'', hnum.concat ?_⟩
      exact h.opId_ne hops (Config.holding_eq hw') hheld heq
  · intro w' job' r hw'
    refine (h.storing w' job' r hw').concat (h.opId_ne hops (Config.holding_eq hw') hheld ?_)
    rintro rfl
    cases hw.symm.trans hw'
  · intro d r hd
    obtain ⟨hret, hr⟩ := h.results d r hd
    refine ⟨hret, hr.concat ?_⟩
    rintro rfl
    exact hnot hret
  · rw [List.nodup_append']
    exact ⟨h.nodup, List.nodup_singleton _, List.disjoint_singleton.mpr hfresh⟩
  · intro d hd
    rcases List.mem_append.mp hd with hold | hnew
    · exact h.called d hold
    · obtain ⟨-, -, hop⟩ := h.driver.pooled.held w job hheld
      rw [List.mem_singleton.mp hnew]
      exact ⟨hstarted, List.mem_map_of_mem (List.mem_of_getElem? hop)⟩
  · intro l₁ l₂ op hop heq d hd
    rcases Log.concat_eq_split_iff.mp heq with ⟨-, -, rfl⟩ | ⟨l₂', hold, rfl⟩
    · exact List.not_mem_nil
    · rw [List.mem_append, List.mem_singleton, not_or]
      refine ⟨h.ordered l₁ l₂' op hop hold d hd, ?_⟩
      -- the dependent was called, so what it depends on had returned
      rintro rfl
      have hcalled := (h.called op.opId (hold ▸ List.mem_append_right _ List.mem_cons_self)).1
      obtain ⟨pre, post, hlog⟩ := List.append_of_mem hcalled
      apply hnot
      rw [hlog]
      exact List.mem_append_left _ (h.driver.logged.ordered pre post op hop hlog _ hd)
  · intro rs hrs
    exact absurd hw (h.not_applying hrs w job)

/-- A worker does something outside of a call, or begins one. -/
theorem worker (hA : A.Counts opOf number? P) (hops : WellFormed ops)
    (h : BenchInv opOf number? P ops b) (hcall : ∀ job, b.driver.workers w ≠ .applying job)
    (hstep : b.workerStep A w = some b') : BenchInv opOf number? P ops b' := by
  obtain ⟨driver, hdriver, rfl⟩ := Option.map_eq_some_iff.mp hstep
  have hinv := h.driver.steps hops (Config.workerStep_steps hdriver)
  cases Config.workerStep_moves hdriver hcall with
  | @on _ x hworkers hmain hlog hresults hcalls hholds =>
      have hx : ∀ {w'}, driver.workers w' = if w' = w then x else b.driver.workers w' := by
        intro w'
        rw [hworkers, Function.update_apply]
      have hbench : (match driver.workers w with
          | .applying job =>
              { b with driver, frames := Function.update b.frames w (some (A.enter job.op)) }
          | _ => { b with driver }) = { b with driver } := by
        rw [hx, if_pos rfl]
        cases x with
        | applying job => exact absurd rfl (hcalls job)
        | idle | checking | waiting | storing | returning => rfl
      rw [hbench]
      refine ⟨hinv, ?_, ?_, ?_, h.nodup, ?_, h.ordered, ?_⟩
      · intro w' job hw'
        rw [hx] at hw'
        split at hw'
        · exact absurd hw' (hcalls job)
        · exact h.frame w' job hw'
      · intro w' job r hw'
        rw [hx] at hw'
        split at hw'
        · exact absurd hw' (hholds job r)
        · exact h.storing w' job r hw'
      · intro d r hd
        rw [hlog]
        exact h.results d r (hresults ▸ hd)
      · intro d hd
        rw [hlog]
        exact h.called d hd
      · intro rs hrs
        exact h.answers rs (hmain ▸ hrs)
  | @call job hw =>
      have hfresh : job.op.opId ∉ b.counted := by
        intro hmem
        refine Logged.not_started h.driver.pooled h.driver.logged (Config.holding_eq hw) ?_
          (h.called _ hmem).1
        rw [hw]
        rfl
      have hx : ∀ w', ((b.driver.observe (.started job.op.opId)).setWorker w
          (.applying job)).workers w' = if w' = w then .applying job else b.driver.workers w' :=
        fun w' => Function.update_apply _ _ _ _
      simp only [hx, if_true]
      refine ⟨hinv, ?_, ?_, ?_, h.nodup, ?_, h.ordered, h.answers⟩
      · intro w' job' hw'
        by_cases heq : w' = w
        · subst heq
          cases (if_pos rfl).symm.trans ((hx w').symm.trans hw')
          refine ⟨A.enter job.op, Function.update_self _ _ _, (hA.enter job.op).1, ?_⟩
          rw [(hA.enter job.op).2]
          exact hfresh
        · obtain ⟨l, hl, hl'⟩ := h.frame w' job' ((if_neg heq).symm.trans ((hx w').symm.trans hw'))
          exact ⟨l, (Function.update_of_ne heq _ _).trans hl, hl'⟩
      · intro w' job' r hw'
        have hold := (hx w').symm.trans hw'
        split at hold
        · cases hold
        · exact h.storing w' job' r hold
      · intro d r hd
        obtain ⟨hret, hr⟩ := h.results d r hd
        exact ⟨List.mem_append_left _ hret, hr⟩
      · intro d hd
        obtain ⟨hstarted, hop⟩ := h.called d hd
        exact ⟨List.mem_append_left _ hstarted, hop⟩
  | @store job r hw =>
      have hx : ∀ w', ((b.driver.store job.op.opId r).setWorker w
          (.returning job)).workers w' = if w' = w then .returning job else b.driver.workers w' :=
        fun w' => Function.update_apply _ _ _ _
      simp only [hx, if_true]
      refine ⟨hinv, ?_, ?_, ?_, h.nodup, h.called, h.ordered, h.answers⟩
      · intro w' job' hw'
        have hold := (hx w').symm.trans hw'
        split at hold
        · cases hold
        · exact h.frame w' job' hold
      · intro w' job' r' hw'
        have hold := (hx w').symm.trans hw'
        split at hold
        · cases hold
        · exact h.storing w' job' r' hold
      · intro d r' hd
        change Dict.get? (Dict.set b.driver.results job.op.opId r) d = some r' at hd
        rw [Dict.get?_set] at hd
        split at hd
        · next heq =>
            cases hd
            have hok := h.driver.logged.worker w
            rw [hw] at hok
            subst heq
            exact ⟨hok.2, h.storing w job r hw⟩
        · exact h.results d r' hd

/-- A worker goes on in its call, takes a number or returns with it. -/
theorem call (hA : A.Counts opOf number? P) (hops : WellFormed ops)
    (h : BenchInv opOf number? P ops b) (hw : b.driver.workers w = .applying job) {l : L}
    (hl : b.frames w = some l) {answer : Answer} (hstep : b.callStep A w job l answer = some b') :
    BenchInv opOf number? P ops b' := by
  obtain ⟨l₀, hl₀, hid, hnum⟩ := h.frame w job hw
  obtain rfl : l₀ = l := Option.some.inj (hl₀.symm.trans hl)
  unfold Bench.callStep at hstep
  split at hstep
  · cases hstep
  · next shared l' hmove =>
      cases hstep
      obtain ⟨hid', hnum'⟩ := hA.go hmove
      refine ⟨h.driver, ?_, h.storing, h.results, h.nodup, h.called, h.ordered, h.answers⟩
      intro w' job' hw'
      by_cases heq : w' = w
      · subst heq
        cases hw.symm.trans hw'
        exact ⟨l', Function.update_self _ _ _, hid'.trans hid, hnum' ▸ hnum⟩
      · obtain ⟨l'', hl'', hl'⟩ := h.frame w' job' hw'
        exact ⟨l'', (Function.update_of_ne heq _ _).trans hl'', hl'⟩
  · next l' hmove =>
      cases hstep
      obtain ⟨hnone, hl'⟩ := hA.count hmove
      exact h.count hops hw hl hnone (hl' _).1 (hl' _).2
  · next r hmove =>
      obtain ⟨driver, hdriver, rfl⟩ := Option.map_eq_some_iff.mp hstep
      have hinv := h.driver.steps hops (Config.workerStep_steps hdriver)
      obtain ⟨hrid, hacc, hseq, hP⟩ := hA.ret hmove
      have hreports : Reports P b.counted job.op.opId r :=
        ⟨hrid.trans hid, hacc, hseq ▸ hnum, hP⟩
      unfold Config.workerStep at hdriver
      rw [hw] at hdriver
      cases hdriver
      have hx : ∀ w', ((b.driver.observe (.returned job.op.opId)).setWorker w
          (.storing job r)).workers w' = if w' = w then .storing job r else b.driver.workers w' :=
        fun w' => Function.update_apply _ _ _ _
      refine ⟨hinv, ?_, ?_, ?_, h.nodup, ?_, h.ordered, h.answers⟩
      · intro w' job' hw'
        by_cases heq : w' = w
        · cases (if_pos heq).symm.trans ((hx w').symm.trans hw')
        · obtain ⟨l'', hl'', hl'⟩ :=
            h.frame w' job' ((if_neg heq).symm.trans ((hx w').symm.trans hw'))
          exact ⟨l'', (Function.update_of_ne heq _ _).trans hl'', hl'⟩
      · intro w' job' r' hw'
        have hold := (hx w').symm.trans hw'
        split at hold
        · cases hold
          exact hreports
        · exact h.storing w' job' r' hold
      · intro d r' hd
        obtain ⟨hret, hr⟩ := h.results d r' hd
        exact ⟨List.mem_append_left _ hret, hr⟩
      · intro d hd
        obtain ⟨hstarted, hop⟩ := h.called d hd
        exact ⟨List.mem_append_left _ hstarted, hop⟩

theorem step (hA : A.Counts opOf number? P) (hops : WellFormed ops)
    (h : BenchInv opOf number? P ops b) {a : BenchAction Answer n}
    (hstep : b.step A ops mode a = some b') : BenchInv opOf number? P ops b' := by
  cases a with
  | main early =>
      obtain ⟨driver, hdriver, rfl⟩ := Option.map_eq_some_iff.mp hstep
      exact h.main hops hdriver
  | worker w =>
      unfold Bench.step at hstep
      dsimp only at hstep
      split at hstep
      · cases hstep
      · next hcall => exact h.worker hA hops hcall hstep
  | call w answer =>
      unfold Bench.step at hstep
      dsimp only at hstep
      split at hstep
      · next job l hw hl => exact h.call hA hops hw hl hstep
      · cases hstep

/-- By induction on the run, whatever the interleaving. -/
theorem reachable (hA : A.Counts opOf number? P) (hops : WellFormed ops)
    (h : (harness A ops mode n).Reachable b) : BenchInv opOf number? P ops b :=
  h.induction init fun _ _ _ hinv hstep => hinv.step hA hops hstep

end BenchInv

end HorizonProtocol.Benchmark
