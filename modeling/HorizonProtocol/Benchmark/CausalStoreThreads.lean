import HorizonProtocol.Benchmark.Adapter
import HorizonProtocol.Benchmark.HarnessRuns
import HorizonProtocol.Benchmark.Outline

/-!
# The causal-store adapter under threads

`adapters/causalstore_adapter.py` has no lock. `apply_op` reads and writes the counter of the region
and `_op_to_event` in separate steps, and calls `store.write` while other threads are in it, so that
what a `write` answers is any answer at all. `Region` is the regions that `setup` has found a clock
for. The steps are those of `CausalStoreAdapter.applyOp`.

* `supersedes_resolved` — every write supersedes exactly the events of its dependencies, all of
  which the store has admitted before.
-/

namespace HorizonProtocol.Benchmark

open CausalStore (HybridClock WriteCall)

/-- What a `write` answers: an event, or the `"reason"` of a witness. -/
inductive StoreAnswer (Eid : Type) where
  | admitted (eventId : Eid)
  | refused (reason : Option String)

/-- The event that was admitted. -/
def StoreAnswer.event? {Eid : Type} : StoreAnswer Eid → Option Eid
  | admitted e => some e
  | refused _ => none

/-- A `write` that has returned. -/
structure Written (Eid Region : Type) where
  opId : Nat
  call : WriteCall Eid String String Region (HybridClock Region)
  answer : StoreAnswer Eid

/-- What the calls share, and the writes of the store. -/
structure StoreShared (Eid Region : Type) where
  opToEvent : List (Nat × Eid) := []
  vcCounter : Region → Int := fun _ => 0
  /-- In the order of their return. -/
  written : List (Written Eid Region) := []

/-- Where a call of `apply_op` is. -/
inductive StoreFrame (Eid Region : Type) where
  | entered (op : Op Nat Region)
  /-- It has read the counter, and not yet set it. -/
  | counting (op : Op Nat Region) (count : Int)
  /-- It has set the counter, and not yet read it for the clock. -/
  | clocked (op : Op Nat Region)
  /-- In the comprehension over `depends_on`. -/
  | resolving (op : Op Nat Region) (count : Int) (deps : List Nat) (supersedes : List Eid)
  | admitted (opId : Nat) (eventId : Eid)
  /-- Before `_op_to_event[op["op_id"]] = result.event_id`. -/
  | numbered (opId : Nat) (eventId : Eid) (seq : Nat)
  | recorded (opId seq : Nat)
  | refused (opId : Nat) (reason : Option String)

variable {Eid Region : Type}

/-- The events that were admitted, by operation. -/
def events (ws : List (Written Eid Region)) : List (Nat × Eid) :=
  ws.filterMap fun w => w.answer.event?.map fun e => (w.opId, e)

theorem events_concat (ws : List (Written Eid Region)) (w : Written Eid Region) :
    events (ws ++ [w]) = events ws ++ events [w] :=
  List.filterMap_append

theorem mem_keys_events {ws : List (Written Eid Region)} {d : Nat}
    (h : d ∈ (events ws).map Prod.fst) : d ∈ ws.map Written.opId := by
  obtain ⟨⟨d', e⟩, hmem, rfl⟩ := List.mem_map.mp h
  obtain ⟨w, hw, heq⟩ := List.mem_filterMap.mp hmem
  obtain ⟨e', -, heq⟩ := Option.map_eq_some_iff.mp heq
  exact List.mem_map.mpr ⟨w, hw, congrArg Prod.fst heq⟩

/-- The event of an operation does not change with the writes of others. -/
theorem get?_events_concat {ws : List (Written Eid Region)} {w : Written Eid Region} {d : Nat}
    (hne : d ≠ w.opId) : Dict.get? (events (ws ++ [w])) d = Dict.get? (events ws) d := by
  have hnone : Dict.get? (events [w]) d = none := by
    rw [Dict.get?_eq_none]
    intro hmem
    exact hne (List.mem_singleton.mp (mem_keys_events hmem))
  rw [events_concat, Dict.get?_append, hnone, Option.or_none]

theorem mem_written_concat (ws : List (Written Eid Region)) (w : Written Eid Region) :
    w.opId ∈ (ws ++ [w]).map Written.opId := by
  rw [List.map_append]
  exact List.mem_append_right _ List.mem_cons_self

/-- The event of an operation is what its write answers. -/
theorem get?_events_self {ws : List (Written Eid Region)} {d : Nat} (h : d ∉ ws.map Written.opId)
    (call : WriteCall Eid String String Region (HybridClock Region)) (answer : StoreAnswer Eid) :
    Dict.get? (events (ws ++ [⟨d, call, answer⟩])) d = answer.event? := by
  have hnone : Dict.get? (events ws) d = none :=
    Dict.get?_eq_none.mpr fun hmem => h (mem_keys_events hmem)
  rw [events_concat, Dict.get?_append, hnone, Option.none_or]
  cases answer with
  | admitted e => simp [events, StoreAnswer.event?, Dict.get?]
  | refused reason => rfl

/-- The `write` of an operation, with what it supersedes already looked up. -/
def callWith (rc : RegionClock) (count : Int) (op : Op Nat Region) (supersedes : List Eid) :
    WriteCall Eid String String Region (HybridClock Region) :=
  { CausalStoreAdapter.callOf ([] : List (Nat × Eid)) rc count op with supersedes := some supersedes }

variable [DecidableEq Region]

variable (Eid) in
/-- `CausalStoreAdapter`, as threads run it. -/
def causalStoreThreads (regionClocks : Region → RegionClock) :
    Adapter Region (StoreShared Eid Region) (StoreFrame Eid Region) (StoreAnswer Eid) where
  setup := {}
  enter op := .entered op
  step s frame answer :=
    match frame with
    | .entered op => some (.go s (.counting op (s.vcCounter op.originRegion)))
    | .counting op count =>
        some (.go { s with vcCounter := Function.update s.vcCounter op.originRegion (count + 1) }
          (.clocked op))
    | .clocked op => some (.go s (.resolving op (s.vcCounter op.originRegion) op.dependsOn []))
    | .resolving op count (d :: deps) supersedes =>
        some (.go s (.resolving op count deps (supersedes ++ (Dict.get? s.opToEvent d).toList)))
    | .resolving op count [] supersedes =>
        let call := callWith (regionClocks op.originRegion) count op supersedes
        some (.go { s with written := s.written ++ [⟨op.opId, call, answer⟩] }
          (match answer with
            | .admitted e => .admitted op.opId e
            | .refused reason => .refused op.opId reason))
    | .admitted d e => some (.count (.numbered d e))
    | .numbered d e seq =>
        some (.go { s with opToEvent := Dict.set s.opToEvent d e } (.recorded d seq))
    | .recorded d seq => some (.ret ⟨d, true, some seq, none⟩)
    | .refused d reason => some (.ret ⟨d, false, none, reason⟩)

/-! ## Numbers and progress -/

namespace StoreFrame

def opId : StoreFrame Eid Region → Nat
  | entered op | counting op _ | clocked op | resolving op _ _ _ => op.opId
  | admitted d _ | numbered d _ _ | recorded d _ | refused d _ => d

def number? : StoreFrame Eid Region → Option Nat
  | numbered _ _ seq | recorded _ seq => some seq
  | _ => none

def cost : StoreFrame Eid Region → Nat
  | entered op => op.dependsOn.length + 6
  | counting op _ => op.dependsOn.length + 5
  | clocked op => op.dependsOn.length + 4
  | resolving _ _ deps _ => deps.length + 3
  | admitted _ _ => 2
  | numbered _ _ _ => 1
  | recorded _ _ | refused _ _ => 0

end StoreFrame

section Threads

variable {regionClocks : Region → RegionClock} {ops : List (Op Nat Region)}

theorem causalStoreThreads_counts :
    (causalStoreThreads Eid regionClocks).Counts StoreFrame.opId StoreFrame.number?
      fun r => r.accepted = true → r.rejectedReason = none where
  enter op := ⟨rfl, rfl⟩
  go {s l a s' l'} h := by
    unfold causalStoreThreads at h
    dsimp only at h
    split at h <;> cases h <;> try exact ⟨rfl, rfl⟩
    cases a <;> exact ⟨rfl, rfl⟩
  count {s l a f} h := by
    unfold causalStoreThreads at h
    dsimp only at h
    split at h <;> cases h
    exact ⟨rfl, fun _ => ⟨rfl, rfl⟩⟩
  ret {s l a r} h := by
    unfold causalStoreThreads at h
    dsimp only at h
    split at h <;> cases h
    · exact ⟨rfl, rfl, rfl, fun _ => rfl⟩
    · exact ⟨rfl, rfl, rfl, nofun⟩

theorem causalStoreThreads_live :
    (causalStoreThreads Eid regionClocks).Live ops StoreFrame.cost
      ((ops.map fun op => op.dependsOn.length).sum + 6) where
  enter op hop := by
    have hle : op.dependsOn.length ≤ (ops.map fun op => op.dependsOn.length).sum :=
      List.le_sum_of_mem (List.mem_map_of_mem hop)
    exact Nat.add_le_add_right hle 6
  answers s l := by
    refine ⟨.refused none, ?_⟩
    unfold causalStoreThreads
    dsimp only
    split <;> exact nofun
  go {s l a s' l'} h := by
    unfold causalStoreThreads at h
    dsimp only at h
    split at h <;> cases h <;> try simp [StoreFrame.cost]
    cases a <;> simp
  count {s l a f} h k := by
    unfold causalStoreThreads at h
    dsimp only at h
    split at h <;> cases h
    simp [StoreFrame.cost]

/-! ## What a call knows -/

/-- The write of an operation has returned, and `_op_to_event` has its event. -/
structure Settled (s : StoreShared Eid Region) (d : Nat) : Prop where
  written : d ∈ s.written.map Written.opId
  event : Dict.get? s.opToEvent d = Dict.get? (events s.written) d

/-- There is no trace yet of an operation. -/
structure Fresh (s : StoreShared Eid Region) (d : Nat) : Prop where
  written : d ∉ s.written.map Written.opId
  event : Dict.get? s.opToEvent d = none

/-- What a call knows, frame by frame. -/
def Knows (s : StoreShared Eid Region) (op : Op Nat Region) : StoreFrame Eid Region → Prop
  | .entered op' => op' = op ∧ Fresh s op.opId
  | .counting op' count => op' = op ∧ Fresh s op.opId ∧ 0 ≤ count
  | .clocked op' => op' = op ∧ Fresh s op.opId ∧ 1 ≤ s.vcCounter op.originRegion
  | .resolving op' count deps supersedes => op' = op ∧ Fresh s op.opId ∧ 1 ≤ count ∧
      ∃ done, op.dependsOn = done ++ deps ∧
        supersedes = done.filterMap fun d => Dict.get? (events s.written) d
  | .admitted d e | .numbered d e _ => d = op.opId ∧ d ∈ s.written.map Written.opId ∧
      Dict.get? (events s.written) d = some e
  | .recorded d _ | .refused d _ => d = op.opId ∧ Settled s d

/-- A write that its adapter was to make. -/
structure Resolved (regionClocks : Region → RegionClock) (ops : List (Op Nat Region))
    (before : List (Written Eid Region)) (w : Written Eid Region) : Prop where
  fresh : w.opId ∉ before.map Written.opId
  call : ∃ op ∈ ops, ∃ count, 1 ≤ count ∧ w.opId = op.opId ∧
    (∀ d ∈ op.dependsOn, d ∈ before.map Written.opId) ∧
    w.call = CausalStoreAdapter.callOf (events before) (regionClocks op.originRegion) count op

/-- What holds of the shared state. -/
structure StoreOk (regionClocks : Region → RegionClock) (ops : List (Op Nat Region))
    (s : StoreShared Eid Region) : Prop where
  counters : ∀ r, 0 ≤ s.vcCounter r
  written : ∀ l₁ w l₂, s.written = l₁ ++ w :: l₂ → Resolved regionClocks ops l₁ w

/-- What a call knows of the operations it depends on, besides `Knows`. -/
def Relies (s : StoreShared Eid Region) (op : Op Nat Region) (l : StoreFrame Eid Region) : Prop :=
  Knows s op l ∧ ∀ d ∈ op.dependsOn, Settled s d

section Steps

variable {s s' : StoreShared Eid Region} {op op' : Op Nat Region}
variable {l l' : StoreFrame Eid Region} {d : Nat}

/-- What a step of a call changes of the shared state. -/
inductive Changes (s : StoreShared Eid Region) (op : Op Nat Region) :
    StoreFrame Eid Region → StoreShared Eid Region → Prop
  | nothing {frame} : Changes s op frame s
  | counter {op' count} : Changes s op (.counting op' count)
      { s with vcCounter := Function.update s.vcCounter op'.originRegion (count + 1) }
  | write {op' count supersedes call answer} : Changes s op (.resolving op' count [] supersedes)
      { s with written := s.written ++ [⟨op.opId, call, answer⟩] }
  | event {e seq} : Changes s op (.numbered op.opId e seq)
      { s with opToEvent := Dict.set s.opToEvent op.opId e }

/-- What is settled stays as it is. -/
theorem Settled.changes (h : Settled s d) (hk : Knows s op l) (hc : Changes s op l s') :
    Settled s' d := by
  cases hc with
  | nothing => exact h
  | counter => exact ⟨h.written, h.event⟩
  | write =>
      obtain ⟨-, hfresh, -⟩ := hk
      have hne : d ≠ op.opId := by
        rintro rfl
        exact hfresh.written h.written
      refine ⟨?_, h.event.trans (get?_events_concat hne).symm⟩
      rw [List.map_append]
      exact List.mem_append_left _ h.written
  | event =>
      obtain ⟨-, -, hevent⟩ := hk
      refine ⟨h.written, ?_⟩
      show Dict.get? (Dict.set s.opToEvent op.opId _) d = _
      rw [Dict.get?_set]
      split
      · next heq =>
          rw [heq]
          exact hevent.symm
      · exact h.event

/-- Of an operation that is not the one of the call, nothing new is known. -/
theorem Fresh.changes (h : Fresh s d) (hne : d ≠ op.opId) (hc : Changes s op l s') :
    Fresh s' d := by
  cases hc with
  | nothing => exact h
  | counter => exact ⟨h.written, h.event⟩
  | write =>
      refine ⟨?_, h.event⟩
      rw [List.map_append, List.mem_append, not_or]
      exact ⟨h.written, fun hmem => hne (List.mem_singleton.mp hmem)⟩
  | event =>
      refine ⟨h.written, ?_⟩
      show Dict.get? (Dict.set s.opToEvent op.opId _) d = _
      rw [Dict.get?_set, if_neg hne]
      exact h.event

theorem Changes.counter_pos {r : Region} (hc : Changes s op l s') (hk : Knows s op l)
    (h : 1 ≤ s.vcCounter r) : 1 ≤ s'.vcCounter r := by
  cases hc with
  | nothing | write | event => exact h
  | counter =>
      obtain ⟨-, -, hcount⟩ := hk
      show 1 ≤ Function.update s.vcCounter _ _ r
      rw [Function.update_apply]
      split
      · omega
      · exact h

theorem Changes.mem_written (hc : Changes s op l s') (h : d ∈ s.written.map Written.opId) :
    d ∈ s'.written.map Written.opId := by
  cases hc with
  | nothing | counter | event => exact h
  | write =>
      rw [List.map_append]
      exact List.mem_append_left _ h

theorem Changes.get?_events (hc : Changes s op l s') (hne : d ≠ op.opId) :
    Dict.get? (events s'.written) d = Dict.get? (events s.written) d := by
  cases hc with
  | nothing | counter | event => rfl
  | write => exact get?_events_concat hne

/-- What a call knows, no other call takes from it. -/
theorem Relies.changes (h : Relies s op' l') (hk : Relies s op l) (hne : op'.opId ≠ op.opId)
    (hc : Changes s op l s') : Relies s' op' l' := by
  refine ⟨?_, fun d hd => (h.2 d hd).changes hk.1 hc⟩
  obtain ⟨hknows, hdeps⟩ := h
  cases l' with
  | entered op₁ => exact ⟨hknows.1, hknows.2.changes hne hc⟩
  | counting op₁ count => exact ⟨hknows.1, hknows.2.1.changes hne hc, hknows.2.2⟩
  | clocked op₁ =>
      exact ⟨hknows.1, hknows.2.1.changes hne hc, hc.counter_pos hk.1 hknows.2.2⟩
  | resolving op₁ count deps supersedes =>
      obtain ⟨hop, hfresh, hcount, done, hdone, hids⟩ := hknows
      refine ⟨hop, hfresh.changes hne hc, hcount, done, hdone, ?_⟩
      rw [hids]
      apply List.filterMap_congr
      intro d hd
      have hsettled := hdeps d (hdone ▸ List.mem_append_left _ hd)
      rw [← hsettled.event, ← (hsettled.changes hk.1 hc).event]
      cases hc with
      | nothing | counter | write => rfl
      | event =>
          show _ = Dict.get? (Dict.set s.opToEvent op.opId _) d
          rw [Dict.get?_set]
          split
          · next heq =>
              rw [heq] at hsettled ⊢
              rw [hsettled.event]
              exact hk.1.2.2
          · rfl
  | admitted d' e | numbered d' e seq =>
      obtain ⟨rfl, hmem, hevent⟩ := hknows
      exact ⟨rfl, hc.mem_written hmem, (hc.get?_events hne).trans hevent⟩
  | recorded d' seq | refused d' reason => exact ⟨hknows.1, hknows.2.changes hk.1 hc⟩

/-- A step of a call changes what it may. -/
theorem changes_of_step {answer : StoreAnswer Eid} (hk : Knows s op l)
    (hstep : (causalStoreThreads Eid regionClocks).step s l answer = some (.go s' l')) :
    Changes s op l s' := by
  unfold causalStoreThreads at hstep
  dsimp only at hstep
  split at hstep <;> cases hstep
  · exact .nothing
  · exact .counter
  · exact .nothing
  · exact .nothing
  · obtain ⟨rfl, -⟩ := hk
    exact .write
  · obtain ⟨rfl, -⟩ := hk
    exact .event

omit [DecidableEq Region] in
/-- **A write is as it should be**: the comprehension has seen an event of each dependency that was
admitted, and no other. -/
theorem resolved_write {count : Int} {supersedes : List Eid} {answer : StoreAnswer Eid}
    (hop : op ∈ ops) (h : Relies s op (.resolving op' count [] supersedes)) :
    Resolved regionClocks ops s.written
      ⟨op'.opId, callWith (regionClocks op'.originRegion) count op' supersedes, answer⟩ := by
  obtain ⟨⟨rfl, hfresh, hcount, done, hdone, rfl⟩, hdeps⟩ := h
  rw [List.append_nil] at hdone
  refine ⟨hfresh.written, op', hop, count, hcount, rfl, fun d hd => (hdeps d hd).written, ?_⟩
  rw [← hdone]
  rfl

/-- A step of a call keeps what holds of the shared state, and the call knows what it is to know. -/
theorem StoreOk.step {answer : StoreAnswer Eid} (hop : op ∈ ops) (h : StoreOk regionClocks ops s)
    (hr : Relies s op l)
    (hstep : (causalStoreThreads Eid regionClocks).step s l answer = some (.go s' l')) :
    StoreOk regionClocks ops s' ∧ Knows s' op l' := by
  have hrelies := hr
  obtain ⟨hk, hdeps⟩ := hr
  unfold causalStoreThreads at hstep
  dsimp only at hstep
  split at hstep
  · next op₁ =>
      cases hstep
      exact ⟨h, hk.1, hk.2, h.counters _⟩
  · next op₁ count =>
      cases hstep
      obtain ⟨rfl, hfresh, hcount⟩ := hk
      refine ⟨⟨fun r => ?_, h.written⟩, rfl, ⟨hfresh.written, hfresh.event⟩, ?_⟩
      · show 0 ≤ Function.update s.vcCounter _ _ r
        rw [Function.update_apply]
        split
        · omega
        · exact h.counters r
      · show 1 ≤ Function.update s.vcCounter _ _ _
        rw [Function.update_self]
        omega
  · next op₁ =>
      cases hstep
      obtain ⟨rfl, hfresh, hcount⟩ := hk
      exact ⟨h, rfl, hfresh, hcount, [], rfl, rfl⟩
  · next op₁ count d deps supersedes =>
      cases hstep
      obtain ⟨rfl, hfresh, hcount, done, hdone, rfl⟩ := hk
      refine ⟨h, rfl, hfresh, hcount, done ++ [d], by rw [hdone, List.append_assoc]; rfl, ?_⟩
      have hd : d ∈ op₁.dependsOn := hdone ▸ List.mem_append_right _ List.mem_cons_self
      rw [List.filterMap_append, (hdeps d hd).event]
      cases hget : Dict.get? (events s.written) d <;> simp [hget]
  · next op₁ count supersedes =>
      have hwrite : Resolved regionClocks ops s.written ⟨op₁.opId, _, answer⟩ :=
        resolved_write hop hrelies
      cases hstep
      obtain ⟨rfl, hfresh, -⟩ := hk
      refine ⟨⟨h.counters, fun l₁ w l₂ heq => ?_⟩, ?_⟩
      · rcases Log.concat_eq_split_iff.mp heq with ⟨rfl, rfl, -⟩ | ⟨l₂', hold, rfl⟩
        · exact hwrite
        · exact h.written l₁ w l₂' hold
      · cases answer with
        | admitted e =>
            exact ⟨rfl, mem_written_concat _ _, get?_events_self hfresh.written _ _⟩
        | refused reason =>
            have hself := get?_events_self hfresh.written
              (callWith (regionClocks op₁.originRegion) count op₁ supersedes) (.refused reason)
            exact ⟨rfl, mem_written_concat _ _, hfresh.event.trans hself.symm⟩
  · cases hstep
  · next d e seq =>
      cases hstep
      obtain ⟨rfl, hmem, hevent⟩ := hk
      refine ⟨⟨h.counters, h.written⟩, rfl, hmem, ?_⟩
      show Dict.get? (Dict.set s.opToEvent op.opId e) op.opId = _
      rw [Dict.get?_set, if_pos rfl]
      exact hevent.symm
  all_goals cases hstep

end Steps

theorem causalStoreThreads_outline (hops : WellFormed ops) :
    (causalStoreThreads Eid regionClocks).Outline ops (StoreOk regionClocks ops)
      (fun s op => Fresh s op.opId) Relies fun s op => Settled s op.opId where
  setup := ⟨fun _ => le_rfl, fun l₁ w l₂ heq => by simp [causalStoreThreads] at heq⟩
  before op hop := ⟨List.not_mem_nil, rfl⟩
  enter {s op} hop hfresh hdeps := by
    refine ⟨⟨rfl, hfresh⟩, fun d hd => ?_⟩
    obtain ⟨i, hi⟩ := List.getElem?_of_mem hop
    obtain ⟨j, pred, -, hj, rfl⟩ := hops.backward i op hi d hd
    exact hdeps pred (List.mem_of_getElem? hj) hd
  go {s op l a s' l'} hop hstep hs hr := by
    obtain ⟨hs', hk'⟩ := hs.step hop hr hstep
    exact ⟨hs', hk', fun d hd => (hr.2 d hd).changes hr.1 (changes_of_step hr.1 hstep)⟩
  stable {s op l a s' l' op'} hstep hr hop' hne := by
    have hc := changes_of_step hr.1 hstep
    exact ⟨fun hfresh => hfresh.changes hne hc, fun _ hr' => hr'.changes hr hne hc,
      fun hsettled => hsettled.changes hr.1 hc⟩
  count {s op l a f} hstep hr k := by
    refine ⟨?_, hr.2⟩
    unfold causalStoreThreads at hstep
    dsimp only at hstep
    split at hstep <;> cases hstep
    exact hr.1
  ret {s op l a r} hstep hr := by
    unfold causalStoreThreads at hstep
    dsimp only at hstep
    split at hstep <;> cases hstep
    · obtain ⟨⟨rfl, hsettled⟩, -⟩ := hr
      exact hsettled
    · obtain ⟨⟨rfl, hsettled⟩, -⟩ := hr
      exact hsettled

omit [DecidableEq Region] in
/-- No operation is written twice. -/
theorem nodup_of_resolved {ws : List (Written Eid Region)}
    (h : ∀ l₁ w l₂, ws = l₁ ++ w :: l₂ → Resolved regionClocks ops l₁ w) :
    (ws.map Written.opId).Nodup := by
  induction ws using List.reverseRecOn with
  | nil => exact List.nodup_nil
  | append_singleton ws w ih =>
      rw [List.map_append, List.map_singleton, List.nodup_append']
      refine ⟨ih fun l₁ w' l₂ heq => h l₁ w' (l₂ ++ [w]) ?_, List.nodup_singleton _, ?_⟩
      · rw [heq, List.append_assoc, List.cons_append]
      · exact List.disjoint_singleton.mpr (h ws w [] rfl).fresh

/-- **Threads do not lose what an operation depends on.** However the calls of `apply_op` are
interleaved, and whatever the store answers: a write is made when the writes of all its dependencies
have returned, and supersedes exactly those that were admitted. Every schedule ends with each
operation written once, in a commit order that respects the dependencies. -/
theorem supersedes_resolved (hops : WellFormed ops) {mode : String} {concurrency : Int}
    {ratePerS : Option ℚ} {M}
    (hrun : runAdapter (causalStoreThreads Eid regionClocks) ops mode concurrency ratePerS = .ok M) :
    (∀ b, M.Reachable b →
      (∀ l₁ w l₂, b.shared.written = l₁ ++ w :: l₂ → Resolved regionClocks ops l₁ w) ∧
      ∀ rs, b.driver.main = .returned rs →
        (b.shared.written.map Written.opId).Perm (ops.map Op.opId)) ∧
    Finishes M fun rs => CommitOrder ops rs ∧
      ∀ r ∈ rs, r.accepted = true → r.rejectedReason = none := by
  refine ⟨?_, harness_sound causalStoreThreads_counts causalStoreThreads_live hops hrun⟩
  obtain ⟨mode, rfl⟩ := runAdapter_eq_ok hrun
  intro b hb
  have hinv := OutlineInv.reachable (causalStoreThreads_outline hops) hops hb
  refine ⟨hinv.shared.written, fun rs hrs => ?_⟩
  rw [List.perm_ext_iff_of_nodup (nodup_of_resolved hinv.shared.written) hops.ids_nodup]
  intro d
  constructor
  · intro hd
    obtain ⟨w, hw, rfl⟩ := List.mem_map.mp hd
    obtain ⟨l₁, l₂, heq⟩ := List.append_of_mem hw
    obtain ⟨op, hop, count, -, hid, -⟩ := (hinv.shared.written l₁ w l₂ heq).call
    exact List.mem_map.mpr ⟨op, hop, hid.symm⟩
  · intro hd
    obtain ⟨op, hop, rfl⟩ := List.mem_map.mp hd
    obtain ⟨k, hk⟩ := List.getElem?_of_mem hop
    have hset := hinv.driver.finished rs hrs k (List.getElem?_eq_some_iff.mp hk).1
    exact (hinv.after op hop (hinv.driver.logged.done k hset op hk).2.1).written

theorem supersedes_resolved_chain :
    ∃ M, runAdapter (causalStoreThreads Nat fun _ : Unit => ⟨⟨0, 0, 0⟩, 1000⟩) chainTrace "closed" 8
      none = .ok M ∧ ∀ b, M.Reachable b → ∀ l₁ w l₂, b.shared.written = l₁ ++ w :: l₂ →
        Resolved (fun _ => ⟨⟨0, 0, 0⟩, 1000⟩) chainTrace l₁ w := by
  have hrun : runAdapter (causalStoreThreads Nat fun _ : Unit => ⟨⟨0, 0, 0⟩, 1000⟩) chainTrace
      "closed" 8 none = .ok (harness _ chainTrace .closedLoop (maxWorkers 8)) := rfl
  exact ⟨_, hrun, fun b hb => ((supersedes_resolved chainTrace_wellFormed hrun).1 b hb).1⟩

end Threads

end HorizonProtocol.Benchmark
