import HorizonProtocol.CausalStore.Maximal
import HorizonProtocol.Mnemesis.Delivery
import HorizonProtocol.Mnemesis.Runs

/-!
# The memory simulates the store

Under vector clocks the two stores are one: whatever a `CausalStore` admits, put into a
`CausalMemory` with the edges the store recorded, is admitted there too, and both read alike. The
store finds out what a write supersedes, the memory is told; and they know one write by different
ids, so the ids are translated on the way (`Feed`).

* `Simulates` — the memory fed so far stores the translations of the log, in its order.
* `memory_simulates_store` — after any calls to the store: every put admitted, and every read of the
  one a read of the other.
-/

namespace HorizonProtocol.Mnemesis.CausalMemory

variable {Id Wid Key Value Observer Clock Node : Type}
variable [DecidableEq Id] [DecidableEq Wid]

/-! ## Feeding the memory -/

/-- The put of a stored event: its content, and its recorded edges under the ids of the memory. -/
def ofEvent (names : Id → Option Wid) (e : CausalStore.Event Id Key Value Observer Clock) :
    Write Wid Key Value Observer Clock where
  key := e.key
  value := e.value
  observer := e.originNode
  clock := e.clock
  preds := e.supersedes.filterMap names

/-- The puts made so far, and the ids they gave the events of the store. -/
structure Feed (Id Wid Key Value Observer Clock : Type) where
  puts : List (Write Wid Key Value Observer Clock) := []
  names : Id → Option Wid := fun _ => none

/-- Put one more event. -/
def Feed.add (sha : CausalStore.HashInput Key Value Observer Clock → Id)
    (digest : WidInput Wid Key Value Observer Clock → Wid)
    (f : Feed Id Wid Key Value Observer Clock)
    (e : CausalStore.Event Id Key Value Observer Clock) : Feed Id Wid Key Value Observer Clock :=
  let w := ofEvent f.names e
  { puts := f.puts ++ [w]
    names := Function.update f.names (e.eventId sha) (some (w.wid digest)) }

/-- Put the events of a log, first to last. -/
def feed (sha : CausalStore.HashInput Key Value Observer Clock → Id)
    (digest : WidInput Wid Key Value Observer Clock → Wid)
    (log : List (CausalStore.Event Id Key Value Observer Clock)) :
    Feed Id Wid Key Value Observer Clock :=
  log.foldl (Feed.add sha digest) {}

variable {sha : CausalStore.HashInput Key Value Observer Clock → Id}
variable {digest : WidInput Wid Key Value Observer Clock → Wid}
variable {log : List (CausalStore.Event Id Key Value Observer Clock)}

theorem feed_concat (e : CausalStore.Event Id Key Value Observer Clock) :
    feed sha digest (log ++ [e]) = (feed sha digest log).add sha digest e := by
  simp [feed]

/-! ## Names -/

/-- The names of a feed: each event of the log under the id its put got, and nothing else. -/
structure Named (sha : CausalStore.HashInput Key Value Observer Clock → Id)
    (digest : WidInput Wid Key Value Observer Clock → Wid)
    (log : List (CausalStore.Event Id Key Value Observer Clock))
    (f : Feed Id Wid Key Value Observer Clock) : Prop where
  puts_eq : f.puts = log.map (ofEvent f.names)
  name_eq : ∀ e ∈ log, f.names (e.eventId sha) = some ((ofEvent f.names e).wid digest)
  known : ∀ i j, f.names i = some j → ∃ e ∈ log, e.eventId sha = i

omit [DecidableEq Id] in
theorem Named.empty : Named sha digest ([] : List (CausalStore.Event Id Key Value Observer Clock))
    {} where
  puts_eq := rfl
  name_eq e he := by cases he
  known i j h := by cases h

omit [DecidableEq Wid] in
/-- An event whose edges avoid an id is put alike whatever name that id gets. -/
theorem ofEvent_update {names : Id → Option Wid} {i : Id} {j : Option Wid}
    {e : CausalStore.Event Id Key Value Observer Clock} (h : i ∉ e.supersedes) :
    ofEvent (Function.update names i j) e = ofEvent names e := by
  unfold ofEvent
  congr 1
  apply List.filterMap_congr
  intro p hp
  have hne : p ≠ i := by
    rintro rfl
    exact h hp
  exact Function.update_of_ne hne _ _

/-- Events of a log name older ones, so a new event keeps the names. -/
theorem Named.add {f : Feed Id Wid Key Value Observer Clock} (h : Named sha digest log f)
    {e : CausalStore.Event Id Key Value Observer Clock}
    (hfresh : ∀ g ∈ log, g.eventId sha ≠ e.eventId sha)
    (hold : ∀ g ∈ log, e.eventId sha ∉ g.supersedes) (hself : e.eventId sha ∉ e.supersedes) :
    Named sha digest (log ++ [e]) (f.add sha digest e) where
  puts_eq := by
    show f.puts ++ [ofEvent f.names e] = _
    rw [List.map_append, List.map_singleton, h.puts_eq]
    congr 1
    · apply List.map_congr_left
      intro g hg
      exact (ofEvent_update (hold g hg)).symm
    · exact congrArg (fun w => [w]) (ofEvent_update hself).symm
  name_eq g hg := by
    rcases List.mem_append.mp hg with hg | hg
    · show Function.update f.names _ _ _ = some ((ofEvent (Function.update f.names _ _) g).wid digest)
      rw [Function.update_of_ne (hfresh g hg), ofEvent_update (hold g hg)]
      exact h.name_eq g hg
    · obtain rfl := List.mem_singleton.mp hg
      show Function.update f.names _ _ _ = some ((ofEvent (Function.update f.names _ _) g).wid digest)
      rw [Function.update_self, ofEvent_update hself]
  known i j hij := by
    by_cases hi : i = e.eventId sha
    · exact ⟨e, by simp, hi.symm⟩
    · change Function.update f.names (e.eventId sha) _ i = some j at hij
      rw [Function.update_of_ne hi] at hij
      obtain ⟨g, hg, hid⟩ := h.known i j hij
      exact ⟨g, List.mem_append_left _ hg, hid⟩

/-! ## The memory behind the names -/

omit [DecidableEq Id] in
/-- One content is one body. -/
theorem eventId_of_content {names names' : Id → Option Wid}
    {e g : CausalStore.Event Id Key Value Observer Clock}
    (h : (ofEvent names e).content = (ofEvent names' g).content) :
    e.eventId sha = g.eventId sha := by
  unfold CausalStore.Body.eventId
  rw [show e.key = g.key from congrArg WidInput.key h,
    show e.value = g.value from congrArg WidInput.value h,
    show e.originNode = g.originNode from congrArg WidInput.observer h,
    show e.clock = g.clock from congrArg WidInput.clock h]

section Names

variable {f : Feed Id Wid Key Value Observer Clock}
variable {e g : CausalStore.Event Id Key Value Observer Clock}

omit [DecidableEq Id] in
theorem Named.mem_puts (h : Named sha digest log f) (he : e ∈ log) : ofEvent f.names e ∈ f.puts := by
  rw [h.puts_eq]
  exact List.mem_map_of_mem he

omit [DecidableEq Id] in
/-- The ids of the two stores tell the same events of a log apart. -/
theorem Named.same_iff (h : Named sha digest log f) (hdigest : CollisionFree digest f.puts)
    (he : e ∈ log) (hg : g ∈ log) :
    (ofEvent f.names e).wid digest = (ofEvent f.names g).wid digest ↔
      e.eventId sha = g.eventId sha := by
  constructor
  · exact fun hwid => eventId_of_content (hdigest _ (h.mem_puts he) _ (h.mem_puts hg) hwid)
  · intro hid
    have hname := h.name_eq e he
    rw [hid, h.name_eq g hg] at hname
    exact (Option.some_inj.mp hname).symm

omit [DecidableEq Id] in
/-- A translated edge names the put of the event the edge leads to. -/
theorem Named.mem_preds (h : Named sha digest log f) (hdigest : CollisionFree digest f.puts)
    (he : e ∈ log) :
    (ofEvent f.names e).wid digest ∈ (ofEvent f.names g).preds ↔ e.eventId sha ∈ g.supersedes := by
  show _ ∈ g.supersedes.filterMap f.names ↔ _
  rw [List.mem_filterMap]
  constructor
  · intro hin
    obtain ⟨p, hp, hname⟩ := hin
    obtain ⟨x, hx, rfl⟩ := h.known p _ hname
    rw [h.name_eq x hx, Option.some_inj, h.same_iff hdigest hx he] at hname
    rwa [← hname]
  · exact fun hin => ⟨_, hin, h.name_eq e he⟩

end Names

variable [DecidableEq Key]

/-! ## Puts that are all accepted -/

section Accepted

variable {W : Type} {o : Ordering Clock W} {s : CausalMemory Wid Key Value Observer Clock W}
variable {ws : List (Write Wid Key Value Observer Clock)} {w : Write Wid Key Value Observer Clock}

/-- After these puts, all of them admitted and none a retry, the memory holds just them, each key in
their order. -/
structure Holds (digest : WidInput Wid Key Value Observer Clock → Wid) (o : Ordering Clock W)
    (ws : List (Write Wid Key Value Observer Clock)) : Prop where
  admitted : AllAdmitted digest o ws
  stored : ∀ w ∈ ws, (deliver digest o ws).writes (w.wid digest) = some w
  listed : ∀ key, (deliver digest o ws).writesForKey key = ws.filter fun w => decide (w.key = key)

theorem Holds.empty : Holds digest o [] where
  admitted := by
    intro e he
    cases he
  stored w hw := by cases hw
  listed _ := rfl

theorem put_accepted (ok : Accepts digest o s w) :
    s.put digest o w = (s.record digest w, .admitted (w.wid digest) (w.provenance digest)) := by
  unfold put
  rw [ok.fresh, (checkPreds_eq_none w.preds).mpr ok.valid]

theorem Holds.add (h : Holds digest o ws) (ok : Accepts digest o (deliver digest o ws) w) :
    Holds digest o (ws ++ [w]) where
  admitted := by
    unfold AllAdmitted
    rw [List.map_append, List.map_singleton, Machine.trace_concat, List.forall_mem_append,
      List.forall_mem_singleton]
    refine ⟨h.admitted, ?_⟩
    show ((deliver digest o ws).put digest o w).2.verdict = .admitted
    rw [put_accepted ok]
    rfl
  stored v hv := by
    rw [deliver_concat, put_accepted ok]
    rw [List.mem_append, List.mem_singleton] at hv
    rcases hv with hv | rfl
    · exact writes_record ok.fresh (h.stored v hv)
    · exact Function.update_self _ _ _
  listed key := by
    rw [deliver_concat, put_accepted ok, List.filter_append, ← h.listed key]
    exact (inv_deliver ws).writesForKey_record ok key

end Accepted

/-! ## The log of the store -/

section Store

variable {W W' : Type} {o : CausalStore.Ordering (CausalStore.Body Key Value Observer Clock) W}
variable {o' : Ordering Clock W'}

omit [DecidableEq Id] in
/-- An event whose edges lead to older events that are before it is accepted. -/
theorem accepts_event (hbefore : ∀ a b, o.Before a b ↔ o'.Before a.clock b.clock)
    {f : Feed Id Wid Key Value Observer Clock}
    {e : CausalStore.Event Id Key Value Observer Clock}
    (hn : Named sha digest log f) (hh : Holds digest o' f.puts)
    (hdigest : CollisionFree digest (f.puts ++ [ofEvent f.names e]))
    (hfresh : ∀ g ∈ log, g.eventId sha ≠ e.eventId sha)
    (hedges : ∀ p ∈ e.supersedes, ∃ pe ∈ log, pe.eventId sha = p ∧ o.Before pe.toBody e.toBody) :
    Accepts digest o' (deliver digest o' f.puts) (ofEvent f.names e) where
  fresh := by
    by_contra hne
    obtain ⟨v, hv⟩ := Option.ne_none_iff_exists'.mp hne
    have hwid := (inv_deliver f.puts).wid_eq _ v hv
    have hput := mem_of_stored hv
    have hcontent := hdigest v (List.mem_append_left _ hput) (ofEvent f.names e) (by simp) hwid
    rw [hn.puts_eq] at hput
    obtain ⟨g, hg, rfl⟩ := List.mem_map.mp hput
    exact hfresh g hg (eventId_of_content hcontent)
  valid := by
    intro j hj
    obtain ⟨p, hp, hname⟩ := List.mem_filterMap.mp hj
    obtain ⟨pe, hpe, rfl, hb⟩ := hedges p hp
    rw [hn.name_eq pe hpe, Option.some_inj] at hname
    subst hname
    exact ⟨_, hh.stored _ (hn.mem_puts hpe), (hbefore _ _).mp hb⟩

/-- **Every event of the log is accepted in turn.** -/
theorem holds_run (ho : o.Exhaustive) (hbefore : ∀ a b, o.Before a b ↔ o'.Before a.clock b.clock)
    (calls : List (CausalStore.WriteCall Id Key Value Observer Clock))
    (hdigest : CollisionFree digest
      (feed sha digest ((CausalStore.machine sha o).run calls).backend.allEvents).puts) :
    Named sha digest ((CausalStore.machine sha o).run calls).backend.allEvents
      (feed sha digest ((CausalStore.machine sha o).run calls).backend.allEvents) ∧
    Holds digest o'
      (feed sha digest ((CausalStore.machine sha o).run calls).backend.allEvents).puts := by
  induction calls using List.reverseRecOn with
  | nil => exact ⟨.empty, .empty⟩
  | append_singleton calls c ih =>
      have hinv : CausalStore.Inv sha o ((CausalStore.machine sha o).run calls) :=
        CausalStore.inv_run ho calls
      have hinv' : CausalStore.Inv sha o ((CausalStore.machine sha o).run (calls ++ [c])) :=
        CausalStore.inv_run ho _
      rw [Machine.run_concat] at hdigest hinv' ⊢
      generalize (CausalStore.machine sha o).run calls = s at *
      rcases CausalStore.next_allEvents ho s c with hsame | ⟨e, hgrown⟩
      · rw [hsame] at hdigest ⊢
        exact ih hdigest
      · have hfresh : ∀ g ∈ s.backend.allEvents, g.eventId sha ≠ e.eventId sha := by
          have hnodup := hinv'.idsNodup
          rw [hgrown, List.map_append, List.nodup_append] at hnodup
          intro g hg
          exact hnodup.2.2 _ (List.mem_map_of_mem hg) _ (by simp)
        have hedges := hinv'.earlier s.backend.allEvents e [] hgrown
        have hself : e.eventId sha ∉ e.supersedes := by
          intro hin
          obtain ⟨pe, hpe, hid, -⟩ := hedges _ hin
          exact hfresh pe hpe hid
        have hold : ∀ g ∈ s.backend.allEvents, e.eventId sha ∉ g.supersedes := by
          intro g hg hin
          obtain ⟨pe, hpe, hid, -⟩ := hinv.edge hg hin
          exact hfresh pe hpe hid
        rw [hgrown, feed_concat] at hdigest ⊢
        obtain ⟨hn, hh⟩ := ih fun v hv w hw =>
          hdigest v (List.mem_append_left _ hv) w (List.mem_append_left _ hw)
        exact ⟨hn.add hfresh hold hself,
          hh.add (accepts_event hbefore hn hh hdigest hfresh hedges)⟩

/-! ## Reads -/

variable {s : CausalStore Id Key Value Observer Clock}

/-- The candidates of the memory are the puts of the frontier of the store, in its order. -/
theorem frontier_feed {f : Feed Id Wid Key Value Observer Clock}
    (hn : Named sha digest s.backend.allEvents f) (hh : Holds digest o' f.puts)
    (hdigest : CollisionFree digest f.puts) (key : Key) :
    (deliver digest o' f.puts).frontier digest key =
      (s.frontier sha key).map (ofEvent f.names) := by
  have hlisted : (deliver digest o' f.puts).writesForKey key =
      (s.backend.eventsForKey key).map (ofEvent f.names) := by
    rw [hh.listed, hn.puts_eq, List.filter_map]
    show _ = (s.backend.byKey key).map _
    rw [s.backend.byKey_eq]
    rfl
  unfold frontier CausalStore.frontier
  dsimp only
  rw [hlisted, List.filter_map]
  congr 1
  apply List.filter_congr
  intro e he
  have hmem : ∀ {g}, g ∈ s.backend.eventsForKey key → g ∈ s.backend.allEvents :=
    fun hg => (CausalStore.InMemoryBackend.mem_eventsForKey.mp hg).1
  show (!((s.backend.eventsForKey key).map (ofEvent f.names)).any _) = _
  rw [List.any_map]
  congr 1
  rw [Bool.eq_iff_iff, List.any_eq_true, List.any_eq_true]
  apply exists_congr
  intro g
  apply and_congr_right
  intro hg
  simp only [Function.comp_apply, Bool.and_eq_true, decide_eq_true_eq, ne_eq]
  rw [hn.same_iff hdigest (hmem hg) (hmem he), hn.mem_preds hdigest (hmem he)]

/-- The answer of the store in the words of the memory. -/
def statusOf : CausalStore.Status → Status
  | .empty => .empty
  | .resolved => .resolved
  | .conflict => .conflict

/-- The candidates a reader is offered. -/
def ReadResult.candidates : ReadResult Wid Key Value Observer Clock →
    List (Provenance Wid Key Value Observer Clock)
  | .empty _ => []
  | .resolved _ _ p => [p]
  | .conflict _ ps _ => ps

omit [DecidableEq Key] in
theorem candidates_get (m : CausalMemory Wid Key Value Observer Clock W) (key : Key) :
    ReadResult.candidates (m.get digest key) =
      (m.frontier digest key).map fun w => w.provenance digest := by
  unfold get
  rcases m.frontier digest key with _ | ⟨w, _ | ⟨v, ws⟩⟩ <;> rfl

theorem status_feed {f : Feed Id Wid Key Value Observer Clock}
    (hn : Named sha digest s.backend.allEvents f) (hh : Holds digest o' f.puts)
    (hdigest : CollisionFree digest f.puts) (key : Key) :
    ((deliver digest o' f.puts).get digest key).status = statusOf (s.read sha key).status := by
  rw [status_get, CausalStore.status_read, frontier_feed hn hh hdigest, List.length_map]
  rcases (s.frontier sha key).length with _ | _ | n <;> rfl

/-- Every candidate of one is the translation of the candidate of the other at its place. -/
theorem candidates_feed {f : Feed Id Wid Key Value Observer Clock}
    (hn : Named sha digest s.backend.allEvents f) (hh : Holds digest o' f.puts)
    (hdigest : CollisionFree digest f.puts) (key : Key) :
    (ReadResult.candidates ((deliver digest o' f.puts).get digest key)).map
        (fun p => (some p.wid, p.value, p.observer)) =
      (s.read sha key).candidates.map fun c => (f.names c.eventId, c.value, c.origin) := by
  rw [candidates_get, CausalStore.candidates_read, frontier_feed hn hh hdigest, List.map_map,
    List.map_map, List.map_map]
  apply List.map_congr_left
  intro e he
  show (some _, e.value, e.originNode) = (f.names (e.eventId sha), e.value, e.originNode)
  rw [hn.name_eq e (CausalStore.mem_frontier.mp he).1.1]
  rfl

end Store

/-- Events ordered by their vector clocks. -/
abbrev clockEvents (Key Value Observer Node : Type) [DecidableEq Node] :
    CausalStore.Ordering (CausalStore.Body Key Value Observer (VClock Node))
      (VClock Node × VClock Node) :=
  CausalStore.logicalOrdering.comap CausalStore.Body.clock

omit [DecidableEq Key] in
/-- The two modules decide vector clocks alike. -/
theorem clockEvents_before_iff [DecidableEq Node]
    (a b : CausalStore.Body Key Value Observer (VClock Node)) :
    (clockEvents Key Value Observer Node).Before a b ↔ logicalOrdering.Before a.clock b.clock :=
  CausalStore.LogicalOrdering.before_iff.trans VClock.happensBefore_iff.symm

omit [DecidableEq Id] [DecidableEq Wid] in
/-- Edges that all have a name are all translated. -/
theorem map_some_filterMap {names : Id → Option Wid} {ps : List Id}
    (h : ∀ p ∈ ps, ∃ j, names p = some j) : (ps.filterMap names).map some = ps.map names := by
  induction ps with
  | nil => rfl
  | cons p ps ih =>
      rw [List.forall_mem_cons] at h
      obtain ⟨⟨j, hj⟩, hrest⟩ := h
      rw [List.filterMap_cons, hj, List.map_cons, List.map_cons, ih hrest, hj]

/-- **The memory simulates the store under vector clocks.** After any calls to the store: each event
it admitted, put into the memory in turn with its recorded edges, is admitted; no edge is lost on
the way; putting an event once more changes nothing; and the two read alike in every key. -/
theorem memory_simulates_store [DecidableEq Node]
    {sha : CausalStore.HashInput Key Value Observer (VClock Node) → Id}
    {digest : WidInput Wid Key Value Observer (VClock Node) → Wid}
    (calls : List (CausalStore.WriteCall Id Key Value Observer (VClock Node))) :
    let s := (CausalStore.machine sha (clockEvents Key Value Observer Node)).run calls
    let f := feed sha digest s.backend.allEvents
    let m := deliver digest logicalOrdering f.puts
    CollisionFree digest f.puts →
    AllAdmitted digest logicalOrdering f.puts ∧
    f.puts = s.backend.allEvents.map (ofEvent f.names) ∧
    (∀ e ∈ s.backend.allEvents, (ofEvent f.names e).preds.map some = e.supersedes.map f.names ∧
      (m.put digest logicalOrdering (ofEvent f.names e)).1 = m) ∧
    ∀ key, (m.get digest key).status = statusOf (s.read sha key).status ∧
      (ReadResult.candidates (m.get digest key)).map (fun p => (some p.wid, p.value, p.observer)) =
        (s.read sha key).candidates.map fun c => (f.names c.eventId, c.value, c.origin) := by
  intro s f m hdigest
  have ho : (clockEvents Key Value Observer Node).Exhaustive := fun a b =>
    CausalStore.logicalOrdering_lawful.exhaustive a.clock b.clock
  obtain ⟨hn, hh⟩ := holds_run ho clockEvents_before_iff calls hdigest
  refine ⟨hh.admitted, hn.puts_eq, ?_, fun key =>
    ⟨status_feed hn hh hdigest key, candidates_feed hn hh hdigest key⟩⟩
  intro e he
  have hinv : CausalStore.Inv sha (clockEvents Key Value Observer Node) s :=
    CausalStore.inv_run ho calls
  constructor
  · apply map_some_filterMap
    intro p hp
    obtain ⟨pe, hpe, rfl, -⟩ := hinv.edge he hp
    exact ⟨_, hn.name_eq pe hpe⟩
  · rw [put_retry (hh.stored _ (hn.mem_puts he)) rfl]

/-! ### A value and its successor -/

/-- The store infers that the second write supersedes the first, and the memory is told so. -/
theorem memory_simulates_store_stale :
    let s := (CausalStore.machine id (clockEvents Nat Nat Nat Nat)).run CausalStore.staleCalls
    let f := feed id valueWid s.backend.allEvents
    ((deliver valueWid logicalOrdering f.puts).get valueWid 0).status =
      statusOf (s.read id 0).status :=
  ((memory_simulates_store CausalStore.staleCalls
    (by unfold CollisionFree; decide)).2.2.2 0).1

end HorizonProtocol.Mnemesis.CausalMemory
