import HorizonProtocol.Ledger.Runs
import HorizonProtocol.Mnemesis.Delivery
import HorizonProtocol.Mnemesis.Runs

/-!
# The memory and the ledger are one order

Two gates written apart: `put` checks the claims of a write against the light-cone ordering, and
`add_edge` checks an edge between recorded events. Each put of a geometric memory is mirrored in a
ledger, as a new event and an edge from each write it claims (`mirror`).

* `mirrorEdges_spec` — the ledger admits just the edges the ordering of the memory allows.
* `Mirrors` — between puts: edges leave stored writes only, and those into a stored write are what
  it names. A refused write may get some edges, but nothing ever leaves it.
* `memory_ledger_bridge` — over whole runs, the two gates decide alike and `precedes` is the closure
  of what the memory recorded.
-/

namespace HorizonProtocol.Mnemesis.CausalMemory

variable {Wid Key Value Observer Ref : Type} [DecidableEq Wid]
variable {digest : WidInput Wid Key Value Observer Stamp → Wid}

/-! ## The mirror -/

/-- An edge to `i` from each claimed write, with the answers of the gate. -/
def mirrorEdges (i : Wid) : List Wid → CausalLedger Wid Ref →
    CausalLedger Wid Ref × List (Except (LedgerError Wid) (EdgeRecord Wid))
  | [], l => (l, [])
  | p :: ps, l =>
      let r := l.addEdge p i
      let rest := mirrorEdges i ps r.1
      (rest.1, r.2 :: rest.2)

/-- A put in the ledger: its event, and then its edges. -/
def mirror (digest : WidInput Wid Key Value Observer Stamp → Wid) (l : CausalLedger Wid Ref)
    (w : Write Wid Key Value Observer Stamp) :
    CausalLedger Wid Ref × List (Except (LedgerError Wid) (EdgeRecord Wid)) :=
  mirrorEdges (w.wid digest) w.preds
    (l.addEvent (w.wid digest) w.clock.timeNs w.clock.posNm).1

/-- Puts in the ledger, first to last. -/
def ledgerOf (Ref : Type) (digest : WidInput Wid Key Value Observer Stamp → Wid)
    (ws : List (Write Wid Key Value Observer Stamp)) : CausalLedger Wid Ref :=
  ws.foldl (fun l w => (mirror digest l w).1) {}

theorem ledgerOf_concat (ws : List (Write Wid Key Value Observer Stamp))
    (w : Write Wid Key Value Observer Stamp) :
    ledgerOf Ref digest (ws ++ [w]) = (mirror digest (ledgerOf Ref digest ws) w).1 := by
  simp [ledgerOf]

/-- **The gate of the ledger, over the claims of one write**: it never raises, and admits the edges
from events that are before. -/
theorem mirrorEdges_spec {i : Wid} (ps : List Wid) (l : CausalLedger Wid Ref)
    (hi : (l.events i).isSome) (hps : ∀ p ∈ ps, (l.events p).isSome) :
    (mirrorEdges i ps l).1.events = l.events ∧
    List.Forall₂ (fun p r => ∃ rec, r = .ok rec ∧ (rec.verdict = .admitted ↔ l.RecordedLater p i))
      ps (mirrorEdges i ps l).2 ∧
    ∀ x y, (mirrorEdges i ps l).1.Edge x y ↔
      l.Edge x y ∨ (y = i ∧ x ∈ ps ∧ l.RecordedLater x i) := by
  induction ps generalizing l with
  | nil => exact ⟨rfl, .nil, fun x y => by simp [mirrorEdges]⟩
  | cons p ps ih =>
      rw [List.forall_mem_cons] at hps
      obtain ⟨ei, hei⟩ := Option.isSome_iff_exists.mp hi
      obtain ⟨ep, hep⟩ := Option.isSome_iff_exists.mp hps.1
      obtain ⟨hrec, hevents, hedge⟩ := l.addEdge_recorded hep hei
      have hlater : ep.Later ei ↔ l.RecordedLater p i := by
        simp [CausalLedger.RecordedLater, hep, hei]
      have hsame : ∀ x, (l.addEdge p i).1.RecordedLater x i ↔ l.RecordedLater x i := by
        intro x
        unfold CausalLedger.RecordedLater
        rw [hevents]
      obtain ⟨hevents', hrecs, hedge'⟩ := ih (l.addEdge p i).1 (hevents ▸ hi)
        (fun q hq => hevents ▸ hps.2 q hq)
      simp only [hsame] at hrecs hedge'
      rw [hlater] at hrec
      refine ⟨hevents'.trans hevents, .cons hrec hrecs, fun x y => ?_⟩
      show (mirrorEdges i ps (l.addEdge p i).1).1.Edge x y ↔ _
      rw [hedge', hedge, hlater, List.mem_cons]
      constructor
      · rintro ((hold | ⟨hbefore, rfl, rfl⟩) | ⟨rfl, hx, hbefore⟩)
        · exact Or.inl hold
        · exact Or.inr ⟨rfl, Or.inl rfl, hbefore⟩
        · exact Or.inr ⟨rfl, Or.inr hx, hbefore⟩
      · rintro (hold | ⟨rfl, rfl | hx, hbefore⟩)
        · exact Or.inl (Or.inl hold)
        · exact Or.inl (Or.inr ⟨hbefore, rfl, rfl⟩)
        · exact Or.inr ⟨rfl, hx, hbefore⟩

/-! ## Between puts -/

/-- A memory and its mirror after the puts `ws`. -/
structure Mirrors (digest : WidInput Wid Key Value Observer Stamp → Wid)
    (ws : List (Write Wid Key Value Observer Stamp))
    (m : CausalMemory Wid Key Value Observer Stamp AdmissibilityWitness)
    (l : CausalLedger Wid Ref) : Prop where
  /-- The events are the writes submitted, at their stamps. -/
  event : ∀ i, (l.events i).isSome → i ∈ ws.map fun w => w.wid digest
  stamp : ∀ i w, m.writes i = some w → l.events i = some w.clock
  /-- An edge leaves a stored write and leads to an event. -/
  tail : ∀ p i, l.Edge p i → (m.writes p).isSome ∧ (l.events i).isSome
  /-- The edges into a stored write are what it names. -/
  edge_iff : ∀ p i w, m.writes i = some w → (l.Edge p i ↔ p ∈ w.preds)

variable {ws : List (Write Wid Key Value Observer Stamp)}
variable {m : CausalMemory Wid Key Value Observer Stamp AdmissibilityWitness}
variable {l : CausalLedger Wid Ref} {w : Write Wid Key Value Observer Stamp}

theorem Mirrors.empty : Mirrors digest ([] : List (Write Wid Key Value Observer Stamp)) {}
    ({} : CausalLedger Wid Ref) where
  event i h := by cases h
  stamp i w h := by cases h
  tail p i h := absurd h (Finset.notMem_empty _)
  edge_iff p i w h := by cases h

/-- **Paths of the ledger into a stored write are chains of what the memory recorded.** -/
theorem Mirrors.transGen_iff (h : Mirrors digest ws m l) {a b : Wid} (hb : (m.writes b).isSome) :
    Relation.TransGen l.Edge a b ↔ Relation.TransGen (fun p i => Names m i p) a b := by
  constructor
  · intro hpath
    induction hpath with
    | single hab =>
        obtain ⟨w, hw⟩ := Option.isSome_iff_exists.mp hb
        exact .single ⟨w, hw, (h.edge_iff _ _ w hw).mp hab⟩
    | tail _ hbc ih =>
        -- the last edge leaves a stored write, so the path before it is one of the memory's too
        obtain ⟨w, hw⟩ := Option.isSome_iff_exists.mp hb
        exact .tail (ih (h.tail _ _ hbc).1) ⟨w, hw, (h.edge_iff _ _ w hw).mp hbc⟩
  · intro hchain
    refine Relation.TransGen.mono (fun p i hnames => ?_) a b hchain
    obtain ⟨w, hw, hp⟩ := hnames
    exact (h.edge_iff p i w hw).mpr hp

/-- A put is new when its id was never submitted, and grounded when all it claims is stored. -/
structure FirstSubmission (digest : WidInput Wid Key Value Observer Stamp → Wid)
    (ws : List (Write Wid Key Value Observer Stamp))
    (m : CausalMemory Wid Key Value Observer Stamp AdmissibilityWitness)
    (w : Write Wid Key Value Observer Stamp) : Prop where
  new : w.wid digest ∉ ws.map fun v => v.wid digest
  grounded : ∀ p ∈ w.preds, (m.writes p).isSome

/-- The light cone lets `w` claim the stored write `p`. -/
def Allowed (m : CausalMemory Wid Key Value Observer Stamp AdmissibilityWitness)
    (w : Write Wid Key Value Observer Stamp) (p : Wid) : Prop :=
  ∃ v, m.writes p = some v ∧ geometricOrdering.Before v.clock w.clock

/-- What the ledger makes of a first submission: an event, and an edge from each claimed write that
may be claimed. -/
structure Mirrored (digest : WidInput Wid Key Value Observer Stamp → Wid)
    (m : CausalMemory Wid Key Value Observer Stamp AdmissibilityWitness)
    (l : CausalLedger Wid Ref) (w : Write Wid Key Value Observer Stamp) : Prop where
  recorded : (l.addEvent (w.wid digest) w.clock.timeNs w.clock.posNm).2 = .ok ()
  events : (mirror digest l w).1.events = Function.update l.events (w.wid digest) (some w.clock)
  answers : List.Forall₂ (fun p r => ∃ rec, r = .ok rec ∧
    (rec.verdict = .admitted ↔ Allowed m w p)) w.preds (mirror digest l w).2
  edge_iff : ∀ x y, (mirror digest l w).1.Edge x y ↔
    l.Edge x y ∨ (y = w.wid digest ∧ x ∈ w.preds ∧ Allowed m w x)

theorem Mirrors.unknown (h : Mirrors digest ws m l) (hf : FirstSubmission digest ws m w) :
    l.events (w.wid digest) = none := by
  by_contra hne
  exact hf.new (h.event _ (Option.isSome_iff_ne_none.mpr hne))

theorem Mirrors.fresh (h : Mirrors digest ws m l) (hf : FirstSubmission digest ws m w) :
    m.writes (w.wid digest) = none := by
  by_contra hne
  obtain ⟨v, hv⟩ := Option.ne_none_iff_exists'.mp hne
  have hknown := h.stamp _ v hv
  rw [h.unknown hf] at hknown
  cases hknown

/-- **The two gates ask the same question.** -/
theorem Mirrors.mirrored (h : Mirrors digest ws m l) (hf : FirstSubmission digest ws m w) :
    Mirrored digest m l w := by
  have hadd : l.addEvent (w.wid digest) w.clock.timeNs w.clock.posNm =
      ({ l with events := Function.update l.events (w.wid digest) (some w.clock) }, .ok ()) := by
    unfold CausalLedger.addEvent
    rw [h.unknown hf]
  have hstored : ∀ p ∈ w.preds, ∃ v, m.writes p = some v ∧
      Function.update l.events (w.wid digest) (some w.clock) p = some v.clock := by
    intro p hp
    obtain ⟨v, hv⟩ := Option.isSome_iff_exists.mp (hf.grounded p hp)
    have hne : p ≠ w.wid digest := by
      rintro rfl
      rw [h.fresh hf] at hv
      cases hv
    exact ⟨v, hv, by rw [Function.update_of_ne hne, h.stamp p v hv]⟩
  have hspec := mirrorEdges_spec (i := w.wid digest) w.preds
    (l.addEvent (w.wid digest) w.clock.timeNs w.clock.posNm).1
    (by rw [hadd]; simp) (by
      intro p hp
      obtain ⟨v, -, hev⟩ := hstored p hp
      rw [hadd]
      show (Function.update l.events (w.wid digest) (some w.clock) p).isSome
      rw [hev]
      rfl)
  have hallowed : ∀ p ∈ w.preds,
      (l.addEvent (w.wid digest) w.clock.timeNs w.clock.posNm).1.RecordedLater p (w.wid digest) ↔
        Allowed m w p := by
    intro p hp
    obtain ⟨v, hv, hev⟩ := hstored p hp
    rw [hadd]
    simp [CausalLedger.RecordedLater, Allowed, hev, hv, geometricOrdering_before_iff]
  obtain ⟨hevents, hrecs, hedge⟩ := hspec
  refine ⟨by rw [hadd], ?_, ?_, ?_⟩
  · show (mirrorEdges _ _ _).1.events = _
    rw [hevents, hadd]
  · have hmem := (List.forall₂_and_left _ _).mpr ⟨fun p (hp : p ∈ w.preds) => hp, hrecs⟩
    refine hmem.imp fun p r hr => ?_
    obtain ⟨hp, rec, hok, hverdict⟩ := hr
    exact ⟨rec, hok, hverdict.trans (hallowed p hp)⟩
  · intro x y
    show (mirrorEdges _ _ _).1.Edge x y ↔ _
    rw [hedge]
    refine or_congr ?_ (and_congr_right' (and_congr_right (hallowed x)))
    rw [hadd]
    rfl

variable [DecidableEq Key]

/-- A first submission is refused exactly when one of its claims is not allowed. -/
theorem Mirrors.put_rejected_iff (h : Mirrors digest ws m l) (hf : FirstSubmission digest ws m w) :
    (m.put digest geometricOrdering w).2.verdict = .rejected ↔ ∃ p ∈ w.preds, ¬ Allowed m w p := by
  have hput := m.put_cases digest geometricOrdering w
  generalize (m.put digest geometricOrdering w).1 = m' at hput
  generalize (m.put digest geometricOrdering w).2 = r at hput ⊢
  cases hput with
  | retry known =>
      rw [h.fresh hf] at known
      cases known
  | refused _ why =>
      refine iff_of_true rfl ?_
      unfold Valid at why
      push Not at why
      obtain ⟨p, hp, hnot⟩ := why
      exact ⟨p, hp, fun hallowed => by
        obtain ⟨v, hv, hb⟩ := hallowed
        exact hnot v hv hb⟩
  | stored ok =>
      refine iff_of_false (fun hrej => ?_) (fun hbad => ?_)
      · cases hrej
      · obtain ⟨p, hp, hnot⟩ := hbad
        exact hnot (ok.valid p hp)

/-- **One put and its mirror keep the two views together.** -/
theorem Mirrors.put (h : Mirrors digest ws m l) (hf : FirstSubmission digest ws m w) :
    Mirrors digest (ws ++ [w]) (m.put digest geometricOrdering w).1 (mirror digest l w).1 := by
  have hm := h.mirrored hf
  have hput := m.put_cases digest geometricOrdering w
  generalize (m.put digest geometricOrdering w).1 = m' at hput ⊢
  generalize (m.put digest geometricOrdering w).2 = r at hput
  have hne : ∀ {i v}, m.writes i = some v → i ≠ w.wid digest := by
    intro i v hv hi
    rw [hi, h.fresh hf] at hv
    cases hv
  have hevent : ∀ i, ((mirror digest l w).1.events i).isSome →
      i ∈ (ws ++ [w]).map fun w => w.wid digest := by
    intro i hi
    rw [List.map_append, List.mem_append]
    by_cases hiw : i = w.wid digest
    · exact Or.inr (by simp [hiw])
    · rw [hm.events, Function.update_of_ne hiw] at hi
      exact Or.inl (h.event i hi)
  have hkept : ∀ {i}, (l.events i).isSome → ((mirror digest l w).1.events i).isSome := by
    intro i hi
    rw [hm.events]
    by_cases hiw : i = w.wid digest
    · rw [hiw, Function.update_self]
      rfl
    · rwa [Function.update_of_ne hiw]
  have hstamp : ∀ i v, m.writes i = some v → (mirror digest l w).1.events i = some v.clock := by
    intro i v hv
    rw [hm.events, Function.update_of_ne (hne hv)]
    exact h.stamp i v hv
  have hself : ((mirror digest l w).1.events (w.wid digest)).isSome := by
    rw [hm.events, Function.update_self]
    rfl
  have hold : ∀ p i v, m.writes i = some v →
      ((mirror digest l w).1.Edge p i ↔ p ∈ v.preds) := by
    intro p i v hv
    rw [hm.edge_iff, ← h.edge_iff p i v hv]
    simp [hne hv]
  cases hput with
  | retry known => exact absurd rfl (hne known)
  | refused _ why =>
      refine ⟨hevent, hstamp, fun p i hedge => ?_, hold⟩
      rcases (hm.edge_iff p i).mp hedge with hedge | ⟨rfl, hp, -⟩
      · exact ⟨(h.tail p i hedge).1, hkept (h.tail p i hedge).2⟩
      · exact ⟨hf.grounded p hp, hself⟩
  | stored ok =>
      have hgrown : ∀ {p}, (m.writes p).isSome → ((m.record digest w).writes p).isSome := by
        intro p hp
        obtain ⟨v, hv⟩ := Option.isSome_iff_exists.mp hp
        rw [writes_record ok.fresh hv]
        rfl
      refine ⟨hevent, fun i v hv => ?_, fun p i hedge => ?_, fun p i v hv => ?_⟩
      · rcases (writes_record_iff ok.fresh).mp hv with ⟨rfl, rfl⟩ | hv
        · rw [hm.events, Function.update_self]
        · exact hstamp i v hv
      · rcases (hm.edge_iff p i).mp hedge with hedge | ⟨rfl, hp, -⟩
        · exact ⟨hgrown (h.tail p i hedge).1, hkept (h.tail p i hedge).2⟩
        · exact ⟨hgrown (hf.grounded p hp), hself⟩
      · rcases (writes_record_iff ok.fresh).mp hv with ⟨rfl, rfl⟩ | hv
        · -- all of its claims were allowed, and no older edge could lead to it
          rw [hm.edge_iff]
          constructor
          · rintro (hedge | ⟨-, hp, -⟩)
            · have hknown := (h.tail p _ hedge).2
              rw [h.unknown hf] at hknown
              cases hknown
            · exact hp
          · exact fun hp => Or.inr ⟨rfl, hp, ok.valid p hp⟩
        · exact hold p i v hv

/-! ## Runs -/

/-- The puts that the calls of a run come to. -/
def submissions (digest : WidInput Wid Key Value Observer Stamp → Wid)
    (calls : List (Call Wid Key Value Observer Stamp)) :
    List (Write Wid Key Value Observer Stamp) :=
  ((machine digest geometricOrdering).trace calls).filterMap fun e =>
    e.state.submission digest e.call

/-- Every put of the run, its own or that of a resolution, is a first submission. -/
def FirstSubmissions (digest : WidInput Wid Key Value Observer Stamp → Wid)
    (calls : List (Call Wid Key Value Observer Stamp)) : Prop :=
  ∀ pre call, pre ++ [call] <+: calls →
    ∀ w, ((machine digest geometricOrdering).run pre).submission digest call = some w →
      FirstSubmission digest (submissions digest pre) ((machine digest geometricOrdering).run pre) w

theorem mirrors_run (Ref : Type) {calls : List (Call Wid Key Value Observer Stamp)}
    (hfirst : FirstSubmissions digest calls) :
    Mirrors digest (submissions digest calls) ((machine digest geometricOrdering).run calls)
      (ledgerOf Ref digest (submissions digest calls)) := by
  induction calls using List.reverseRecOn with
  | nil => exact .empty
  | append_singleton calls call ih =>
      specialize ih fun pre c hpre => hfirst pre c (hpre.trans (List.prefix_append _ _))
      have hnew := hfirst calls call (List.prefix_refl _)
      have hsubs : submissions digest (calls ++ [call]) = submissions digest calls ++
          (((machine digest geometricOrdering).run calls).submission digest call).toList := by
        unfold submissions
        rw [Machine.trace_concat, List.filterMap_append]
        congr 1
      rw [Machine.run_concat, next_submission, hsubs]
      cases hsub : ((machine digest geometricOrdering).run calls).submission digest call with
      | none =>
          rw [Option.toList_none, List.append_nil]
          exact ih
      | some w =>
          rw [Option.toList_some, ledgerOf_concat]
          exact ih.put (hnew w hsub)

omit [DecidableEq Wid] [DecidableEq Key] in
theorem mem_left_of_forall₂ {α β : Type} {R : α → β → Prop} {as : List α} {bs : List β}
    (h : List.Forall₂ R as bs) {b : β} (hb : b ∈ bs) : ∃ a ∈ as, R a b := by
  induction h with
  | nil => cases hb
  | cons hab _ ih =>
      rcases List.mem_cons.mp hb with rfl | hb
      · exact ⟨_, List.mem_cons_self, hab⟩
      · obtain ⟨a, ha, hab⟩ := ih hb
        exact ⟨a, List.mem_cons_of_mem _ ha, hab⟩

/-- A put and the ledger decide alike: the put is admitted with all its edges, or refused along with
one of them. -/
structure DecidesAlike (digest : WidInput Wid Key Value Observer Stamp → Wid)
    (m : CausalMemory Wid Key Value Observer Stamp AdmissibilityWitness)
    (l : CausalLedger Wid Ref) (w : Write Wid Key Value Observer Stamp) : Prop where
  recorded : (l.addEvent (w.wid digest) w.clock.timeNs w.clock.posNm).2 = .ok ()
  answered : ∀ r ∈ (mirror digest l w).2, ∃ rec, r = .ok rec
  admitted : (m.put digest geometricOrdering w).2.verdict = .admitted →
    ∀ r ∈ (mirror digest l w).2, ∃ rec, r = .ok rec ∧ rec.verdict = .admitted
  rejected_iff : (m.put digest geometricOrdering w).2.verdict = .rejected ↔
    ∃ rec, .ok rec ∈ (mirror digest l w).2 ∧ rec.verdict = .rejected

theorem Mirrors.decidesAlike (h : Mirrors digest ws m l) (hf : FirstSubmission digest ws m w) :
    DecidesAlike digest m l w := by
  have hm := h.mirrored hf
  have hrej := h.put_rejected_iff hf
  have hanswer : ∀ r ∈ (mirror digest l w).2, ∃ p ∈ w.preds, ∃ rec, r = .ok rec ∧
      (rec.verdict = .admitted ↔ Allowed m w p) := by
    intro r hr
    exact mem_left_of_forall₂ hm.answers hr
  have hclaim : ∀ p ∈ w.preds, ∃ rec, .ok rec ∈ (mirror digest l w).2 ∧
      (rec.verdict = .admitted ↔ Allowed m w p) := by
    intro p hp
    obtain ⟨r, hr, rec, rfl, hiff⟩ := mem_left_of_forall₂ hm.answers.flip hp
    exact ⟨rec, hr, hiff⟩
  refine ⟨hm.recorded, fun r hr => ?_, fun hadm r hr => ?_, ?_⟩
  · obtain ⟨p, hp, rec, hok, -⟩ := hanswer r hr
    exact ⟨rec, hok⟩
  · obtain ⟨p, hp, rec, hok, hiff⟩ := hanswer r hr
    refine ⟨rec, hok, hiff.mpr ?_⟩
    by_contra hnot
    rw [hrej.mpr ⟨p, hp, hnot⟩] at hadm
    cases hadm
  · rw [hrej]
    constructor
    · intro hbad
      obtain ⟨p, hp, hnot⟩ := hbad
      obtain ⟨rec, hmem, hiff⟩ := hclaim p hp
      refine ⟨rec, hmem, ?_⟩
      cases hv : rec.verdict with
      | admitted => exact absurd (hiff.mp hv) hnot
      | rejected => rfl
    · intro hbad
      obtain ⟨rec, hmem, hv⟩ := hbad
      obtain ⟨p, hp, rec', hok, hiff⟩ := hanswer _ hmem
      obtain rfl := Except.ok.inj hok
      refine ⟨p, hp, fun hallowed => ?_⟩
      rw [hiff.mpr hallowed] at hv
      cases hv

/-- **The memory and the ledger are two views of one order.** In every run whose puts are first
submissions of writes that claim stored writes, each put and its mirror decide alike, and after
every step `precedes` on stored writes is the transitive closure of the recorded predecessors. -/
theorem memory_ledger_bridge (Ref : Type) {calls : List (Call Wid Key Value Observer Stamp)}
    (hfirst : FirstSubmissions digest calls) :
    (∀ pre call, pre ++ [call] <+: calls →
      let m := (machine digest geometricOrdering).run pre
      ∀ w, m.submission digest call = some w →
        DecidesAlike digest m (ledgerOf Ref digest (submissions digest pre)) w) ∧
    (∀ pre, pre <+: calls →
      let m := (machine digest geometricOrdering).run pre
      ∀ order a b, (m.writes a).isSome → (m.writes b).isSome →
        ∃ r, (ledgerOf Ref digest (submissions digest pre)).precedes order a b = some r ∧
          (r = true ↔ Relation.TransGen (fun p i => Names m i p) a b)) := by
  have hrun : ∀ pre, pre <+: calls → Mirrors digest (submissions digest pre)
      ((machine digest geometricOrdering).run pre)
      (ledgerOf Ref digest (submissions digest pre)) :=
    fun pre hpre => mirrors_run Ref fun pre' call hpre' => hfirst pre' call (hpre'.trans hpre)
  constructor
  · intro pre call hpre m w hsub
    exact (hrun pre ((List.prefix_append _ _).trans hpre)).decidesAlike (hfirst pre call hpre w hsub)
  · intro pre hpre m order a b _ hb
    obtain ⟨r, hr, hiff⟩ :=
      (ledgerOf Ref digest (submissions digest pre)).precedes_iff order a b
    exact ⟨r, hr, hiff.trans ((hrun pre hpre).transGen_iff hb)⟩

/-! ### A claim and a false claim

The second write claims the first, from its future; the third claims it too, but from a place the
first cannot have reached. -/

/-- Here the value of a write is digest enough. -/
def valueOf (i : WidInput Nat Nat Nat Nat Stamp) : Nat := i.value

def writeAt (value : Nat) (timeNs x : Int) (preds : List Nat) : Write Nat Nat Nat Nat Stamp where
  key := 0
  value := value
  observer := 0
  clock := ⟨timeNs, ⟨x, 0, 0⟩⟩
  preds := preds

def claims : List (Call Nat Nat Nat Nat Stamp) :=
  [.put (writeAt 1 0 0 []), .put (writeAt 2 10 0 [1]), .put (writeAt 3 0 1 [1])]

theorem claims_first : FirstSubmissions valueOf claims := by
  intro pre call hpre w hw
  unfold claims at hpre
  rcases pre with _ | ⟨c1, _ | ⟨c2, _ | ⟨c3, pre⟩⟩⟩ <;>
    simp only [List.nil_append, List.cons_append, List.cons_prefix_cons] at hpre
  · obtain ⟨rfl, -⟩ := hpre
    obtain rfl := Option.some_inj.mp hw
    exact ⟨by decide, by decide⟩
  · obtain ⟨rfl, rfl, -⟩ := hpre
    obtain rfl := Option.some_inj.mp hw
    exact ⟨by decide, by decide⟩
  · obtain ⟨rfl, rfl, rfl, -⟩ := hpre
    obtain rfl := Option.some_inj.mp hw
    exact ⟨by decide, by decide⟩
  · obtain ⟨-, -, -, hpre⟩ := hpre
    simp at hpre

/-- The false claim is refused by both gates. -/
theorem memory_ledger_bridge_false_claim :
    let m := (machine valueOf geometricOrdering).run (claims.take 2)
    let l := ledgerOf Nat valueOf (submissions valueOf (claims.take 2))
    ∃ rec, .ok rec ∈ (mirror valueOf l (writeAt 3 0 1 [1])).2 ∧ rec.verdict = .rejected ∧
      (m.put valueOf geometricOrdering (writeAt 3 0 1 [1])).2.verdict = .rejected := by
  intro m l
  have hrej : (m.put valueOf geometricOrdering (writeAt 3 0 1 [1])).2.verdict = .rejected := by
    decide
  obtain ⟨rec, hmem, hverdict⟩ := ((memory_ledger_bridge Nat claims_first).1 (claims.take 2) _
    (List.prefix_refl _) _ rfl).rejected_iff.mp hrej
  exact ⟨rec, hmem, hverdict, hrej⟩

end HorizonProtocol.Mnemesis.CausalMemory
