import HorizonProtocol.Frontier
import HorizonProtocol.Mnemesis.Memory

/-!
# Which writes a read of the memory shows

`Puts` says what a `put` can do, and `Inv` what holds between the collections after any run: every
stored write names only stored writes that are causally before it. The candidates of a key are then
the maximal stored writes under "is named by" (`Inv.mem_frontier_iff`). That is not the causal
order: a write that does not name a candidate causally before it leaves that candidate beside it.

* `never_stale_iff` — the exact condition on the puts of a run under which no read of it ever shows
  a stale value, for both orderings.
-/

namespace HorizonProtocol.Mnemesis.CausalMemory

variable {Wid Key Value Observer Clock W : Type} [DecidableEq Wid]
variable {digest : WidInput Wid Key Value Observer Clock → Wid} {o : Ordering Clock W}
variable {s : CausalMemory Wid Key Value Observer Clock W}
variable {v w : Write Wid Key Value Observer Clock} {key : Key}

/-! ## The invariant -/

/-- Every predecessor the write claims is stored and causally before it. -/
def Valid (o : Ordering Clock W) (s : CausalMemory Wid Key Value Observer Clock W)
    (w : Write Wid Key Value Observer Clock) : Prop :=
  ∀ p ∈ w.preds, ∃ v, s.writes p = some v ∧ o.Before v.clock w.clock

structure Inv (digest : WidInput Wid Key Value Observer Clock → Wid) (o : Ordering Clock W)
    (s : CausalMemory Wid Key Value Observer Clock W) : Prop where
  /-- A write is stored under its id. -/
  wid_eq : ∀ i w, s.writes i = some w → w.wid digest = i
  /-- A key lists the ids of its writes. -/
  listed : ∀ k i, i ∈ s.byKey k ↔ ∃ w, s.writes i = some w ∧ w.key = k
  listed_nodup : ∀ k, (s.byKey k).Nodup
  /-- What a stored write claims was checked. -/
  valid : ∀ i w, s.writes i = some w → Valid o s w

theorem Inv.empty : Inv digest o ({} : CausalMemory Wid Key Value Observer Clock W) where
  wid_eq := by simp
  listed := by simp
  listed_nodup := by simp
  valid := by simp

/-- A fresh id is listed nowhere. -/
theorem Inv.not_listed (h : Inv digest o s) {i : Wid} (hfresh : s.writes i = none) (k : Key) :
    i ∉ s.byKey k := by
  intro hin
  obtain ⟨v, hv, -⟩ := (h.listed k i).mp hin
  rw [hfresh] at hv
  cases hv

/-! ## The candidates of a key -/

theorem Inv.mem_writesForKey (h : Inv digest o s) :
    w ∈ s.writesForKey key ↔ s.writes (w.wid digest) = some w ∧ w.key = key := by
  simp only [writesForKey, List.mem_filterMap, h.listed]
  constructor
  · intro hin
    obtain ⟨i, ⟨v, hv, hkey⟩, hw⟩ := hin
    obtain rfl : v = w := Option.some_inj.mp (hv.symm.trans hw)
    obtain rfl := h.wid_eq i v hv
    exact ⟨hv, hkey⟩
  · intro hw
    exact ⟨w.wid digest, ⟨w, hw⟩, hw.1⟩

/-- Two stored writes of one id are one. -/
theorem Inv.eq_of_wid (h : Inv digest o s) (hv : v ∈ s.writesForKey key)
    (hw : w ∈ s.writesForKey key) (hid : v.wid digest = w.wid digest) : v = w := by
  rw [h.mem_writesForKey] at hv hw
  rw [hid] at hv
  exact Option.some_inj.mp (hv.1.symm.trans hw.1)

/-- `other` names `w`. -/
def NamedBy (digest : WidInput Wid Key Value Observer Clock → Wid)
    (w other : Write Wid Key Value Observer Clock) : Prop :=
  other.wid digest ≠ w.wid digest ∧ w.wid digest ∈ other.preds

/-- **The candidates are the maximal stored writes under "is named by".** -/
theorem mem_frontier_iff :
    w ∈ s.frontier digest key ↔
      w ∈ Frontier.maximal (NamedBy digest) {v | v ∈ s.writesForKey key} := by
  simp [frontier, Frontier.maximal, NamedBy]

/-- Whatever names a stored write is causally after it. -/
theorem Inv.before_of_namedBy (h : Inv digest o s) (hw : w ∈ s.writesForKey key)
    (hv : v ∈ s.writesForKey key) (hnamed : NamedBy digest w v) : o.Before w.clock v.clock := by
  rw [h.mem_writesForKey] at hw hv
  obtain ⟨u, hu, hb⟩ := h.valid _ v hv.1 _ hnamed.2
  obtain rfl : w = u := Option.some_inj.mp (hw.1.symm.trans hu)
  exact hb

omit [DecidableEq Wid] in
theorem clock_strict [IsStrictOrder Clock o.Before] :
    IsStrictOrder (Write Wid Key Value Observer Clock) fun a b => o.Before a.clock b.clock where
  irrefl a := irrefl_of o.Before a.clock
  trans _ _ _ hab hbc := trans_of o.Before hab hbc

/-- Every stored write of a key is a candidate or causally before one: of those at or after it, a
causally maximal one is named by none. -/
theorem Inv.below_candidate [IsStrictOrder Clock o.Before] (h : Inv digest o s)
    (hw : w ∈ s.writesForKey key) :
    ∃ f ∈ s.frontier digest key, w = f ∨ o.Before w.clock f.clock := by
  have : IsStrictOrder (Write Wid Key Value Observer Clock) fun a b => o.Before a.clock b.clock :=
    clock_strict
  have hfin : {v | v ∈ s.writesForKey key ∧ (w = v ∨ o.Before w.clock v.clock)}.Finite :=
    (List.finite_toSet (s.writesForKey key)).subset fun _ hv => hv.1
  obtain ⟨f, ⟨hf, hwf⟩, hmax⟩ := Frontier.maximal_nonempty
    (r := fun a b => o.Before a.clock b.clock) hfin ⟨w, hw, Or.inl rfl⟩
  refine ⟨f, mem_frontier_iff.mpr ⟨hf, ?_⟩, hwf⟩
  intro v hv hnamed
  have hfv := h.before_of_namedBy hf hv hnamed
  refine hmax v ⟨hv, Or.inr ?_⟩ hfv
  rcases hwf with rfl | hwf
  · exact hfv
  · exact trans_of o.Before hwf hfv

/-! ## Stale values -/

/-- No read shows a stale value: no candidate is causally before another candidate, or before any
stored write of its key. -/
structure NothingStale (digest : WidInput Wid Key Value Observer Clock → Wid)
    (o : Ordering Clock W) (s : CausalMemory Wid Key Value Observer Clock W) : Prop where
  concurrent : ∀ key, ∀ v ∈ s.frontier digest key, ∀ w ∈ s.frontier digest key,
    ¬ o.Before v.clock w.clock
  current : ∀ key, ∀ v ∈ s.frontier digest key, ∀ w ∈ s.writesForKey key,
    ¬ o.Before v.clock w.clock

/-- The write is new and valid, so a `put` stores it. -/
structure Accepts (digest : WidInput Wid Key Value Observer Clock → Wid) (o : Ordering Clock W)
    (s : CausalMemory Wid Key Value Observer Clock W)
    (w : Write Wid Key Value Observer Clock) : Prop where
  fresh : s.writes (w.wid digest) = none
  valid : Valid o s w

/-- A `put` that is stored names every current candidate of its key that is causally before it, and
no current candidate of its key is causally after it. -/
def Careful (digest : WidInput Wid Key Value Observer Clock → Wid) (o : Ordering Clock W)
    (s : CausalMemory Wid Key Value Observer Clock W)
    (w : Write Wid Key Value Observer Clock) : Prop :=
  Accepts digest o s w → ∀ f ∈ s.frontier digest w.key,
    (o.Before f.clock w.clock → f.wid digest ∈ w.preds) ∧ ¬ o.Before w.clock f.clock

theorem NothingStale.empty :
    NothingStale digest o ({} : CausalMemory Wid Key Value Observer Clock W) where
  concurrent := by simp [frontier, writesForKey]
  current := by simp [frontier, writesForKey]

/-- The candidates are stored, so being current is enough. -/
theorem NothingStale.of_current
    (h : ∀ key, ∀ v ∈ s.frontier digest key, ∀ w ∈ s.writesForKey key,
      ¬ o.Before v.clock w.clock) : NothingStale digest o s where
  concurrent key v hv w hw := h key v hv w (mem_frontier_iff.mp hw).1
  current := h

/-- A write that names every current candidate is careful. -/
theorem Inv.careful_of_names_all [IsStrictOrder Clock o.Before] (h : Inv digest o s)
    (hpreds : w.preds = (s.frontier digest w.key).map fun f => f.wid digest) :
    Careful digest o s w := by
  intro hw f hf
  have hnamed : f.wid digest ∈ w.preds := by
    rw [hpreds]
    exact List.mem_map_of_mem hf
  refine ⟨fun _ => hnamed, fun hb => ?_⟩
  obtain ⟨v, hv, hvw⟩ := hw.valid _ hnamed
  -- its claims were checked, so it comes after each candidate, not before
  have hstored := (h.mem_writesForKey.mp (mem_frontier_iff.mp hf).1).1
  obtain rfl : f = v := Option.some_inj.mp (hstored.symm.trans hv)
  exact irrefl_of o.Before _ (trans_of o.Before hvw hb)

/-! ## What a put can do -/

theorem checkPreds_eq_none (ps : List Wid) :
    s.checkPreds digest o w ps = none ↔
      ∀ p ∈ ps, ∃ v, s.writes p = some v ∧ o.Before v.clock w.clock := by
  induction ps with
  | nil => simp [checkPreds]
  | cons p ps ih =>
      rw [List.forall_mem_cons, ← ih, checkPreds]
      cases hp : s.writes p with
      | none => simp
      | some pred => cases hb : o.before pred.clock w.clock <;> simp [Ordering.Before, hb]

variable [DecidableEq Key]

/-- The memory after a `put`, and its answer. -/
inductive Puts (digest : WidInput Wid Key Value Observer Clock → Wid) (o : Ordering Clock W)
    (s : CausalMemory Wid Key Value Observer Clock W) (w : Write Wid Key Value Observer Clock) :
    CausalMemory Wid Key Value Observer Clock W → PutResult Wid Key Value Observer Clock W → Prop
  | retry {existing} (known : s.writes (w.wid digest) = some existing) :
      Puts digest o s w s (.admitted (existing.wid digest) (existing.provenance digest))
  | refused {rejection} (fresh : s.writes (w.wid digest) = none) (why : ¬ Valid o s w) :
      Puts digest o s w { s with rejections := s.rejections ++ [rejection] } (.rejected rejection)
  | stored (ok : Accepts digest o s w) :
      Puts digest o s w (s.record digest w) (.admitted (w.wid digest) (w.provenance digest))

theorem put_cases (digest : WidInput Wid Key Value Observer Clock → Wid) (o : Ordering Clock W)
    (s : CausalMemory Wid Key Value Observer Clock W) (w : Write Wid Key Value Observer Clock) :
    Puts digest o s w (s.put digest o w).1 (s.put digest o w).2 := by
  unfold put
  cases hw : s.writes (w.wid digest) with
  | some existing => exact .retry hw
  | none =>
      cases hc : s.checkPreds digest o w w.preds with
      | none => exact .stored ⟨hw, (checkPreds_eq_none w.preds).mp hc⟩
      | some rejection =>
          refine .refused hw fun hvalid => ?_
          rw [(checkPreds_eq_none w.preds).mpr hvalid] at hc
          cases hc

/-- A stored write stays stored, and under the same id, when another is recorded. -/
theorem writes_record {i : Wid} (hfresh : s.writes (w.wid digest) = none)
    (hv : s.writes i = some v) : (s.record digest w).writes i = some v := by
  show Function.update s.writes (w.wid digest) (some w) i = some v
  rw [Function.update_of_ne, hv]
  intro heq
  rw [heq, hfresh] at hv
  cases hv

theorem writes_record_iff {i : Wid} (hfresh : s.writes (w.wid digest) = none) :
    (s.record digest w).writes i = some v ↔
      (i = w.wid digest ∧ v = w) ∨ s.writes i = some v := by
  constructor
  · intro h
    by_cases hi : i = w.wid digest
    · subst hi
      change Function.update s.writes (w.wid digest) (some w) (w.wid digest) = some v at h
      rw [Function.update_self, Option.some_inj] at h
      exact Or.inl ⟨rfl, h.symm⟩
    · change Function.update s.writes (w.wid digest) (some w) i = some v at h
      rw [Function.update_of_ne hi] at h
      exact Or.inr h
  · intro h
    rcases h with ⟨rfl, rfl⟩ | h
    · exact Function.update_self _ _ _
    · exact writes_record hfresh h

theorem Inv.record (h : Inv digest o s) (hw : Accepts digest o s w) :
    Inv digest o (s.record digest w) where
  wid_eq := by
    intro i v hv
    rcases (writes_record_iff hw.fresh).mp hv with ⟨rfl, rfl⟩ | hv
    · rfl
    · exact h.wid_eq i v hv
  listed := by
    intro k i
    simp only [writes_record_iff hw.fresh]
    show i ∈ Function.update s.byKey w.key (s.byKey w.key ++ [w.wid digest]) k ↔ _
    by_cases hk : k = w.key
    · subst hk
      rw [Function.update_self, List.mem_append, List.mem_singleton, h.listed]
      grind
    · rw [Function.update_of_ne hk, h.listed]
      grind
  listed_nodup := by
    intro k
    show (Function.update s.byKey w.key (s.byKey w.key ++ [w.wid digest]) k).Nodup
    by_cases hk : k = w.key
    · subst hk
      rw [Function.update_self, ← List.concat_eq_append]
      exact (h.listed_nodup _).concat (h.not_listed hw.fresh _)
    · rw [Function.update_of_ne hk]
      exact h.listed_nodup k
  valid := by
    intro i v hv p hp
    have hold : ∃ u, s.writes p = some u ∧ o.Before u.clock v.clock := by
      rcases (writes_record_iff hw.fresh).mp hv with ⟨-, rfl⟩ | hv
      · exact hw.valid p hp
      · exact h.valid i v hv p hp
    obtain ⟨u, hu, hb⟩ := hold
    exact ⟨u, writes_record hw.fresh hu, hb⟩

/-- Every `put` keeps the invariant. -/
theorem Inv.puts {s' : CausalMemory Wid Key Value Observer Clock W}
    {r : PutResult Wid Key Value Observer Clock W} (h : Inv digest o s)
    (hput : Puts digest o s w s' r) : Inv digest o s' := by
  cases hput with
  | retry _ => exact h
  | refused _ _ =>
      exact
        { wid_eq := h.wid_eq
          listed := h.listed
          listed_nodup := h.listed_nodup
          valid := h.valid }
  | stored ok => exact h.record ok

/-- A recorded write is listed last, under its key. -/
theorem Inv.writesForKey_record (h : Inv digest o s) (hw : Accepts digest o s w) (key : Key) :
    (s.record digest w).writesForKey key =
      s.writesForKey key ++ [w].filter fun w => decide (w.key = key) := by
  have hold : (s.byKey key).filterMap (s.record digest w).writes =
      (s.byKey key).filterMap s.writes := by
    apply List.filterMap_congr
    intro i hi
    have hne : i ≠ w.wid digest := by
      rintro rfl
      exact h.not_listed hw.fresh key hi
    exact Function.update_of_ne hne _ _
  have hself : (s.record digest w).writes (w.wid digest) = some w := Function.update_self _ _ _
  show (Function.update s.byKey w.key (s.byKey w.key ++ [w.wid digest]) key).filterMap _ = _
  by_cases hkey : w.key = key
  · subst hkey
    rw [Function.update_self, List.filterMap_append, hold]
    simp [hself, writesForKey]
  · rw [Function.update_of_ne (Ne.symm hkey), hold]
    simp [hkey, writesForKey]

theorem Inv.mem_writesForKey_record (h : Inv digest o s) (hw : Accepts digest o s w) :
    v ∈ (s.record digest w).writesForKey key ↔
      (key = w.key ∧ v = w) ∨ v ∈ s.writesForKey key := by
  rw [h.writesForKey_record hw, List.mem_append, List.mem_filter, List.mem_singleton,
    decide_eq_true_eq]
  grind

/-- The candidates once a write is stored: the write, and those of before that it does not name. -/
theorem Inv.mem_frontier_record (h : Inv digest o s) (hw : Accepts digest o s w) :
    v ∈ (s.record digest w).frontier digest key ↔
      (key = w.key ∧ v = w) ∨
        (v ∈ s.frontier digest key ∧ (key = w.key → v.wid digest ∉ w.preds)) := by
  simp only [mem_frontier_iff, Frontier.maximal, Set.mem_ofPred_eq, h.mem_writesForKey_record hw]
  constructor
  · intro hv
    obtain ⟨⟨hkey, rfl⟩ | hv, hmax⟩ := hv
    · exact Or.inl ⟨hkey, rfl⟩
    · refine Or.inr ⟨⟨hv, fun u hu => hmax u (Or.inr hu)⟩, ?_⟩
      intro hkey hnamed
      refine hmax w (Or.inl ⟨hkey, rfl⟩) ⟨?_, hnamed⟩
      -- the new id is not the id of a stored write
      intro hid
      have hstored := (h.mem_writesForKey.mp hv).1
      rw [← hid, hw.fresh] at hstored
      cases hstored
  · intro hv
    rcases hv with ⟨hkey, rfl⟩ | ⟨⟨hv, hmax⟩, hnot⟩
    · refine ⟨Or.inl ⟨hkey, rfl⟩, ?_⟩
      intro u hu hnamed
      rcases hu with ⟨-, rfl⟩ | hu
      · exact hnamed.1 rfl
      · -- a stored write names stored writes only
        obtain ⟨x, hx, -⟩ := h.valid _ u (h.mem_writesForKey.mp hu).1 _ hnamed.2
        rw [hw.fresh] at hx
        cases hx
    · refine ⟨Or.inr hv, ?_⟩
      intro u hu hnamed
      rcases hu with ⟨hkey, rfl⟩ | hu
      · exact hnot hkey hnamed.2
      · exact hmax u hu hnamed

/-- Storing a write leaves nothing stale exactly when it was careful. -/
theorem Inv.record_nothingStale_iff [IsStrictOrder Clock o.Before] (h : Inv digest o s)
    (hs : NothingStale digest o s) (hw : Accepts digest o s w) :
    NothingStale digest o (s.record digest w) ↔ Careful digest o s w := by
  have hself : w ∈ (s.record digest w).writesForKey w.key :=
    (h.mem_writesForKey_record hw).mpr (Or.inl ⟨rfl, rfl⟩)
  have hcand : w ∈ (s.record digest w).frontier digest w.key :=
    (h.mem_frontier_record hw).mpr (Or.inl ⟨rfl, rfl⟩)
  constructor
  · intro hs' _ f hf
    constructor
    · -- unnamed, `f` would stay a candidate beside `w`
      intro hb
      by_contra hnot
      have hf' : f ∈ (s.record digest w).frontier digest w.key :=
        (h.mem_frontier_record hw).mpr (Or.inr ⟨hf, fun _ => hnot⟩)
      exact hs'.current _ f hf' w hself hb
    · have hf' : f ∈ (s.record digest w).writesForKey w.key :=
        (h.mem_writesForKey_record hw).mpr (Or.inr (mem_frontier_iff.mp hf).1)
      exact hs'.current _ w hcand f hf'
  · intro hcareful
    have hcareful := hcareful hw
    apply NothingStale.of_current
    intro key v hv u hu hb
    rcases (h.mem_frontier_record hw).mp hv with ⟨hkey, rfl⟩ | ⟨hold, hnot⟩
    · rcases (h.mem_writesForKey_record hw).mp hu with ⟨-, rfl⟩ | hu
      · exact irrefl_of o.Before _ hb
      · -- a stored write after `v` would put a candidate after `v`
        subst hkey
        obtain ⟨f, hf, huf⟩ := h.below_candidate hu
        refine (hcareful f hf).2 ?_
        rcases huf with rfl | huf
        · exact hb
        · exact trans_of o.Before hb huf
    · rcases (h.mem_writesForKey_record hw).mp hu with ⟨hkey, rfl⟩ | hu
      · subst hkey
        exact hnot rfl ((hcareful v hold).1 hb)
      · exact hs.current key v hold u hu hb

theorem put_nothingStale_iff [IsStrictOrder Clock o.Before] (h : Inv digest o s)
    (hs : NothingStale digest o s) :
    NothingStale digest o (s.put digest o w).1 ↔ Careful digest o s w := by
  have hput := s.put_cases digest o w
  generalize (s.put digest o w).1 = s' at hput ⊢
  generalize (s.put digest o w).2 = r at hput
  cases hput with
  | retry known =>
      refine iff_of_true hs fun hw => ?_
      rw [hw.fresh] at known
      cases known
  | refused _ why => exact iff_of_true ⟨hs.concurrent, hs.current⟩ fun hw => absurd hw.valid why
  | stored ok => exact h.record_nothingStale_iff hs ok

/-- A resolution is refused, or is a `put` that names every current candidate. -/
theorem resolve_cases (s : CausalMemory Wid Key Value Observer Clock W) (key : Key)
    (chosenWid : Wid) (observer : Observer) (clock : Clock) :
    (s.resolve digest o key chosenWid observer clock).1 = s ∨
      ∃ w, w.key = key ∧ w.preds = (s.frontier digest key).map (fun f => f.wid digest) ∧
        (s.resolve digest o key chosenWid observer clock).1 = (s.put digest o w).1 := by
  unfold resolve
  cases (s.frontier digest key).find? fun w => decide (w.wid digest = chosenWid) with
  | none => exact Or.inl rfl
  | some chosen => exact Or.inr ⟨_, rfl, rfl, rfl⟩

/-! ## Runs -/

theorem Inv.next (h : Inv digest o s) (call : Call Wid Key Value Observer Clock) :
    Inv digest o ((machine digest o).next s call) := by
  cases call with
  | put w => exact h.puts (s.put_cases digest o w)
  | resolve key chosenWid observer clock =>
      show Inv digest o (s.resolve digest o key chosenWid observer clock).1
      rcases s.resolve_cases key chosenWid observer clock with heq | ⟨w, -, -, heq⟩
      · rw [heq]
        exact h
      · rw [heq]
        exact h.puts (s.put_cases digest o w)

theorem inv_run (calls : List (Call Wid Key Value Observer Clock)) :
    Inv digest o ((machine digest o).run calls) :=
  (machine digest o).run_induction Inv.empty (fun _ call h => h.next call) calls

/-- The condition on a call: a `put` is careful, a `resolve` is free. -/
def CarefulCall (digest : WidInput Wid Key Value Observer Clock → Wid) (o : Ordering Clock W)
    (s : CausalMemory Wid Key Value Observer Clock W) :
    Call Wid Key Value Observer Clock → Prop
  | .put w => Careful digest o s w
  | .resolve .. => True

theorem Inv.next_nothingStale_iff [IsStrictOrder Clock o.Before] (h : Inv digest o s)
    (hs : NothingStale digest o s) (call : Call Wid Key Value Observer Clock) :
    NothingStale digest o ((machine digest o).next s call) ↔ CarefulCall digest o s call := by
  cases call with
  | put w => exact put_nothingStale_iff h hs
  | resolve key chosenWid observer clock =>
      refine iff_of_true ?_ trivial
      show NothingStale digest o (s.resolve digest o key chosenWid observer clock).1
      rcases s.resolve_cases key chosenWid observer clock with heq | ⟨w, rfl, hpreds, heq⟩
      · rw [heq]
        exact hs
      · rw [heq, put_nothingStale_iff h hs]
        exact h.careful_of_names_all hpreds

theorem nothingStale_run_iff [IsStrictOrder Clock o.Before]
    (calls : List (Call Wid Key Value Observer Clock)) :
    (∀ pre, pre <+: calls → NothingStale digest o ((machine digest o).run pre)) ↔
      ∀ e ∈ (machine digest o).trace calls, CarefulCall digest o e.state e.call :=
  (machine digest o).forall_reached_iff NothingStale.empty
    (fun pre call hs => (inv_run pre).next_nothingStale_iff hs call) calls

/-- **When stale values stay away**: under either ordering, no state of a run shows a stale value
exactly when every `put` that is stored names the candidates causally before it and comes before no
candidate. -/
theorem never_stale_iff {Node : Type} [DecidableEq Node]
    (digestGeo : WidInput Wid Key Value Observer Stamp → Wid)
    (digestLog : WidInput Wid Key Value Observer (VClock Node) → Wid) :
    (∀ calls, (∀ pre, pre <+: calls →
        NothingStale digestGeo geometricOrdering ((machine digestGeo geometricOrdering).run pre)) ↔
      ∀ e ∈ (machine digestGeo geometricOrdering).trace calls,
        CarefulCall digestGeo geometricOrdering e.state e.call) ∧
    (∀ calls, (∀ pre, pre <+: calls →
        NothingStale digestLog logicalOrdering ((machine digestLog logicalOrdering).run pre)) ↔
      ∀ e ∈ (machine digestLog logicalOrdering).trace calls,
        CarefulCall digestLog logicalOrdering e.state e.call) :=
  ⟨nothingStale_run_iff, nothingStale_run_iff⟩

/-! ### A value and its successor

One node writes a value and then another, and does not say that the second replaces the first. -/

/-- Here the value of a write is digest enough. -/
def valueWid (i : WidInput Nat Nat Nat Nat (VClock Nat)) : Nat := i.value

def oldValue : Write Nat Nat Nat Nat (VClock Nat) where
  key := 0
  value := 1
  observer := 0
  clock := Finmap.singleton 0 1
  preds := []

def newValue : Write Nat Nat Nat Nat (VClock Nat) where
  key := 0
  value := 2
  observer := 0
  clock := Finmap.singleton 0 2
  preds := []

/-- The first value, causally before the second, stays a candidate beside it. -/
theorem stale_value_resurfaces :
    ((machine valueWid logicalOrdering).run [.put oldValue, .put newValue]).get valueWid 0 =
        .conflict 0 [oldValue.provenance valueWid, newValue.provenance valueWid] conflictNote ∧
      logicalOrdering.Before oldValue.clock newValue.clock ∧
      ¬ NothingStale valueWid logicalOrdering
        ((machine valueWid logicalOrdering).run [.put oldValue, .put newValue]) := by
  have hb : logicalOrdering.Before oldValue.clock newValue.clock := by
    unfold Ordering.Before
    decide
  refine ⟨rfl, hb, fun h => ?_⟩
  exact h.concurrent 0 oldValue (by decide) newValue (by decide) hb

end HorizonProtocol.Mnemesis.CausalMemory
