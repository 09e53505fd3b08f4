import HorizonProtocol.Benchmark.Adapter
import HorizonProtocol.CausalStore.Accounting
import HorizonProtocol.CausalStore.Current
import HorizonProtocol.CausalStore.HybridOrder

/-!
# Genuine dependencies under the hybrid ordering

The generator asks whether light had the time to come from the last writer of a key. The store asks
whether it had, with the uncertainty of both clocks to spare, and lets the clocks of the adapter
decide what that leaves open: they order the operations of one region and no others. So the two
agree within a region and beyond the margin, and a dependency across regions that is inside the
margin is refused.

* `before_iff_supported`, `before_iff_precedes` — what the store sees of two operations, as arithmetic.
* `Replayed` — the adapter after operations that were all accepted; `Replayed.step` keeps it.
* `genuine_accepted_iff` — what follows for a whole trace.
-/

namespace HorizonProtocol.Benchmark

open CausalStore

variable {Eid Region : Type} [DecidableEq Region]
variable (pos : Region → Pos) (u : Region → Nat)

/-! ## What the adapter writes -/

/-- How many of these operations come from a region. -/
def issuedBy (ops : List (Op Nat Region)) (r : Region) : Nat :=
  ops.countP fun op => decide (op.originRegion = r)

/-- The write of `op` after the operations `pre`. -/
def bodyOf (pre : List (Op Nat Region)) (op : Op Nat Region) :
    Body String String Region (HybridClock Region) where
  key := op.key
  value := op.value
  originNode := op.originRegion
  clock :=
    { timeNs := op.tLogicalNs, posNm := pos op.originRegion, uNs? := some (u op.originRegion : Int),
      vc := Finmap.singleton op.originRegion ((issuedBy pre op.originRegion : Int) + 1) }

/-- The writes of a trace. -/
def writesOf (ops : List (Op Nat Region)) : List (Body String String Region (HybridClock Region)) :=
  ops.mapIdx fun i op => bodyOf pos u (ops.take i) op

/-- The store comes to see that `op` is after the earlier operation `pred`: by light, with the
margin to spare, or inside the margin by the counter of their region. -/
def Supported (pred op : Op Nat Region) : Prop :=
  let floor : Int := minLightTimeNs (pos pred.originRegion) (pos op.originRegion)
  let margin : Int := u pred.originRegion + u op.originRegion
  let elapsed := op.tLogicalNs - pred.tLogicalNs
  0 < elapsed ∧ floor + margin ≤ elapsed ∨
    pred.originRegion = op.originRegion ∧ -margin ≤ elapsed ∧ elapsed < margin

/-- The store comes to see that `op` is before the earlier operation `e`. -/
def Precedes (op e : Op Nat Region) : Prop :=
  let floor : Int := minLightTimeNs (pos op.originRegion) (pos e.originRegion)
  let margin : Int := u op.originRegion + u e.originRegion
  0 < e.tLogicalNs - op.tLogicalNs ∧ floor + margin ≤ e.tLogicalNs - op.tLogicalNs

variable {pos u} {pre : List (Op Nat Region)} {op pred : Op Nat Region} {i : Nat}

theorem writesOf_getElem? (ops : List (Op Nat Region)) (i : Nat) :
    (writesOf pos u ops)[i]? = ops[i]?.map fun op => bodyOf pos u (ops.take i) op := by
  simp [writesOf, List.getElem?_mapIdx]

theorem length_writesOf (ops : List (Op Nat Region)) :
    (writesOf pos u ops).length = ops.length := by
  simp [writesOf]

theorem writesOf_concat (pre : List (Op Nat Region)) (op : Op Nat Region) :
    writesOf pos u (pre ++ [op]) = writesOf pos u pre ++ [bodyOf pos u pre op] := by
  apply List.ext_getElem?
  intro i
  rw [writesOf_getElem?]
  rcases Nat.lt_trichotomy i pre.length with hlt | rfl | hgt
  · rw [List.getElem?_append_left hlt, List.getElem?_append_left (by rwa [length_writesOf]),
      writesOf_getElem?, List.take_append_of_le_length hlt.le]
  · have hlast : (writesOf pos u pre ++ [bodyOf pos u pre op])[pre.length]? =
        some (bodyOf pos u pre op) := by
      have hlen : (writesOf pos u pre).length = pre.length := length_writesOf pre
      rw [← hlen, List.getElem?_concat_length]
    rw [List.getElem?_concat_length, hlast, Option.map_some, List.take_left]
  · rw [List.getElem?_eq_none (by simpa using hgt),
      List.getElem?_eq_none (by simpa [length_writesOf] using hgt)]
    rfl

theorem writesOf_subset (pre post : List (Op Nat Region)) :
    writesOf pos u pre ⊆ writesOf pos u (pre ++ post) := by
  induction post using List.reverseRecOn with
  | nil =>
      rw [List.append_nil]
      exact List.Subset.refl _
  | append_singleton post op ih =>
      rw [← List.append_assoc, writesOf_concat]
      exact List.Subset.trans ih (List.subset_append_left _ _)

/-- An operation is counted after it is written. -/
theorem issuedBy_lt (h : pre[i]? = some pred) :
    issuedBy (pre.take i) pred.originRegion < issuedBy pre pred.originRegion := by
  have hsucc : pre.take (i + 1) = pre.take i ++ [pred] := by
    rw [List.take_add_one, h]
    rfl
  have hle : issuedBy (pre.take (i + 1)) pred.originRegion ≤ issuedBy pre pred.originRegion :=
    (List.take_sublist _ _).countP_le
  have hcount : issuedBy (pre.take i ++ [pred]) pred.originRegion =
      issuedBy (pre.take i) pred.originRegion + 1 := by
    simp [issuedBy, List.countP_append]
  rw [hsucc, hcount] at hle
  exact hle

/-- The clocks of two writes are never the same. -/
theorem bodyOf_notMem : bodyOf pos u pre op ∉ writesOf pos u pre := by
  intro hmem
  obtain ⟨i, hi⟩ := List.getElem?_of_mem hmem
  rw [writesOf_getElem?, Option.map_eq_some_iff] at hi
  obtain ⟨e, he, hbody⟩ := hi
  have hregion : e.originRegion = op.originRegion := congrArg Body.originNode hbody
  have hcount := congrArg (fun b => VClock.count b.clock.vc op.originRegion) hbody
  have hlt := issuedBy_lt he
  simp only [bodyOf, VClock.count_singleton, hregion, if_true] at hcount
  rw [hregion] at hlt
  omega

/-! ## What the store sees -/

/-- The margin between two writes is the uncertainty of their regions. -/
theorem before_bodies_iff {pre pre' : List (Op Nat Region)} {a b : Op Nat Region} :
    (hybridEvents String String Region Region).Before (bodyOf pos u pre a) (bodyOf pos u pre' b) ↔
      let floor : Int := minLightTimeNs (pos a.originRegion) (pos b.originRegion)
      let margin : Int := u a.originRegion + u b.originRegion
      let elapsed := b.tLogicalNs - a.tLogicalNs
      a.tLogicalNs < b.tLogicalNs ∧ floor + margin ≤ elapsed ∨
        (elapsed < floor + margin ∧ floor ≤ elapsed + margin) ∧ a.originRegion = b.originRegion ∧
          (issuedBy pre a.originRegion : Int) + 1 < issuedBy pre' b.originRegion + 1 := by
  have hua : (0 : Int) ≤ (bodyOf pos u pre a).clock.uNs := Int.natCast_nonneg _
  have hub : (0 : Int) ≤ (bodyOf pos u pre' b).clock.uNs := Int.natCast_nonneg _
  have hpos : (0 : Int) < issuedBy pre a.originRegion + 1 := by omega
  show hybridOrdering.Before _ _ ↔ _
  rw [before_iff_step hua hub, byLight_iff hua hub, ByClocks, open_iff, LogicalOrdering.before_iff,
    ← VClock.count_singleton_lt_iff hpos]
  rfl

/-- Light decides, or within the margin the counter of the region. -/
theorem before_iff_supported (h : pre[i]? = some pred) :
    (hybridEvents String String Region Region).Before (bodyOf pos u (pre.take i) pred)
      (bodyOf pos u pre op) ↔ Supported pos u pred op := by
  have hlt := issuedBy_lt h
  rw [before_bodies_iff]
  unfold Supported
  dsimp only
  by_cases hregion : pred.originRegion = op.originRegion
  · have hfloor : minLightTimeNs (pos op.originRegion) (pos op.originRegion) = 0 :=
      minLightTimeNs_eq_zero.mpr rfl
    rw [hregion] at hlt ⊢
    rw [hfloor]
    simp only [true_and]
    omega
  · simp only [hregion, false_and, and_false, or_false]
    omega

/-- An operation is before an earlier one by light alone. -/
theorem before_iff_precedes (h : pre[i]? = some pred) :
    (hybridEvents String String Region Region).Before (bodyOf pos u pre op)
      (bodyOf pos u (pre.take i) pred) ↔ Precedes pos u op pred := by
  have hlt := issuedBy_lt h
  rw [before_bodies_iff]
  unfold Precedes
  dsimp only
  by_cases hregion : op.originRegion = pred.originRegion
  · rw [hregion] at ⊢
    simp only [true_and]
    omega
  · simp only [hregion, false_and, and_false, or_false]
    omega

/-! ## When an operation is accepted -/

/-- What `op` asks of the operations before it: its dependencies are supported, and no operation of
its key that `op` is before is still current. -/
structure Acceptable (pos : Region → Pos) (u : Region → Nat) (pre : List (Op Nat Region))
    (op : Op Nat Region) : Prop where
  supported : ∀ d ∈ op.dependsOn, ∀ pred, pre[d]? = some pred → Supported pos u pred op
  /-- Nothing to ask when time does not step back (`acceptable_iff_of_forward`). -/
  notStale : ∀ (i : Nat) (e : Op Nat Region), pre[i]? = some e → e.key = op.key →
    Precedes pos u op e →
      ∃ (k : Nat) (g : Op Nat Region), i < k ∧ pre[k]? = some g ∧ g.key = e.key ∧
        Supported pos u e g

omit [DecidableEq Region] in
/-- When time does not step back, only the dependencies matter. -/
theorem acceptable_iff_of_forward (h : ∀ e ∈ pre, e.tLogicalNs ≤ op.tLogicalNs) :
    Acceptable pos u pre op ↔
      ∀ d ∈ op.dependsOn, ∀ pred, pre[d]? = some pred → Supported pos u pred op := by
  refine ⟨Acceptable.supported, fun hsup => ⟨hsup, fun i e he _ hprec => ?_⟩⟩
  have hle := h e (List.mem_of_getElem? he)
  have hlt := hprec.1
  omega

/-- The state of an adapter that has accepted all of the operations `pre`. It is known from the trace
alone: the counters, the log, and by `current` the frontier of every key. -/
structure Replayed [DecidableEq Eid] (pos : Region → Pos) (u : Region → Nat)
    (sha : HashInput String String Region (HybridClock Region) → Eid) (regions : List Region)
    (pre : List (Op Nat Region)) (a : CausalStoreAdapter Eid Region) : Prop where
  clocks : ∀ r ∈ regions, a.regionClocks r = some ⟨pos r, u r⟩
  counter : ∀ r ∈ regions, Dict.get? a.vcCounter r = some (issuedBy pre r : Int)
  stored : a.store.bodies = writesOf pos u pre
  inv : CausalStore.Inv sha (hybridEvents String String Region Region) a.store
  current : FrontierCurrent sha (hybridEvents String String Region Region) a.store
  events : ∀ (i : Nat) (op : Op Nat Region), pre[i]? = some op →
    Dict.get? a.opToEvent i = some ((bodyOf pos u (pre.take i) op).eventId sha)

/-- What is current in the log, in terms of the trace. -/
theorem current_iff {b : Body String String Region (HybridClock Region)} :
    Current (hybridEvents String String Region Region) (writesOf pos u pre) b ↔
      ∃ (i : Nat) (e : Op Nat Region), pre[i]? = some e ∧ b = bodyOf pos u (pre.take i) e ∧
        ∀ (k : Nat) (g : Op Nat Region), i < k → pre[k]? = some g → g.key = e.key →
          ¬ Supported pos u e g := by
  have hget : ∀ {i : Nat} {b}, (writesOf pos u pre)[i]? = some b ↔
      ∃ e, pre[i]? = some e ∧ b = bodyOf pos u (pre.take i) e := by
    intro i b
    rw [writesOf_getElem?, Option.map_eq_some_iff]
    simp only [eq_comm]
  have hsupported : ∀ {i k : Nat} {e g : Op Nat Region}, i < k → pre[i]? = some e →
      ((hybridEvents String String Region Region).Before (bodyOf pos u (pre.take i) e)
        (bodyOf pos u (pre.take k) g) ↔ Supported pos u e g) := by
    intro i k e g hik he
    have htake : (pre.take k)[i]? = some e := by
      rw [List.getElem?_take_of_lt hik]
      exact he
    rw [← before_iff_supported htake, List.take_take, Nat.min_eq_left hik.le]
  constructor
  -- places of the log are places of the trace
  · rintro ⟨l₁, l₂, hlog, hlast⟩
    have hmid : (writesOf pos u pre)[l₁.length]? = some b := by
      rw [hlog, List.getElem?_append_right le_rfl, Nat.sub_self]
      rfl
    obtain ⟨e, he, rfl⟩ := hget.mp hmid
    refine ⟨l₁.length, e, he, rfl, fun k g hk hg hkey hsup => ?_⟩
    have hlater : (writesOf pos u pre)[k]? = some (bodyOf pos u (pre.take k) g) :=
      hget.mpr ⟨g, hg, rfl⟩
    rw [hlog, List.getElem?_append_right hk.le, List.getElem?_cons,
      if_neg (Nat.sub_ne_zero_of_lt hk)] at hlater
    exact hlast _ (List.mem_of_getElem? hlater) hkey ((hsupported hk he).mpr hsup)
  · rintro ⟨i, e, he, rfl, hlast⟩
    have hmid := hget.mpr ⟨e, he, rfl⟩
    obtain ⟨hlt, hb⟩ := List.getElem?_eq_some_iff.mp hmid
    refine ⟨(writesOf pos u pre).take i, (writesOf pos u pre).drop (i + 1), ?_, ?_⟩
    · rw [← hb, ← List.drop_eq_getElem_cons, List.take_append_drop]
    · intro x hx hkey hbefore
      obtain ⟨j, hj⟩ := List.getElem?_of_mem hx
      rw [List.getElem?_drop] at hj
      obtain ⟨g, hg, rfl⟩ := hget.mp hj
      have hik : i < i + 1 + j := by omega
      exact hlast _ g hik hg hkey ((hsupported hik he).mp hbefore)

section Replay

variable [DecidableEq Eid] {sha : HashInput String String Region (HybridClock Region) → Eid}
variable {regions : List Region} {a : CausalStoreAdapter Eid Region}

/-- The `write` that `apply_op` makes of `op` after the operations `pre`. -/
def nextCall (pos : Region → Pos) (u : Region → Nat) (pre : List (Op Nat Region))
    (a : CausalStoreAdapter Eid Region) (op : Op Nat Region) :
    WriteCall Eid String String Region (HybridClock Region) :=
  CausalStoreAdapter.callOf a.opToEvent ⟨pos op.originRegion, u op.originRegion⟩
    ((issuedBy pre op.originRegion : Int) + 1) op

namespace Replayed

/-- A body of the log is found by its id. -/
theorem find_body (h : Replayed pos u sha regions pre a)
    (hfree : CollisionFree sha (writesOf pos u pre))
    {b : Body String String Region (HybridClock Region)} (hb : b ∈ writesOf pos u pre) :
    ∃ e, a.store.find sha (b.eventId sha) = some e ∧ e.toBody = b := by
  have hmem : b ∈ a.store.bodies := h.stored ▸ hb
  obtain ⟨e, he, rfl⟩ := List.mem_map.mp hmem
  cases hfind : a.store.find sha (e.toBody.eventId sha) with
  | none => exact absurd rfl (find_eq_none.mp hfind e he)
  | some e' =>
      obtain ⟨he', hid⟩ := find_eq_some hfind
      refine ⟨e', rfl, ?_⟩
      have hb' : e'.toBody ∈ writesOf pos u pre := h.stored ▸ List.mem_map_of_mem he'
      exact hfree _ hb' _ hb hid

/-- No operation is a retry, since its counter is a new one. -/
theorem fresh (h : Replayed pos u sha regions pre a)
    (hfree : CollisionFree sha (writesOf pos u (pre ++ [op]))) :
    ∀ e ∈ a.store.backend.allEvents, e.eventId sha ≠ (nextCall pos u pre a op).eventId sha := by
  intro e he hid
  rw [writesOf_concat] at hfree
  have hold : e.toBody ∈ writesOf pos u pre := h.stored ▸ List.mem_map_of_mem he
  have hsame : e.toBody = bodyOf pos u pre op :=
    hfree _ (List.mem_append_left _ hold) _ (List.mem_append_right _ (List.mem_singleton_self _)) hid
  exact bodyOf_notMem (hsame ▸ hold)

/-- The claims of an operation are valid exactly when its dependencies are supported. -/
theorem claims_valid_iff (h : Replayed pos u sha regions pre a)
    (hfree : CollisionFree sha (writesOf pos u pre))
    (hdeps : ∀ d ∈ op.dependsOn, ∃ pred, pre[d]? = some pred) :
    (∀ p ∈ (nextCall pos u pre a op).claims, ValidClaim sha (hybridEvents String String Region Region)
        a.store (bodyOf pos u pre op) p) ↔
      ∀ d ∈ op.dependsOn, ∀ pred, pre[d]? = some pred → Supported pos u pred op := by
  have hclaim : ∀ {d pred}, pre[d]? = some pred →
      (ValidClaim sha (hybridEvents String String Region Region) a.store (bodyOf pos u pre op)
        ((bodyOf pos u (pre.take d) pred).eventId sha) ↔ Supported pos u pred op) := by
    intro d pred hpred
    have hmem : bodyOf pos u (pre.take d) pred ∈ writesOf pos u pre := by
      apply List.mem_of_getElem?
      rw [writesOf_getElem?, hpred]
      rfl
    obtain ⟨e, hfind, hbody⟩ := h.find_body hfree hmem
    rw [← before_iff_supported hpred]
    constructor
    · rintro ⟨pe, hpe, hbefore⟩
      obtain rfl : e = pe := Option.some.inj (hfind.symm.trans hpe)
      exact hbody ▸ hbefore
    · intro hbefore
      exact ⟨e, hfind, hbody ▸ hbefore⟩
  constructor
  · intro hall d hd pred hpred
    rw [← hclaim hpred]
    apply hall
    exact List.mem_filterMap.mpr ⟨d, hd, h.events d pred hpred⟩
  · intro hall p hp
    obtain ⟨d, hd, hget⟩ := List.mem_filterMap.mp hp
    obtain ⟨pred, hpred⟩ := hdeps d hd
    rw [h.events d pred hpred] at hget
    rw [← Option.some.inj hget, hclaim hpred]
    exact hall d hd pred hpred

/-- A new operation is dominated by an earlier one of its key that it is before and that nothing since
came after: such are the events in the frontier. -/
theorem dominated_iff (h : Replayed pos u sha regions pre a) :
    Dominated sha (hybridEvents String String Region Region) a.store (bodyOf pos u pre op) ↔
      ∃ (i : Nat) (e : Op Nat Region), pre[i]? = some e ∧ e.key = op.key ∧ Precedes pos u op e ∧
        ∀ (k : Nat) (g : Op Nat Region), i < k → pre[k]? = some g → g.key = e.key →
          ¬ Supported pos u e g := by
  have hfrontier := h.current op.key
  rw [h.stored] at hfrontier
  constructor
  · rintro ⟨f, hf, hbefore⟩
    obtain ⟨hkey, hcur⟩ := (hfrontier f.toBody).mp ⟨f, hf, rfl⟩
    obtain ⟨i, e, he, hbody, hlast⟩ := current_iff.mp hcur
    rw [hbody, before_iff_precedes he] at hbefore
    rw [hbody] at hkey
    exact ⟨i, e, he, hkey, hbefore, hlast⟩
  · rintro ⟨i, e, he, hkey, hprec, hlast⟩
    obtain ⟨f, hf, hbody⟩ := (hfrontier (bodyOf pos u (pre.take i) e)).mpr
      ⟨hkey, current_iff.mpr ⟨i, e, he, rfl, hlast⟩⟩
    refine ⟨f, hf, ?_⟩
    rw [hbody, before_iff_precedes he]
    exact hprec

/-- The store admits an operation exactly when it is acceptable. -/
theorem acceptable_iff (h : Replayed pos u sha regions pre a)
    (hfree : CollisionFree sha (writesOf pos u pre))
    (hdeps : ∀ d ∈ op.dependsOn, ∃ pred, pre[d]? = some pred) :
    Acceptable pos u pre op ↔
      (∀ p ∈ (nextCall pos u pre a op).claims,
        ValidClaim sha (hybridEvents String String Region Region) a.store
          (bodyOf pos u pre op) p) ∧
      ¬ Dominated sha (hybridEvents String String Region Region) a.store (bodyOf pos u pre op) := by
  rw [h.claims_valid_iff hfree hdeps, h.dominated_iff]
  constructor
  · intro hacc
    refine ⟨hacc.supported, ?_⟩
    rintro ⟨i, e, he, hkey, hprec, hlast⟩
    obtain ⟨k, g, hk, hg, hgkey, hsup⟩ := hacc.notStale i e he hkey hprec
    exact hlast k g hk hg hgkey hsup
  · rintro ⟨hsup, hnot⟩
    refine ⟨hsup, fun i e he hkey hprec => ?_⟩
    by_contra hno
    push Not at hno
    exact hnot ⟨i, e, he, hkey, hprec, hno⟩

theorem issuedBy_concat (r : Region) :
    issuedBy (pre ++ [op]) r = issuedBy pre r + if op.originRegion = r then 1 else 0 := by
  by_cases hr : op.originRegion = r <;> simp [issuedBy, List.countP_append, hr]

/-- A state that differs from the last one by an admitted `op`. -/
theorem concat (h : Replayed pos u sha regions pre a) (hid : op.opId = pre.length)
    {a' : CausalStoreAdapter Eid Region} {sup : List Eid} {coordinated : Bool}
    (hfresh : ∀ e ∈ a.store.backend.allEvents,
      e.eventId sha ≠ (nextCall pos u pre a op).eventId sha)
    (hvalid : ∀ p ∈ (nextCall pos u pre a op).claims,
      ValidClaim sha (hybridEvents String String Region Region) a.store
        (nextCall pos u pre a op).toBody p)
    (hedges : Supersedes sha (hybridEvents String String Region Region) a.store
      (nextCall pos u pre a op) sup)
    (hclocks : a'.regionClocks = a.regionClocks)
    (hcounter : a'.vcCounter =
      Dict.set a.vcCounter op.originRegion (issuedBy pre op.originRegion + 1))
    (hstore : a'.store = a.store.countTotal.commit coordinated ⟨bodyOf pos u pre op, sup⟩)
    (hevents : a'.opToEvent =
      Dict.set a.opToEvent op.opId ((bodyOf pos u pre op).eventId sha)) :
    Replayed pos u sha regions (pre ++ [op]) a' := by
  refine ⟨hclocks ▸ h.clocks, ?_, ?_, ?_, ?_, ?_⟩
  · intro r' hr'
    rw [hcounter, Dict.get?_set, issuedBy_concat]
    by_cases heq : r' = op.originRegion
    · rw [if_pos heq, if_pos heq.symm, heq]
      push_cast
      rfl
    · rw [if_neg heq, if_neg (Ne.symm heq), h.counter r' hr']
      rfl
  · rw [writesOf_concat, ← h.stored, hstore]
    simp [bodies]
  · rw [hstore]
    exact h.inv.commit coordinated hfresh hvalid hedges
  · rw [hstore]
    have hcurrent := h.current.commit coordinated h.inv hfresh hvalid hedges
    exact hcurrent
  · intro i op' hop'
    rw [hevents, Dict.get?_set, hid]
    rcases Log.getElem?_concat_eq_some_iff.mp hop' with hold | ⟨rfl, rfl⟩
    · have hlt := Log.lt_length_of_getElem? hold
      rw [if_neg hlt.ne, List.take_append_of_le_length hlt.le]
      exact h.events i op' hold
    · rw [if_pos rfl, List.take_left]

/-- One operation: it counts up its region whatever the verdict, and is accepted just when it is
acceptable. After one that is not, the counters and the log are out of step, so nothing more is said. -/
theorem step (h : Replayed pos u sha regions pre a) (hregion : op.originRegion ∈ regions)
    (hid : op.opId = pre.length) (hdeps : ∀ d ∈ op.dependsOn, ∃ pred, pre[d]? = some pred)
    (hfree : CollisionFree sha (writesOf pos u (pre ++ [op]))) :
    ∃ a' r, a.applyOp sha op = .ok (a', r) ∧ r.opId = op.opId ∧
      a'.regionClocks = a.regionClocks ∧
      a'.vcCounter = Dict.set a.vcCounter op.originRegion (issuedBy pre op.originRegion + 1) ∧
      (r.accepted = true ↔ Acceptable pos u pre op) ∧
      (r.accepted = true → Replayed pos u sha regions (pre ++ [op]) a') := by
  have hold : CollisionFree sha (writesOf pos u pre) := hfree.subset (writesOf_subset _ _)
  have hfresh := h.fresh hfree
  have hw : Writes sha (hybridEvents String String Region Region) a.store (nextCall pos u pre a op)
      (a.store.write sha (hybridEvents String String Region Region) (nextCall pos u pre a op)).1
      (a.store.write sha (hybridEvents String String Region Region) (nextCall pos u pre a op)).2 :=
    write_cases hybridEvents_exhaustive _
  obtain ⟨a', r, happly, hrid, hclocks, hcounter, hstore, hverdict, hevents⟩ :=
    CausalStoreAdapter.applyOp_spec sha (h.clocks _ hregion) (h.counter _ hregion)
  change a'.store = (a.store.write sha _ (nextCall pos u pre a op)).1 at hstore
  change r.accepted = true ↔ (a.store.write sha _ (nextCall pos u pre a op)).2.verdict = _
    at hverdict
  change r.accepted = true → a'.opToEvent = Dict.set a.opToEvent op.opId
    (a.store.write sha _ (nextCall pos u pre a op)).2.eventId at hevents
  have heid : (a.store.write sha (hybridEvents String String Region Region)
      (nextCall pos u pre a op)).2.eventId = (bodyOf pos u pre op).eventId sha :=
    eventId_write
  refine ⟨a', r, happly, hrid, hclocks, hcounter, ?_⟩
  rw [heid] at hevents
  rw [hverdict, h.acceptable_iff hold hdeps]
  generalize a.store.write sha (hybridEvents String String Region Region)
    (nextCall pos u pre a op) = w at hw hstore hverdict
  obtain ⟨store, result⟩ := w
  cases hw with
  | duplicate e r mem same => exact absurd same (hfresh e mem)
  | rejected w _ why =>
      refine ⟨iff_of_false nofun ?_, fun hacc => ?_⟩
      · rintro ⟨hvalid, hcur⟩
        rcases why with ⟨p, hp, hnot⟩ | ⟨-, hdom⟩
        · exact hnot (hvalid p hp)
        · exact hcur hdom
      · cases hacc
  | admitted sup coordinated _ _ valid current edges verdict =>
      refine ⟨iff_of_true verdict ⟨valid, current⟩, fun hacc => ?_⟩
      exact h.concat hid hfresh valid edges hclocks hcounter hstore
        (hevents (hverdict.mpr hacc))

end Replayed

/-- While everything before it is accepted, an operation is accepted exactly when it is
acceptable. By induction on what is left of the trace, with what was accepted as the prefix. -/
theorem replayFrom_spec {ops : List (Op Nat Region)} (h : Replayed pos u sha regions pre a)
    (hregions : ∀ op ∈ ops, op.originRegion ∈ regions)
    (hids : ∀ i op, ops[i]? = some op → op.opId = pre.length + i)
    (hdeps : ∀ i op, ops[i]? = some op → ∀ d ∈ op.dependsOn, d < pre.length + i)
    (hfree : CollisionFree sha (writesOf pos u (pre ++ ops))) :
    ∃ results, a.replayFrom sha ops = .ok results ∧
      results.map (·.opId) = ops.map (·.opId) ∧
      ∀ i op r, ops[i]? = some op → results[i]? = some r →
        (∀ j < i, ∀ r', results[j]? = some r' → r'.accepted = true) →
        (r.accepted = true ↔ Acceptable pos u (pre ++ ops.take i) op) := by
  induction ops generalizing pre a with
  | nil => exact ⟨[], rfl, rfl, by simp⟩
  | cons op ops ih =>
      rw [List.forall_mem_cons] at hregions
      have hfirst : CollisionFree sha (writesOf pos u (pre ++ [op])) := by
        rw [List.append_cons] at hfree
        exact hfree.subset (writesOf_subset _ _)
      obtain ⟨a', r, happly, hid, hclocks, hcounter, hacc, hnext⟩ :=
        h.step hregions.1 (hids 0 op rfl)
          (fun d hd => ⟨_, List.getElem?_eq_getElem (hdeps 0 op rfl d hd)⟩) hfirst
      -- what comes after `op` goes its way, and is as specified if `op` is accepted
      obtain ⟨results, hresults, hrids, hlater⟩ : ∃ results, a'.replayFrom sha ops = .ok results ∧
          results.map (·.opId) = ops.map (·.opId) ∧ (r.accepted = true →
            ∀ i op' r', ops[i]? = some op' → results[i]? = some r' →
              (∀ j < i, ∀ r'', results[j]? = some r'' → r''.accepted = true) →
              (r'.accepted = true ↔ Acceptable pos u (pre ++ [op] ++ ops.take i) op')) := by
        by_cases haccepted : r.accepted = true
        · obtain ⟨results, hresults, hrids, hspec⟩ := ih (hnext haccepted) hregions.2
            (fun i op' hop' => by
              rw [hids (i + 1) op' hop', List.length_append, List.length_singleton]
              omega)
            (fun i op' hop' d hd => by
              have hlt := hdeps (i + 1) op' hop' d hd
              rw [List.length_append, List.length_singleton]
              omega)
            (by rwa [← List.append_cons])
          exact ⟨results, hresults, hrids, fun _ => hspec⟩
        · obtain ⟨results, hresults, hrids⟩ := CausalStoreAdapter.replayFrom_total sha
            (fun r' hr' => by rw [hclocks, h.clocks r' hr']; rfl)
            (fun r' hr' => hcounter ▸ Dict.isSome_get?_set (by rw [h.counter r' hr']; rfl))
            hregions.2
          exact ⟨results, hresults, hrids, fun hacc => absurd hacc haccepted⟩
      refine ⟨r :: results, ?_, by rw [List.map_cons, List.map_cons, hid, hrids], ?_⟩
      · simp only [CausalStoreAdapter.replayFrom, happly, hresults, bind, Except.bind, pure,
          Except.pure]
      · intro i op' r' hop' hr' hbefore
        cases i with
        | zero =>
            cases hop'
            cases hr'
            simpa using hacc
        | succ i =>
            rw [List.take_succ_cons, List.append_cons]
            exact hlater (hbefore 0 (Nat.succ_pos _) r rfl) i op' r' hop' hr'
              fun j hj r'' hr'' => hbefore (j + 1) (Nat.succ_lt_succ hj) r'' hr''

end Replay

/-! ## The benchmark and the store -/

/-- Every operation whose dependencies were all accepted is itself accepted. -/
def AcceptsGenuine (ops : List (Op Nat Region)) (results : List OpResult) : Prop :=
  ∀ (i : Nat) (op : Op Nat Region) (r : OpResult), ops[i]? = some op → results[i]? = some r →
    (∀ d ∈ op.dependsOn, ∃ r' ∈ results, r'.opId = d ∧ r'.accepted = true) → r.accepted = true

/-- When each is accepted after all before it were, all are. -/
theorem all_accepted {results : List OpResult}
    (h : ∀ (i : Nat) (r : OpResult), results[i]? = some r →
      (∀ j < i, ∀ r', results[j]? = some r' → r'.accepted = true) → r.accepted = true) :
    ∀ (i : Nat) (r : OpResult), results[i]? = some r → r.accepted = true := by
  intro i
  induction i using Nat.strongRecOn with
  | ind i ih => exact fun r hr => h i r hr ih

/-- An adapter with the positions the generator used can be set up. -/
theorem exists_setup {Seed : Type} [DecidableEq Eid] {args : TraceArgs Region Seed}
    (sha : HashInput String String Region (HybridClock Region) → Eid) (u : Region → Nat)
    (hpos : ∀ r ∈ args.regions, args.regionPositionsNm r = some (pos r)) :
    ∃ a, CausalStoreAdapter.setup (fun r => (args.regionPositionsNm r).map fun p => ⟨p, u r⟩)
        args.regions = .ok a ∧ Replayed pos u sha args.regions [] a := by
  have hmissing : (args.regions.filter fun r =>
      ((args.regionPositionsNm r).map fun p => RegionClock.mk p (u r)).isNone) = [] := by
    rw [List.filter_eq_nil_iff]
    intro r hr
    rw [hpos r hr]
    simp
  let a : CausalStoreAdapter Eid Region :=
    { regionClocks := fun r => (args.regionPositionsNm r).map fun p => ⟨p, u r⟩
      vcCounter := Dict.ofPairs (args.regions.map fun r => (r, 0)) }
  refine ⟨a, ?_, ?_, ?_, rfl, CausalStore.Inv.empty, FrontierCurrent.empty, ?_⟩
  · unfold CausalStoreAdapter.setup
    rw [hmissing]
    rfl
  · intro r hr
    show (args.regionPositionsNm r).map _ = _
    rw [hpos r hr]
    rfl
  · intro r hr
    exact Dict.get?_ofPairs_const hr
  · simp

/-- **The benchmark accepts genuine dependencies exactly when** every dependency is supported and no
operation is stale: each is in the region of its predecessor, or far enough from it for light and
the uncertainty of both clocks; and, which only time steps back can break, no operation is by light
before an earlier one of its key that nothing since came after. -/
theorem genuine_accepted_iff {Seed : Type} [DecidableEq Eid] {digest : Seed → BitVec 64}
    {perMillion : ℚ → Int} {args : TraceArgs Region Seed} {out : GeneratedTrace Region Seed}
    {sha : HashInput String String Region (HybridClock Region) → Eid}
    (hpos : ∀ r ∈ args.regions, args.regionPositionsNm r = some (pos r))
    (hout : generateTrace digest perMillion args = .ok out)
    (hfree : CollisionFree sha (writesOf pos u out.trace)) :
    ∃ results, CausalStoreAdapter.replay sha
        (fun r => (args.regionPositionsNm r).map fun p => ⟨p, u r⟩) args.regions out.trace =
          .ok results ∧
      (AcceptsGenuine out.trace results ↔
        ∀ i op, out.trace[i]? = some op → Acceptable pos u (out.trace.take i) op) := by
  obtain ⟨hsome, hemitted⟩ := generateTrace_emitted digest hout
  obtain ⟨a, hsetup, hstart⟩ := exists_setup sha u hpos
  obtain ⟨results, hresults, hrids, hspec⟩ := replayFrom_spec hstart hemitted.region
    (fun i op hop => by simpa using hemitted.opId i op hop)
    (fun i op hop d hd => by
      obtain ⟨-, -, -, hlt, -⟩ := hemitted.light i op hop d hd
      simpa using hlt)
    hfree
  have hlen : results.length = out.trace.length := by
    simpa using congrArg List.length hrids
  have hresult : ∀ {i : Nat} {op : Op Nat Region}, out.trace[i]? = some op →
      ∃ r, results[i]? = some r ∧ r.opId = i := by
    intro i op hop
    have hlt : i < results.length := hlen ▸ (List.getElem?_eq_some_iff.mp hop).1
    refine ⟨results[i], List.getElem?_eq_getElem hlt, ?_⟩
    have hget := congrArg (·[i]?) hrids
    simp only [List.getElem?_map, hop, List.getElem?_eq_getElem hlt, Option.map_some,
      Option.some.injEq] at hget
    exact hget.trans (hemitted.opId i op hop)
  refine ⟨results, ?_, fun hgenuine => ?_, fun hacceptable => ?_⟩
  · unfold CausalStoreAdapter.replay
    rw [hsetup]
    exact hresults
  -- the dependencies of each are earlier, so all are accepted
  · have hall : ∀ (i : Nat) (r : OpResult), results[i]? = some r → r.accepted = true := by
      apply all_accepted
      intro i r hr hearlier
      have hlt : i < out.trace.length := hlen ▸ (List.getElem?_eq_some_iff.mp hr).1
      refine hgenuine i _ r (List.getElem?_eq_getElem hlt) hr fun d hd => ?_
      obtain ⟨pred, -, -, hdi, hpred, -⟩ :=
        hemitted.light i _ (List.getElem?_eq_getElem hlt) d hd
      obtain ⟨r', hr', hid⟩ := hresult hpred
      exact ⟨r', List.mem_of_getElem? hr', hid, hearlier d hdi r' hr'⟩
    intro i op hop
    obtain ⟨r, hr, -⟩ := hresult hop
    exact (hspec i op r hop hr fun j _ => hall j).mp (hall i r hr)
  · intro i op r _ hr _
    apply all_accepted _ i r hr
    intro i r hr hearlier
    have hlt : i < out.trace.length := hlen ▸ (List.getElem?_eq_some_iff.mp hr).1
    have hop := List.getElem?_eq_getElem hlt
    exact (hspec i _ r hop hr hearlier).mpr (hacceptable i _ hop)

/-! Two regions ten light-nanoseconds apart, one key, and a write every ten nanoseconds. -/

def farApart : TraceArgs String String where
  regions := ["a", "b"]
  regionPositionsNm r :=
    if r = "a" then some ⟨0, 0, 0⟩ else if r = "b" then some ⟨2997924580, 0, 0⟩ else none
  nKeys := 1
  nOps := 2
  contentionRatio := 1
  seed := "s1"
  timeStepRange := (10, 10)

/-- The digest of `"s1"` begins with these eight bytes. -/
def digestOfS1 (_ : String) : BitVec 64 := 0xe8bc163c82eee187

def perMillionOf (ratio : ℚ) : Int := (ratio * 1000000).floor

/-- The event ids of a trace, which gives every operation its own value. -/
def valueId (h : HashInput String String String (HybridClock String)) : String := h.p.v

/-- The second write starts in the other region exactly when light arrives. -/
def farTrace : GeneratedTrace String String where
  trace := [⟨0, "k0", "v0", "b", 10, []⟩, ⟨1, "k0", "v1", "a", 20, [0]⟩]
  concurrentPairs := []
  regions := ["a", "b"]
  nKeys := 1
  contentionRatio := 1
  seed := "s1"

/-- **Inside the margin a genuine dependency is refused**: with an uncertainty of one nanosecond in
each region. -/
theorem inside_margin_refused :
    ∃ out results, generateTrace digestOfS1 perMillionOf farApart = .ok out ∧
      CausalStoreAdapter.replay valueId
        (fun r => (farApart.regionPositionsNm r).map fun p => ⟨p, 1⟩) farApart.regions out.trace =
          .ok results ∧
      ¬ AcceptsGenuine out.trace results := by
  refine ⟨farTrace, [⟨0, true, some 0, none⟩, ⟨1, false, none, some "supersedes_non_ancestor"⟩],
    by decide +kernel, by decide +kernel, fun hgenuine => ?_⟩
  have haccepted := hgenuine 1 _ _ rfl rfl (by decide)
  cases haccepted

theorem genuine_accepted_iff_farApart :
    ∃ results, CausalStoreAdapter.replay valueId
        (fun r => (farApart.regionPositionsNm r).map fun p => ⟨p, 0⟩) farApart.regions
          farTrace.trace = .ok results ∧
      (AcceptsGenuine farTrace.trace results ↔ ∀ i op, farTrace.trace[i]? = some op →
        Acceptable (fun r => if r = "a" then ⟨0, 0, 0⟩ else ⟨2997924580, 0, 0⟩) (fun _ => 0)
          (farTrace.trace.take i) op) := by
  have hout : generateTrace digestOfS1 perMillionOf farApart = .ok farTrace := by decide +kernel
  apply genuine_accepted_iff _ hout
  · unfold CollisionFree
    decide +kernel
  · decide +kernel

end HorizonProtocol.Benchmark
