import HorizonProtocol.Trajectory.Reconcile
import HorizonProtocol.Trajectory.Flyby

/-!
# Proper time

`horizon/proper_time.py`: each node counts its own time, at an exact rational rate of the coordinate
time and rounded down. Stamps of different nodes cannot be compared. What such a comparison would
give is settled here by the rates alone.

* `resolves_iff` — which events of one node its own clock can tell apart.
* `proper_time_order` — across nodes, the clock readings end up in the wrong order of cause and
  effect just when the clock of the effect is the slower one.
-/

namespace HorizonProtocol.Trajectory

inductive ProperTimeError (Node : Type) where
  /-- `"v^2 must be non-negative"` -/
  | negativeSpeed
  /-- `"rate denominator must be nonzero"` -/
  | zeroDenominator
  /-- `"cannot compare proper-time stamps from different nodes"`, which are named -/
  | differentNodes (nodeId other : Node)
  deriving DecidableEq

/-- `weak_field_rate`: `1 + phi / c^2 - v^2 / (2 c^2)`, as numerator and denominator. -/
def weakFieldRate {Node : Type} (v2Nm2PerNs2 phiNm2PerNs2 : Int) :
    Except (ProperTimeError Node) (Int × Int) :=
  if v2Nm2PerNs2 < 0 then .error .negativeSpeed
  else
    let c2 := cNmPerNs * cNmPerNs
    .ok (2 * c2 + 2 * phiNm2PerNs2 - v2Nm2PerNs2, 2 * c2)

structure ProperTimeStamp (Node : Type) where
  nodeId : Node
  tauNs : Int
  deriving DecidableEq

section Stamps

variable {Node : Type} [DecidableEq Node]

namespace ProperTimeStamp

/-- `_guard`, and then the comparison of the readings. -/
def guarded (holds : Int → Int → Bool) (a b : ProperTimeStamp Node) :
    Except (ProperTimeError Node) Bool :=
  if b.nodeId ≠ a.nodeId then .error (.differentNodes a.nodeId b.nodeId)
  else .ok (holds a.tauNs b.tauNs)

/-- `__eq__` -/
def eq (a b : ProperTimeStamp Node) := guarded (fun x y => x == y) a b

/-- `__lt__` -/
def lt (a b : ProperTimeStamp Node) := guarded (fun x y => x < y) a b

/-- `__le__` -/
def le (a b : ProperTimeStamp Node) := guarded (fun x y => x ≤ y) a b

/-- `__gt__` -/
def gt (a b : ProperTimeStamp Node) := guarded (fun x y => x > y) a b

/-- `__ge__` -/
def ge (a b : ProperTimeStamp Node) := guarded (fun x y => x ≥ y) a b

end ProperTimeStamp

/-- The clock of a node, anchored at `(t0_coord_ns, tau0_ns)`. -/
structure ProperTimeClock (Node : Type) where
  nodeId : Node
  rate : Rate
  t0CoordNs : Int
  tau0Ns : Int

namespace ProperTimeClock

/-- The constructor. It normalizes the rate as a velocity is normalized: no zero denominator, and
the sign in the numerator. -/
def make (nodeId : Node) (rateNum rateDen : Int) (t0CoordNs tau0Ns : Int := 0) :
    Except (ProperTimeError Node) (ProperTimeClock Node) :=
  match asRational (.ratio rateNum rateDen) with
  | .error _ => .error .zeroDenominator
  | .ok rate => .ok { nodeId, rate, t0CoordNs, tau0Ns }

def tauAt (c : ProperTimeClock Node) (tCoordNs : Int) : Int :=
  let dt := tCoordNs - c.t0CoordNs
  c.tau0Ns + c.rate.num * dt / c.rate.den

def stampAt (c : ProperTimeClock Node) (tCoordNs : Int) : ProperTimeStamp Node :=
  ⟨c.nodeId, c.tauAt tCoordNs⟩

end ProperTimeClock

end Stamps

/-! ## One clock -/

namespace ProperTimeClock

variable {Node : Type} {a b c : ProperTimeClock Node}

theorem tauAt_mono (h : 0 ≤ c.rate.num) : Monotone c.tauAt := by
  intro s t hst
  exact Int.add_le_add_left (Rate.monotone_travel h (Int.sub_le_sub_right hst _)) _

/-- What the reading has is at least `n` just when the unrounded one is. -/
theorem le_tauAt_iff {n t : Int} :
    n ≤ c.tauAt t ↔ (n - c.tau0Ns) * c.rate.den ≤ c.rate.num * (t - c.t0CoordNs) := by
  rw [← Int.le_ediv_iff_mul_le c.rate.den_pos, sub_le_iff_le_add']
  rfl

variable [DecidableEq Node]

/-- Stamps of one node are compared by their readings. -/
theorem stampAt_lt_stampAt (s t : Int) :
    (c.stampAt s).lt (c.stampAt t) = .ok (decide (c.tauAt s < c.tauAt t)) :=
  if_neg fun h => h rfl

/-- **What a clock tells apart.** Stamps `k` nanoseconds apart are in order, whenever the first of
them is taken, just when the clock goes on by at least a whole nanosecond in `k`. -/
theorem resolves_iff (k : Int) :
    (∀ t, (c.stampAt t).lt (c.stampAt (t + k)) = .ok true) ↔ c.rate.den ≤ c.rate.num * k := by
  have hstep (t : Int) : (c.stampAt t).lt (c.stampAt (t + k)) = .ok true ↔
      c.tauAt t + 1 ≤ c.tauAt (t + k) := by
    rw [stampAt_lt_stampAt, Except.ok.injEq, decide_eq_true_iff]
    exact Int.lt_iff_add_one_le
  simp only [hstep, le_tauAt_iff]
  constructor
  · intro h
    have h0 := h c.t0CoordNs
    rw [show c.tauAt c.t0CoordNs = c.tau0Ns by simp [tauAt]] at h0
    linarith
  · intro h t
    -- the reading at `t` is at most the unrounded one
    have ht := le_tauAt_iff.mp (le_refl (c.tauAt t))
    linarith

end ProperTimeClock

/-! ## Two clocks -/

/-- The first rate is below the second. -/
def Rate.Slower (v v' : Rate) : Prop := v.num * v'.den < v'.num * v.den

instance (v v' : Rate) : Decidable (v.Slower v') :=
  inferInstanceAs (Decidable (v.num * v'.den < v'.num * v.den))

namespace ProperTimeClock

variable {Node : Type} {a b : ProperTimeClock Node}

/-- A slower clock falls behind by any margin, and for good. -/
theorem falls_behind (h : b.rate.Slower a.rate) (d : Int) :
    ∃ T, ∀ t, T ≤ t → b.tauAt (t + d) < a.tauAt t := by
  let K := (b.tau0Ns - a.tau0Ns + 1) * a.rate.den * b.rate.den +
    b.rate.num * a.rate.den * (d - b.t0CoordNs) + a.rate.num * b.rate.den * a.t0CoordNs
  refine ⟨max K 0, fun t ht => ?_⟩
  have hK : K ≤ t := (le_max_left _ _).trans ht
  have h0 : 0 ≤ t := (le_max_right _ _).trans ht
  by_contra hge
  have hb := le_tauAt_iff.mp (le_refl (b.tauAt (t + d)))
  -- the faster clock has not come to one more than what the slower one shows
  have ha : a.rate.num * (t - a.t0CoordNs) < (b.tauAt (t + d) + 1 - a.tau0Ns) * a.rate.den := by
    rw [← not_le, ← le_tauAt_iff]
    omega
  have hgap : 1 ≤ a.rate.num * b.rate.den - b.rate.num * a.rate.den := by
    have := h
    unfold Rate.Slower at this
    omega
  have hlt : (a.rate.num * b.rate.den - b.rate.num * a.rate.den) * t < K := by
    have ha' := mul_lt_mul_of_pos_right ha b.rate.den_pos
    have hb' := mul_le_mul_of_nonneg_right hb a.rate.den_pos.le
    linear_combination ha' + hb'
  exact absurd (hK.trans (le_mul_of_one_le_left h0 hgap)) hlt.not_ge

/-- A clock that is not slower is ahead once it is given a fixed delay. -/
theorem keeps_up (hpos : 0 < b.rate.num) (h : ¬ b.rate.Slower a.rate) :
    ∃ d, ∀ t, 0 ≤ t → a.tauAt t < b.tauAt (t + d) := by
  let K := (a.tau0Ns + 1 - b.tau0Ns) * a.rate.den * b.rate.den -
    a.rate.num * b.rate.den * a.t0CoordNs
  refine ⟨b.t0CoordNs + max K 0, fun t ht => Int.lt_iff_add_one_le.mpr ?_⟩
  rw [le_tauAt_iff]
  have hK : K ≤ b.rate.num * a.rate.den * max K 0 :=
    (le_max_left K 0).trans (le_mul_of_one_le_left (le_max_right K 0)
      (Int.mul_pos hpos a.rate.den_pos))
  have ha := mul_le_mul_of_nonneg_right (le_tauAt_iff.mp (le_refl (a.tauAt t))) b.rate.den_pos.le
  have hrate := mul_le_mul_of_nonneg_right (not_lt.mp h) ht
  apply le_of_mul_le_mul_right _ a.rate.den_pos
  linear_combination ha + hrate + hK

end ProperTimeClock

section Ordering

variable {Node : Type} [DecidableEq Node]

/-- A message from `m` to `n`, both at one place: sent at `t`, received `d` later. -/
def relayed (m n : Node) (t d : Int) : Event Node × Event Node :=
  ({ nodeId := m, vclock := Finmap.singleton m 1, tCoordNs := t
     locator := .worldline (FixedWorldline ⟨0, 0, 0⟩) },
   { nodeId := n, vclock := VClock.merge (Finmap.singleton m 1) (Finmap.singleton n 1)
     tCoordNs := t + d, locator := .worldline (FixedWorldline ⟨0, 0, 0⟩) })

theorem before_relayed {m n : Node} (hne : m ≠ n) (t : Int) {d : Int} (hd : 0 ≤ d) :
    Before (relayed m n t d).1 (relayed m n t d).2 := by
  have hlineage : (relayed m n t d).1.vclock.happensBefore (relayed m n t d).2.vclock = true := by
    rw [VClock.happensBefore_iff, Pi.lt_def]
    refine ⟨fun k => ?_, n, ?_⟩
    · exact (le_max_left _ _).trans_eq (VClock.count_merge _ _ k).symm
    · refine lt_of_lt_of_eq ?_ (VClock.count_merge _ _ n).symm
      simp [relayed, VClock.count_singleton, hne.symm]
  obtain ⟨phys, hphys, hv⟩ := twoFloorVerdict_points t (t + d) ⟨0, 0, 0⟩ ⟨0, 0, 0⟩
  have hphysical : physicalVerdict (relayed m n t d).1 (relayed m n t d).2 = .ok phys := hphys
  obtain ⟨res, hres, hverdict⟩ := reconcile_of_before hlineage hphysical
  refine ⟨res, hres, ?_⟩
  rw [hverdict, hv, if_pos]
  · rfl
  · rw [causallyAdmissible_iff]
    exact ⟨by omega, by simpa [dist2] using sq_nonneg _⟩

/-- The first event is of the node of `a`, the second of that of `b`, and comes after it. -/
structure Caused (a b : ProperTimeClock Node) (e f : Event Node) : Prop where
  ofCause : e.nodeId = a.nodeId
  ofEffect : f.nodeId = b.nodeId
  before : Before e f

/-- Whatever the delay, from some time on no effect within it has the later reading. -/
def Inverted (a b : ProperTimeClock Node) : Prop :=
  ∀ d, ∃ T, ∀ e f, Caused a b e f → T ≤ e.tCoordNs → f.tCoordNs ≤ e.tCoordNs + d →
    b.tauAt f.tCoordNs < a.tauAt e.tCoordNs

/-- From some time on, every effect late enough has the later reading. -/
def InOrder (a b : ProperTimeClock Node) : Prop :=
  ∃ d T, ∀ e f, Caused a b e f → T ≤ e.tCoordNs → e.tCoordNs + d ≤ f.tCoordNs →
    a.tauAt e.tCoordNs < b.tauAt f.tCoordNs

variable {a b : ProperTimeClock Node}

/-- A relayed message late enough tells the two apart. -/
theorem Inverted.not_inOrder (hne : a.nodeId ≠ b.nodeId) (h : Inverted a b) : ¬ InOrder a b := by
  rintro ⟨d, T, hfast⟩
  obtain ⟨T', hslow⟩ := h (max d 0)
  have hcaused : Caused a b (relayed a.nodeId b.nodeId (max T T') (max d 0)).1
      (relayed a.nodeId b.nodeId (max T T') (max d 0)).2 :=
    ⟨rfl, rfl, before_relayed hne _ (le_max_right d 0)⟩
  have hlt := hslow _ _ hcaused (le_max_right T T') le_rfl
  have hgt := hfast _ _ hcaused (le_max_left T T') (Int.add_le_add_left (le_max_left d 0) _)
  exact absurd hlt hgt.not_gt

/-- **Clocks do not order cause and effect across nodes.** Take two nodes, the clock of the second
running forward, and the pairs of events that `reconcile` puts in order, the first node's `BEFORE`
the second's. The second clock is the slower one just when, whatever the delay, from some time on
all pairs within it have their readings the wrong way round; it is not slower just when from some
time on all pairs far enough apart have theirs in order. -/
theorem proper_time_order (hne : a.nodeId ≠ b.nodeId) (hpos : 0 < b.rate.num) :
    (b.rate.Slower a.rate ↔ Inverted a b) ∧ (¬ b.rate.Slower a.rate ↔ InOrder a b) := by
  have hmono := ProperTimeClock.tauAt_mono hpos.le
  have inverted (h : b.rate.Slower a.rate) : Inverted a b := by
    intro d
    obtain ⟨T, hT⟩ := ProperTimeClock.falls_behind h d
    exact ⟨T, fun e f _ hlate hdelay => (hmono hdelay).trans_lt (hT _ hlate)⟩
  have inOrder (h : ¬ b.rate.Slower a.rate) : InOrder a b := by
    obtain ⟨d, hd⟩ := ProperTimeClock.keeps_up hpos h
    exact ⟨d, 0, fun e f _ hlate hdelay => (hd _ hlate).trans_le (hmono hdelay)⟩
  constructor
  · refine ⟨inverted, fun h => ?_⟩
    by_contra hnot
    exact h.not_inOrder hne (inOrder hnot)
  · exact ⟨inOrder, fun h hslow => (inverted hslow).not_inOrder hne h⟩

end Ordering

/-! ## Clocks of the weak field -/

/-- A clock with the rate that `weak_field_rate` gives. -/
def weakFieldClock {Node : Type} (nodeId : Node) (v2Nm2PerNs2 phiNm2PerNs2 : Int) :
    Except (ProperTimeError Node) (ProperTimeClock Node) := do
  let (rateNum, rateDen) ← weakFieldRate v2Nm2PerNs2 phiNm2PerNs2
  ProperTimeClock.make nodeId rateNum rateDen

/-- A clock is the slower one when it moves faster or stands deeper. -/
theorem slower_weakField_iff {Node : Type} {a b : ProperTimeClock Node} {m n : Node}
    {v2 phi v2' phi' : Int} (ha : weakFieldClock m v2 phi = .ok a)
    (hb : weakFieldClock n v2' phi' = .ok b) :
    b.rate.Slower a.rate ↔ 2 * phi' - v2' < 2 * phi - v2 := by
  have rate_eq {c : ProperTimeClock Node} {k : Node} {v2 phi : Int}
      (h : weakFieldClock k v2 phi = .ok c) :
      c.rate.num = 2 * (cNmPerNs * cNmPerNs) + 2 * phi - v2 ∧
        c.rate.den = 2 * (cNmPerNs * cNmPerNs) := by
    unfold weakFieldClock weakFieldRate at h
    split at h
    · cases h
    · cases h
      exact ⟨rfl, rfl⟩
  rw [Rate.Slower, (rate_eq ha).1, (rate_eq ha).2, (rate_eq hb).1, (rate_eq hb).2,
    mul_lt_mul_iff_left₀ (by decide)]
  omega

def groundClock : ProperTimeClock Nat where
  nodeId := 0
  rate := ⟨2 * cNmPerNs ^ 2, 2 * cNmPerNs ^ 2, by decide⟩
  t0CoordNs := 0
  tau0Ns := 0

/-- On a ship at a tenth of the speed of light. -/
def shipClock : ProperTimeClock Nat where
  nodeId := 1
  rate := ⟨2 * cNmPerNs ^ 2 - 29979245 ^ 2, 2 * cNmPerNs ^ 2, by decide⟩
  t0CoordNs := 0
  tau0Ns := 0

theorem proper_time_order_ship : Inverted groundClock shipClock := by
  have horder := proper_time_order (a := groundClock) (b := shipClock) (by decide) (by decide)
  have hslower : shipClock.rate.Slower groundClock.rate :=
    (@slower_weakField_iff Nat groundClock shipClock 0 1 0 0 (29979245 ^ 2) 0 rfl rfl).mpr
      (by decide)
  exact horder.1.mp hslower

end HorizonProtocol.Trajectory
