import HorizonProtocol.Geometry
import HorizonProtocol.ConeBalls

/-!
# Worldlines and trajectory envelopes

`horizon/worldline.py` and `horizon/uncertainty.py`: where a node is at a time, either exactly or as
a center with a radius that grows since the last contact. `Side` is what the two-floor gate takes:
a definite position or an envelope. What a side says is a closed ball of real space at each time it
covers (`Side.allowed`).
-/

namespace HorizonProtocol.Trajectory

inductive TrajectoryError where
  /-- `"velocity denominator must be nonzero"` -/
  | zeroDenominator
  /-- `"query time before this envelope's contact time"` -/
  | queryBeforeContact
  deriving DecidableEq

/-! ## Worldlines -/

/-- Any object with `position_at(t_ns) -> (x_nm, y_nm, z_nm)`. -/
structure Worldline where
  positionAt : Int → Pos

/-- `FixedWorldline`: the same place at every time. -/
def FixedWorldline (posNm : Pos) : Worldline where
  positionAt _ := posNm

/-- `causally_admissible_wl`: each side is taken at its own time. -/
def causallyAdmissibleWl (a : Worldline) (t1 : Int) (b : Worldline) (t2 : Int) : Bool :=
  causallyAdmissible t1 (a.positionAt t1) t2 (b.positionAt t2)

/-- A velocity as it is given: nm/ns, whole or `(num, den)`. -/
inductive VelocityComponent where
  | whole (v : Int)
  | ratio (num den : Int)

/-- A velocity as it is kept: the sign is in the numerator. -/
structure Rate where
  num : Int
  den : Int
  den_pos : 0 < den

/-- `_as_rational`. -/
def asRational : VelocityComponent → Except TrajectoryError Rate
  | .whole v => .ok ⟨v, 1, one_pos⟩
  | .ratio num den =>
    if h0 : den = 0 then .error .zeroDenominator
    else if h : den < 0 then .ok ⟨-num, -den, neg_pos.mpr h⟩
    else .ok ⟨num, den, by omega⟩

structure LinearWorldline where
  p0Nm : Pos
  t0Ns : Int
  vx : Rate
  vy : Rate
  vz : Rate

namespace LinearWorldline

/-- The constructor, which normalizes the velocity. -/
def make (p0Nm : Pos) (t0Ns : Int) (vx vy vz : VelocityComponent) :
    Except TrajectoryError LinearWorldline := do
  return { p0Nm, t0Ns, vx := ← asRational vx, vy := ← asRational vy, vz := ← asRational vz }

def positionAt (w : LinearWorldline) (tNs : Int) : Pos :=
  let dt := tNs - w.t0Ns
  { x := w.p0Nm.x + w.vx.num * dt / w.vx.den
    y := w.p0Nm.y + w.vy.num * dt / w.vy.den
    z := w.p0Nm.z + w.vz.num * dt / w.vz.den }

def toWorldline (w : LinearWorldline) : Worldline where
  positionAt := w.positionAt

end LinearWorldline

/-! ## Envelopes -/

/-- `_ceil_div`. -/
def ceilDiv (a b : Int) : Int := -(-a / b)

theorem ceilDiv_le_iff {a b n : Int} (hb : 0 < b) : ceilDiv a b ≤ n ↔ a ≤ n * b := by
  rw [ceilDiv, neg_le, Int.le_ediv_iff_mul_le hb, neg_mul, neg_le_neg_iff]

theorem ceilDiv_nonneg {a b : Int} (ha : 0 ≤ a) (hb : 0 < b) : 0 ≤ ceilDiv a b := by
  by_contra h
  have hle : a ≤ -1 * b := (ceilDiv_le_iff hb).mp (by omega)
  omega

/-- What is known of a node since its last contact. The constructor refuses negative magnitudes. -/
structure TrajectoryEnvelope where
  nominal : Worldline
  tC : Int
  vUnc : Nat
  aMax : Nat
  uMeasured : Nat

namespace TrajectoryEnvelope

def centerAt (e : TrajectoryEnvelope) (tNs : Int) : Pos := e.nominal.positionAt tNs

def radiusAt (e : TrajectoryEnvelope) (tNs : Int) : Except TrajectoryError Int :=
  let dt := tNs - e.tC
  if dt < 0 then .error .queryBeforeContact
  else
    let accelTerm := ceilDiv (e.aMax * dt * dt) 2
    .ok (e.uMeasured + e.vUnc * dt + accelTerm)

theorem radiusAt_eq_ok {e : TrajectoryEnvelope} {tNs : Int} (h : e.tC ≤ tNs) :
    ∃ r, e.radiusAt tNs = .ok r ∧ 0 ≤ r := by
  have hdt : 0 ≤ tNs - e.tC := sub_nonneg.mpr h
  refine ⟨_, if_neg (by omega), ?_⟩
  have haccel : 0 ≤ ceilDiv (e.aMax * (tNs - e.tC) * (tNs - e.tC)) 2 :=
    ceilDiv_nonneg (mul_nonneg (mul_nonneg (Int.natCast_nonneg _) hdt) hdt) two_pos
  have hdrift : 0 ≤ (e.vUnc : Int) * (tNs - e.tC) := mul_nonneg (Int.natCast_nonneg _) hdt
  omega

end TrajectoryEnvelope

/-! ## Sides -/

/-- One side of a two-floor question: a definite position, or an envelope. -/
inductive Side where
  | point (pos : Pos)
  | envelope (e : TrajectoryEnvelope)

namespace Side

/-- `_resolve`: center and radius. -/
def resolve (tNs : Int) : Side → Except TrajectoryError (Pos × Int)
  | .point pos => .ok (pos, 0)
  | .envelope e => do
    let r ← e.radiusAt tNs
    return (e.centerAt tNs, r)

/-- The time is not before the contact of the envelope, if it is one. -/
def Covers (tNs : Int) : Side → Prop
  | .point _ => True
  | .envelope e => e.tC ≤ tNs

instance (tNs : Int) (s : Side) : Decidable (s.Covers tNs) :=
  match s with
  | .point _ => inferInstanceAs (Decidable True)
  | .envelope e => inferInstanceAs (Decidable (e.tC ≤ tNs))

/-- The places of real space a side allows at a time. -/
def allowed (tNs : Int) (s : Side) : Set (EuclideanSpace ℝ (Fin 3)) :=
  {x | ∃ center r, s.resolve tNs = .ok (center, r) ∧ x ∈ Metric.closedBall center.toSpace (r : ℝ)}

/-- The event a side may be, at this time. -/
def region (tNs : Int) (s : Side) : ℝ × Set (EuclideanSpace ℝ (Fin 3)) := (tNs, s.allowed tNs)

variable {s : Side} {tNs : Int} {center : Pos} {r : Int}

theorem resolve_eq_ok (h : s.Covers tNs) :
    ∃ center r, s.resolve tNs = .ok (center, r) ∧ 0 ≤ r := by
  cases s with
  | point pos => exact ⟨pos, 0, rfl, le_rfl⟩
  | envelope e =>
      obtain ⟨r, hr, hpos⟩ := TrajectoryEnvelope.radiusAt_eq_ok h
      refine ⟨e.centerAt tNs, r, ?_, hpos⟩
      simp only [resolve, hr]
      rfl

theorem covers_of_resolve (h : s.resolve tNs = .ok (center, r)) : s.Covers tNs := by
  cases s with
  | point pos => trivial
  | envelope e =>
      show e.tC ≤ tNs
      by_contra hlt
      have herr : e.radiusAt tNs = .error .queryBeforeContact := if_pos (by omega)
      simp only [resolve, herr] at h
      cases h

/-- What a side allows is the ball it resolves to. -/
theorem region_eq (h : s.resolve tNs = .ok (center, r)) :
    s.region tNs = ((tNs : ℝ), Metric.closedBall center.toSpace (r : ℝ)) := by
  have hball : s.allowed tNs = Metric.closedBall center.toSpace (r : ℝ) := by
    apply Set.ext
    intro x
    constructor
    · rintro ⟨center', r', h', hx⟩
      cases h.symm.trans h'
      exact hx
    · intro hx
      exact ⟨center, r, h, hx⟩
  rw [region, hball]

@[simp] theorem region_point (pos : Pos) :
    (point pos).region tNs = ((tNs : ℝ), {pos.toSpace}) := by
  rw [region_eq (show (point pos).resolve tNs = .ok (pos, 0) from rfl), Int.cast_zero,
    Metric.closedBall_zero]

theorem region_nonempty (h : s.Covers tNs) : (s.region tNs).2.Nonempty := by
  obtain ⟨center, r, hs, hr⟩ := resolve_eq_ok h
  rw [region_eq hs]
  exact ⟨center.toSpace, Metric.mem_closedBall_self (by exact_mod_cast hr)⟩

/-- The same center and no smaller a radius. -/
def Widens (tNs : Int) (s s' : Side) : Prop :=
  ∃ center r r', s.resolve tNs = .ok (center, r) ∧ s'.resolve tNs = .ok (center, r') ∧ r ≤ r'

theorem Widens.covers {s' : Side} (h : Widens tNs s s') : s'.Covers tNs := by
  obtain ⟨center, r, r', hs, hs', hle⟩ := h
  exact covers_of_resolve hs'

theorem Widens.region_subset {s' : Side} (h : Widens tNs s s') :
    (s.region tNs).2 ⊆ (s'.region tNs).2 := by
  obtain ⟨center, r, r', hs, hs', hle⟩ := h
  rw [region_eq hs, region_eq hs']
  exact Metric.closedBall_subset_closedBall (by exact_mod_cast hle)

end Side

end HorizonProtocol.Trajectory
