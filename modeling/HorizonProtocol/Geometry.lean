import HorizonProtocol.LeastTime
import HorizonProtocol.LightCone
import Mathlib.Analysis.InnerProductSpace.PiL2

/-!
# The light-cone geometry kernel

`horizon/geometry.py`: positions in whole nanometers, times in whole nanoseconds, and the speed of
light exactly `299792458` nm/ns. The kernel decides `causally_admissible` on squared integers. Its
meaning is the light cone of real space: `causallyAdmissible_iff_reaches` embeds an integer event
into `ℝ × EuclideanSpace ℝ (Fin 3)`, and the order laws are those of `LightCone.Reaches`.

* `causal_kernel_order` — the kernel is a partial order on spacetime.
* `causallyAdmissible_iff_minLightTime` — admissible means at least `min_light_time_ns` apart.
-/

namespace HorizonProtocol

/-- A position, `(x, y, z)` in nanometers. -/
@[ext] structure Pos where
  x : Int
  y : Int
  z : Int
  deriving DecidableEq

/-- `C_NM_PER_NS`: the speed of light, exactly. -/
def cNmPerNs : Int := 299792458

/-- Squared Euclidean distance in nm². -/
def dist2 (p1 p2 : Pos) : Int :=
  let dx := p2.x - p1.x
  let dy := p2.y - p1.y
  let dz := p2.z - p1.z
  dx * dx + dy * dy + dz * dz

/-- Event 2 lies in the closed future light cone of event 1. -/
def causallyAdmissible (t1 : Int) (p1 : Pos) (t2 : Int) (p2 : Pos) : Bool :=
  let dt := t2 - t1
  if dt < 0 then false
  else decide ((cNmPerNs * dt) ^ 2 ≥ dist2 p1 p2)

/-- The integers behind an admissibility decision. -/
structure AdmissibilityWitness where
  dtNs : Int
  cNmPerNs : Int
  lhsCDtSquared : Option Int
  rhsDistSquaredNm2 : Int
  admissible : Bool
  deriving DecidableEq

def admissibilityWitness (t1 : Int) (p1 : Pos) (t2 : Int) (p2 : Pos) : AdmissibilityWitness :=
  let dt := t2 - t1
  { dtNs := dt
    cNmPerNs := cNmPerNs
    lhsCDtSquared := if dt ≥ 0 then some ((cNmPerNs * dt) ^ 2) else none
    rhsDistSquaredNm2 := dist2 p1 p2
    admissible := causallyAdmissible t1 p1 t2 p2 }

/-- Smallest whole `dt` with `(c * dt)² ≥ dist²`. -/
def minLightTimeNs (p1 p2 : Pos) : Nat :=
  LeastTime.leastTime cNmPerNs.toNat (dist2 p1 p2).toNat

/-! ## The kernel and the light cone of real space -/

/-- An integer position as a point of real space. -/
noncomputable def Pos.toSpace (p : Pos) : EuclideanSpace ℝ (Fin 3) := !₂[(p.x : ℝ), p.y, p.z]

/-- An integer event as a point of real spacetime. -/
noncomputable def toSpacetime (t : Int) (p : Pos) : ℝ × EuclideanSpace ℝ (Fin 3) :=
  ((t : ℝ), p.toSpace)

theorem Pos.toSpace_injective : Function.Injective Pos.toSpace := by
  intro p q h
  have hx := congrArg (fun v : EuclideanSpace ℝ (Fin 3) => v 0) h
  have hy := congrArg (fun v : EuclideanSpace ℝ (Fin 3) => v 1) h
  have hz := congrArg (fun v : EuclideanSpace ℝ (Fin 3) => v 2) h
  simp only [Pos.toSpace] at hx hy hz
  ext
  · simpa using hx
  · simpa using hy
  · simpa using hz

/-- `dist2` is the squared distance of real space. -/
theorem norm_toSpace_sub_sq (p1 p2 : Pos) :
    ‖p2.toSpace - p1.toSpace‖ ^ 2 = (dist2 p1 p2 : ℝ) := by
  rw [EuclideanSpace.real_norm_sq_eq, Fin.sum_univ_three]
  simp only [Pos.toSpace, dist2]
  push_cast
  simp [pow_two]

theorem dist2_nonneg (p1 p2 : Pos) : 0 ≤ dist2 p1 p2 :=
  add_nonneg (add_nonneg (mul_self_nonneg _) (mul_self_nonneg _)) (mul_self_nonneg _)

theorem causallyAdmissible_iff {t1 : Int} {p1 : Pos} {t2 : Int} {p2 : Pos} :
    causallyAdmissible t1 p1 t2 p2 = true ↔
      0 ≤ t2 - t1 ∧ dist2 p1 p2 ≤ (cNmPerNs * (t2 - t1)) ^ 2 := by
  simp only [causallyAdmissible]
  split
  · next h =>
      simp only [Bool.false_eq_true, false_iff, not_and]
      omega
  · next h =>
      simp only [decide_eq_true_eq, ge_iff_le, iff_and_self]
      omega

/-- **The kernel decides the light cone**, with no root and no rounding. -/
theorem causallyAdmissible_iff_reaches {t1 : Int} {p1 : Pos} {t2 : Int} {p2 : Pos} :
    causallyAdmissible t1 p1 t2 p2 = true ↔
      LightCone.Reaches (cNmPerNs : ℝ) (toSpacetime t1 p1) (toSpacetime t2 p2) := by
  have hc : (0 : ℝ) < (cNmPerNs : ℝ) := by norm_num [cNmPerNs]
  rw [causallyAdmissible_iff, LightCone.reaches_iff_sq hc]
  simp only [toSpacetime, norm_toSpace_sub_sq]
  norm_cast

/-! ## The kernel is a partial order -/

@[simp] theorem causallyAdmissible_refl (t : Int) (p : Pos) : causallyAdmissible t p t p = true :=
  causallyAdmissible_iff_reaches.mpr (LightCone.Reaches.refl _ _)

theorem causallyAdmissible_trans {t1 t2 t3 : Int} {p1 p2 p3 : Pos}
    (h12 : causallyAdmissible t1 p1 t2 p2 = true) (h23 : causallyAdmissible t2 p2 t3 p3 = true) :
    causallyAdmissible t1 p1 t3 p3 = true := by
  rw [causallyAdmissible_iff_reaches] at *
  exact h12.trans h23

theorem causallyAdmissible_antisymm {t1 t2 : Int} {p1 p2 : Pos}
    (h12 : causallyAdmissible t1 p1 t2 p2 = true) (h21 : causallyAdmissible t2 p2 t1 p1 = true) :
    t1 = t2 ∧ p1 = p2 := by
  have hc : (0 : ℝ) < (cNmPerNs : ℝ) := by norm_num [cNmPerNs]
  rw [causallyAdmissible_iff_reaches] at h12 h21
  have heq := h12.antisymm hc h21
  simp only [toSpacetime, Prod.mk.injEq] at heq
  exact ⟨by exact_mod_cast heq.1, Pos.toSpace_injective heq.2⟩

/-- **The causal kernel is a partial order on spacetime.** -/
theorem causal_kernel_order :
    (∀ (t : Int) (p : Pos), causallyAdmissible t p t p = true) ∧
    (∀ (t1 t2 t3 : Int) (p1 p2 p3 : Pos), causallyAdmissible t1 p1 t2 p2 = true →
      causallyAdmissible t2 p2 t3 p3 = true → causallyAdmissible t1 p1 t3 p3 = true) ∧
    (∀ (t1 t2 : Int) (p1 p2 : Pos), causallyAdmissible t1 p1 t2 p2 = true →
      causallyAdmissible t2 p2 t1 p1 = true → t1 = t2 ∧ p1 = p2) :=
  ⟨causallyAdmissible_refl,
    fun _ _ _ _ _ _ h12 h23 => causallyAdmissible_trans h12 h23,
    fun _ _ _ _ h12 h21 => causallyAdmissible_antisymm h12 h21⟩

/-! ## The light-time floor -/

/-- The floor, for whole times of either sign. -/
theorem minLightTimeNs_le_int_iff {p1 p2 : Pos} (dt : Int) :
    (minLightTimeNs p1 p2 : Int) ≤ dt ↔ 0 ≤ dt ∧ dist2 p1 p2 ≤ (cNmPerNs * dt) ^ 2 :=
  LeastTime.leastTime_le_int_iff (by decide) (dist2_nonneg p1 p2) dt

theorem minLightTimeNs_le_iff {p1 p2 : Pos} (n : Nat) :
    minLightTimeNs p1 p2 ≤ n ↔ dist2 p1 p2 ≤ (cNmPerNs * n) ^ 2 := by
  rw [← Int.ofNat_le, minLightTimeNs_le_int_iff, and_iff_right (Int.natCast_nonneg n)]

theorem minLightTimeNs_comm (p1 p2 : Pos) : minLightTimeNs p1 p2 = minLightTimeNs p2 p1 := by
  have hd : dist2 p1 p2 = dist2 p2 p1 := by
    simp only [dist2]
    ring
  rw [minLightTimeNs, minLightTimeNs, hd]

theorem minLightTimeNs_eq_zero {p1 p2 : Pos} : minLightTimeNs p1 p2 = 0 ↔ p1 = p2 := by
  rw [← Nat.le_zero, minLightTimeNs_le_iff]
  constructor
  · intro h
    have hsq : ‖p2.toSpace - p1.toSpace‖ ^ 2 = 0 := by
      have hd : dist2 p1 p2 = 0 := le_antisymm (by simpa using h) (dist2_nonneg p1 p2)
      rw [norm_toSpace_sub_sq, hd]
      exact Int.cast_zero
    have hsub := norm_eq_zero.mp (pow_eq_zero_iff (two_ne_zero) |>.mp hsq)
    exact (Pos.toSpace_injective (sub_eq_zero.mp hsub)).symm
  · rintro rfl
    simp [dist2]

/-- **The floor is the boundary of the cone.** -/
theorem causallyAdmissible_iff_minLightTime {t1 : Int} {p1 : Pos} {t2 : Int} {p2 : Pos} :
    causallyAdmissible t1 p1 t2 p2 = true ↔ (minLightTimeNs p1 p2 : Int) ≤ t2 - t1 := by
  rw [causallyAdmissible_iff, minLightTimeNs_le_int_iff]

/-- A detour takes no less time, in whole nanoseconds as in space. -/
theorem minLightTimeNs_triangle (p1 p2 p3 : Pos) :
    minLightTimeNs p1 p3 ≤ minLightTimeNs p1 p2 + minLightTimeNs p2 p3 := by
  have h12 : causallyAdmissible 0 p1 (minLightTimeNs p1 p2) p2 = true := by
    rw [causallyAdmissible_iff_minLightTime]
    omega
  have h23 : causallyAdmissible (minLightTimeNs p1 p2) p2
      (minLightTimeNs p1 p2 + minLightTimeNs p2 p3) p3 = true := by
    rw [causallyAdmissible_iff_minLightTime]
    omega
  have h13 := causallyAdmissible_iff_minLightTime.mp (causallyAdmissible_trans h12 h23)
  omega

/-! ## Stamped events -/

/-- `{"time_ns": int, "pos_nm": [x, y, z]}`. -/
structure Stamp where
  timeNs : Int
  posNm : Pos
  deriving DecidableEq

/-- `b` is strictly later than `a` and in its closed future light cone. -/
structure Stamp.Later (a b : Stamp) : Prop where
  earlier : a.timeNs < b.timeNs
  cone : causallyAdmissible a.timeNs a.posNm b.timeNs b.posNm = true

instance Stamp.later_strict : IsStrictOrder Stamp Stamp.Later where
  irrefl _ h := lt_irrefl _ h.earlier
  trans _ _ _ hab hbc :=
    { earlier := hab.earlier.trans hbc.earlier
      cone := causallyAdmissible_trans hab.cone hbc.cone }

end HorizonProtocol
