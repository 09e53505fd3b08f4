import HorizonProtocol.Attestation.ReceiptBands
import HorizonProtocol.Decimals
import HorizonProtocol.Sampling

/-!
# Attacks on the timing gates

The first attacks of `redteam/attacks.py`. One compares the kernel with another algorithm, a
square root of 60 decimal digits; the other looks near the two floors of the budgeted gate for a
verdict out of place. An attack reports its bypasses, and a report without any is what passes.

* `differential_exact` — how far the other algorithm can be trusted.
* `always_attackTimingFuzz`, `always_attackBoundaryFuzz` — neither attack ever has a bypass.
-/

namespace HorizonProtocol.RedTeam

open Attestation Sampling

/-- `{"attack", "trials", "bypasses"}`. -/
structure Report (Bypass : Type) where
  attack : String
  trials : Nat
  bypasses : List Bypass

/-- The report over trials that were made. -/
def report {σ ε Bypass : Type} (attack : String) (trials : Nat)
    (found : Draws σ ε (List Bypass)) : Draws σ ε (Report Bypass) := do
  let bypasses ← found
  pure { attack, trials, bypasses }

/-- The attack was made, and did not get through. -/
def Clean {Bypass : Type} (attack : String) (trials : Nat) (r : Report Bypass) : Prop :=
  r = { attack, trials, bypasses := [] }

variable {σ ε : Type}

theorem always_report {Bypass : Type} {attack : String} {trials : Nat}
    {found : Draws σ ε (List Bypass)} (h : Always found fun bypasses => bypasses = []) :
    Always (report attack trials found) (Clean attack trials) := by
  refine always_bind (h.mono fun bypasses hbypasses => always_pure ?_)
  rw [hbypasses]
  rfl

/-! ## Differential timing fuzz -/

/-- `getcontext().prec`. -/
def prec : Nat := 60

/-- Not the algorithm of `causallyAdmissible`: a root, and nothing is squared. Exponents are unbounded
here, where the default context of `decimal` raises `Overflow` above 999999. -/
def independentAdmissible (t1 : Int) (p1 : Pos) (t2 : Int) (p2 : Pos) : Bool :=
  let dt := t2 - t1
  if dt < 0 then false
  else
    let d2 := dist2 p1 p2
    let lhs := Decimals.mul prec (Decimals.ofNat cNmPerNs.toNat) (Decimals.ofNat dt.toNat)
    let rhs := Decimals.sqrt prec d2.toNat
    decide (lhs.value ≥ rhs.value)

structure TimingBypass where
  t1 : Int
  p1 : Pos
  t2 : Int
  p2 : Pos
  kernel : Bool
  independent : Bool

variable (g : Generator σ)

def scales : List Int := [1000, 1000000, 1000000000, 10 ^ 14, 10 ^ 17]

def timingTrial : Draws σ ε (List TimingBypass) := do
  let scale ← choice g scales
  let p1 : Pos := ⟨0, 0, 0⟩
  let x ← randint g 1 scale
  let y ← randint g 0 scale
  let z ← randint g 0 scale
  let p2 : Pos := ⟨x, y, z⟩
  let mlt := minLightTimeNs p1 p2
  let offset ← randint g (-1000) 1000
  let dt := max 0 (mlt + offset)
  let t1 ← randint g 0 (10 ^ 12)
  let t2 := t1 + dt
  let kernelVerdict := causallyAdmissible t1 p1 t2 p2
  let independentVerdict := independentAdmissible t1 p1 t2 p2
  if kernelVerdict ≠ independentVerdict then
    pure [{ t1, p1, t2, p2, kernel := kernelVerdict, independent := independentVerdict }]
  else pure []

def attackTimingFuzz (n : Nat := 5000) : Draws σ ε (Report TimingBypass) :=
  report "timing_fuzz_differential" n (trials n fun _ => timingTrial g)

/-- The product that is compared, as long as it is not rounded. -/
theorem value_mul_ofNat {n : Nat} (h : cNmPerNs.toNat * n < 10 ^ prec) :
    (Decimals.mul prec (Decimals.ofNat cNmPerNs.toNat) (Decimals.ofNat n)).value =
      (cNmPerNs.toNat * n : Nat) := by
  rw [Decimals.mul, Decimals.round_of_lt (by decide) h, Decimals.Decimal.value]
  simp [Decimals.ofNat]

/-- The root and the product are compared as the squares are. -/
theorem sqrt_le_mul_iff {n d : Nat} (hd : d < 10 ^ prec) :
    (Decimals.sqrt prec d).value ≤
        (Decimals.mul prec (Decimals.ofNat cNmPerNs.toNat) (Decimals.ofNat n)).value ↔
      d ≤ (cNmPerNs.toNat * n) ^ 2 := by
  have hroot := @Decimals.sqrt_le_iff prec 30 d (by decide) (by decide) hd
  by_cases hn : cNmPerNs.toNat * n < 10 ^ prec
  · rw [value_mul_ofNat hn, hroot]
  · -- the product is rounded, far above any root
    rw [not_lt] at hn
    have hlarge : (10 : ℚ) ^ 30 ≤
        (Decimals.mul prec (Decimals.ofNat cNmPerNs.toNat) (Decimals.ofNat n)).value := by
      have hle := @Decimals.le_value_round prec 30
        ⟨cNmPerNs.toNat * n, 0⟩ (by decide) (le_trans (by decide) hn)
      rw [zpow_zero, mul_one] at hle
      exact hle
    have hsmall : (Decimals.sqrt prec d).value ≤ (10 ^ 30 : Nat) := by
      rw [hroot]
      exact hd.le
    refine iff_of_true (hsmall.trans (by exact_mod_cast hlarge)) ?_
    exact hd.le.trans (hn.trans (Nat.le_self_pow two_ne_zero _))

theorem independentAdmissible_eq {t1 t2 : Int} {p1 p2 : Pos} (h : dist2 p1 p2 < 10 ^ 60) :
    independentAdmissible t1 p1 t2 p2 = causallyAdmissible t1 p1 t2 p2 := by
  rw [Bool.eq_iff_iff, causallyAdmissible_iff, independentAdmissible]
  dsimp only
  split
  · next hdt => simp only [Bool.false_eq_true, false_iff, not_and]; omega
  · next hdt =>
      rw [not_lt] at hdt
      have hd : (dist2 p1 p2).toNat < 10 ^ prec := by
        rw [Int.toNat_lt (dist2_nonneg p1 p2)]
        exact h
      rw [decide_eq_true_eq, ge_iff_le, sqrt_le_mul_iff hd, and_iff_right hdt, ← Int.ofNat_le,
        Int.toNat_of_nonneg (dist2_nonneg p1 p2)]
      push_cast
      rw [Int.toNat_of_nonneg hdt]
      rfl

/-- The point at the distance that light covers in a time, and one nanometer aside. -/
def justOutside (p : Pos) (dt : Int) : Pos := ⟨p.x + cNmPerNs * dt, p.y + 1, p.z⟩

theorem dist2_justOutside (p : Pos) (dt : Int) :
    dist2 p (justOutside p dt) = (cNmPerNs * dt) ^ 2 + 1 := by
  simp only [dist2, justOutside]
  ring

theorem independentAdmissible_justOutside {dt : Int} (t : Int) (p : Pos)
    (hle : 10 ^ 30 ≤ cNmPerNs * dt) (hlt : cNmPerNs * dt < 10 ^ 60) :
    independentAdmissible t p (t + dt) (justOutside p dt) = true := by
  have hdt : 0 ≤ dt := by
    rw [cNmPerNs] at hle
    omega
  obtain ⟨n, rfl⟩ := Int.eq_ofNat_of_zero_le hdt
  obtain ⟨m, hm⟩ : ∃ m, cNmPerNs.toNat * n = m := ⟨_, rfl⟩
  have hcast : cNmPerNs * (n : Int) = (m : Int) := by
    rw [← hm, Nat.cast_mul, Int.toNat_of_nonneg (by decide)]
  rw [hcast] at hle hlt
  have hm' : m < 10 ^ prec := by exact_mod_cast hlt
  have hd2 : (dist2 p (justOutside p n)).toNat = m ^ 2 + 1 := by
    rw [dist2_justOutside, hcast]
    exact Int.toNat_natCast (m ^ 2 + 1)
  have hroot := @Decimals.sqrt_sq_add_one prec 30 m (by decide) (by exact_mod_cast hle) hm'
  have hproduct := @value_mul_ofNat n (by rwa [hm])
  rw [hm] at hproduct
  rw [independentAdmissible]
  dsimp only
  rw [add_sub_cancel_left, if_neg (not_lt.mpr hdt), Int.toNat_natCast, hd2, hroot, hproduct]
  simp

/-- **How far the cross-check can be trusted.** For events nearer than `10³⁰` nm, at any times, it
agrees with the kernel. Beyond, it admits what the kernel rejects: the event one nanometer beside
any point of the light cone. -/
theorem differential_exact :
    (∀ t1 p1 t2 p2, dist2 p1 p2 < 10 ^ 60 →
      independentAdmissible t1 p1 t2 p2 = causallyAdmissible t1 p1 t2 p2) ∧
    ∀ t p dt, 10 ^ 30 ≤ cNmPerNs * dt → cNmPerNs * dt < 10 ^ 60 →
      independentAdmissible t p (t + dt) (justOutside p dt) = true ∧
        causallyAdmissible t p (t + dt) (justOutside p dt) = false := by
  refine ⟨fun t1 p1 t2 p2 h => independentAdmissible_eq h, fun t p dt hle hlt => ?_⟩
  refine ⟨independentAdmissible_justOutside t p hle hlt, ?_⟩
  rw [← Bool.not_eq_true, causallyAdmissible_iff, add_sub_cancel_left, dist2_justOutside]
  omega

/-- Between Earth and Mars the kernel and the check agree. At `10⁴⁰` nm and a bit they do not. -/
theorem differential_exact_far :
    independentAdmissible 0 ⟨0, 0, 0⟩ 260000000000 ⟨78000000000000000000, 1, 0⟩ =
        causallyAdmissible 0 ⟨0, 0, 0⟩ 260000000000 ⟨78000000000000000000, 1, 0⟩ ∧
      independentAdmissible 0 ⟨0, 0, 0⟩ (0 + 10 ^ 32) (justOutside ⟨0, 0, 0⟩ (10 ^ 32)) = true := by
  refine ⟨differential_exact.1 _ _ _ _ (by decide), (differential_exact.2 _ _ _ ?_ ?_).1⟩
  · decide
  · decide

variable {g}

theorem always_attackTimingFuzz (n : Nat) :
    Always (attackTimingFuzz g n : Draws σ ε _) (Clean "timing_fuzz_differential" n) := by
  apply always_report
  refine always_trials fun _ _ => always_bind (always_choice (by decide) fun scale hscale => ?_)
  have hrange : 1000 ≤ scale ∧ scale ≤ 10 ^ 17 := by
    revert hscale scale
    decide
  refine always_bind (always_randint (by omega) fun x hx hx' => ?_)
  refine always_bind (always_randint (by omega) fun y hy hy' => ?_)
  refine always_bind (always_randint (by omega) fun z hz hz' => ?_)
  refine always_bind (always_randint (by decide) fun offset _ _ => ?_)
  refine always_bind (always_randint (by decide) fun t1 _ _ => ?_)
  have hd : dist2 ⟨0, 0, 0⟩ ⟨x, y, z⟩ < 10 ^ 60 := by
    simp only [dist2, sub_zero]
    nlinarith
  exact always_ite (fun h => absurd (independentAdmissible_eq hd).symm h) fun _ => always_pure rfl

/-! ## Boundary fuzz of the budgeted gate -/

inductive BoundaryBypass where
  | verdict (p1 : Pos) (uNs rawDt dtAdjustedNs : Int) (vacuumFloorNs typicalFloorNs : Nat)
      (got expected : ArrivalVerdict)
  | nonmonotone (p1 : Pos) (uNs t1 t2 : Int) (verdict1 verdict2 : ArrivalVerdict)

variable (g)

/-- A verdict that is not the one of the three bands. -/
def bandTrial : Draws σ ε (List BoundaryBypass) := do
  let p0 : Pos := ⟨0, 0, 0⟩
  let x ← randint g 1 (10 ^ 15)
  let y ← randint g 0 (10 ^ 14)
  let z ← randint g 0 (10 ^ 14)
  let p1 : Pos := ⟨x, y, z⟩
  let uNs ← randint g 0 (10 ^ 7)
  let vac := minLightTimeNs p0 p1
  let typ := minTransitTimeNsEff p0 p1 cEffNum cEffDen
  let lo := max 0 ((vac : Int) - uNs - 10 ^ 6)
  let hi : Int := typ + 10 ^ 6
  let recv ← randint g lo (max lo hi)
  let rawDt := recv - uNs
  let w := budgetWitness 0 p0 rawDt p1 uNs cEffNum cEffDen
  let dtAdj := w.dtAdjustedNs
  let expected : ArrivalVerdict :=
    if dtAdj < vac then .rejected else if dtAdj < typ then .apparatusLimited else .admitted
  if w.verdict ≠ expected then pure [.verdict p1 uNs rawDt dtAdj vac typ w.verdict expected]
  else pure []

/-- A later arrival that is judged worse. -/
def laterTrial : Draws σ ε (List BoundaryBypass) := do
  let p0 : Pos := ⟨0, 0, 0⟩
  let x ← randint g 1 (10 ^ 15)
  let p1 : Pos := ⟨x, 0, 0⟩
  let uNs ← randint g 0 (10 ^ 6)
  let vac := minLightTimeNs p0 p1
  let base ← randint g (max 0 ((vac : Int) - 10 ^ 6)) (vac + 10 ^ 6)
  let step ← randint g 1 (10 ^ 5)
  let w1 := budgetWitness 0 p0 base p1 uNs cEffNum cEffDen
  let w2 := budgetWitness 0 p0 (base + step) p1 uNs cEffNum cEffDen
  if w2.verdict.rank < w1.verdict.rank then
    pure [.nonmonotone p1 uNs base (base + step) w1.verdict w2.verdict]
  else pure []

def attackBoundaryFuzz (n : Nat := 3000) : Draws σ ε (Report BoundaryBypass) :=
  report "budgeted_gate_boundary_fuzz" n do
    let outOfBand ← trials n fun _ => bandTrial g
    let backwards ← trials (n / 5) fun _ => laterTrial g
    pure (outOfBand ++ backwards)

variable {g}

theorem always_bandTrial : Always (bandTrial g : Draws σ ε _) fun found => found = [] := by
  refine always_bind (always_randint (by decide) fun x _ _ => ?_)
  refine always_bind (always_randint (by decide) fun y _ _ => ?_)
  refine always_bind (always_randint (by decide) fun z _ _ => ?_)
  refine always_bind (always_randint (by decide) fun uNs _ _ => ?_)
  refine always_bind (always_randint (le_max_left _ _) fun recv _ _ => ?_)
  -- the bands are those of the gate
  exact always_ite (fun h => absurd rfl h) fun _ => always_pure rfl

theorem always_laterTrial : Always (laterTrial g : Draws σ ε _) fun found => found = [] := by
  refine always_bind (always_randint (by decide) fun x _ _ => ?_)
  refine always_bind (always_randint (by decide) fun uNs _ _ => ?_)
  refine always_bind (always_randint (by omega) fun base _ _ => ?_)
  refine always_bind (always_randint (by decide) fun step hstep _ => ?_)
  refine always_ite (fun h => ?_) fun _ => always_pure rfl
  exact absurd h (not_lt.mpr (budgetWitness_rank_mono (by omega) le_rfl))

theorem always_attackBoundaryFuzz (n : Nat) :
    Always (attackBoundaryFuzz g n : Draws σ ε _) (Clean "budgeted_gate_boundary_fuzz" n) := by
  apply always_report
  refine always_bind ((always_trials fun _ _ => always_bandTrial).mono fun outOfBand hband => ?_)
  refine always_bind ((always_trials fun _ _ => always_laterTrial).mono fun backwards hlater => ?_)
  rw [hband, hlater]
  exact always_pure rfl

end HorizonProtocol.RedTeam
