import HorizonProtocol.CausalStore.Race
import HorizonProtocol.CausalStore.HybridOrder

/-!
# What the orderings say of true times

A recorded time stands for all true times within its uncertainty. Between two events the light cone
may hold for some of these (`MayReach`) or for all (`MustReach`), and both are decided at the ends
of the margin.

* `hybrid_respects_light` — `HybridOrdering` stays between the two, whatever its vector clocks say.
* `base_orderings_strict` — `GeometricOrdering` and `LogicalOrdering` are strict partial orders, and
  the first is `MustReach` of strictly later events.
-/

namespace HorizonProtocol.CausalStore

/-! ## Some true times and all of them -/

/-- Some true times put `b` in the closed future light cone of `a`. -/
def GeoClock.MayReach (a b : GeoClock) : Prop :=
  ∃ ta tb : ℝ, a.MayBeAt ta ∧ b.MayBeAt tb ∧
    LightCone.Reaches (cNmPerNs : ℝ) (ta, a.posNm.toSpace) (tb, b.posNm.toSpace)

/-- Whatever the true times, `b` is in the closed future light cone of `a`. -/
def GeoClock.MustReach (a b : GeoClock) : Prop :=
  ∀ ta tb : ℝ, a.MayBeAt ta → b.MayBeAt tb →
    LightCone.Reaches (cNmPerNs : ℝ) (ta, a.posNm.toSpace) (tb, b.posNm.toSpace)

section Geo

variable {a b : GeoClock}

theorem GeoClock.mayReach_iff (ha : 0 ≤ a.uNs) (hb : 0 ≤ b.uNs) :
    a.MayReach b ↔
      (minLightTimeNs a.posNm b.posNm : Int) ≤ b.timeNs - a.timeNs + (a.uNs + b.uNs) :=
  exists_reaches_iff ha hb

/-- All true times let `a` reach `b` exactly when the closest ones do, and those are whole. -/
theorem GeoClock.mustReach_iff (ha : 0 ≤ a.uNs) (hb : 0 ≤ b.uNs) :
    a.MustReach b ↔
      (minLightTimeNs a.posNm b.posNm : Int) + (a.uNs + b.uNs) ≤ b.timeNs - a.timeNs := by
  have hc : (0 : ℝ) ≤ (cNmPerNs : ℝ) := by norm_num [cNmPerNs]
  have hclosest : (minLightTimeNs a.posNm b.posNm : Int) + (a.uNs + b.uNs) ≤ b.timeNs - a.timeNs ↔
      LightCone.Reaches (cNmPerNs : ℝ) (((a.timeNs + a.uNs : Int) : ℝ), a.posNm.toSpace)
        (((b.timeNs - b.uNs : Int) : ℝ), b.posNm.toSpace) := by
    rw [← le_sub_iff_add_le,
      ← show b.timeNs - b.uNs - (a.timeNs + a.uNs) = b.timeNs - a.timeNs - (a.uNs + b.uNs) by ring,
      ← causallyAdmissible_iff_minLightTime, causallyAdmissible_iff_reaches]
    rfl
  rw [hclosest]
  constructor
  · intro h
    apply h
    · have hu : |(a.uNs : ℝ)| = a.uNs := abs_of_nonneg (by exact_mod_cast ha)
      simp [GeoClock.MayBeAt, hu]
    · have hu : |(b.uNs : ℝ)| = b.uNs := abs_of_nonneg (by exact_mod_cast hb)
      simp [GeoClock.MayBeAt, hu]
  · intro h ta tb hta htb
    have hta' := abs_le.mp hta
    have htb' := abs_le.mp htb
    apply h.mono hc
    · push_cast
      linarith
    · push_cast
      linarith

/-- `GeometricOrdering.before` is reach at all true times, of strictly later events. -/
theorem geometric_before_iff_mustReach (ha : 0 ≤ a.uNs) (hb : 0 ≤ b.uNs) :
    geometricOrdering.Before a b ↔ a.timeNs < b.timeNs ∧ a.MustReach b := by
  rw [GeoClock.mustReach_iff ha hb]
  exact GeometricOrdering.before_iff (by omega)

end Geo

/-! ## The base orderings -/

/-- The margin of the middle event is subtracted on both sides of it, so two steps leave at least the
margin of one. -/
theorem geometricOrdering_strictOn : StrictOn geometricOrdering { c | 0 ≤ c.uNs } where
  irrefl a ha h := by
    have hlt := (GeometricOrdering.before_iff (add_nonneg ha ha)).mp h
    exact lt_irrefl _ hlt.1
  asymm a ha b hb hab hba := by
    have hlt := (GeometricOrdering.before_iff (add_nonneg ha hb)).mp hab
    have hgt := (GeometricOrdering.before_iff (add_nonneg hb ha)).mp hba
    exact lt_asymm hlt.1 hgt.1
  trans a ha b hb c hc hab hbc := by
    show GeometricOrdering.before a c = true
    have h1 := (GeometricOrdering.before_iff (add_nonneg ha hb)).mp hab
    have h2 := (GeometricOrdering.before_iff (add_nonneg hb hc)).mp hbc
    rw [GeometricOrdering.before_iff (add_nonneg ha hc)]
    have htri := minLightTimeNs_triangle a.posNm b.posNm c.posNm
    have hub : 0 ≤ b.uNs := hb
    omega

section Hybrid

variable {Node : Type} [DecidableEq Node]

/-- A lawful ordering is strict on every family of events. -/
theorem Ordering.Lawful.strictOn {E W : Type} {o : Ordering E W} (h : o.Lawful) (evs : Set E) :
    StrictOn o evs where
  irrefl a _ := h.strict.irrefl a
  asymm a _ b _ hab hba := h.strict.irrefl a (h.strict.trans a b a hab hba)
  trans a _ b _ c _ := h.strict.trans a b c

/-- **Both base orderings are strict partial orders.** For declared uncertainties that are not
negative, the geometric one says strictly later and in the light cone at all true times. -/
theorem base_orderings_strict :
    StrictOn geometricOrdering { c | 0 ≤ c.uNs } ∧
    (∀ a b : GeoClock, 0 ≤ a.uNs → 0 ≤ b.uNs →
      (geometricOrdering.Before a b ↔ a.timeNs < b.timeNs ∧ a.MustReach b)) ∧
    StrictOn (logicalOrdering : Ordering (VClock Node) _) Set.univ :=
  ⟨geometricOrdering_strictOn,
    fun _ _ ha hb => geometric_before_iff_mustReach ha hb,
    logicalOrdering_lawful.strictOn _⟩

/-! ## The hybrid ordering -/

/-- A verdict of either authority leaves some true times at which light makes the way. -/
theorem hybrid_before_mayReach {a b : HybridClock Node} (ha : 0 ≤ a.uNs) (hb : 0 ≤ b.uNs)
    (h : hybridOrdering.Before a b) : a.toGeoClock.MayReach b.toGeoClock := by
  rw [GeoClock.mayReach_iff ha hb]
  rcases (before_iff_step ha hb).mp h with hlight | hclocks
  · have hfar := (byLight_iff ha hb).mp hlight
    omega
  · exact (open_iff.mp hclocks.1).2

/-- **The hybrid ordering never overrides physics.** Its verdicts are possible for light at some true
times; what light makes certain at all true times, of strictly later events, it says; and where light
rules a pair out at all true times, no vector clocks bring it in. -/
theorem hybrid_respects_light (a b : HybridClock Node) (ha : 0 ≤ a.uNs) (hb : 0 ≤ b.uNs) :
    (hybridOrdering.Before a b → a.toGeoClock.MayReach b.toGeoClock) ∧
    (a.toGeoClock.MustReach b.toGeoClock → a.timeNs < b.timeNs → hybridOrdering.Before a b) ∧
    (¬ a.toGeoClock.MayReach b.toGeoClock → ¬ hybridOrdering.Before a b) := by
  refine ⟨hybrid_before_mayReach ha hb, ?_, mt (hybrid_before_mayReach ha hb)⟩
  intro hmust hlater
  apply (before_iff_step ha hb).mpr
  exact Or.inl ((geometric_before_iff_mustReach ha hb).mpr ⟨hlater, hmust⟩)

end Hybrid

/-- Clocks that say the reverse of what light makes certain. -/
theorem hybrid_respects_light_forged :
    hybridOrdering.Before
        ({ timeNs := 0, posNm := ⟨0, 0, 0⟩, uNs? := some 1, vc := Finmap.singleton 1 9 } :
          HybridClock Nat)
        { timeNs := 2, posNm := ⟨0, 0, 0⟩, uNs? := some 1, vc := ∅ } := by
  apply (hybrid_respects_light _ _ (by decide) (by decide)).2.1
  · rw [GeoClock.mustReach_iff (by decide) (by decide)]
    decide
  · decide

end HorizonProtocol.CausalStore
