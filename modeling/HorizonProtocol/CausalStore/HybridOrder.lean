import HorizonProtocol.CausalStore.Hybrid

/-!
# When the production ordering is an order

`HybridOrdering` with no assumption on its clocks: the geometric stamp and the vector clock of an
event need not agree. Each authority alone is a strict order. Mixed, they are one exactly on those
families of events in which no two steps lead where neither authority follows (`Clash`).

* `before_iff_step` — a verdict is a step of light or a step of clocks.
* `reach_of_mixed` — one step of each never leads out of reach.
* `hybrid_strict_iff` — a family is strictly ordered exactly when it has no clash.
-/

namespace HorizonProtocol.CausalStore

variable {Node : Type} [DecidableEq Node]

/-- `before` is a strict order on the events `evs`. -/
structure StrictOn {E W : Type} (o : Ordering E W) (evs : Set E) : Prop where
  irrefl : ∀ a ∈ evs, ¬ o.Before a a
  asymm : ∀ a ∈ evs, ∀ b ∈ evs, o.Before a b → ¬ o.Before b a
  trans : ∀ a ∈ evs, ∀ b ∈ evs, ∀ c ∈ evs, o.Before a b → o.Before b c → o.Before a c

/-! ## Steps -/

/-- Geometry certifies that `a` is before `b`. -/
def ByLight (a b : HybridClock Node) : Prop :=
  GeometricOrdering.before a.toGeoClock b.toGeoClock = true

/-- Geometry leaves the pair open, and the clock of `a` is before that of `b`. -/
def ByClocks (a b : HybridClock Node) : Prop :=
  GeometricOrdering.resolves a.toGeoClock b.toGeoClock = false ∧
    LogicalOrdering.before a.vc b.vc = true

instance : DecidableRel (@ByLight Node) := fun a b =>
  inferInstanceAs (Decidable (GeometricOrdering.before a.toGeoClock b.toGeoClock = true))

instance : DecidableRel (@ByClocks Node _) := fun _ _ => instDecidableAnd

variable {a b c : HybridClock Node}

/-- A verdict is a step of light or a step of clocks. -/
theorem before_iff_step (ha : 0 ≤ a.uNs) (hb : 0 ≤ b.uNs) :
    hybridOrdering.Before a b ↔ ByLight a b ∨ ByClocks a b := by
  show HybridOrdering.before a b = true ↔ _
  unfold HybridOrdering.before ByLight ByClocks
  split
  · next hres => simp [hres]
  · next hres =>
      have hlight : GeometricOrdering.before a.toGeoClock b.toGeoClock ≠ true := by
        intro hbefore
        rw [GeometricOrdering.before_iff (by omega)] at hbefore
        exact hres (GeometricOrdering.resolves_iff.mpr (Or.inl hbefore.2))
      simp [hres, hlight]

omit [DecidableEq Node] in
theorem byLight_iff (ha : 0 ≤ a.uNs) (hb : 0 ≤ b.uNs) :
    ByLight a b ↔ a.timeNs < b.timeNs ∧
      minLightTimeNs a.posNm b.posNm + (a.uNs + b.uNs) ≤ b.timeNs - a.timeNs :=
  GeometricOrdering.before_iff (by omega)

omit [DecidableEq Node] in
/-- An open pair has its floor within the margin. -/
theorem open_iff : GeometricOrdering.resolves a.toGeoClock b.toGeoClock = false ↔
    b.timeNs - a.timeNs < minLightTimeNs a.posNm b.posNm + (a.uNs + b.uNs) ∧
      (minLightTimeNs a.posNm b.posNm : Int) ≤ b.timeNs - a.timeNs + (a.uNs + b.uNs) := by
  rw [← Bool.not_eq_true, GeometricOrdering.resolves_iff]
  omega

omit [DecidableEq Node] in
theorem ByLight.trans (ha : 0 ≤ a.uNs) (hb : 0 ≤ b.uNs) (hc : 0 ≤ c.uNs) (hab : ByLight a b)
    (hbc : ByLight b c) : ByLight a c := by
  rw [byLight_iff ha hb] at hab
  rw [byLight_iff hb hc] at hbc
  rw [byLight_iff ha hc]
  have htri := minLightTimeNs_triangle a.posNm b.posNm c.posNm
  omega

/-- One step of each authority: no reading of the clocks puts the end out of reach. -/
theorem reach_of_mixed (ha : 0 ≤ a.uNs) (hb : 0 ≤ b.uNs) (hc : 0 ≤ c.uNs)
    (h : ByLight a b ∧ ByClocks b c ∨ ByClocks a b ∧ ByLight b c) :
    (minLightTimeNs a.posNm c.posNm : Int) ≤ c.timeNs - a.timeNs + (a.uNs + c.uNs) := by
  have htri := minLightTimeNs_triangle a.posNm b.posNm c.posNm
  rcases h with ⟨hab, hbc⟩ | ⟨hab, hbc⟩
  · rw [byLight_iff ha hb] at hab
    have hopen := open_iff.mp hbc.1
    omega
  · rw [byLight_iff hb hc] at hbc
    have hopen := open_iff.mp hab.1
    omega

/-! ## Clashes -/

/-- Two steps, not both of light, to where neither authority puts the end after the start. -/
inductive Clash (a b c : HybridClock Node) : Prop where
  /-- Clocks lead twice, and geometry certifies that the end is out of reach. -/
  | outOfReach (ab : ByClocks a b) (bc : ByClocks b c)
      (far : c.timeNs - a.timeNs + (a.uNs + c.uNs) < minLightTimeNs a.posNm c.posNm)
  /-- Each leads once, geometry leaves the span open, and the clocks do not order it. -/
  | unordered (mixed : ByLight a b ∧ ByClocks b c ∨ ByClocks a b ∧ ByLight b c)
      (open' : GeometricOrdering.resolves a.toGeoClock c.toGeoClock = false)
      (clocks : LogicalOrdering.before a.vc c.vc = false)
  /-- The steps return to the time and place they left, and both records are exact. -/
  | returning (ab : ByLight a b ∨ ByClocks a b) (bc : ByLight b c ∨ ByClocks b c)
      (time : a.timeNs = c.timeNs) (place : a.posNm = c.posNm) (exactly : a.uNs = 0 ∧ c.uNs = 0)

/-- A clash breaks transitivity. -/
theorem Clash.breaks (h : Clash a b c) (ha : 0 ≤ a.uNs) (hb : 0 ≤ b.uNs) (hc : 0 ≤ c.uNs) :
    hybridOrdering.Before a b ∧ hybridOrdering.Before b c ∧ ¬ hybridOrdering.Before a c := by
  rw [before_iff_step ha hb, before_iff_step hb hc, before_iff_step ha hc]
  cases h with
  | outOfReach ab bc far =>
      refine ⟨Or.inr ab, Or.inr bc, ?_⟩
      rintro (hlight | hclocks)
      · rw [byLight_iff ha hc] at hlight
        omega
      · have hopen := open_iff.mp hclocks.1
        omega
  | unordered mixed open' clocks =>
      refine ⟨mixed.imp And.left And.left, mixed.symm.imp And.right And.right, ?_⟩
      rintro (hlight | hclocks)
      · rw [byLight_iff ha hc] at hlight
        rw [open_iff] at open'
        omega
      · rw [hclocks.2] at clocks
        cases clocks
  | returning ab bc time place exactly =>
      refine ⟨ab, bc, ?_⟩
      rintro (hlight | hclocks)
      · rw [byLight_iff ha hc] at hlight
        omega
      · have hopen := open_iff.mp hclocks.1
        omega

/-- Without a clash two steps make one. -/
theorem before_trans_of_not_clash (h : ¬ Clash a b c) (ha : 0 ≤ a.uNs) (hb : 0 ≤ b.uNs)
    (hc : 0 ≤ c.uNs) (hab : hybridOrdering.Before a b) (hbc : hybridOrdering.Before b c) :
    hybridOrdering.Before a c := by
  rw [before_iff_step ha hb] at hab
  rw [before_iff_step hb hc] at hbc
  rw [before_iff_step ha hc]
  -- what is left once the end is known to be within reach
  have hspan : (minLightTimeNs a.posNm c.posNm : Int) ≤
      c.timeNs - a.timeNs + (a.uNs + c.uNs) →
      (GeometricOrdering.resolves a.toGeoClock c.toGeoClock = false →
        LogicalOrdering.before a.vc c.vc = true) → ByLight a c ∨ ByClocks a c := by
    intro hreach hclocks
    cases hres : GeometricOrdering.resolves a.toGeoClock c.toGeoClock with
    | false => exact Or.inr ⟨hres, hclocks hres⟩
    | true =>
        left
        rw [GeometricOrdering.resolves_iff] at hres
        rw [byLight_iff ha hc]
        by_contra hnot
        apply h
        refine .returning hab hbc (by omega) (minLightTimeNs_eq_zero.mp (by omega)) (by omega)
  have hmixed : (ByLight a b ∧ ByClocks b c ∨ ByClocks a b ∧ ByLight b c) →
      ByLight a c ∨ ByClocks a c := by
    intro hm
    refine hspan (reach_of_mixed ha hb hc hm) (fun hopen => ?_)
    by_contra hclocks
    exact h (.unordered hm hopen (Bool.not_eq_true _ ▸ hclocks))
  rcases hab with hab | hab <;> rcases hbc with hbc | hbc
  · exact Or.inl (hab.trans ha hb hc hbc)
  · exact hmixed (Or.inl ⟨hab, hbc⟩)
  · exact hmixed (Or.inr ⟨hab, hbc⟩)
  · have hclocks : LogicalOrdering.before a.vc c.vc = true := by
      rw [LogicalOrdering.before_iff]
      exact (LogicalOrdering.before_iff.mp hab.2).trans (LogicalOrdering.before_iff.mp hbc.2)
    refine hspan ?_ (fun _ => hclocks)
    by_contra hfar
    exact h (.outOfReach hab hbc (by omega))

theorem not_before_self (ha : 0 ≤ a.uNs) : ¬ hybridOrdering.Before a a := by
  rw [before_iff_step ha ha, byLight_iff ha ha]
  rintro (hlight | hclocks)
  · exact lt_irrefl _ hlight.1
  · exact lt_irrefl _ (LogicalOrdering.before_iff.mp hclocks.2)

/-- **When `HybridOrdering` is a strict order.** On any family of events, whatever their clocks say,
its verdicts are irreflexive, asymmetric and transitive exactly when no two of them clash. -/
theorem hybrid_strict_iff (evs : Set (HybridClock Node)) (hu : ∀ a ∈ evs, 0 ≤ a.uNs) :
    StrictOn hybridOrdering evs ↔ ∀ a ∈ evs, ∀ b ∈ evs, ∀ c ∈ evs, ¬ Clash a b c := by
  constructor
  · intro h a ha b hb c hc hclash
    obtain ⟨hab, hbc, hac⟩ := hclash.breaks (hu a ha) (hu b hb) (hu c hc)
    exact hac (h.trans a ha b hb c hc hab hbc)
  · intro h
    have htrans : ∀ a ∈ evs, ∀ b ∈ evs, ∀ c ∈ evs, hybridOrdering.Before a b →
        hybridOrdering.Before b c → hybridOrdering.Before a c := fun a ha b hb c hc =>
      before_trans_of_not_clash (h a ha b hb c hc) (hu a ha) (hu b hb) (hu c hc)
    refine ⟨fun a ha => not_before_self (hu a ha), ?_, htrans⟩
    intro a ha b hb hab hba
    exact not_before_self (hu a ha) (htrans a ha b hb a ha hab hba)

/-! ## Where it is not -/

/-- At one place, two nanoseconds apart, with exactly two nanoseconds of doubt between them and
clocks the other way round. -/
def earlyClock : HybridClock Nat where
  timeNs := 0
  posNm := ⟨0, 0, 0⟩
  uNs? := some 1
  vc := Finmap.singleton 1 2

def lateClock : HybridClock Nat where
  timeNs := 2
  posNm := ⟨0, 0, 0⟩
  uNs? := some 1
  vc := Finmap.singleton 1 1

/-- Over honest clocks transitivity fails; over clocks that disagree asymmetry fails too. -/
theorem hybrid_not_strict :
    (hybridOrdering.before firstWrite.clock secondWrite.clock = true ∧
      hybridOrdering.before secondWrite.clock thirdWrite.clock = true ∧
      hybridOrdering.before firstWrite.clock thirdWrite.clock = false) ∧
    (hybridOrdering.before earlyClock lateClock = true ∧
      hybridOrdering.before lateClock earlyClock = true) ∧
    ¬ StrictOn hybridOrdering {a : HybridClock Nat | 0 ≤ a.uNs} := by
  have hfails : hybridOrdering.before earlyClock lateClock = true ∧
      hybridOrdering.before lateClock earlyClock = true := by decide
  refine ⟨by decide, hfails, fun h => ?_⟩
  exact h.asymm earlyClock (by decide) lateClock (by decide) hfails.1 hfails.2

/-- Two events suffice, when clocks and geometry disagree. -/
theorem hybrid_strict_iff_pair :
    ¬ StrictOn hybridOrdering {a | a = earlyClock ∨ a = lateClock} := by
  rw [hybrid_strict_iff _ (by rintro a (rfl | rfl) <;> decide)]
  intro h
  -- there by light and back by clocks
  exact h earlyClock (Or.inl rfl) lateClock (Or.inr rfl) earlyClock (Or.inl rfl)
    (.unordered (Or.inl ⟨by decide, by decide⟩) (by decide) (by decide))

end HorizonProtocol.CausalStore
