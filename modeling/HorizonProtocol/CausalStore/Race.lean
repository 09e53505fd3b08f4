import HorizonProtocol.CausalStore.Maximal

/-!
# No undecided race is waved through

The coordination-free path of a store over `GeometricOrdering`. Recorded times are uncertain; what a
pair of events may really have been is the set of all true times within the declared uncertainties,
and a pair is certainly spacelike when none of them puts either event in the light cone of the
other.

* `certainlySpacelike_iff` — a continuum of true times, decided at the two ends of the margin.
* `decided_concurrent_iff` — what the code asks before it skips coordination says just that, except
  of two events recorded at one time and one place.
* `coordinationFree_iff_spacelike` — a write that claims nothing skips coordination exactly when it
  is certainly spacelike to the whole frontier.
-/

namespace HorizonProtocol.CausalStore

/-! ## True times -/

/-- A true time the clock leaves open. -/
def GeoClock.MayBeAt (a : GeoClock) (t : ℝ) : Prop := |t - a.timeNs| ≤ a.uNs

/-- Whatever the true times, neither event is in the closed future light cone of the other. -/
def CertainlySpacelike (a b : GeoClock) : Prop :=
  ∀ ta tb : ℝ, a.MayBeAt ta → b.MayBeAt tb →
    ¬ LightCone.Reaches (cNmPerNs : ℝ) (ta, a.posNm.toSpace) (tb, b.posNm.toSpace) ∧
    ¬ LightCone.Reaches (cNmPerNs : ℝ) (tb, b.posNm.toSpace) (ta, a.posNm.toSpace)

variable {a b : GeoClock}

/-- Some true times let `a` reach `b` exactly when the widest ones do, and those are whole. -/
theorem exists_reaches_iff (ha : 0 ≤ a.uNs) (hb : 0 ≤ b.uNs) :
    (∃ ta tb : ℝ, a.MayBeAt ta ∧ b.MayBeAt tb ∧
      LightCone.Reaches (cNmPerNs : ℝ) (ta, a.posNm.toSpace) (tb, b.posNm.toSpace)) ↔
      (minLightTimeNs a.posNm b.posNm : Int) ≤ b.timeNs - a.timeNs + (a.uNs + b.uNs) := by
  have hc : (0 : ℝ) ≤ (cNmPerNs : ℝ) := by norm_num [cNmPerNs]
  have hwidest : (minLightTimeNs a.posNm b.posNm : Int) ≤
        b.timeNs - a.timeNs + (a.uNs + b.uNs) ↔
      LightCone.Reaches (cNmPerNs : ℝ) (((a.timeNs - a.uNs : Int) : ℝ), a.posNm.toSpace)
        (((b.timeNs + b.uNs : Int) : ℝ), b.posNm.toSpace) := by
    rw [← show b.timeNs + b.uNs - (a.timeNs - a.uNs) = b.timeNs - a.timeNs + (a.uNs + b.uNs) by ring,
      ← causallyAdmissible_iff_minLightTime, causallyAdmissible_iff_reaches]
    rfl
  rw [hwidest]
  constructor
  · intro h
    obtain ⟨ta, tb, hta, htb, hr⟩ := h
    have hta' := abs_le.mp hta
    have htb' := abs_le.mp htb
    apply hr.mono hc
    · push_cast
      linarith
    · push_cast
      linarith
  · intro h
    refine ⟨_, _, ?_, ?_, h⟩
    · have hu : |(a.uNs : ℝ)| = a.uNs := abs_of_nonneg (by exact_mod_cast ha)
      simp [GeoClock.MayBeAt, hu]
    · have hu : |(b.uNs : ℝ)| = b.uNs := abs_of_nonneg (by exact_mod_cast hb)
      simp [GeoClock.MayBeAt, hu]

/-- A continuum of true times is decided at the two ends of the margin. -/
theorem certainlySpacelike_iff (ha : 0 ≤ a.uNs) (hb : 0 ≤ b.uNs) :
    CertainlySpacelike a b ↔
      b.timeNs - a.timeNs + (a.uNs + b.uNs) < minLightTimeNs a.posNm b.posNm ∧
      a.timeNs - b.timeNs + (a.uNs + b.uNs) < minLightTimeNs a.posNm b.posNm := by
  have hab := exists_reaches_iff ha hb
  have hba := exists_reaches_iff hb ha
  rw [minLightTimeNs_comm, add_comm b.uNs] at hba
  rw [← not_le, ← not_le, ← hab, ← hba]
  constructor
  · intro h
    refine ⟨?_, ?_⟩
    · rintro ⟨ta, tb, hta, htb, hr⟩
      exact (h ta tb hta htb).1 hr
    · rintro ⟨tb, ta, htb, hta, hr⟩
      exact (h ta tb hta htb).2 hr
  · intro h ta tb hta htb
    exact ⟨fun hr => h.1 ⟨ta, tb, hta, htb, hr⟩, fun hr => h.2 ⟨tb, ta, htb, hta, hr⟩⟩

/-! ## What the code asks -/

/-- Concurrent and decided both ways means certainly spacelike. The one exception is two exact
records of one time and one place, which the code takes for concurrent and decided. -/
theorem decided_concurrent_iff (ha : 0 ≤ a.uNs) (hb : 0 ≤ b.uNs)
    (hdiff : (a.timeNs, a.posNm) ≠ (b.timeNs, b.posNm)) :
    (GeometricOrdering.concurrent a b && GeometricOrdering.resolves a b &&
      GeometricOrdering.resolves b a) = true ↔ CertainlySpacelike a b := by
  have hab := GeometricOrdering.before_iff (a := a) (b := b) (by omega)
  have hba := GeometricOrdering.before_iff (a := b) (b := a) (by omega)
  have hL : minLightTimeNs a.posNm b.posNm = 0 → a.timeNs ≠ b.timeNs := by
    intro hzero htime
    exact hdiff (Prod.ext htime (minLightTimeNs_eq_zero.mp hzero))
  rw [certainlySpacelike_iff ha hb, GeometricOrdering.concurrent]
  simp only [Bool.and_eq_true, Bool.not_eq_true', ← Bool.not_eq_true, GeometricOrdering.resolves_iff]
  rw [hab, hba, minLightTimeNs_comm b.posNm a.posNm]
  omega

/-! ## What the store does -/

section Store

variable {Id Key Value Origin Clock W : Type} [DecidableEq Id] [DecidableEq Key]

/-- When a new write that claims nothing meets a frontier, it skips coordination and supersession
exactly when it is concurrent with the whole frontier and decided so. -/
theorem mode_write_eq_coordinationFree {sha : HashInput Key Value Origin Clock → Id}
    {o : Ordering (Body Key Value Origin Clock) W} (ho : o.Exhaustive)
    {s : CausalStore Id Key Value Origin Clock} {c : WriteCall Id Key Value Origin Clock}
    (fresh : ∀ e ∈ s.backend.allEvents, e.eventId sha ≠ c.eventId sha) (hclaims : c.claims = [])
    (hne : s.frontier sha c.key ≠ []) :
    (s.write sha o c).2.mode = .coordinationFree ↔ ∀ f ∈ s.frontier sha c.key,
      (o.concurrent f.toBody c.toBody && o.resolves f.toBody c.toBody &&
        o.resolves c.toBody f.toBody) = true := by
  have hconc : ∀ {f : Event Id Key Value Origin Clock},
      (o.concurrent f.toBody c.toBody && o.resolves f.toBody c.toBody &&
        o.resolves c.toBody f.toBody) = true →
      ¬ o.Before f.toBody c.toBody ∧ ¬ o.Before c.toBody f.toBody := by
    intro f h
    simp only [Bool.and_eq_true] at h
    exact (ho _ _).mp h.1.1
  unfold write
  dsimp only
  rw [find_eq_none.mpr fresh, hclaims]
  dsimp only [checkSupersedes]
  rw [if_neg (by simpa using hne)]
  split
  · next hdom =>
      rw [Bool.not_eq_true', List.isEmpty_eq_false_iff_exists_mem] at hdom
      obtain ⟨f, hf⟩ := hdom
      obtain ⟨hmem, hb⟩ := List.mem_filter.mp hf
      refine iff_of_false (fun h => ?_) (fun h => (hconc (h f hmem)).2 hb)
      cases h
  · split
    · next hall =>
        obtain ⟨f, hmem⟩ := List.exists_mem_of_ne_nil _ hne
        refine iff_of_false (fun h => ?_) (fun h => (hconc (h f hmem)).1 ?_)
        · cases h
        · exact List.all_eq_true.mp hall f hmem
    · split
      · next hall => exact iff_of_true rfl (List.all_eq_true.mp hall)
      · next hall =>
          refine iff_of_false (fun h => ?_) (fun h => hall (List.all_eq_true.mpr h))
          cases h

/-- Events ordered by the light cone. -/
abbrev geometricEvents (Key Value Origin : Type) :
    Ordering (Body Key Value Origin GeoClock) GeometricOrdering.Witness :=
  geometricOrdering.comap Body.clock

omit [DecidableEq Key] in
theorem geometricEvents_exhaustive : (geometricEvents Key Value Origin).Exhaustive := fun a b => by
  simp [geometricOrdering, Ordering.comap, Ordering.Before, GeometricOrdering.concurrent]

/-- **No undecided race skips coordination, and no certain one is held up.** In every state a store
over `GeometricOrdering` can reach, a new write that claims nothing commits without coordination
against a frontier exactly when no true times whatever put it in the light cone of a frontier event,
or a frontier event in its own. -/
theorem coordinationFree_iff_spacelike {sha : HashInput Key Value Origin GeoClock → Id}
    (calls : List (WriteCall Id Key Value Origin GeoClock))
    (hu : ∀ c ∈ calls, 0 ≤ c.clock.uNs) (c : WriteCall Id Key Value Origin GeoClock)
    (huc : 0 ≤ c.clock.uNs) :
    let s := (machine sha (geometricEvents Key Value Origin)).run calls
    (∀ e ∈ s.backend.allEvents, e.eventId sha ≠ c.eventId sha) → c.claims = [] →
    s.frontier sha c.key ≠ [] →
    (∀ m ∈ s.frontier sha c.key,
      (m.clock.timeNs, m.clock.posNm) ≠ (c.clock.timeNs, c.clock.posNm)) →
    ((s.write sha (geometricEvents Key Value Origin) c).2.mode = .coordinationFree ↔
      ∀ m ∈ s.frontier sha c.key, CertainlySpacelike m.clock c.clock) := by
  intro s fresh hclaims hne hdiff
  rw [mode_write_eq_coordinationFree geometricEvents_exhaustive fresh hclaims hne]
  apply forall₂_congr
  intro m hm
  have hum : 0 ≤ m.clock.uNs := by
    obtain ⟨c', hc', hbody⟩ :=
      exists_call_of_stored geometricEvents_exhaustive calls m (mem_frontier.mp hm).1.1
    rw [← hbody]
    exact hu c' hc'
  exact decided_concurrent_iff hum huc (hdiff m hm)

end Store

/-- A write of this node at this time and place, with two nanoseconds of doubt. -/
def callAt (node : Nat) (timeNs : Int) (posNm : Pos) :
    WriteCall (HashInput Nat Nat Nat GeoClock) Nat Nat Nat GeoClock where
  key := 0
  value := node
  originNode := node
  clock := { timeNs, posNm, uNs? := some 2 }

def hereCall : WriteCall (HashInput Nat Nat Nat GeoClock) Nat Nat Nat GeoClock :=
  callAt 1 0 ⟨0, 0, 0⟩

/-- Ten light-nanoseconds away and five nanoseconds later. -/
def farCall : WriteCall (HashInput Nat Nat Nat GeoClock) Nat Nat Nat GeoClock :=
  callAt 2 5 ⟨2997924580, 0, 0⟩

theorem coordinationFree_iff_spacelike_far : CertainlySpacelike hereCall.clock farCall.clock := by
  have h : ∀ m ∈ ((machine id (geometricEvents Nat Nat Nat)).run [hereCall]).frontier id farCall.key,
      CertainlySpacelike m.clock farCall.clock :=
    (coordinationFree_iff_spacelike [hereCall] (by decide) farCall (by decide) (by decide)
      (by decide) (by decide) (by decide)).mp (by decide +kernel)
  exact h ⟨hereCall.toBody, []⟩ (by decide)

end HorizonProtocol.CausalStore
