import HorizonProtocol.Search
import HorizonProtocol.Trajectory.Occultation
import Mathlib.Data.Int.LeastGreatest
import Mathlib.Data.Int.Interval
import Mathlib.Data.Set.Card
import Mathlib.Order.Interval.Set.OrdConnected

/-!
# Blackouts

`occultation_interval` of `horizon/occultation.py`: the first and the last time of a window at which
a link is down. A coarse scan, or a hint, gives one time inside the blackout (the anchor), and a
bisection on each side of it gives the edge.

* `occultationInterval_exact` — without a hint, what is found is the blackout of the window.
* `occultationInterval_hint_iff` — with a hint, the same, except for a hint at a blackout that the
  window does not meet.
-/

namespace HorizonProtocol.Trajectory

open Set Search

/-! ## The search -/

inductive ScanError where
  /-- `ZeroDivisionError`, when `scan_steps` is zero -/
  | zeroDivision
  deriving DecidableEq

/-- `step = max(1, (t_hi - t_lo) // scan_steps)`. -/
def scanStep (tLo tHi scanSteps : Int) : Int := max 1 ((tHi - tLo).fdiv scanSteps)

theorem scanStep_pos (tLo tHi scanSteps : Int) : 0 < scanStep tLo tHi scanSteps :=
  one_pos.trans_le (le_max_left _ _)

/-- The coarse scan for a time inside the blackout. -/
def scanAnchor (down : Int → Bool) (tLo tHi scanSteps : Int) : Except ScanError (Option Int) :=
  if scanSteps = 0 then .error .zeroDivision
  else .ok (scan down (scanStep_pos tLo tHi scanSteps) tHi tLo)

/-- The first edge, between the start of the window and a time inside the blackout. -/
def enterTime (down : Int → Bool) (tLo anchor : Int) : Int :=
  if down tLo then tLo else (bisect down tLo anchor).2

/-- The last edge. Here the halves are taken the other way round. -/
def exitTime (down : Int → Bool) (anchor tHi : Int) : Int :=
  if down tHi then tHi else (bisect (fun t => !down t) anchor tHi).1

/-- The function `down` inside `occultation_interval`. -/
def downAt (endpointA endpointB body : Worldline) (radiusNm t : Int) : Bool :=
  isLinkDown t endpointA endpointB body radiusNm

/-- `occultation_interval`. A hint is used when the link is down at it, wherever it is. -/
def occultationInterval (tLo tHi : Int) (endpointA endpointB body : Worldline) (radiusNm : Int)
    (tHint : Option Int := none) (scanSteps : Int := 2000) :
    Except ScanError (Option (Int × Int)) := do
  let down := downAt endpointA endpointB body radiusNm
  let anchor ← match tHint.filter down with
    | some t => pure (some t)
    | none => scanAnchor down tLo tHi scanSteps
  return anchor.map fun t => (enterTime down tLo t, exitTime down t tHi)

/-! ### A body that passes between two stations -/

def leftStation : Worldline := FixedWorldline ⟨0, 0, 0⟩

def rightStation : Worldline := FixedWorldline ⟨100, 0, 0⟩

/-- At one nanometer per nanosecond it is in the line of the stations at time `25`. -/
def passingBody : Worldline :=
  LinearWorldline.toWorldline
    { p0Nm := ⟨50, -25, 0⟩
      t0Ns := 0
      vx := ⟨0, 1, Int.one_pos⟩
      vy := ⟨1, 1, Int.one_pos⟩
      vz := ⟨0, 1, Int.one_pos⟩ }

theorem downTimes_passing : downTimes leftStation rightStation passingBody 5 = Icc 20 30 := by
  ext t
  simp only [downTimes, isLinkDown, leftStation, rightStation, passingBody, FixedWorldline,
    LinearWorldline.toWorldline, LinearWorldline.positionAt, sub, dot]
  norm_num
  constructor
  · intro h
    constructor <;> nlinarith
  · rintro ⟨hlo, hhi⟩
    nlinarith

/-! ## The edges -/

variable {down : Int → Bool} {tLo tHi anchor : Int}

theorem enterTime_spec (hle : tLo ≤ anchor) (hdown : down anchor = true) :
    enterTime down tLo anchor ∈ Icc tLo anchor ∧ down (enterTime down tLo anchor) = true ∧
      (enterTime down tLo anchor = tLo ∨ down (enterTime down tLo anchor - 1) = false) := by
  unfold enterTime
  split
  · next hlo => exact ⟨⟨le_rfl, hle⟩, hlo, Or.inl rfl⟩
  · next hlo =>
      have hlt : tLo < anchor := lt_of_le_of_ne hle fun heq => hlo (heq ▸ hdown)
      have hends := bisect_crosses (p := down) hlt
      have hlower : down (bisect down tLo anchor).1 = false := by
        rcases hends.lower with heq | hlow
        · rw [heq, Bool.eq_false_of_not_eq_true hlo]
        · exact hlow
      have hadj := hends.adjacent
      refine ⟨⟨?_, hends.le_hi⟩, ?_, Or.inr ?_⟩
      · have hstart := hends.lo_le
        omega
      · rcases hends.upper with heq | hup
        · rw [heq, hdown]
        · exact hup
      · rwa [hadj, add_sub_cancel_right]

theorem exitTime_spec (hle : anchor ≤ tHi) (hdown : down anchor = true) :
    exitTime down anchor tHi ∈ Icc anchor tHi ∧ down (exitTime down anchor tHi) = true ∧
      (exitTime down anchor tHi = tHi ∨ down (exitTime down anchor tHi + 1) = false) := by
  unfold exitTime
  split
  · next hhi => exact ⟨⟨hle, le_rfl⟩, hhi, Or.inl rfl⟩
  · next hhi =>
      have hlt : anchor < tHi := lt_of_le_of_ne hle fun heq => hhi (heq ▸ hdown)
      have hends := bisect_crosses (p := fun t => !down t) hlt
      have hupper : down (bisect (fun t => !down t) anchor tHi).2 = false := by
        rcases hends.upper with heq | hup
        · rw [heq, Bool.eq_false_of_not_eq_true hhi]
        · simpa using hup
      have hadj := hends.adjacent
      refine ⟨⟨hends.lo_le, ?_⟩, ?_, Or.inr ?_⟩
      · have hstop := hends.le_hi
        omega
      · rcases hends.lower with heq | hlow
        · rw [heq, hdown]
        · simpa using hlow
      · rwa [← hadj]

/-- **From a time inside the blackout, in the window or not, both edges are found**, when the
blackout meets the window and is contiguous as far as that time. -/
theorem edges_exact
    (hone : ({t | down t = true} ∩ Icc (min tLo anchor) (max tHi anchor)).OrdConnected)
    (hdown : down anchor = true) (hmeets : ({t | down t = true} ∩ Icc tLo tHi).Nonempty) :
    IsLeast ({t | down t = true} ∩ Icc tLo tHi) (enterTime down tLo anchor) ∧
      IsGreatest ({t | down t = true} ∩ Icc tLo tHi) (exitTime down anchor tHi) := by
  have hbetween : ∀ {s t u}, down s = true → down u = true → min tLo anchor ≤ s → s ≤ t → t ≤ u →
      u ≤ max tHi anchor → down t = true := by
    intro s t u hs hu hlo hst htu hhi
    exact (hone.out ⟨hs, hlo, by omega⟩ ⟨hu, by omega, hhi⟩ ⟨hst, htu⟩).1
  obtain ⟨s, hs, hslo, hshi⟩ := hmeets
  constructor
  · by_cases hle : tLo ≤ anchor
    · obtain ⟨⟨hstart, hstop⟩, hat, hedge⟩ := enterTime_spec hle hdown
      have hlow : ∀ t, down t = true → tLo ≤ t → enterTime down tLo anchor ≤ t := by
        intro t ht htlo
        by_contra hlt
        have hprev := hedge.resolve_left (by omega)
        rw [hbetween ht hat (by omega) (by omega) (by omega) (by omega)] at hprev
        cases hprev
      exact ⟨⟨hat, hstart, (hlow s hs hslo).trans hshi⟩, fun t ht => hlow t ht.1 ht.2.1⟩
    · have hlo : down tLo = true := hbetween hdown hs (by omega) (by omega) hslo (by omega)
      rw [enterTime, if_pos hlo]
      exact ⟨⟨hlo, le_rfl, hslo.trans hshi⟩, fun t ht => ht.2.1⟩
  · by_cases hle : anchor ≤ tHi
    · obtain ⟨⟨hstart, hstop⟩, hat, hedge⟩ := exitTime_spec hle hdown
      have hup : ∀ t, down t = true → t ≤ tHi → t ≤ exitTime down anchor tHi := by
        intro t ht hthi
        by_contra hlt
        have hnext := hedge.resolve_left (by omega)
        rw [hbetween hat ht (by omega) (by omega) (by omega) (by omega)] at hnext
        cases hnext
      exact ⟨⟨hat, hslo.trans (hup s hs hshi), hstop⟩, fun t ht => hup t ht.1 ht.2.2⟩
    · have hhi : down tHi = true := hbetween hs hdown (by omega) hshi (by omega) (by omega)
      rw [exitTime, if_pos hhi]
      exact ⟨⟨hhi, hslo.trans hshi, le_rfl⟩, fun t ht => ht.2.2⟩

/-- A time inside a blackout that the window does not meet gives a first edge outside the window. -/
theorem enterTime_not_mem (hle : tLo ≤ tHi) (hdown : down anchor = true)
    (hmiss : ∀ t, down t = true → t ∉ Icc tLo tHi) : enterTime down tLo anchor ∉ Icc tLo tHi := by
  by_cases hanchor : tLo ≤ anchor
  · obtain ⟨hrange, hat, hedge⟩ := enterTime_spec hanchor hdown
    exact hmiss _ hat
  · have hlo : ¬ down tLo = true := fun hlo => hmiss tLo hlo ⟨le_rfl, hle⟩
    rw [enterTime, if_neg hlo, bisect_of_le (by omega)]
    exact hmiss anchor hdown

/-! ## The window -/

variable {endpointA endpointB body : Worldline} {radiusNm scanSteps : Int}

/-- The time of the `k`-th stop of the coarse scan. -/
def scannedTime (tLo tHi scanSteps : Int) (k : Nat) : Int := tLo + k * scanStep tLo tHi scanSteps

/-- The time from which both edges are looked for. -/
def anchorTime (down : Int → Bool) (tLo tHi scanSteps : Int) (tHint : Option Int) : Option Int :=
  (tHint.filter down).or (scan down (scanStep_pos tLo tHi scanSteps) tHi tLo)

/-- What is found, with the test as a function of the time. -/
def blackout (down : Int → Bool) (tLo tHi scanSteps : Int) (tHint : Option Int) :
    Option (Int × Int) :=
  (anchorTime down tLo tHi scanSteps tHint).map fun t => (enterTime down tLo t, exitTime down t tHi)

theorem occultationInterval_eq (tHint : Option Int) (hsteps : 1 ≤ scanSteps) :
    occultationInterval tLo tHi endpointA endpointB body radiusNm tHint scanSteps =
      .ok (blackout (downAt endpointA endpointB body radiusNm) tLo tHi scanSteps tHint) := by
  dsimp only [occultationInterval, blackout, anchorTime]
  cases tHint.filter (downAt endpointA endpointB body radiusNm) with
  | none =>
      dsimp only
      rw [scanAnchor, if_neg (by omega)]
      rfl
  | some t => rfl

/-- An anchor is a time at which the link is down: the hint, or a time of the window. -/
theorem anchorTime_eq_some {tHint : Option Int}
    (h : anchorTime down tLo tHi scanSteps tHint = some anchor) :
    down anchor = true ∧ (tHint = some anchor ∨ anchor ∈ Icc tLo tHi) := by
  rcases Option.or_eq_some_iff.mp h with hhint | ⟨hnone, hscan⟩
  · obtain ⟨hmem, hdown⟩ := Option.filter_eq_some_iff.mp hhint
    exact ⟨hdown, Or.inl hmem⟩
  · obtain ⟨hlo, hhi, hdown⟩ := scan_eq_some hscan
    exact ⟨hdown, Or.inr ⟨hlo, hhi⟩⟩

theorem anchorTime_eq_none_iff {tHint : Option Int} :
    anchorTime down tLo tHi scanSteps tHint = none ↔
      (∀ t ∈ tHint, down t = false) ∧
      ∀ k, scannedTime tLo tHi scanSteps k ≤ tHi →
        down (scannedTime tLo tHi scanSteps k) = false := by
  rw [anchorTime, Option.or_eq_none_iff, scan_eq_none_iff, Option.filter_eq_none_iff]
  simp only [Bool.not_eq_true, scannedTime, Option.mem_def]

/-- A contiguous blackout that is as long as a step of the scan is not missed. -/
theorem ncard_lt_of_missed (hone : ({t | down t = true} ∩ Icc tLo tHi).OrdConnected)
    (hmissed : anchorTime down tLo tHi scanSteps none = none) :
    (({t | down t = true} ∩ Icc tLo tHi).ncard : Int) < scanStep tLo tHi scanSteps := by
  by_contra hlong
  have hpos := scanStep_pos tLo tHi scanSteps
  have hne : ({t | down t = true} ∩ Icc tLo tHi).Nonempty := by
    apply nonempty_of_ncard_ne_zero
    omega
  obtain ⟨first, hfirst, hleast⟩ := Int.exists_least_of_bdd ⟨tLo, fun t ht => ht.2.1⟩ hne
  obtain ⟨last, hlast, hgreatest⟩ := Int.exists_greatest_of_bdd ⟨tHi, fun t ht => ht.2.2⟩ hne
  have hcard : ({t | down t = true} ∩ Icc tLo tHi).ncard ≤ (last + 1 - first).toNat := by
    rw [← Int.card_Icc, ← ncard_coe_finset, Finset.coe_Icc]
    exact ncard_le_ncard (fun t ht => ⟨hleast t ht, hgreatest t ht⟩) (finite_Icc first last)
  have hstop : last ≤ tHi := hlast.2.2
  refine scan_ne_none_of_run hfirst.2.1 (by omega) ?_ hmissed
  intro t hge hlt
  exact (hone.out hfirst hlast ⟨hge, by omega⟩).1

/-- **Without a hint, what is found is the blackout of the window.** Its edges are the first and the
last down time, and nothing is found only when each stop of the scan is outside it, which a blackout
as long as a step of the scan excludes. -/
theorem occultationInterval_exact
    (hone : (downTimes endpointA endpointB body radiusNm ∩ Icc tLo tHi).OrdConnected)
    (hsteps : 1 ≤ scanSteps) :
    ∃ found, occultationInterval tLo tHi endpointA endpointB body radiusNm none scanSteps =
        .ok found ∧
      (∀ tEnter tExit, found = some (tEnter, tExit) →
        IsLeast (downTimes endpointA endpointB body radiusNm ∩ Icc tLo tHi) tEnter ∧
        IsGreatest (downTimes endpointA endpointB body radiusNm ∩ Icc tLo tHi) tExit) ∧
      (found = none →
        (∀ k, scannedTime tLo tHi scanSteps k ≤ tHi →
          isLinkDown (scannedTime tLo tHi scanSteps k) endpointA endpointB body radiusNm = false) ∧
        ((downTimes endpointA endpointB body radiusNm ∩ Icc tLo tHi).ncard : Int) <
          max 1 ((tHi - tLo) / scanSteps)) := by
  refine ⟨_, occultationInterval_eq none hsteps, ?_, ?_⟩
  · intro tEnter tExit hfound
    obtain ⟨anchor, hanchor, hedges⟩ := Option.map_eq_some_iff.mp hfound
    cases hedges
    obtain ⟨hdown, hnone | hmem⟩ := anchorTime_eq_some hanchor
    · cases hnone
    · refine edges_exact ?_ hdown ⟨anchor, hdown, hmem⟩
      rwa [min_eq_left hmem.1, max_eq_left hmem.2]
  · intro hnone
    have hmissed := Option.map_eq_none_iff.mp hnone
    refine ⟨(anchorTime_eq_none_iff.mp hmissed).2, ?_⟩
    have hshort := ncard_lt_of_missed hone hmissed
    rwa [scanStep, Int.fdiv_eq_ediv_of_nonneg _ (by omega)] at hshort

/-- In the window `[0, 100]` the passing body hides the stations from `20` to `30`, and in `[0, 25]`
the window ends first. -/
theorem occultationInterval_exact_passing :
    (IsLeast (downTimes leftStation rightStation passingBody 5 ∩ Icc 0 100) 20 ∧
      IsGreatest (downTimes leftStation rightStation passingBody 5 ∩ Icc 0 100) 30) ∧
    IsLeast (downTimes leftStation rightStation passingBody 5 ∩ Icc 0 25) 20 ∧
      IsGreatest (downTimes leftStation rightStation passingBody 5 ∩ Icc 0 25) 25 := by
  have hone : ∀ tLo tHi,
      (downTimes leftStation rightStation passingBody 5 ∩ Icc tLo tHi).OrdConnected := by
    intro tLo tHi
    rw [downTimes_passing]
    exact ordConnected_Icc.inter ordConnected_Icc
  obtain ⟨found, hfound, hedges, -⟩ :=
    occultationInterval_exact (hone 0 100) (show (1 : Int) ≤ 2000 by decide)
  obtain ⟨found', hfound', hedges', -⟩ :=
    occultationInterval_exact (hone 0 25) (show (1 : Int) ≤ 2000 by decide)
  have hlong : occultationInterval 0 100 leftStation rightStation passingBody 5 none 2000 =
      .ok (some (20, 30)) := by decide +kernel
  have hshort : occultationInterval 0 25 leftStation rightStation passingBody 5 none 2000 =
      .ok (some (20, 25)) := by decide +kernel
  cases hfound.symm.trans hlong
  cases hfound'.symm.trans hshort
  exact ⟨hedges 20 30 rfl, hedges' 20 25 rfl⟩

/-! ## Hints -/

variable {tHint : Option Int} {tEnter tExit : Int}

/-- **When the window meets a contiguous blackout, any anchor gives its edges.** -/
theorem blackout_exact (hone : {t | down t = true}.OrdConnected)
    (hmeets : ({t | down t = true} ∩ Icc tLo tHi).Nonempty)
    (h : blackout down tLo tHi scanSteps tHint = some (tEnter, tExit)) :
    IsLeast ({t | down t = true} ∩ Icc tLo tHi) tEnter ∧
      IsGreatest ({t | down t = true} ∩ Icc tLo tHi) tExit := by
  obtain ⟨anchor, hanchor, hedges⟩ := Option.map_eq_some_iff.mp h
  cases hedges
  exact edges_exact (hone.inter ordConnected_Icc) (anchorTime_eq_some hanchor).1 hmeets

/-- Without a hint at which the link is down, what is found is in the window. -/
theorem meets_of_blackout (hhint : ∀ t ∈ tHint, down t = false)
    (h : blackout down tLo tHi scanSteps tHint = some (tEnter, tExit)) :
    ({t | down t = true} ∩ Icc tLo tHi).Nonempty := by
  obtain ⟨anchor, hanchor, hedges⟩ := Option.map_eq_some_iff.mp h
  obtain ⟨hdown, hat | hmem⟩ := anchorTime_eq_some hanchor
  · cases (hhint anchor hat).symm.trans hdown
  · exact ⟨anchor, hdown, hmem⟩

theorem blackout_eq_none_iff :
    blackout down tLo tHi scanSteps tHint = none ↔
      (∀ t ∈ tHint, down t = false) ∧
      ∀ k, scannedTime tLo tHi scanSteps k ≤ tHi →
        down (scannedTime tLo tHi scanSteps k) = false := by
  rw [blackout, Option.map_eq_none_iff, anchorTime_eq_none_iff]

/-- A hint at which the link is down takes the place of the scan. -/
theorem blackout_of_down {t : Int} (hdown : down t = true) :
    blackout down tLo tHi scanSteps (some t) =
      some (enterTime down tLo t, exitTime down t tHi) := by
  rw [blackout, anchorTime, Option.filter_some_pos hdown, Option.some_or, Option.map_some]

/-- A hint changes nothing of what is found without it. -/
theorem blackout_hint_eq (hone : {t | down t = true}.OrdConnected) {interval : Int × Int}
    (h : blackout down tLo tHi scanSteps none = some interval) :
    blackout down tLo tHi scanSteps tHint = some interval := by
  have hmeets := meets_of_blackout (by simp) h
  cases hhint : blackout down tLo tHi scanSteps tHint with
  | none =>
      have hnone : blackout down tLo tHi scanSteps none = none :=
        blackout_eq_none_iff.mpr ⟨by simp, (blackout_eq_none_iff.mp hhint).2⟩
      cases hnone.symm.trans h
  | some interval' =>
      obtain ⟨hleast, hgreatest⟩ := blackout_exact hone hmeets h
      obtain ⟨hleast', hgreatest'⟩ := blackout_exact hone hmeets hhint
      exact congrArg some (Prod.ext (hleast'.unique hleast) (hgreatest'.unique hgreatest))

/-- **A hint is no more than an optimisation exactly when it does not find a blackout that the
window does not meet.** Then the interval is inside the window, and it is the one found without the
hint, if there is one. -/
theorem occultationInterval_hint_iff
    (hone : (downTimes endpointA endpointB body radiusNm).OrdConnected) (hwindow : tLo ≤ tHi)
    (hsteps : 1 ≤ scanSteps) (t : Int) :
    (∃ found plain,
      occultationInterval tLo tHi endpointA endpointB body radiusNm (some t) scanSteps =
        .ok found ∧
      occultationInterval tLo tHi endpointA endpointB body radiusNm none scanSteps = .ok plain ∧
      (∀ tEnter tExit, found = some (tEnter, tExit) →
        tLo ≤ tEnter ∧ tEnter ≤ tExit ∧ tExit ≤ tHi) ∧
      ∀ interval, plain = some interval → found = some interval) ↔
    isLinkDown t endpointA endpointB body radiusNm = false ∨
      (downTimes endpointA endpointB body radiusNm ∩ Icc tLo tHi).Nonempty := by
  constructor
  · rintro ⟨found, plain, hfound, -, hinside, -⟩
    by_contra! h
    obtain ⟨hup, hmiss⟩ := h
    have hdown : downAt endpointA endpointB body radiusNm t = true :=
      Bool.eq_true_of_not_eq_false hup
    rw [occultationInterval_eq _ hsteps, blackout_of_down hdown] at hfound
    cases hfound
    obtain ⟨hlo, hle, hhi⟩ := hinside _ _ rfl
    refine enterTime_not_mem hwindow hdown ?_ ⟨hlo, hle.trans hhi⟩
    intro s hs hmem
    exact Set.eq_empty_iff_forall_notMem.mp hmiss s ⟨hs, hmem⟩
  · intro h
    refine ⟨_, _, occultationInterval_eq _ hsteps, occultationInterval_eq _ hsteps, ?_, ?_⟩
    · intro tEnter tExit hfound
      have hmeets : (downTimes endpointA endpointB body radiusNm ∩ Icc tLo tHi).Nonempty := by
        rcases h with hup | hmeets
        · refine meets_of_blackout ?_ hfound
          rintro s ⟨⟩
          exact hup
        · exact hmeets
      obtain ⟨hleast, hgreatest⟩ := blackout_exact hone hmeets hfound
      exact ⟨hleast.1.2.1, hleast.2 hgreatest.1, hgreatest.1.2.2⟩
    · intro interval hinterval
      exact blackout_hint_eq hone hinterval

/-- A hint in the middle of the passing body's blackout, in a window that ends before the middle. -/
theorem occultationInterval_hint_iff_passing :
    ∃ found, occultationInterval 0 24 leftStation rightStation passingBody 5 (some 25) 2000 =
      .ok found ∧ ∀ tEnter tExit, found = some (tEnter, tExit) → 0 ≤ tEnter ∧ tExit ≤ 24 := by
  have hone : (downTimes leftStation rightStation passingBody 5).OrdConnected := by
    rw [downTimes_passing]
    exact ordConnected_Icc
  have hmeets : (downTimes leftStation rightStation passingBody 5 ∩ Icc 0 24).Nonempty := by
    rw [downTimes_passing]
    exact ⟨22, by decide, by decide⟩
  obtain ⟨found, plain, hfound, -, hinside, -⟩ := (occultationInterval_hint_iff hone
    (show (0 : Int) ≤ 24 by decide) (show (1 : Int) ≤ 2000 by decide) 25).mpr (Or.inr hmeets)
  refine ⟨found, hfound, ?_⟩
  intro tEnter tExit hedges
  have hin := hinside tEnter tExit hedges
  exact ⟨hin.1, hin.2.2⟩

/-- The window `[0, 10]` is over before the passing body comes, and a hint at `25` gives the
interval `[20, 25]`. -/
theorem hint_outside_window :
    (downTimes leftStation rightStation passingBody 5).OrdConnected ∧
    ¬ ∀ tEnter tExit,
      occultationInterval 0 10 leftStation rightStation passingBody 5 (some 25) 2000 =
        .ok (some (tEnter, tExit)) → 0 ≤ tEnter ∧ tEnter ≤ tExit ∧ tExit ≤ 10 := by
  constructor
  · rw [downTimes_passing]
    exact ordConnected_Icc
  · intro h
    have hinside := h 20 25 (by decide +kernel)
    omega

end HorizonProtocol.Trajectory
