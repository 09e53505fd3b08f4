import HorizonProtocol.Trajectory.Blackout
import HorizonProtocol.Trajectory.Subluminal

/-!
# Light delay

`horizon/light_delay.py`: when a signal from a moving node is received. A signal emitted in a
blackout leaves when the link is up again, which is taken to be one nanosecond after the blackout's
last time.

* `departure_not_down_iff` — when a signal that is held back by the blackout of a window does leave
  with the link up.
* `deliveryTimeNs_fifo` — signals of an emitter that is causal with itself are received in the order
  of their emission and not before light.
-/

namespace HorizonProtocol.Trajectory

open Set

/-- `delivery_time_ns`. -/
def deliveryTimeNs (tEmit : Int) (emitter receiver : Worldline)
    (occultation : Option (Int × Int) := none) : Int :=
  let pEmit := emitter.positionAt tEmit
  let pRecv := receiver.positionAt tEmit
  let naive := tEmit + minLightTimeNs pEmit pRecv
  match occultation with
  | none => naive
  | some (tEnter, tExit) =>
    if tEnter ≤ tEmit ∧ tEmit ≤ tExit then
      let tReopen := tExit + 1
      let pEmitReopen := emitter.positionAt tReopen
      let pRecvReopen := receiver.positionAt tReopen
      let fromReopen := tReopen + minLightTimeNs pEmitReopen pRecvReopen
      max naive fromReopen
    else naive

/-- When the signal is taken to leave. -/
def departureNs (tEmit : Int) : Option (Int × Int) → Int
  | none => tEmit
  | some (tEnter, tExit) => if tEnter ≤ tEmit ∧ tEmit ≤ tExit then tExit + 1 else tEmit

variable {emitter receiver body : Worldline} {occultation : Option (Int × Int)} {tEmit t1 t2 : Int}

/-- **Delivery is a light time after departure**, or after emission if that is later. -/
theorem deliveryTimeNs_eq_max :
    deliveryTimeNs tEmit emitter receiver occultation =
      max (deliveryTimeNs tEmit emitter receiver)
        (deliveryTimeNs (departureNs tEmit occultation) emitter receiver) := by
  cases occultation with
  | none => exact (max_self _).symm
  | some interval =>
      obtain ⟨tEnter, tExit⟩ := interval
      simp only [deliveryTimeNs, departureNs]
      split
      · rfl
      · exact (max_self _).symm

theorem le_departureNs : tEmit ≤ departureNs tEmit occultation := by
  unfold departureNs
  split
  · exact le_rfl
  · split
    · next h => omega
    · exact le_rfl

theorem departureNs_mono (h : t1 ≤ t2) :
    departureNs t1 occultation ≤ departureNs t2 occultation := by
  cases occultation with
  | none => exact h
  | some interval =>
      simp only [departureNs]
      split_ifs <;> omega

/-! ## A departure while the link is down -/

variable {radiusNm tLo tHi scanSteps : Int} {tHint : Option Int}

/-- When the blackout of the window is found, a signal leaves with the link up exactly when it need
not wait or the blackout does not go on after the window. -/
theorem departure_of_blackout {down : Int → Bool} {tEnter tExit : Int}
    (hone : {t | down t = true}.OrdConnected)
    (hmeets : ({t | down t = true} ∩ Icc tLo tHi).Nonempty) (hemit : tEmit ∈ Icc tLo tHi)
    (h : blackout down tLo tHi scanSteps tHint = some (tEnter, tExit)) :
    down (departureNs tEmit (some (tEnter, tExit))) = false ↔
      down tEmit = false ∨ down (tHi + 1) = false := by
  obtain ⟨hleast, hgreatest⟩ := blackout_exact hone hmeets h
  by_cases hdown : down tEmit = true
  · have hwait : tEnter ≤ tEmit ∧ tEmit ≤ tExit :=
      ⟨hleast.2 ⟨hdown, hemit⟩, hgreatest.2 ⟨hdown, hemit⟩⟩
    have hlast : tExit ≤ tHi := hgreatest.1.2.2
    rw [departureNs, if_pos hwait]
    constructor
    · intro hup
      right
      by_contra hnext
      have hat : down (tExit + 1) = true :=
        hone.out hgreatest.1.1 (Bool.eq_true_of_not_eq_false hnext) ⟨by omega, by omega⟩
      cases hup.symm.trans hat
    · rintro (hup | hup)
      · cases hup.symm.trans hdown
      · by_contra hnext
        have hat := Bool.eq_true_of_not_eq_false hnext
        by_cases hin : tExit + 1 ≤ tHi
        · have hle := hgreatest.2 ⟨hat, hemit.1.trans (hwait.2.trans (by omega)), hin⟩
          omega
        · rw [show tHi + 1 = tExit + 1 by omega] at hup
          cases hup.symm.trans hat
  · have hgo : ¬ (tEnter ≤ tEmit ∧ tEmit ≤ tExit) :=
      fun hwait => hdown (hone.out hleast.1.1 hgreatest.1.1 hwait)
    have hup := Bool.eq_false_of_not_eq_true hdown
    rw [departureNs, if_neg hgo]
    exact iff_of_true hup (Or.inl hup)

/-- **A signal leaves with the link up exactly when it need not wait, or the blackout is over with
the window and has been found.** A blackout that goes on is cut off at the end of the window, and
one that is not found holds nothing back. -/
theorem departure_not_down_iff (hone : (downTimes emitter receiver body radiusNm).OrdConnected)
    (hmeets : (downTimes emitter receiver body radiusNm ∩ Icc tLo tHi).Nonempty)
    (hemit : tEmit ∈ Icc tLo tHi) (hsteps : 1 ≤ scanSteps) (tHint : Option Int) :
    ∃ found, occultationInterval tLo tHi emitter receiver body radiusNm tHint scanSteps =
        .ok found ∧
      (isLinkDown (departureNs tEmit found) emitter receiver body radiusNm = false ↔
        isLinkDown tEmit emitter receiver body radiusNm = false ∨
        isLinkDown (tHi + 1) emitter receiver body radiusNm = false ∧
          ((∃ t ∈ tHint, isLinkDown t emitter receiver body radiusNm = true) ∨
            ∃ k, scannedTime tLo tHi scanSteps k ≤ tHi ∧
              isLinkDown (scannedTime tLo tHi scanSteps k) emitter receiver body radiusNm =
                true)) := by
  refine ⟨_, occultationInterval_eq tHint hsteps, ?_⟩
  cases hfound : blackout (downAt emitter receiver body radiusNm) tLo tHi scanSteps tHint with
  | none =>
      obtain ⟨hhint, hscan⟩ := blackout_eq_none_iff.mp hfound
      refine (or_iff_left ?_).symm
      rintro ⟨-, ⟨t, ht, hdown⟩ | ⟨k, hk, hdown⟩⟩
      · cases (hhint t ht).symm.trans hdown
      · cases (hscan k hk).symm.trans hdown
  | some interval =>
      have hnone : ¬ blackout (downAt emitter receiver body radiusNm) tLo tHi scanSteps tHint =
          none := by
        rw [hfound]
        exact Option.some_ne_none _
      have hanchor : (∃ t ∈ tHint, isLinkDown t emitter receiver body radiusNm = true) ∨
          ∃ k, scannedTime tLo tHi scanSteps k ≤ tHi ∧
            isLinkDown (scannedTime tLo tHi scanSteps k) emitter receiver body radiusNm = true := by
        by_contra! h
        refine hnone (blackout_eq_none_iff.mpr ⟨fun t ht => ?_, fun k hk => ?_⟩)
        · exact Bool.eq_false_of_not_eq_true (h.1 t ht)
        · exact Bool.eq_false_of_not_eq_true (h.2 k hk)
      rw [and_iff_left hanchor]
      exact departure_of_blackout hone hmeets hemit hfound

/-- The window ends at `30` with the passing body's blackout, and a signal emitted at `22` leaves at
`31`. -/
theorem departure_not_down_iff_passing :
    ∃ found, occultationInterval 0 30 leftStation rightStation passingBody 5 none 2000 =
        .ok found ∧
      isLinkDown (departureNs 22 found) leftStation rightStation passingBody 5 = false := by
  have hone : (downTimes leftStation rightStation passingBody 5).OrdConnected := by
    rw [downTimes_passing]
    exact ordConnected_Icc
  have hmeets : (downTimes leftStation rightStation passingBody 5 ∩ Icc 0 30).Nonempty := by
    rw [downTimes_passing]
    exact ⟨25, by decide, by decide⟩
  obtain ⟨found, hfound, hiff⟩ := departure_not_down_iff hone hmeets
    (show (22 : Int) ∈ Icc 0 30 by decide) (show (1 : Int) ≤ 2000 by decide) none
  exact ⟨found, hfound, hiff.mpr (Or.inr ⟨by decide, Or.inr ⟨20, by decide, by decide⟩⟩)⟩

/-- In the window `[0, 25]` a signal emitted at `22` leaves at `26`, in the middle of the passing
body's blackout. -/
theorem departure_in_blackout :
    (downTimes leftStation rightStation passingBody 5).OrdConnected ∧
    (22 ∈ downTimes leftStation rightStation passingBody 5 ∩ Icc 0 25) ∧
    ¬ ∀ interval, occultationInterval 0 25 leftStation rightStation passingBody 5 none 2000 =
        .ok (some interval) →
      isLinkDown (departureNs 22 (some interval)) leftStation rightStation passingBody 5 =
        false := by
  rw [downTimes_passing]
  refine ⟨ordConnected_Icc, by decide, ?_⟩
  intro h
  have hup := h (20, 25) (by decide +kernel)
  have hdown : isLinkDown 26 leftStation rightStation passingBody 5 = true := by decide
  cases hup.symm.trans hdown

/-! ## First in, first out -/

/-- Light from a later place of the emitter does not overtake light from an earlier one. -/
theorem arrival_mono
    (hself : ∀ t1 t2, t1 ≤ t2 → causallyAdmissibleWl emitter t1 emitter t2 = true) (posNm : Pos)
    (h : t1 ≤ t2) :
    deliveryTimeNs t1 emitter (FixedWorldline posNm) ≤
      deliveryTimeNs t2 emitter (FixedWorldline posNm) := by
  have hmove := causallyAdmissible_iff_minLightTime.mp (hself t1 t2 h)
  have hdetour := minLightTimeNs_triangle (emitter.positionAt t1) (emitter.positionAt t2) posNm
  show t1 + (minLightTimeNs (emitter.positionAt t1) posNm : Int) ≤
    t2 + minLightTimeNs (emitter.positionAt t2) posNm
  omega

/-- **Delivery is the arrival of light from the departure.** -/
theorem deliveryTimeNs_eq
    (hself : ∀ t1 t2, t1 ≤ t2 → causallyAdmissibleWl emitter t1 emitter t2 = true) (posNm : Pos)
    (tEmit : Int) (occultation : Option (Int × Int)) :
    deliveryTimeNs tEmit emitter (FixedWorldline posNm) occultation =
      deliveryTimeNs (departureNs tEmit occultation) emitter (FixedWorldline posNm) := by
  rw [deliveryTimeNs_eq_max]
  exact max_eq_right (arrival_mono hself posNm le_departureNs)

/-- **Delivery is first in, first out and not before light**, and what is emitted inside the
blackout is received with what is emitted right after it. -/
theorem deliveryTimeNs_fifo
    (hself : ∀ t1 t2, t1 ≤ t2 → causallyAdmissibleWl emitter t1 emitter t2 = true) (posNm : Pos)
    (occultation : Option (Int × Int)) :
    (∀ t1 t2, t1 ≤ t2 →
      deliveryTimeNs t1 emitter (FixedWorldline posNm) occultation ≤
        deliveryTimeNs t2 emitter (FixedWorldline posNm) occultation) ∧
    (∀ t, causallyAdmissible t (emitter.positionAt t)
      (deliveryTimeNs t emitter (FixedWorldline posNm) occultation) posNm = true) ∧
    (∀ tEnter tExit t, occultation = some (tEnter, tExit) → tEnter ≤ t → t ≤ tExit →
      deliveryTimeNs t emitter (FixedWorldline posNm) occultation =
        deliveryTimeNs (tExit + 1) emitter (FixedWorldline posNm) occultation) := by
  refine ⟨?_, ?_, ?_⟩
  · intro t1 t2 h
    rw [deliveryTimeNs_eq hself posNm t1 occultation, deliveryTimeNs_eq hself posNm t2 occultation]
    exact arrival_mono hself posNm (departureNs_mono h)
  · intro t
    rw [causallyAdmissible_iff_minLightTime, deliveryTimeNs_eq_max, le_sub_iff_add_le', le_max_iff]
    exact Or.inl le_rfl
  · rintro tEnter tExit t rfl henter hexit
    have hwait : departureNs t (some (tEnter, tExit)) = tExit + 1 := if_pos ⟨henter, hexit⟩
    have hgo : departureNs (tExit + 1) (some (tEnter, tExit)) = tExit + 1 := if_neg (by omega)
    rw [deliveryTimeNs_eq hself posNm t, deliveryTimeNs_eq hself posNm (tExit + 1), hwait, hgo]

/-- It drifts a nanometer in three nanoseconds. -/
def slowShip : LinearWorldline where
  p0Nm := ⟨0, 0, 0⟩
  t0Ns := 0
  vx := ⟨1, 3, three_pos⟩
  vy := ⟨0, 1, Int.one_pos⟩
  vz := ⟨0, 1, Int.one_pos⟩

/-- What the ship emits in a blackout from `10` to `20` is received with what it emits at `21`. -/
theorem deliveryTimeNs_fifo_slow :
    deliveryTimeNs 12 slowShip.toWorldline (FixedWorldline ⟨1000000000, 0, 0⟩) (some (10, 20)) =
      deliveryTimeNs 21 slowShip.toWorldline (FixedWorldline ⟨1000000000, 0, 0⟩)
        (some (10, 20)) := by
  have hsub : slowShip.Subluminal := by decide +kernel
  have hself : ∀ t1 t2, t1 ≤ t2 →
      causallyAdmissibleWl slowShip.toWorldline t1 slowShip.toWorldline t2 = true := by
    intro t1 t2 h
    have hfits : slowShip.FitsCone (t2 - t1) :=
      LinearWorldline.fitsCone_of_axis (i := 0) hsub (sub_nonneg.mpr h) (by decide)
    exact hfits.causal h
  exact (deliveryTimeNs_fifo hself ⟨1000000000, 0, 0⟩ (some (10, 20))).2.2 10 20 12 rfl (by decide)
    (by decide)

end HorizonProtocol.Trajectory
