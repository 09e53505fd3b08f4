import HorizonProtocol.Geometry

/-!
# Clock errors

A station's clock is off by at most its declared uncertainty. Every verifier adds the uncertainty to
the time of an arrival before it compares that with a floor, and so grants the largest error. What
this says of all the errors a clock can have, in real time, is `explained_iff`.
-/

namespace HorizonProtocol.Attestation

/-- Some error of the clock within the uncertainty puts the arrival in the closed future light cone
of the emission. -/
def Explained (t0 : Int) (p0 : Pos) (recv : Int) (p : Pos) (uNs : Int) : Prop :=
  ∃ ε : ℝ, |ε| ≤ uNs ∧
    LightCone.Reaches (cNmPerNs : ℝ) (toSpacetime t0 p0) ((recv : ℝ) + ε, p.toSpace)

variable {t0 recv u u' : Int} {p0 p : Pos}

/-- **Some error explains an arrival exactly when the largest one does**, and that one is whole. -/
theorem explained_iff_admissible (hu : 0 ≤ u) :
    Explained t0 p0 recv p u ↔ causallyAdmissible t0 p0 (recv + u) p = true := by
  have hc : (0 : ℝ) ≤ (cNmPerNs : ℝ) := by norm_num [cNmPerNs]
  rw [causallyAdmissible_iff_reaches]
  constructor
  · intro h
    obtain ⟨ε, hε, hreach⟩ := h
    apply hreach.mono hc le_rfl
    push_cast
    linarith [(abs_le.mp hε).2]
  · intro h
    refine ⟨u, ?_, ?_⟩
    · rw [abs_of_nonneg]
      exact_mod_cast hu
    · simpa [toSpacetime] using h

theorem explained_iff (hu : 0 ≤ u) :
    Explained t0 p0 recv p u ↔ (minLightTimeNs p0 p : Int) ≤ recv - t0 + u := by
  rw [explained_iff_admissible hu, causallyAdmissible_iff_minLightTime, add_sub_right_comm]

end HorizonProtocol.Attestation
