import HorizonProtocol.Ledger.Runs

/-!
# Admitted one way, the other way, or concurrent

The gate asks for a strictly later event inside the closed cone; `concurrent` asks whether the closed
cones hold. Between two events of different stamps these are the two halves of one question. Two
events of one time and one place fall between them: neither edge is admitted, and each event is in
the cone of the other.

* `trichotomy_iff` — exactly one of the three answers holds exactly when the stamps differ.
-/

namespace HorizonProtocol

/-! ## Stamps -/

variable {ea eb : Stamp}

/-- An event in the closed cone of another is later, unless they are of one time and place. -/
theorem Stamp.cone_iff_of_ne (hne : ea ≠ eb) :
    causallyAdmissible ea.timeNs ea.posNm eb.timeNs eb.posNm = true ↔ ea.Later eb := by
  constructor
  · intro hcone
    refine ⟨?_, hcone⟩
    have hdt := (causallyAdmissible_iff.mp hcone).1
    rcases (sub_nonneg.mp hdt).lt_or_eq with hlt | htime
    · exact hlt
    · -- of one time, the cone is the place alone
      exfalso
      apply hne
      rw [causallyAdmissible_iff_minLightTime, htime, sub_self] at hcone
      have hplace : ea.posNm = eb.posNm := minLightTimeNs_eq_zero.mp (by omega)
      cases ea
      cases eb
      simp_all
  · exact Stamp.Later.cone

namespace CausalLedger

variable {Eid Ref : Type} [DecidableEq Eid]

/-! ## Answers -/

/-- `add_edge(a, b)` returns a record that says ADMITTED. -/
def AdmitsEdge (s : CausalLedger Eid Ref) (a b : Eid) : Prop :=
  ∃ r, (s.addEdge a b).2 = .ok r ∧ r.verdict = .admitted

/-- `concurrent(a, b)` returns true. -/
def SaysConcurrent (s : CausalLedger Eid Ref) (a b : Eid) : Prop := s.concurrent a b = .ok true

/-- Exactly one of the three answers. -/
def ExactlyOne (p q r : Prop) : Prop := (p ∧ ¬ q ∧ ¬ r) ∨ (¬ p ∧ q ∧ ¬ r) ∨ (¬ p ∧ ¬ q ∧ r)

variable {s : CausalLedger Eid Ref} {a b : Eid}

theorem admitsEdge_iff (ha : s.events a = some ea) (hb : s.events b = some eb) :
    s.AdmitsEdge a b ↔ ea.Later eb := by
  obtain ⟨rec, hrec, hverdict⟩ := (s.addEdge_recorded ha hb).1
  unfold AdmitsEdge
  rw [hrec, ← hverdict]
  simp

omit [DecidableEq Eid] in
theorem saysConcurrent_iff (ha : s.events a = some ea) (hb : s.events b = some eb) :
    s.SaysConcurrent a b ↔
      ¬ causallyAdmissible ea.timeNs ea.posNm eb.timeNs eb.posNm = true ∧
      ¬ causallyAdmissible eb.timeNs eb.posNm ea.timeNs ea.posNm = true := by
  simp [SaysConcurrent, concurrent, ha, hb]

/-- **Exactly one answer, unless the two events are of one time and one place.** The same condition
decides whether no admissible edge either way means concurrent. -/
theorem trichotomy_iff (ha : s.events a = some ea) (hb : s.events b = some eb) :
    (ExactlyOne (s.AdmitsEdge a b) (s.AdmitsEdge b a) (s.SaysConcurrent a b) ↔ ea ≠ eb) ∧
    ((¬ s.AdmitsEdge a b ∧ ¬ s.AdmitsEdge b a ↔ s.SaysConcurrent a b) ↔ ea ≠ eb) := by
  rw [admitsEdge_iff ha hb, admitsEdge_iff hb ha, saysConcurrent_iff ha hb]
  unfold ExactlyOne
  by_cases heq : ea = eb
  · subst heq
    have hirrefl : ¬ ea.Later ea := Stamp.later_strict.irrefl ea
    simp [hirrefl]
  · rw [Stamp.cone_iff_of_ne heq, Stamp.cone_iff_of_ne (Ne.symm heq)]
    have hasymm : ea.Later eb → ¬ eb.Later ea :=
      fun hab hba => Stamp.later_strict.irrefl ea (Stamp.later_strict.trans _ _ _ hab hba)
    tauto

/-- Two events under different ids, of one time and one place. -/
def coincident : CausalLedger String Nat :=
  machine.run [.addEvent "a" 0 ⟨0, 0, 0⟩, .addEvent "b" 0 ⟨0, 0, 0⟩]

/-- Both edges are rejected and the events are not concurrent. -/
theorem no_answer_for_coincident :
    ¬ ExactlyOne (coincident.AdmitsEdge "a" "b") (coincident.AdmitsEdge "b" "a")
        (coincident.SaysConcurrent "a" "b") ∧
    ¬ coincident.AdmitsEdge "a" "b" ∧ ¬ coincident.AdmitsEdge "b" "a" ∧
    ¬ coincident.SaysConcurrent "a" "b" := by
  have ha : coincident.events "a" = some ⟨0, ⟨0, 0, 0⟩⟩ := by decide
  have hb : coincident.events "b" = some ⟨0, ⟨0, 0, 0⟩⟩ := by decide
  have hirrefl := Stamp.later_strict.irrefl ⟨0, ⟨0, 0, 0⟩⟩
  rw [admitsEdge_iff ha hb, admitsEdge_iff hb ha, saysConcurrent_iff ha hb]
  simp [ExactlyOne, hirrefl]

/-- One event at the origin, one a light-second away and two seconds later. -/
def separated : CausalLedger String Nat :=
  machine.run [.addEvent "a" 0 ⟨0, 0, 0⟩, .addEvent "b" 2000000000 ⟨299792458000000000, 0, 0⟩]

theorem trichotomy_separated :
    ExactlyOne (separated.AdmitsEdge "a" "b") (separated.AdmitsEdge "b" "a")
      (separated.SaysConcurrent "a" "b") :=
  (trichotomy_iff (by decide : separated.events "a" = some ⟨0, ⟨0, 0, 0⟩⟩)
    (by decide : separated.events "b" = some ⟨2000000000, ⟨299792458000000000, 0, 0⟩⟩)).1.mpr
    (by decide)

end CausalLedger

end HorizonProtocol
