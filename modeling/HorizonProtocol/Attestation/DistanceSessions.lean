import HorizonProtocol.Attestation.Distance

/-!
# Distance bounding sessions

`horizon/db_sim.py`: provers that answer no sooner than light allows from where they truly are, and
may delay. The model knows the true positions; the verifier of `Distance` does not.

* `runSession_measures` — a session measures what its role answers, and its assertion never fires.
* `distance_bounding` — completeness, exactness and soundness against relocation.
-/

namespace HorizonProtocol.Attestation

/-! ## Roles -/

inductive SessionRole where
  | honest
  | distant
  | decoy
  | colluderPair
  deriving DecidableEq

/-- `DISTANT_POS`. -/
def distantPos : Pos := ⟨7000000000000, 7000000000000, -4800000000000⟩

/-- `DECOY_POS`. -/
def decoyPos : Pos := ⟨6000000000000, 0, 0⟩

inductive Colluder where
  | a1
  | a2
  deriving DecidableEq

/-- `COLLUDER_COVERAGE`. -/
def colluderCoverage : VerifierDict Colluder :=
  ((((∅ : VerifierDict Colluder).insert "V1" .a1).insert "V2" .a2).insert "V3" .a2).insert "V4" .a2

/-- `COLLUDER_POSITIONS`. -/
def colluderPositions : Colluder → Pos
  | .a1 => ⟨1000000000000, 1000000000000, 0⟩
  | .a2 => ⟨10000000000000, 10000000000000, 5000000000000⟩

/-- `SEED_H3`. -/
def seedH3 : String := "H3-FROZEN-SEED-v1"

/-- Material shared before the session. -/
def sessionKey (sha256Hex : String → String) (seed : String) : String :=
  sha256Hex (seed ++ "||session-key")

/-- The round trip of an answer from the true position: no less than two ways of light and the
processing, and as late as a target when one is given. -/
def respond (truePos vPos : Pos) (procNs : Int) (delayToNs? : Option Int) : Int :=
  let floor := 2 * (minLightTimeNs vPos truePos : Int) + procNs
  match delayToNs? with
  | none => floor
  | some delayToNs => max floor delayToNs

/-! ## Sessions -/

inductive SessionError where
  /-- `KeyError`: no colluder covers the verifier. -/
  | uncovered (vid : String)
  /-- `AssertionError`: a response faster than light. -/
  | fasterThanLight (vid : String)
  deriving DecidableEq

/-- Who answers a verifier, from where, and after how long. -/
structure SessionAnswer where
  agent? : Option Colluder
  truePos : Pos
  rtt : Int

def sessionAnswer (role : SessionRole) (procNs : Int) (pClaim : Pos) (vid : String) (v : Pos) :
    Except SessionError SessionAnswer :=
  match role with
  | .honest => .ok ⟨none, pClaim, respond pClaim v procNs none⟩
  | .distant => .ok ⟨none, distantPos, respond distantPos v procNs none⟩
  | .decoy => .ok ⟨none, decoyPos, respond decoyPos v procNs (some (deadlineNs v pClaim procNs))⟩
  | .colluderPair =>
      match colluderCoverage.lookup vid with
      | none => .error (.uncovered vid)
      | some agent =>
          let truePos := colluderPositions agent
          .ok ⟨some agent, truePos, respond truePos v procNs (some (deadlineNs v pClaim procNs))⟩

/-- The loop over the verifiers, in the order of their ids. -/
def sessionLoop (role : SessionRole) (procNs : Int) (pClaim : Pos) (verifiers : VerifierDict Pos) :
    List String → VerifierDict Int → VerifierDict (Colluder × Pos) →
      Except SessionError (VerifierDict Int × VerifierDict (Colluder × Pos))
  | [], measurements, agentPositions => .ok (measurements, agentPositions)
  | vid :: vids, measurements, agentPositions =>
      match verifiers.lookup vid with
      | none => sessionLoop role procNs pClaim verifiers vids measurements agentPositions
      | some v =>
          match sessionAnswer role procNs pClaim vid v with
          | .error e => .error e
          | .ok answer =>
              let agentPositions := match answer.agent? with
                | none => agentPositions
                | some agent => agentPositions.insert vid (agent, answer.truePos)
              -- no simulated response is faster than light for its true path
              if answer.rtt - procNs ≥ 2 * (minLightTimeNs v answer.truePos : Int) then
                sessionLoop role procNs pClaim verifiers vids (measurements.insert vid answer.rtt)
                  agentPositions
              else .error (.fasterThanLight vid)

/-- Whether the colluder that covers a verifier is closer to it than the claim is. -/
def strictlyCloser (pClaim : Pos) (verifiers : VerifierDict Pos) : VerifierDict Bool :=
  (sortedVids verifiers).foldl (fun m vid =>
    match colluderCoverage.lookup vid, verifiers.lookup vid with
    | some agent, some v => m.insert vid (decide (dist2 (colluderPositions agent) v < dist2 pClaim v))
    | _, _ => m) ∅

structure Session where
  role : SessionRole
  seed : String
  procNs : Int
  measurements : VerifierDict Int
  sessionKey : String
  agentPositions? : Option (VerifierDict (Colluder × Pos))
  strictlyCloserCheck? : Option (VerifierDict Bool)

def runSession (sha256Hex : String → String) (role : SessionRole)
    (procNs : Int := Attestation.procNs) (pClaim : Pos := Attestation.pClaim)
    (verifiers? : Option (VerifierDict Pos) := none) (seed : String := seedH3) :
    Except SessionError Session :=
  let verifiers := verifiers?.getD frozenVerifiers
  match sessionLoop role procNs pClaim verifiers (sortedVids verifiers) ∅ ∅ with
  | .error e => .error e
  | .ok (measurements, agentPositions) =>
      .ok
        { role, seed, procNs, measurements, sessionKey := Attestation.sessionKey sha256Hex seed
          agentPositions? := if role = .colluderPair then some agentPositions else none
          strictlyCloserCheck? :=
            if role = .colluderPair then some (strictlyCloser pClaim verifiers) else none }

variable {role : SessionRole} {proc : Int} {claim : Pos} {verifiers : VerifierDict Pos}

/-! ## What a session measures -/

theorem respond_floor (a v : Pos) (proc : Int) (delay? : Option Int) :
    2 * (minLightTimeNs v a : Int) ≤ respond a v proc delay? - proc := by
  unfold respond
  cases delay? with
  | none => simp
  | some d =>
      have hle := le_max_left (2 * (minLightTimeNs v a : Int) + proc) d
      dsimp only
      omega

/-- Whoever answers, light has the time for it. -/
theorem sessionAnswer_floor {vid : String} {v : Pos} {answer : SessionAnswer}
    (h : sessionAnswer role proc claim vid v = .ok answer) :
    2 * (minLightTimeNs v answer.truePos : Int) ≤ answer.rtt - proc := by
  cases role with
  | honest =>
      cases h
      exact respond_floor claim v proc none
  | distant =>
      cases h
      exact respond_floor distantPos v proc none
  | decoy =>
      cases h
      exact respond_floor decoyPos v proc (some (deadlineNs v claim proc))
  | colluderPair =>
      simp only [sessionAnswer] at h
      split at h
      · cases h
      · next agent _ =>
          cases h
          exact respond_floor (colluderPositions agent) v proc (some (deadlineNs v claim proc))

/-- The loop over verifiers that all get an answer writes down each answer, and leaves the other
entries as they are. -/
theorem sessionLoop_measures (rtt : String → Int) (vids : List String)
    (hvids : ∀ vid ∈ vids, ∃ v answer, verifiers.lookup vid = some v ∧
      sessionAnswer role proc claim vid v = .ok answer ∧ answer.rtt = rtt vid)
    (m : VerifierDict Int) (agents : VerifierDict (Colluder × Pos)) :
    ∃ r, sessionLoop role proc claim verifiers vids m agents = .ok r ∧
      ∀ vid, r.1.lookup vid = if vid ∈ vids then some (rtt vid) else m.lookup vid := by
  induction vids generalizing m agents with
  | nil => exact ⟨_, rfl, by simp⟩
  | cons vid vids ih =>
      obtain ⟨v, answer, hv, hanswer, hrtt⟩ := hvids vid List.mem_cons_self
      have hfloor := sessionAnswer_floor hanswer
      simp only [sessionLoop, hv, hanswer, ge_iff_le, hfloor, if_true]
      obtain ⟨r, hr, hlookup⟩ := ih (fun x hx => hvids x (List.mem_cons_of_mem _ hx))
        (m.insert vid answer.rtt) _
      refine ⟨r, hr, fun x => ?_⟩
      rw [hlookup x]
      by_cases hx : x = vid
      · subst hx
        simp [hrtt]
      · simp [hx]

/-- **A session measures what its role answers.** -/
theorem runSession_measures (sha256Hex : String → String) (seed : String) (rtt : String → Int)
    (hanswers : ∀ vid v, verifiers.lookup vid = some v → ∃ answer,
      sessionAnswer role proc claim vid v = .ok answer ∧ answer.rtt = rtt vid) :
    ∃ s, runSession sha256Hex role proc claim (some verifiers) seed = .ok s ∧
      ∀ vid v, verifiers.lookup vid = some v → s.measurements.lookup vid = some (rtt vid) := by
  have hvids : ∀ vid ∈ sortedVids verifiers, ∃ v answer, verifiers.lookup vid = some v ∧
      sessionAnswer role proc claim vid v = .ok answer ∧ answer.rtt = rtt vid := by
    intro vid hvid
    obtain ⟨v, hv⟩ := Finmap.mem_iff.mp (mem_sortedVids.mp hvid)
    obtain ⟨answer, hanswer⟩ := hanswers vid v hv
    exact ⟨v, answer, hv, hanswer⟩
  obtain ⟨⟨m, agents⟩, hloop, hlookup⟩ := sessionLoop_measures rtt _ hvids ∅ ∅
  unfold runSession
  simp only [Option.getD_some, hloop]
  refine ⟨_, rfl, fun vid v hv => ?_⟩
  show m.lookup vid = some (rtt vid)
  rw [hlookup, if_pos (mem_sortedVids.mpr (Finmap.mem_iff.mpr ⟨v, hv⟩))]

/-! ## The bound -/

/-- The answer from the claimed position, without delay, is at the deadline. -/
theorem honest_admitted (proc : Int) (claim v : Pos) :
    (rttBoundWitness (respond claim v proc none) proc v claim).verdict = .admitted := by
  rw [rttBoundWitness_admitted_iff]
  have hround := minRoundTripNs_le_two_mul v claim
  simp only [respond]
  omega

/-- Delaying to the deadline helps exactly those that are not farther than the claim. -/
theorem delayed_admitted_iff (proc : Int) (claim v a : Pos) :
    (rttBoundWitness (respond a v proc (some (deadlineNs v claim proc))) proc v claim).verdict =
        .admitted ↔
      minLightTimeNs v a ≤ minLightTimeNs v claim := by
  rw [rttBoundWitness_admitted_iff]
  have hround := minRoundTripNs_le_two_mul v claim
  simp only [respond, deadlineNs]
  omega

/-- The decoy cannot make the deadline of the third verifier. -/
example : ¬ minLightTimeNs ⟨0, 20000000000000, 0⟩ decoyPos ≤
    minLightTimeNs ⟨0, 20000000000000, 0⟩ pClaim := by decide +kernel

/-- An honest session is accepted by all verifiers together. -/
theorem honest_session_accepted (sha256Hex : String → String) (seed : String) (proc : Int)
    (claim : Pos) (verifiers : VerifierDict Pos) :
    ∃ s, runSession sha256Hex .honest proc claim (some verifiers) seed = .ok s ∧
      Multilaterates s.measurements proc claim verifiers := by
  obtain ⟨s, hs, hmeasured⟩ := @runSession_measures .honest proc claim verifiers sha256Hex seed
    (fun vid => (verifiers.lookup vid).elim 0 fun v => respond claim v proc none)
    (fun vid v hv => ⟨_, rfl, by simp [hv]⟩)
  refine ⟨s, hs, multilateration_admitted_iff.mpr fun vid v hv => ?_⟩
  refine ⟨_, hmeasured vid v hv, ?_⟩
  simpa [hv] using honest_admitted proc claim v

/-- What a prover at `p` that spends at least `proc` does with a verifier at `v`: it hears the
challenge, works, answers, and the verifier times the round trip. -/
def AnswersFrom (p v : Pos) (proc rtt : Int) : Prop :=
  ∃ tc t1 t2 tr : Int, causallyAdmissible tc v t1 p = true ∧ t1 + proc ≤ t2 ∧
    causallyAdmissible t2 p tr v = true ∧ rtt = tr - tc

/-- A verifier that admits an answer from `p` is no farther from it than from the claim. -/
theorem AnswersFrom.bound {p v : Pos} {proc rtt : Int} (h : AnswersFrom p v proc rtt)
    (hadm : (rttBoundWitness rtt proc v claim).verdict = .admitted) :
    minLightTimeNs v p ≤ minLightTimeNs v claim := by
  obtain ⟨tc, t1, t2, tr, hthere, hworks, hback, rfl⟩ := h
  have hdeadline := (rttBoundWitness_admitted_iff.mp hadm).2
  have hbound : (minLightTimeNs v p : Int) ≤ minLightTimeNs v claim := by
    apply minLightTimeNs_le_of_roundTrip (causallyAdmissible_iff_reaches.mp hthere) _
      (causallyAdmissible_iff_reaches.mp hback) hdeadline
    exact_mod_cast hworks
  omega

/-- **Distance bounding is complete, exact and sound against relocation.** -/
theorem distance_bounding (sha256Hex : String → String) (seed : String)
    (verifiers : VerifierDict Pos) (claim : Pos) (proc : Int) :
    -- an honest prover at the claim
    ((∀ vid v, verifiers.lookup vid = some v →
        (rttBoundWitness (respond claim v proc none) proc v claim).verdict = .admitted) ∧
      ∃ s, runSession sha256Hex .honest proc claim (some verifiers) seed = .ok s ∧
        Multilaterates s.measurements proc claim verifiers) ∧
    -- the window of one verifier
    (∀ vid v, verifiers.lookup vid = some v → ∀ rtt,
      (rttBoundWitness rtt proc v claim).verdict = .admitted ↔
        (minRoundTripNs v claim : Int) ≤ rtt - proc ∧
          rtt - proc ≤ 2 * (minLightTimeNs v claim : Int)) ∧
    -- an agent that delays to the deadline
    (∀ vid v, verifiers.lookup vid = some v → ∀ a,
      (rttBoundWitness (respond a v proc (some (deadlineNs v claim proc))) proc v claim).verdict =
          .admitted ↔
        minLightTimeNs v a ≤ minLightTimeNs v claim) ∧
    -- any single prover
    ∀ (measurements : VerifierDict Int) (p : Pos),
      (∀ vid v rtt, verifiers.lookup vid = some v → measurements.lookup vid = some rtt →
        AnswersFrom p v proc rtt) →
      Multilaterates measurements proc claim verifiers →
      ∀ vid v, verifiers.lookup vid = some v → minLightTimeNs v p ≤ minLightTimeNs v claim := by
  refine ⟨⟨fun _ v _ => honest_admitted proc claim v,
    honest_session_accepted sha256Hex seed proc claim verifiers⟩, ?_, ?_, ?_⟩
  · intro vid v _ rtt
    exact rttBoundWitness_admitted_iff
  · intro vid v _ a
    exact delayed_admitted_iff proc claim v a
  · intro measurements p hanswers hadm vid v hv
    obtain ⟨rtt, hrtt, hverdict⟩ := multilateration_admitted_iff.mp hadm vid v hv
    exact (hanswers vid v rtt hv hrtt).bound hverdict

end HorizonProtocol.Attestation
