import HorizonProtocol.Digests
import HorizonProtocol.RedTeam.Timing

/-!
# Replayed and skewed captures

The attacks of `redteam/attacks.py` on signed captures. One reuses a signed receipt with another
body under its MAC. The other has arrivals that are impossible, and looks for a way to have them
admitted: by the medium it declares, and by another place of emission for receipts that were signed.

* `always_attackH8ReplayFuzz`, `always_attackH8BoundarySkewFuzz` — neither gets through.
-/

namespace HorizonProtocol.RedTeam

open Attestation Attestation.Capture Digests Sampling

inductive CaptureAttackError where
  /-- `AssertionError`, of a receipt that should verify. -/
  | assertion
  /-- `IndexError`, of a result without receipts. -/
  | indexError

variable {σ Key : Type} (g : Generator σ) (sha256 : List Char → String) (mac : Mac Key)
  (nodeKey : String → Key)

/-! ## Replay -/

/-- The one receipt that is legitimate. -/
def goodReceipt : SignedReceipt String String String String :=
  sign nodeKey (captureMac mac)
    { nodeId := "nodeA", nodePosNm := ⟨0, 0, 0⟩, eventHash := "EVENT-1", recvTimeNs := 1000000
      tier := "NTP" }

inductive BodyField where
  | eventHash
  | recvTimeNs
  | nodeId
  | nodePosNm
  | tier
  deriving DecidableEq

def bodyFields : List BodyField := [.eventHash, .recvTimeNs, .nodeId, .nodePosNm, .tier]

/-- The body with another value in a field. -/
def mutateBody (i : Nat) (field : BodyField) (body : Body String String String) :
    Draws σ CaptureAttackError (Body String String String) :=
  match field with
  | .eventHash => pure { body with eventHash := "EVENT-" ++ toString i ++ "-mutated" }
  | .recvTimeNs => do
      let by_ ← randint g 1 (10 ^ 9)
      pure { body with recvTimeNs := body.recvTimeNs + by_ }
  | .nodeId => pure { body with nodeId := "nodeB-" ++ toString i }
  | .nodePosNm => do
      let x ← randint g 1 (10 ^ 9)
      pure { body with nodePosNm := ⟨x, 0, 0⟩ }
  | .tier => do
      let tier ← choice g ["PTP", "GNSS"]
      pure { body with tier }

structure ReplayBypass where
  trial : Nat
  mutatedField : BodyField

def replayTrial (i : Nat) : Draws σ CaptureAttackError (List ReplayBypass) := do
  let good := goodReceipt mac nodeKey
  let field ← choice g bodyFields
  let body ← mutateBody g i field good.body
  let r := { good with body }
  if r = good then pure []
  else if verifySigned nodeKey (captureMac mac) r then pure [{ trial := i, mutatedField := field }]
  else pure []

def attackH8ReplayFuzz (n : Nat := 1000) : Draws σ CaptureAttackError (Report ReplayBypass) :=
  if verifySigned nodeKey (captureMac mac) (goodReceipt mac nodeKey) then
    report "h8_replay_fuzz" n (trials n (replayTrial g mac nodeKey))
  else raise .assertion

variable {g mac}

theorem always_replayTrial (hmac : mac.CollisionFree) (i : Nat) :
    Always (replayTrial g mac nodeKey i) fun found => found = [] := by
  refine always_bind (always_choice (by decide) fun field _ => ?_)
  -- whatever the body is, it verifies only if it is the one that was signed
  have hbody : ∀ body, Always (if { goodReceipt mac nodeKey with body } = goodReceipt mac nodeKey
      then pure [] else if verifySigned nodeKey (captureMac mac) { goodReceipt mac nodeKey with body }
        then pure [⟨i, field⟩] else pure [] :
          Draws σ CaptureAttackError (List ReplayBypass)) fun found => found = [] := by
    intro body
    refine always_ite (fun _ => always_pure rfl) fun hne => ?_
    refine always_ite (fun hverify => ?_) fun _ => always_pure rfl
    have hsame : body = (goodReceipt mac nodeKey).body :=
      captureMac_inj hmac (of_decide_eq_true hverify)
    exact absurd (by rw [hsame]) hne
  apply always_bind
  cases field with
  | eventHash => exact always_pure (hbody _)
  | recvTimeNs => exact always_bind (always_randint (by decide) fun _ _ _ => always_pure (hbody _))
  | nodeId => exact always_pure (hbody _)
  | nodePosNm => exact always_bind (always_randint (by decide) fun _ _ _ => always_pure (hbody _))
  | tier => exact always_bind (always_choice (by decide) fun _ _ => always_pure (hbody _))

theorem always_attackH8ReplayFuzz (hmac : mac.CollisionFree) (n : Nat) :
    Always (attackH8ReplayFuzz g mac nodeKey n) (Clean "h8_replay_fuzz" n) := by
  refine always_ite (fun _ => ?_) fun h => absurd (verifySigned_sign _ _ _) h
  exact always_report (always_trials fun i _ => always_replayTrial nodeKey hmac i)

/-! ## Skewed boundaries -/

inductive SkewVector where
  | classifyCEffParam
  | captureDeclaredCEff
  | unboundEmissionClaim
  deriving DecidableEq

structure SkewBypass where
  trial : Nat
  vector : SkewVector
  verdict : ArrivalVerdict
  gate : Option NodeGate := none

/-- The gate that the witness of an outcome names. -/
def gateOf {Tier : Type} : NodeOutcome Tier → Option NodeGate
  | .refused gate => some gate
  | .classified _ _ => none

/-- `res["per_receipt"][0]`. -/
def firstOutcome (res : CaptureResult String String String String) :
    Except CaptureAttackError (NodeOutcome String) :=
  match res.perReceipt with
  | [] => .error .indexError
  | p :: _ => .ok p.2

variable (g mac)

/-- The receipt of the only node, for an emission at a place. -/
def skewReceipt (p0 p1 : Pos) (recv : Int) : SignedReceipt String String String String :=
  sign nodeKey (captureMac mac)
    { nodeId := "node", nodePosNm := p1, eventHash := boundEventHash sha256 ⟨"evt", 0, p0⟩
      recvTimeNs := recv, tier := "NTP" }

/-- The verifier on a capture of one receipt, with a claimed place of emission and medium. -/
def verifySkewed (claimedPos p1 : Pos) (u : Int) (cEff : Int × Int)
    (receipt : SignedReceipt String String String String) :
    CaptureResult String String String String :=
  verifyCapture nodeKey (captureMac mac) (boundEventHash sha256)
    { capture :=
        { payloadHash := "evt", t0Ns := 0, p0Nm := claimedPos, cEff? := some cEff
          receipts := [receipt] }
      registry := fun nid => if nid = "node" then some ⟨p1, u, "NTP"⟩ else none }

def skewTrial (i : Nat) : Draws σ CaptureAttackError (List SkewBypass) := do
  let d ← randint g 1 2000000
  let p0 : Pos := ⟨0, 0, 0⟩
  let y ← randint g 0 (10 ^ 6)
  let z ← randint g 0 (10 ^ 6)
  let p1 : Pos := ⟨d * 1000000000, y, z⟩
  let vac := minLightTimeNs p0 p1
  let u ← randint g 0 (10 ^ 7)
  -- more than the uncertainty below the vacuum floor
  let below ← randint g 1 (10 ^ 6)
  let recv := max 0 (vac - u - below)
  let evilNum ← randint g (10 ^ 6) (10 ^ 9)
  let res := classify 0 p0 recv p1 u evilNum.toNat.toPNat' 1
  let receipt := skewReceipt sha256 mac nodeKey p0 p1 recv
  let declared ← ofExcept (firstOutcome
    (verifySkewed sha256 mac nodeKey p0 p1 u (evilNum, 1) receipt))
  let unbound ← ofExcept (firstOutcome
    (verifySkewed sha256 mac nodeKey p1 p1 u (3, 5) receipt))
  pure ((if res.verdict = .admitted then
      [{ trial := i, vector := .classifyCEffParam, verdict := res.verdict }] else []) ++
    (if declared.verdict = .admitted then
      [{ trial := i, vector := .captureDeclaredCEff, verdict := declared.verdict }] else []) ++
    (if unbound.verdict ≠ .rejected ∨ gateOf unbound ≠ some .eventBinding then
      [{ trial := i, vector := .unboundEmissionClaim, verdict := unbound.verdict
         gate := gateOf unbound }] else []))

def attackH8BoundarySkewFuzz (n : Nat := 1000) :
    Draws σ CaptureAttackError (Report SkewBypass) :=
  report "h8_boundary_skew_fuzz" n (trials n (skewTrial g sha256 mac nodeKey))

/-! ### No way around the floor -/

/-- A medium no slower than half the speed of light has its floor at twice the vacuum floor. -/
theorem minTransitTimeNsEff_le_two_mul (p0 p1 : Pos) {num den : ℕ+} (h : (den : Nat) ≤ 2 * num) :
    minTransitTimeNsEff p0 p1 num den ≤ 2 * minLightTimeNs p0 p1 := by
  have hc : 0 < cNmPerNs.toNat := by decide
  have hvac := (LeastTime.leastTime_le_iff hc (minLightTimeNs p0 p1)).mp
    (le_refl (LeastTime.leastTime cNmPerNs.toNat (dist2 p0 p1).toNat))
  rw [minTransitTimeNsEff, LeastTime.leastTime_le_iff (Nat.mul_pos hc num.pos)]
  calc den * den * (dist2 p0 p1).toNat
      ≤ (2 * num) * (2 * num) * (cNmPerNs.toNat * minLightTimeNs p0 p1) ^ 2 :=
        Nat.mul_le_mul (Nat.mul_le_mul h h) hvac
    _ = (cNmPerNs.toNat * num * (2 * minLightTimeNs p0 p1)) ^ 2 := by ring

/-- An arrival that is as early as it can be below the vacuum floor. Its time does not get below
zero, and then it is in doubt. -/
theorem classify_skewed {p0 p1 : Pos} {u below : Int} {num den : ℕ+} (hu : 0 ≤ u)
    (hbelow : 1 ≤ below) (h : (den : Nat) ≤ 2 * num) :
    (classify 0 p0 (max 0 (minLightTimeNs p0 p1 - u - below)) p1 u num den).verdict ≠
      .admitted := by
  intro hadmitted
  have hfloor := minTransitTimeNsEff_le_two_mul p0 p1 h
  obtain ⟨hle, hfar⟩ := classify_admitted_iff.mp hadmitted
  have hclamped : minLightTimeNs p0 p1 - u - below ≤ 0 := by
    by_contra hpos
    rw [max_eq_right (by omega)] at hle
    omega
  rw [max_eq_left hclamped] at hle hfar
  rcases lt_abs.mp hfar with habove | hunder
  · omega
  · omega

variable {g sha256 mac}

/-- One receipt, at the first gate it does not pass or at its classification. -/
theorem firstOutcome_verifySkewed (claimedPos p1 : Pos) (u : Int) (cEff : Int × Int)
    (receipt : SignedReceipt String String String String) :
    firstOutcome (verifySkewed sha256 mac nodeKey claimedPos p1 u cEff receipt) =
      .ok (verifyNode nodeKey (captureMac mac) (boundEventHash sha256)
        (fun nid => if nid = "node" then some ⟨p1, u, "NTP"⟩ else none) cEffNum cEffDen
        ⟨"evt", 0, claimedPos⟩ receipt) := by
  rw [verifySkewed, verifyCapture_eq_of_proper]
  · rfl
  · exact ⟨List.cons_ne_nil _ _, List.nodup_singleton _, nofun⟩

/-- The medium that is declared is not looked at. -/
theorem firstOutcome_declared (p0 p1 : Pos) (u recv : Int) (cEff : Int × Int) :
    firstOutcome (verifySkewed sha256 mac nodeKey p0 p1 u cEff
        (skewReceipt sha256 mac nodeKey p0 p1 recv)) =
      .ok (.classified "NTP" (classify 0 p0 recv p1 u cEffNum cEffDen)) := by
  have hverify := verifySigned_sign nodeKey (captureMac mac)
    ⟨"node", p1, boundEventHash sha256 ⟨"evt", 0, p0⟩, recv, "NTP", none⟩
  rw [firstOutcome_verifySkewed]
  simp only [verifyNode, skewReceipt, hverify]
  simp [sign]

/-- A place of emission that the signature does not cover is refused. -/
theorem firstOutcome_unbound (hsha : Function.Injective sha256) {p0 p1 : Pos} (hne : p0 ≠ p1)
    (u recv : Int) (cEff : Int × Int) :
    firstOutcome (verifySkewed sha256 mac nodeKey p1 p1 u cEff
        (skewReceipt sha256 mac nodeKey p0 p1 recv)) = .ok (.refused .eventBinding) := by
  have hverify := verifySigned_sign nodeKey (captureMac mac)
    ⟨"node", p1, boundEventHash sha256 ⟨"evt", 0, p0⟩, recv, "NTP", none⟩
  have hhash : boundEventHash sha256 ⟨"evt", 0, p0⟩ ≠ boundEventHash sha256 ⟨"evt", 0, p1⟩ := by
    intro heq
    exact hne (congrArg BoundClaim.p0Nm (boundEventHash_injective hsha heq))
  rw [firstOutcome_verifySkewed]
  simp only [verifyNode, skewReceipt, hverify]
  simp [sign, hhash]

theorem always_skewTrial (hsha : Function.Injective sha256) (i : Nat) :
    Always (skewTrial g sha256 mac nodeKey i) fun found => found = [] := by
  refine always_bind (always_randint (by decide) fun d hd _ => ?_)
  refine always_bind (always_randint (by decide) fun y _ _ => ?_)
  refine always_bind (always_randint (by decide) fun z _ _ => ?_)
  refine always_bind (always_randint (by decide) fun u hu _ => ?_)
  refine always_bind (always_randint (by decide) fun below hbelow _ => ?_)
  refine always_bind (always_randint (by decide) fun evilNum hevil _ => ?_)
  have hne : (⟨0, 0, 0⟩ : Pos) ≠ ⟨d * 1000000000, y, z⟩ := by
    intro heq
    have hx := congrArg Pos.x heq
    dsimp only at hx
    omega
  have hslow : ((1 : ℕ+) : Nat) ≤ 2 * (evilNum.toNat.toPNat' : Nat) := by
    have hpos := evilNum.toNat.toPNat'.pos
    rw [PNat.one_coe]
    omega
  refine always_bind (always_ofExcept (firstOutcome_declared nodeKey _ _ _ _ _) ?_)
  refine always_bind (always_ofExcept (firstOutcome_unbound nodeKey hsha hne _ _ _) ?_)
  have hevil' := @classify_skewed ⟨0, 0, 0⟩ ⟨d * 1000000000, y, z⟩ u below _ 1 hu hbelow hslow
  have htrusted := @classify_skewed ⟨0, 0, 0⟩ ⟨d * 1000000000, y, z⟩ u below cEffNum cEffDen hu
    hbelow (by decide)
  apply always_pure
  simp [NodeOutcome.verdict, gateOf, hevil', htrusted]

theorem always_attackH8BoundarySkewFuzz (hsha : Function.Injective sha256) (n : Nat) :
    Always (attackH8BoundarySkewFuzz g sha256 mac nodeKey n) (Clean "h8_boundary_skew_fuzz" n) :=
  always_report (always_trials fun i _ => always_skewTrial nodeKey hsha i)

end HorizonProtocol.RedTeam
