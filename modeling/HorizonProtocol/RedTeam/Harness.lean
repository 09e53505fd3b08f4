import HorizonProtocol.RedTeam.Captures
import HorizonProtocol.RedTeam.Forgery
import HorizonProtocol.RedTeam.Ledgers

/-!
# The red team

`run_all` of `redteam/attacks.py`: every attack in its turn, with one generator that is seeded once.

* `redTeam_finds_nothing` — no seed and no generator gives a report with a bypass.
-/

namespace HorizonProtocol.RedTeam

open Attestation Digests Sampling

/-- What an attack may raise. -/
inductive AttackError where
  | forgery (e : ForgeryError)
  | capture (e : CaptureAttackError)
  | ledger (e : LedgerError String)

/-- What an attack may find. -/
inductive Bypass where
  | timing (b : TimingBypass)
  | boundary (b : BoundaryBypass)
  | forgery (b : ForgeryBypass)
  | measured (b : MeasuredBypass)
  | cycle (b : CycleBypass)
  | replay (b : ReplayBypass)
  | skew (b : SkewBypass)
  | scenario (b : ScenarioBypass)
  | conflation (b : ConflationBypass)

def Report.map {β γ : Type} (f : β → γ) (r : Report β) : Report γ where
  attack := r.attack
  trials := r.trials
  bypasses := r.bypasses.map f

/-- What the attacks are made with: the digests, the keys of stations and nodes, the seeded digest
of an id, and the nodes of the registry over real geography with the metadata of its frame. -/
structure Arena (Key : Type) where
  sha256 : List Char → String
  mac : Mac Key
  demoKey : String → Key
  nodeKey : String → Key
  digest : String → String → Nat
  nodes : NodeTable String
  geoFrame : String

variable {σ Key : Type}

def attacks (g : Generator σ) (w : Arena Key) : Draws σ AttackError (List (Report Bypass)) := do
  let timing ← attackTimingFuzz g
  let boundary ← attackBoundaryFuzz g
  let forgery ← mapError .forgery (attackForgeryFuzz g w.sha256 w.mac w.demoKey)
  let measured ← mapError .forgery (attackMeasuredCertificateForgeryFuzz g w.sha256 w.mac w.demoKey
    w.digest w.nodes w.geoFrame)
  let cycle ← mapError .ledger (attackLedgerCycleFuzz g)
  let replay ← mapError .capture (attackH8ReplayFuzz g w.mac w.nodeKey)
  let skew ← mapError .capture (attackH8BoundarySkewFuzz g w.sha256 w.mac w.nodeKey)
  let scenario ← mapError .ledger (ofExcept attackLedgerNamedScenarios)
  let conflation ← mapError .ledger (attackEdgeClaimForgeryFuzz g)
  pure [timing.map .timing, boundary.map .boundary, forgery.map .forgery, measured.map .measured,
    cycle.map .cycle, replay.map .replay, skew.map .skew, scenario.map .scenario,
    conflation.map .conflation]

/-- `random.Random(seed)` is the state that the generator starts in. -/
def runAll (g : Generator σ) (start : String → σ) (w : Arena Key) (seed : String) :
    Except (DrawError AttackError) (List (Report Bypass)) :=
  ((attacks g w).run (start seed)).map Prod.fst

/-- The figures of the certificate over all reports. -/
def totalTrials (reports : List (Report Bypass)) : Nat := (reports.map Report.trials).sum

def totalBypasses (reports : List (Report Bypass)) : Nat :=
  (reports.map fun r => r.bypasses.length).sum

/-! ## What the red team finds -/

/-- The digests do not collide, and there are nodes to attack: the one that emits and another. -/
structure Arena.Sound (w : Arena Key) : Prop where
  sha256 : Function.Injective w.sha256
  mac : w.mac.CollisionFree
  emits : "us-east-1" ∈ w.nodes.entries.map Prod.fst
  two : 2 ≤ w.nodes.entries.length

/-- **The red team finds nothing.** Whatever the seed and whatever generator is seeded, every attack
is made to its end, and no report has a bypass. -/
theorem redTeam_finds_nothing (g : Generator σ) (start : String → σ) {w : Arena Key} (hw : w.Sound)
    (seed : String) :
    ∃ reports, runAll g start w seed = .ok reports ∧
      reports.length = 9 ∧ totalTrials reports = 15003 ∧ totalBypasses reports = 0 := by
  have hattacks : Always (attacks g w) fun reports =>
      reports.length = 9 ∧ totalTrials reports = 15003 ∧ totalBypasses reports = 0 := by
    refine always_bind ((always_attackTimingFuzz _).mono fun timing htiming => ?_)
    refine always_bind ((always_attackBoundaryFuzz _).mono fun boundary hboundary => ?_)
    refine always_bind ((always_mapError (always_attackForgeryFuzz hw.mac _ _ _)).mono
      fun forgery hforgery => ?_)
    refine always_bind ((always_mapError (always_attackMeasuredCertificateForgeryFuzz hw.mac _ _ _
      hw.emits hw.two _ _)).mono fun measured hmeasured => ?_)
    refine always_bind ((always_mapError (always_attackLedgerCycleFuzz _)).mono
      fun cycle hcycle => ?_)
    refine always_bind ((always_mapError (always_attackH8ReplayFuzz _ hw.mac _)).mono
      fun replay hreplay => ?_)
    refine always_bind ((always_mapError (always_attackH8BoundarySkewFuzz _ hw.sha256 _)).mono
      fun skew hskew => ?_)
    refine always_bind (always_mapError (always_ofExcept attackLedgerNamedScenarios_eq ?_))
    refine always_bind ((always_mapError (always_attackEdgeClaimForgeryFuzz _)).mono
      fun conflation hconflation => ?_)
    apply always_pure
    rw [htiming, hboundary, hforgery, hmeasured, hcycle, hreplay, hskew, hconflation]
    exact ⟨rfl, rfl, rfl⟩
  obtain ⟨reports, s', hrun, hreports⟩ := hattacks (start seed)
  exact ⟨reports, by rw [runAll, hrun]; rfl, hreports⟩

/-- Digests that show the text, two of the regions, and a generator that counts. -/
def openArena : Arena String where
  sha256 := String.ofList
  mac :=
    { digest := fun _ text => 0 :: (String.ofList text).toByteArray.data.toList
      digest_ne := fun _ _ => List.cons_ne_nil _ _ }
  demoKey := id
  nodeKey := id
  digest := fun _ _ => 7
  nodes :=
    { entries :=
        [("us-east-1", ⟨⟨0, 0, 0⟩, 5000000⟩),
          ("us-west-2", ⟨⟨-3442312000000000, 1084911000000000, -1019800000000⟩, 5000000⟩)]
      nodup := by decide }
  geoFrame := "null"

def counting : Generator Nat where
  below n s := (s % n, s + 1)
  below_lt s hn := Nat.mod_lt s hn

theorem redTeam_finds_nothing_counting :
    ∃ reports, runAll counting String.length openArena "REDTEAM-FROZEN-SEED-v1" = .ok reports ∧
      totalBypasses reports = 0 := by
  have hsound : openArena.Sound :=
    { sha256 := fun _ _ h => String.ofList_inj.mp h
      mac := by
        intro key key' text text' h
        have hbytes := Array.toList_inj.mp (List.cons.inj h).2
        exact String.ofList_inj.mp (String.toByteArray_inj.mp (ByteArray.ext hbytes))
      emits := by decide
      two := by decide }
  obtain ⟨reports, hrun, -, -, hnone⟩ :=
    redTeam_finds_nothing counting String.length hsound "REDTEAM-FROZEN-SEED-v1"
  exact ⟨reports, hrun, hnone⟩

end HorizonProtocol.RedTeam
