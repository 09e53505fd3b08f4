import HorizonProtocol.Benchmark.CausalStoreThreads
import HorizonProtocol.Benchmark.Labels
import HorizonProtocol.Benchmark.ThreadedAdapters
import Mathlib.Data.List.Sort

/-!
# The report and the local sweep

`benchmark_harness/report.py`, and `_local_sweep` of `scripts/run_harness_local.py`: a trace for each
contention ratio, through two adapters, checked, and put together into curves. Rates, throughput,
latencies and the counters of the adapters are floating-point or timing, and not modelled.

* `buildReport_curve` — a curve has all points of a system, by their ratio.
* `sweep_never_void` — no schedule of a local sweep makes a void point.
-/

namespace HorizonProtocol.Benchmark

/-! ## Reports -/

inductive PointStatus where
  | ok
  | voidCorrectnessViolation
  deriving DecidableEq

/-- The `"correctness"` of a point. -/
structure Correctness where
  ok : Bool
  checkedEdges : Nat
  violationCount : Nat

structure Point where
  system : String
  contentionRatio : ℚ
  nOps : Nat
  correctness : Correctness
  status : PointStatus

/-- `build_point`. -/
def buildPoint (system : String) (contentionRatio : ℚ) (opResults : List OpResult)
    (orderVerdict : OrderVerdict Nat) : Point where
  system := system
  contentionRatio := contentionRatio
  nOps := opResults.length
  correctness :=
    { ok := orderVerdict.ok
      checkedEdges := orderVerdict.checkedEdges
      violationCount := orderVerdict.violations.length }
  status := if orderVerdict.ok then .ok else .voidCorrectnessViolation

structure Report where
  curves : List (String × List Point)
  anyVoidPoints : Bool

/-- `by_system.setdefault(p["system"], []).append(p)`, for each point. -/
def bySystem (points : List Point) : List (String × List Point) :=
  points.foldl (fun d p => Dict.set d p.system ((Dict.get? d p.system).getD [] ++ [p])) []

/-- `pts.sort(key=lambda p: p["contention_ratio"])`, which is stable. -/
def sortByRatio (points : List Point) : List Point :=
  points.insertionSort fun p q => p.contentionRatio ≤ q.contentionRatio

/-- `build_report`. -/
def buildReport (points : List Point) : Report where
  curves := (bySystem points).map fun c => (c.1, sortByRatio c.2)
  anyVoidPoints := points.any fun p => p.status ≠ .ok

section Reports

variable {points : List Point} {system : String}

theorem get?_bySystem :
    Dict.get? (bySystem points) system =
      if points.filter (·.system = system) = [] then none
      else some (points.filter (·.system = system)) := by
  induction points using List.reverseRecOn with
  | nil => rfl
  | append_singleton points p ih =>
      have hset : bySystem (points ++ [p]) = Dict.set (bySystem points) p.system
          ((Dict.get? (bySystem points) p.system).getD [] ++ [p]) := by
        rw [bySystem, List.foldl_append]
        rfl
      rw [hset, Dict.get?_set, List.filter_append]
      split
      · next heq =>
          subst heq
          rw [ih]
          split
          · next hnil => simp [hnil]
          · simp
      · next hne =>
          rw [ih]
          simp [Ne.symm hne]

/-- **A curve has the points of its system, in the order of their ratio**, and there is one for every
system that has a point. -/
theorem buildReport_curve (points : List Point) (system : String) :
    (Dict.get? (buildReport points).curves system = none ↔ ∀ p ∈ points, p.system ≠ system) ∧
    ∀ pts, Dict.get? (buildReport points).curves system = some pts →
      pts.Perm (points.filter (·.system = system)) ∧
        pts.Pairwise fun p q => p.contentionRatio ≤ q.contentionRatio := by
  have hcurve : Dict.get? (buildReport points).curves system =
      (Dict.get? (bySystem points) system).map sortByRatio :=
    Dict.get?_map_snd _ _ _
  rw [hcurve, get?_bySystem]
  split
  · next hnil =>
      refine ⟨iff_of_true rfl fun p hp heq => ?_, nofun⟩
      have hmem : p ∈ points.filter (·.system = system) := by simpa using ⟨hp, heq⟩
      rw [hnil] at hmem
      cases hmem
  · next hne =>
      refine ⟨iff_of_false nofun fun hall => hne ?_, ?_⟩
      · rw [List.filter_eq_nil_iff]
        simpa using hall
      · rintro pts ⟨⟩
        exact ⟨List.perm_insertionSort _ _, List.pairwise_insertionSort _ _⟩

end Reports

/-! ## The local sweep -/

/-- The keys of `REGIONS_NM`. -/
inductive HarnessRegion where
  | usEast1
  | usEast2
  | usWest2
  | euWest1
  deriving DecidableEq

namespace HarnessRegion

def all : List HarnessRegion := [usEast1, usEast2, usWest2, euWest1]

/-- `REGIONS_NM`, along one axis. -/
def nm : HarnessRegion → Int
  | usEast1 => 0
  | usEast2 => cNmPerNs * 5000000
  | usWest2 => cNmPerNs * 12000000
  | euWest1 => cNmPerNs * 28000000

def position (r : HarnessRegion) : Pos := ⟨r.nm, 0, 0⟩

/-- An entry of `region_clocks`. -/
def clock (r : HarnessRegion) : RegionClock := ⟨r.position, 1000⟩

end HarnessRegion

/-- `DEFAULT_CONTENTION_SWEEP`. -/
def defaultContentionSweep : List ℚ := [0, 1 / 20, 1 / 10, 1 / 4, 1 / 2, 3 / 4, 1]

/-- The arguments of `generate_trace` in a sweep. The seed is `f"D1-HARNESS-local-{ratio}"`, which
the ratio determines. -/
def sweepArgs (contentionRatio : ℚ) : TraceArgs HarnessRegion ℚ where
  regions := HarnessRegion.all
  regionPositionsNm r := some r.position
  nKeys := 2000
  nOps := 300
  contentionRatio := contentionRatio
  seed := contentionRatio

section Sweep

variable {S L Answer : Type}
variable (digest : ℚ → BitVec 64) (perMillion : ℚ → Int)

/-- The round of the sweep for one adapter and one ratio ends, and makes no void point. -/
def NeverVoid (A : Adapter HarnessRegion S L Answer) (system : String) (ratio : ℚ) : Prop :=
  ∃ out, generateTrace digest perMillion (sweepArgs ratio) = .ok out ∧
    ∃ M, runAdapter A out.trace "closed" 8 none = .ok M ∧
      Finishes M fun rs =>
        let p := buildPoint system ratio rs (verify out.trace (commits rs))
        p.status = .ok ∧ p.nOps = 300 ∧ p.correctness.violationCount = 0

/-- A point that some schedule makes. -/
def MadePoint (A : Adapter HarnessRegion S L Answer) (system : String) (ratio : ℚ)
    (p : Point) : Prop :=
  ∃ out, generateTrace digest perMillion (sweepArgs ratio) = .ok out ∧
    ∃ M, runAdapter A out.trace "closed" 8 none = .ok M ∧
      ∃ b rs, M.Reachable b ∧ b.driver.main = .returned rs ∧
        p = buildPoint system ratio rs (verify out.trace (commits rs))

/-- The rounds of `_local_sweep`, in order: for each ratio a point of either adapter. -/
def LocalSweep (Eid : Type) (ratios : List ℚ) (rounds : List (Point × Point)) : Prop :=
  List.Forall₂ (fun ratio round =>
    MadePoint digest perMillion (causalStoreThreads Eid HarnessRegion.clock) "causal-store" ratio
      round.1 ∧
    MadePoint digest perMillion totalOrderBaseline "total-order-baseline" ratio round.2) ratios rounds

/-- `points`, as it is appended to. -/
def pointsOf (rounds : List (Point × Point)) : List Point :=
  rounds.flatMap fun round => [round.1, round.2]

variable {digest perMillion}
variable {A : Adapter HarnessRegion S L Answer} {system : String} {ratio : ℚ} {p : Point}

variable (digest perMillion) in
/-- A trace is generated for each ratio. -/
theorem sweepTrace (hratio : ratio ∈ defaultContentionSweep) :
    ∃ out, generateTrace digest perMillion (sweepArgs ratio) = .ok out ∧
      out.trace.length = 300 := by
  have hall : ∀ q ∈ defaultContentionSweep, 0 ≤ q ∧ q ≤ 1 := by decide +kernel
  have hregions : (sweepArgs ratio).regions ≠ [] := List.cons_ne_nil _ _
  obtain ⟨g, hg, hlabelling⟩ : ∃ g, (List.range 300).foldlM (emit perMillion (sweepArgs ratio))
      { rng := .make (digest ratio) } = .ok g ∧ Labelling (sweepArgs ratio) 300 g :=
    labelling_loop hregions (fun _ _ => rfl) (show (1 : Int) ≤ 1 from le_rfl) _ _
  refine ⟨⟨g.trace, g.concurrentPairs, HarnessRegion.all, 2000, ratio, ratio⟩, ?_,
    hlabelling.emitted.length⟩
  unfold generateTrace
  dsimp only
  rw [if_neg (by simp [sweepArgs, hall ratio hratio]), if_neg (by simp [sweepArgs]),
    if_neg (by simp [sweepArgs])]
  change Bind.bind (List.foldlM (emit perMillion (sweepArgs ratio))
    { rng := .make (digest ratio) } (List.range 300)) _ = _
  rw [hg]
  rfl

theorem point_ok {ops : List (Op Nat HarnessRegion)} {rs : List OpResult}
    (h : CommitOrder ops rs) :
    let p := buildPoint system ratio rs (verify ops (commits rs))
    p.status = .ok ∧ p.nOps = ops.length ∧ p.correctness.violationCount = 0 := by
  refine ⟨if_pos h.verified, ?_, ?_⟩
  · show rs.length = ops.length
    rw [← List.length_map OpResult.opId, h.ids, List.length_map]
  · exact List.length_eq_zero_iff.mpr (List.isEmpty_iff.mp h.verified)

/-- An adapter whose commit orders pass makes no void point. -/
theorem neverVoid (hratio : ratio ∈ defaultContentionSweep)
    (hA : ∀ {ops : List (Op Nat HarnessRegion)}, WellFormed ops → ∀ {M},
      runAdapter A ops "closed" 8 none = .ok M → Finishes M (CommitOrder ops)) :
    NeverVoid digest perMillion A system ratio := by
  obtain ⟨out, hout, hlen⟩ := sweepTrace digest perMillion hratio
  have hrun : runAdapter A out.trace "closed" 8 none =
      .ok (harness A out.trace .closedLoop (maxWorkers 8)) := rfl
  refine ⟨out, hout, _, hrun, (hA (generateTrace_wellFormed digest hout) hrun).mono ?_⟩
  intro rs hrs
  obtain ⟨hstatus, hn, hviolations⟩ := point_ok hrs
  exact ⟨hstatus, hn.trans hlen, hviolations⟩

theorem madePoint_ok (hA : ∀ {ops : List (Op Nat HarnessRegion)}, WellFormed ops → ∀ {M},
      runAdapter A ops "closed" 8 none = .ok M → Finishes M (CommitOrder ops))
    (h : MadePoint digest perMillion A system ratio p) :
    p.status = .ok ∧ p.system = system ∧ p.contentionRatio = ratio := by
  obtain ⟨out, hout, M, hrun, b, rs, hb, hrs, rfl⟩ := h
  have horder := (hA (generateTrace_wellFormed digest hout) hrun).answered b hb rs hrs
  exact ⟨(point_ok horder).1, rfl, rfl⟩

theorem finishes_causalStore {ops : List (Op Nat HarnessRegion)} (Eid : Type) (hops : WellFormed ops)
    {M} (hrun : runAdapter (causalStoreThreads Eid HarnessRegion.clock) ops "closed" 8 none = .ok M) :
    Finishes M (CommitOrder ops) :=
  (harness_sound causalStoreThreads_counts causalStoreThreads_live hops hrun).mono fun _ h => h.1

theorem finishes_baseline {ops : List (Op Nat HarnessRegion)} (hops : WellFormed ops) {M}
    (hrun : runAdapter totalOrderBaseline ops "closed" 8 none = .ok M) :
    Finishes M (CommitOrder ops) :=
  (harness_sound totalOrderBaseline_counts totalOrderBaseline_live hops hrun).mono fun _ h => h.1

/-- What the rounds of a sweep are. -/
structure SoundRound (ratio : ℚ) (round : Point × Point) : Prop where
  ok : round.1.status = .ok ∧ round.2.status = .ok
  systems : round.1.system = "causal-store" ∧ round.2.system = "total-order-baseline"
  ratios : round.1.contentionRatio = ratio ∧ round.2.contentionRatio = ratio

theorem LocalSweep.sound {Eid : Type} {ratios : List ℚ} {rounds : List (Point × Point)}
    (h : LocalSweep digest perMillion Eid ratios rounds) : List.Forall₂ SoundRound ratios rounds := by
  refine h.imp fun ratio round hmade => ?_
  obtain ⟨hok, hsystem, hratio⟩ := madePoint_ok (finishes_causalStore Eid) hmade.1
  obtain ⟨hok', hsystem', hratio'⟩ := madePoint_ok finishes_baseline hmade.2
  exact ⟨⟨hok, hok'⟩, ⟨hsystem, hsystem'⟩, hratio, hratio'⟩

theorem status_of_sound {ratios : List ℚ} {rounds : List (Point × Point)}
    (h : List.Forall₂ SoundRound ratios rounds) : ∀ p ∈ pointsOf rounds, p.status = .ok := by
  induction h with
  | nil => exact nofun
  | @cons ratio round ratios rounds hround _ ih =>
      intro p hp
      rcases List.mem_cons.mp hp with rfl | hp
      · exact hround.ok.1
      · rcases List.mem_cons.mp hp with rfl | hp
        · exact hround.ok.2
        · exact ih p hp

/-- Either adapter has a point for each ratio. -/
theorem ratios_of_sound {ratios : List ℚ} {rounds : List (Point × Point)}
    (h : List.Forall₂ SoundRound ratios rounds)
    (hsystem : system ∈ ["causal-store", "total-order-baseline"]) :
    ((pointsOf rounds).filter (·.system = system)).map Point.contentionRatio = ratios := by
  induction h with
  | nil => rfl
  | @cons ratio round ratios rounds hround _ ih =>
      have hpoints : pointsOf (round :: rounds) = round.1 :: round.2 :: pointsOf rounds := rfl
      rw [hpoints]
      obtain ⟨hfst, hsnd⟩ := hround.systems
      obtain ⟨hratio, hratio'⟩ := hround.ratios
      rcases List.mem_pair.mp hsystem with rfl | rfl
      · rw [List.filter_cons_of_pos (by simpa using hfst),
          List.filter_cons_of_neg (by simp [hsnd]), List.map_cons, ih, hratio]
      · rw [List.filter_cons_of_neg (by simp [hfst]),
          List.filter_cons_of_pos (by simpa using hsnd), List.map_cons, ih, hratio']

variable (digest perMillion) in
/-- **The local sweep never makes a void point.** For all digests and all schedules of the threads,
the rounds of the sweep end; the report of its points has none that is void, and for either adapter
a curve with a point at each ratio, in order. -/
theorem sweep_never_void (Eid : Type) :
    (∀ ratio ∈ defaultContentionSweep,
      NeverVoid digest perMillion (causalStoreThreads Eid HarnessRegion.clock) "causal-store" ratio ∧
      NeverVoid digest perMillion totalOrderBaseline "total-order-baseline" ratio) ∧
    ∀ rounds, LocalSweep digest perMillion Eid defaultContentionSweep rounds →
      let report := buildReport (pointsOf rounds)
      report.anyVoidPoints = false ∧
      ∀ system ∈ ["causal-store", "total-order-baseline"], ∃ pts,
        Dict.get? report.curves system = some pts ∧
          pts.map Point.contentionRatio = defaultContentionSweep := by
  refine ⟨fun ratio hratio => ⟨neverVoid hratio (finishes_causalStore Eid),
    neverVoid hratio finishes_baseline⟩, fun rounds hrounds => ?_⟩
  have hsound := hrounds.sound
  refine ⟨?_, fun system hsystem => ?_⟩
  · show (pointsOf rounds).any (fun p => decide (p.status ≠ .ok)) = false
    rw [List.any_eq_false]
    intro p hp
    simpa using status_of_sound hsound p hp
  · have hratios := ratios_of_sound hsound hsystem
    obtain ⟨hnone, hcurve⟩ := buildReport_curve (pointsOf rounds) system
    cases hget : Dict.get? (buildReport (pointsOf rounds)).curves system with
    | none =>
        have hnil : (pointsOf rounds).filter (·.system = system) = [] := by
          rw [List.filter_eq_nil_iff]
          simpa using hnone.mp hget
        rw [hnil] at hratios
        cases hratios
    | some pts =>
        obtain ⟨hperm, hsorted⟩ := hcurve pts hget
        refine ⟨pts, rfl, ?_⟩
        -- two orders of the same ratios, both ascending
        have hasc : defaultContentionSweep.Pairwise (· ≤ ·) := by decide +kernel
        have hmap := hperm.map Point.contentionRatio
        rw [hratios] at hmap
        exact hmap.eq_of_pairwise (fun a b _ _ => le_antisymm) (List.pairwise_map.mpr hsorted) hasc

end Sweep

end HorizonProtocol.Benchmark
