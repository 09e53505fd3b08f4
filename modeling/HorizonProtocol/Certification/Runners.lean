import HorizonProtocol.Certification.Validator
import HorizonProtocol.Attestation.LiveCapture
import Mathlib.Data.List.DropRight

/-!
# The scripts that write certificates

`scripts/run_*.py` and, for live captures, `scripts/verify_live.py`. A runner has its unit tests
run, some recompute a result of their own, and all write what they found together with the hashes of
the source files as they are. What the tests and the recomputations find is an argument here.

* `Runner.accepted_iff` and `accepted_liveWritten_iff` — when the validator takes such a
  certificate, on the files as they are by then.
-/

namespace HorizonProtocol.Certification

open Json (Value Str lit)
open Attestation.Capture (LiveCertificate LiveRun certify liveGates)

/-! ## Hashes of source files -/

section Hashes

variable {Content : Type} (sha256 : Content → Str) (files : List (Str × Content))

/-- The files that `os.walk` finds and the script takes, and then the files that it opens by name. A
file that is opened and not there raises. -/
def sourceHashes (walks : Str → Bool) (opened : List String) : Option (List (Str × Str)) := do
  let named ← opened.mapM fun p =>
    (Dict.get? files (lit p)).map fun content => (lit p, sha256 content)
  return Dict.ofPairs (((files.filter fun f => walks f.1).map fun f => (f.1, sha256 f.2)) ++ named)

end Hashes

/-! ## Runners -/

/-- An entry of `GATES`. -/
structure GateSpec where
  gate : String
  test : String
  soundnessTag : String
  description : String

structure Runner where
  benchmarkId : String
  program : String
  captureOrigin? : Option String := none
  certificate : String
  gates : List GateSpec
  /-- The gate whose success is recorded as the expected success of an attack. -/
  attack? : Option String := none
  /-- Whether the aggregate is of more than the gates. -/
  recomputes : Bool := false
  walked : List String
  /-- The directories that the walk passes over. -/
  skipped : List String := ["__pycache__"]
  endings : List String := [".py"]
  opened : List String := []
  tagged : ∀ g ∈ gates, g.soundnessTag ∈ validSoundnessTags := by decide
  found : isFound (lit certificate) = true := by decide
  notLive : benchmarkId ≠ "H8-LIVE" ∧ captureOrigin? ≠ some "LIVE_CAPTURE" := by decide

/-- How a run of a script goes: the unit tests, by their module, and the recomputed result. -/
structure Outcome where
  passes : String → Bool
  recomputed : Bool

namespace Runner

variable (r : Runner) (o : Outcome)

/-- The walk is over the directories below `walked` whose paths have no skipped part. -/
def walks (p : Str) : Bool :=
  let dirpath := p.rdropWhile (· ≠ Json.codePoint '/')
  (r.walked.any fun dir => (lit dir).isPrefixOf p) &&
    (r.skipped.all fun part => !(dirpath.tails.any (lit part).isPrefixOf)) &&
    r.endings.any fun e => (lit e).isSuffixOf p

def gateResult (g : GateSpec) : GateResult where
  gate := g.gate
  description := g.description
  soundnessTag := g.soundnessTag
  result :=
    if o.passes g.test then if r.attack? = some g.gate then "EXPECTED_ATTACK_SUCCESS" else "PASS"
    else "FAIL"

/-- `all_pass`, at the end. -/
def green : Bool := (r.gates.all fun g => o.passes g.test) && (!r.recomputes || o.recomputed)

/-- `main`: what is written, if nothing raises. -/
def written {Content : Type} (sha256 : Content → Str) (files : List (Str × Content)) (w : Wording) :
    Option Written := do
  let hashes ← sourceHashes sha256 files r.walks r.opened
  return { benchmarkId := r.benchmarkId, program := r.program, executionTier := "BENCHMARK"
           captureOrigin? := r.captureOrigin?, wording := w, gates := r.gates.map (r.gateResult o)
           aggregate := if r.green o then "PASS" else "FAIL", sourceHashes := hashes }

end Runner

/-- `scripts/run_h1.py`, which takes what it finds in `__pycache__` as well. -/
def runH1 : Runner where
  benchmarkId := "H1"
  program := "HorizonProtocol"
  certificate := "h1_certificate.json"
  gates :=
    [⟨"H1-A", "tests/test_h1a_geometry.py", "SOUND", "exact light-cone geometry kernel"⟩,
      ⟨"H1-B", "tests/test_h1b_receipts.py", "SOUND", "receipt authenticity round-trip"⟩,
      ⟨"H1-C", "tests/test_h1c_cone_certificate.py", "SOUND",
        "cone certificate + standalone verifier"⟩,
      ⟨"H1-D", "tests/test_h1d_ledger.py", "SOUND", "causal ledger admissibility / concurrency"⟩,
      ⟨"H1-E", "tests/test_h1e_negative_controls.py", "SOUND",
        "negative controls REJECTED with witnesses"⟩]
  walked := ["horizon/"]
  skipped := []

/-- `scripts/run_h2.py`, which recomputes the sustained isolation of its sites. -/
def runH2 : Runner where
  benchmarkId := "H2"
  program := "HorizonProtocol"
  certificate := "h2_certificate.json"
  gates :=
    [⟨"H2-A", "tests/test_h2a_algebra.py", "SOUND", "commit-sustain-reveal chain algebra"⟩,
      ⟨"H2-B", "tests/test_h2b_timing.py", "SOUND", "causal-isolation precondition (two-sided)"⟩,
      ⟨"H2-C", "tests/test_h2c_sustain.py", "SOUND", "full sustained run on schedule"⟩,
      ⟨"H2-D", "tests/test_h2d_negative.py", "SOUND",
        "negative controls REJECTED / APPARATUS_LIMITED"⟩]
  recomputes := true
  walked := ["horizon/"]

/-- `scripts/run_h3.py`. Gate H3-C shows an attack. -/
def runH3 : Runner where
  benchmarkId := "H3"
  program := "HorizonProtocol"
  certificate := "h3_certificate.json"
  gates :=
    [⟨"H3-A", "tests/test_h3a_rtt.py", "SOUND", "single-verifier RTT bounding"⟩,
      ⟨"H3-B", "tests/test_h3b_multilateration.py", "SOUND", "4-verifier multilateration"⟩,
      ⟨"H3-C", "tests/test_h3c_collusion.py", "SOUND",
        "classical collusion break demonstrated (EXPECTED_ATTACK_SUCCESS)"⟩,
      ⟨"H3-D", "tests/test_h3d_floor.py", "SOUND", "FTL floor control"⟩]
  attack? := some "H3-C"
  walked := ["horizon/"]

/-- `scripts/run_h4.py`. -/
def runH4 : Runner where
  benchmarkId := "H4"
  program := "HorizonProtocol"
  certificate := "h4_certificate.json"
  gates :=
    [⟨"H4-A", "tests/test_h4a_spacelike.py", "SOUND", "pairwise spacelike separation"⟩,
      ⟨"H4-B", "tests/test_h4b_binding.py", "SOUND",
        "block binding + cone certificates + standalone verify"⟩,
      ⟨"H4-C", "tests/test_h4c_sanity.py", "HEURISTIC",
        "byte-balance smoke test (NOT a randomness certification)"⟩,
      ⟨"H4-D", "tests/test_h4d_negative.py", "SOUND", "negative controls REJECTED with witnesses"⟩]
  walked := ["horizon/"]

/-- `scripts/run_h5.py`, which verifies two committed fixtures again. -/
def runH5 : Runner where
  benchmarkId := "H5"
  program := "HorizonProtocol"
  certificate := "h5_certificate.json"
  gates :=
    [⟨"H5-A", "tests/test_h5a_budget_gate.py", "SOUND",
        "uncertainty-budgeted gate math boundary correctness"⟩,
      ⟨"H5-B", "tests/test_h5b_replay_pass.py", "SOUND",
        "replay PASS over the committed fixture; standalone verifier"⟩,
      ⟨"H5-C", "tests/test_h5c_apparatus_limited.py", "SOUND",
        "apparatus-limited control on a marginal fixture"⟩,
      ⟨"H5-D", "tests/test_h5d_negative.py", "SOUND",
        "negative controls REJECTED / APPARATUS_LIMITED with witnesses"⟩]
  recomputes := true
  walked := ["horizon/"]

/-- `scripts/run_h6.py`, which verifies two committed fixtures again. -/
def runH6 : Runner where
  benchmarkId := "H6"
  program := "HorizonProtocol"
  certificate := "h6_certificate.json"
  gates :=
    [⟨"H6-A", "tests/test_h6a_frame.py", "HEURISTIC",
        "real geography -> exact nm lattice (quantized)"⟩,
      ⟨"H6-B", "tests/test_h6b_replay.py", "SOUND",
        "consistent fixture over real geography PASSES; verifier standalone"⟩,
      ⟨"H6-C", "tests/test_h6c_apparatus.py", "SOUND",
        "marginal fixture -> APPARATUS_LIMITED, never silent PASS"⟩,
      ⟨"H6-D", "tests/test_h6d_negative.py", "SOUND",
        "negative controls REJECTED / APPARATUS_LIMITED with witnesses"⟩]
  recomputes := true
  walked := ["horizon/"]

/-- `scripts/run_h7.py`. -/
def runH7 : Runner where
  benchmarkId := "H7"
  program := "HorizonProtocol"
  certificate := "h7_certificate.json"
  gates :=
    [⟨"H7-A", "tests/test_h7a_deepspace.py", "SOUND",
        "real Earth-Mars light-time geometry (exact)"⟩,
      ⟨"H7-B", "tests/test_h7b_latency_gate.py", "SOUND",
        "unified latency-budget gate (telemetry + attestation)"⟩,
      ⟨"H7-C", "tests/test_h7c_beq.py", "SOUND",
        "bounded-entanglement security tracker (exact fractions)"⟩,
      ⟨"H7-D", "tests/test_h7d_protocol.py", "SOUND",
        "end-to-end protocol; verifier excludes simulator"⟩,
      ⟨"H7-E", "tests/test_h7e_negative.py", "SOUND", "negative controls; qubit sim quarantined"⟩]
  walked := ["horizon/"]

/-- `scripts/run_h8.py`. -/
def runH8 : Runner where
  benchmarkId := "H8"
  program := "HorizonProtocol"
  captureOrigin? := some "MEASURED_MODEL (committed replay; live_capture.py is the real on-ramp)"
  certificate := "h8_certificate.json"
  gates :=
    [⟨"H8-A", "tests.test_h8a_capture", "SOUND",
        "signed capture round-trip + deterministic replay"⟩,
      ⟨"H8-B", "tests.test_h8b_honest", "SOUND",
        "honest capture: ADMITTED/APPARATUS_LIMITED, no spurious reject"⟩,
      ⟨"H8-C", "tests.test_h8c_spoof", "SOUND", "rogue-key spoof REJECTED at signature gate"⟩,
      ⟨"H8-D", "tests.test_h8d_tier_transition", "SOUND",
        "APPARATUS_LIMITED->ADMITTED across timing tiers"⟩,
      ⟨"H8-E", "tests.test_h8e_trust_boundary", "SOUND",
        "trust-boundary + real-fast-signal regression coverage"⟩]
  walked := ["horizon/"]
  skipped := []

/-- `scripts/run_mnx.py`. -/
def runMnx : Runner where
  benchmarkId := "MNX1"
  program := "MnemesisOS x HorizonProtocol"
  certificate := "mnx_certificate.json"
  gates :=
    [⟨"MNX-A", "tests/test_mnx_vclock.py", "SOUND", "vector-clock partial order"⟩,
      ⟨"MNX-B", "tests/test_mnx_geometric.py", "SOUND", "causal memory under light-cone ordering"⟩,
      ⟨"MNX-C", "tests/test_mnx_logical.py", "SOUND", "causal memory under vector-clock ordering"⟩,
      ⟨"MNX-D", "tests/test_mnx_bridge.py", "SOUND",
        "memory ordering matches HorizonProtocol ledger edge-for-edge"⟩]
  walked := ["mnemesis/"]

/-- `scripts/run_redteam.py`, which counts the bypasses of all attacks. -/
def runRedteam : Runner where
  benchmarkId := "RT1"
  program := "HorizonProtocol Red-Team Harness"
  certificate := "redteam_certificate.json"
  gates :=
    [⟨"RT-hygiene", "tests/test_redteam.py", "SOUND",
        "attacks hit only the public API; zero bypasses across every attack class"⟩]
  recomputes := true
  walked := ["redteam/"]

/-- `scripts/run_h9.py`, which counts the bypasses of five attacks. -/
def runH9 : Runner where
  benchmarkId := "H9"
  program := "HorizonProtocol"
  certificate := "h9_certificate.json"
  gates :=
    [⟨"H9-A", "tests.test_h9a_fuzz", "SOUND",
        "timing fuzz (reuses RT-A): zero misclassifications"⟩,
      ⟨"H9-B", "tests.test_h9b_replay", "SOUND", "H8 replay forgeries rejected"⟩,
      ⟨"H9-C", "tests.test_h9c_boundary_skew", "SOUND",
        "no impossible arrival admitted (H8 trust boundary)"⟩,
      ⟨"H9-D", "tests.test_h9d_ledger", "SOUND", "ledger refuses cycles/backward/spacelike edges"⟩,
      ⟨"H9-E", "tests.test_h9e_hygiene", "SOUND",
        "attacks use public gates only; independent oracle"⟩]
  recomputes := true
  walked := ["horizon/", "redteam/"]
  skipped := []

/-- `scripts/run_formal.py`, which lets Z3 prove five theorems. -/
def runFormal : Runner where
  benchmarkId := "C1"
  program := "HorizonProtocol"
  certificate := "formal_certificate.json"
  gates :=
    [⟨"C1-A", "formal.tests.test_kernel_proof", "SOUND", "all five theorems PROVEN by Z3"⟩,
      ⟨"C1-B", "formal.tests.test_proof_matches_code", "SOUND",
        "causally_admissible and min_light_time_ns match their proven theorems " ++
        "on a representative, honestly-non-exhaustive sample"⟩]
  recomputes := true
  walked := ["formal/"]
  endings := [".py", ".dfy"]
  opened := ["horizon/geometry.py"]

/-- `RUNNERS` of `scripts/run_all.py`. -/
def runners : List Runner :=
  [runH1, runH2, runH3, runH4, runH5, runH6, runH7, runH8, runMnx, runRedteam, runH9]

/-! ## Live captures -/

def liveOpened : List String :=
  ["horizon/capture_verify.py", "horizon/geometry.py", "horizon/measure.py",
    "horizon/signed_capture.py", "horizon/build_frame.py", "horizon/events.py"]

/-- What `scripts/verify_live.py` writes of a capture that is certified. -/
def liveWritten {Id Content : Type} (sha256 : Content → Str) (files : List (Str × Content))
    (w : Wording) (cert : LiveCertificate Id) : Option Written := do
  let hashes ← sourceHashes sha256 files (fun _ => false) liveOpened
  return { benchmarkId := "H8-LIVE", program := "HorizonProtocol", executionTier := "LIVE"
           captureOrigin? := some "LIVE_CAPTURE", wording := w
           gates := cert.gates.map fun g =>
             { gate := g.gate, description := g.description, soundnessTag := g.soundnessTag
               result := if g.passed then "PASS" else "FAIL" }
           aggregate := match cert.aggregate with
             | .pass => "PASS"
             | .apparatusLimited => "APPARATUS_LIMITED"
             | .rejected => "REJECTED"
           sourceHashes := hashes }

/-! ## What they claim -/

section Claims

variable {Content : Type} {sha256 : Content → Str} {files : List (Str × Content)}
  {walks : Str → Bool} {opened : List String} {hashes : List (Str × Str)}

theorem mem_of_mapM_eq_some {α β : Type} {f : α → Option β} {l : List α} {l' : List β}
    (h : l.mapM f = some l') {b : β} : b ∈ l' ↔ ∃ a ∈ l, f a = some b := by
  induction l generalizing l' with
  | nil =>
      cases h
      simp
  | cons a l ih =>
      rw [List.mapM_cons] at h
      cases ha : f a with
      | none =>
          rw [ha] at h
          cases h
      | some b' =>
          cases hl : l.mapM f with
          | none =>
              rw [ha, hl] at h
              cases h
          | some l'' =>
              rw [ha, hl] at h
              cases h
              simp [ha, ih hl, eq_comm]

/-- **A script hashes the files that it walks over and those that it opens**, as they are. -/
theorem mem_sourceHashes (hnodup : (files.map Prod.fst).Nodup)
    (h : sourceHashes sha256 files walks opened = some hashes) {p : Str} {digest : Str} :
    (p, digest) ∈ hashes ↔ (walks p = true ∨ p ∈ opened.map lit) ∧
      (Dict.get? files p).map sha256 = some digest := by
  unfold sourceHashes at h
  obtain ⟨named, hnamed, h⟩ := Option.bind_eq_some_iff.mp h
  cases h
  have hwalked : ∀ q : Str × Str,
      q ∈ (files.filter fun f => walks f.1).map (fun f => (f.1, sha256 f.2)) ↔
        walks q.1 = true ∧ (Dict.get? files q.1).map sha256 = some q.2 := by
    rintro ⟨k, v⟩
    rw [Option.map_eq_some_iff]
    simp only [List.mem_map, List.mem_filter, Prod.exists, Prod.mk.injEq,
      Dict.get?_eq_some hnodup]
    constructor
    · rintro ⟨k, content, ⟨hmem, hk⟩, rfl, rfl⟩
      exact ⟨hk, content, hmem, rfl⟩
    · rintro ⟨hk, content, hmem, rfl⟩
      exact ⟨k, content, ⟨hmem, hk⟩, rfl, rfl⟩
  have hopened : ∀ q : Str × Str, q ∈ named ↔
      q.1 ∈ opened.map lit ∧ (Dict.get? files q.1).map sha256 = some q.2 := by
    rintro ⟨k, v⟩
    rw [mem_of_mapM_eq_some hnamed]
    simp only [List.mem_map, Option.map_eq_some_iff, Prod.mk.injEq]
    constructor
    · rintro ⟨name, hname, content, hcontent, rfl, rfl⟩
      exact ⟨⟨name, hname, rfl⟩, content, hcontent, rfl⟩
    · rintro ⟨⟨name, hname, rfl⟩, content, hcontent, rfl⟩
      exact ⟨name, hname, content, hcontent, rfl, rfl⟩
  have hmem : ∀ q : Str × Str,
      q ∈ (files.filter fun f => walks f.1).map (fun f => (f.1, sha256 f.2)) ++ named ↔
        (walks q.1 = true ∨ q.1 ∈ opened.map lit) ∧
          (Dict.get? files q.1).map sha256 = some q.2 := by
    intro q
    rw [List.mem_append, hwalked, hopened, or_and_right]
  -- a file that is walked over and opened is hashed twice, to the same
  have hfunctional : ∀ q ∈ (files.filter fun f => walks f.1).map (fun f => (f.1, sha256 f.2)) ++
      named, q.2 = ((Dict.get? files q.1).map sha256).getD [] := by
    intro q hq
    rw [((hmem q).mp hq).2]
    rfl
  rw [Dict.mem_ofPairs_of_functional (f := fun k => ((Dict.get? files k).map sha256).getD [])
    hfunctional, hmem]

/-- A claimed path is there, and the claim is its hash. -/
theorem claims_hold_iff (hsha : Function.Injective sha256) (hnodup : (files.map Prod.fst).Nodup)
    (h : sourceHashes sha256 files walks opened = some hashes) (files' : List (Str × Content)) :
    (∀ e ∈ hashes, (Dict.get? files' e.1).map sha256 = some e.2) ↔
      ∀ p ∈ hashes.map Prod.fst, Dict.get? files' p = Dict.get? files p := by
  rw [List.forall_mem_map]
  refine forall₂_congr fun e he => ?_
  obtain ⟨-, hclaim⟩ := (mem_sourceHashes hnodup h).mp he
  rw [← hclaim]
  exact (Option.map_injective hsha).eq_iff

end Claims

namespace Runner

variable {Content : Type} {sha256 : Content → Str} {files : List (Str × Content)} {r : Runner}
  {o : Outcome} {w : Wording} {c : Written}

theorem written_spec (h : r.written o sha256 files w = some c) :
    sourceHashes sha256 files r.walks r.opened = some c.sourceHashes ∧
      (∀ g ∈ c.gates, Tagged g) ∧ (c.Approved ↔ r.green o = true) := by
  unfold written at h
  cases hhashes : sourceHashes sha256 files r.walks r.opened with
  | none =>
      rw [hhashes] at h
      cases h
  | some hashes =>
      rw [hhashes] at h
      cases h
      refine ⟨rfl, ?_, ?_⟩
      · rw [List.forall_mem_map]
        intro g hg
        refine ⟨r.tagged g hg, ?_⟩
        unfold gateResult validGateResults
        dsimp only
        split
        · split <;> decide
        · decide
      · rw [Written.Approved, if_neg]
        · cases r.green o <;> simp
        · rintro (htier | horigin | hid)
          · exact absurd (show "BENCHMARK" = "LIVE" from htier) (by decide)
          · exact r.notLive.2 horigin
          · exact r.notLive.1 hid

/-- **When a certificate of a runner is taken**: the run was green, and no file that it claims has
changed. -/
theorem accepted_iff (hsha : Function.Injective sha256) (hnodup : (files.map Prod.fst).Nodup)
    (h : r.written o sha256 files w = some c) (files' : List (Str × Content)) :
    accepted sha256 files' c.fields = true ↔ r.green o = true ∧
      ∀ p ∈ c.sourceHashes.map Prod.fst, Dict.get? files' p = Dict.get? files p := by
  obtain ⟨hhashes, htagged, hgreen⟩ := written_spec h
  rw [c.accepted_iff htagged, hgreen, claims_hold_iff hsha hnodup hhashes]

end Runner

section Live

variable {Content Payload Id Hash : Type} [LinearOrder Id] {sha256 : Content → Str}
  {files : List (Str × Content)} {w : Wording} {c : Written} {run : LiveRun Payload Id Hash}
  {cert : LiveCertificate Id}

theorem gates_of_certify (h : certify run = .ok cert) :
    cert.aggregate ≠ .rejected ∧
      ∃ (nodes : List Id) (verdicts : _) (agg : _), cert.gates = liveGates nodes verdicts agg := by
  unfold certify at h
  dsimp only at h
  by_cases hagg : run.result.aggregate = .rejected
  · rw [if_pos hagg] at h
    cases h
  · have hkept : ¬ (run.result.aggregate ≠ .pass ∧ run.result.aggregate ≠ .apparatusLimited) := by
      rintro ⟨hpass, hlimited⟩
      cases hcase : run.result.aggregate with
      | pass => exact hpass hcase
      | apparatusLimited => exact hlimited hcase
      | rejected => exact hagg hcase
    rw [if_neg hagg, if_neg hkept] at h
    split at h
    · cases h
    · cases h
      exact ⟨hagg, _, _, _, rfl⟩

theorem liveWritten_spec (hcert : certify run = .ok cert)
    (h : liveWritten sha256 files w cert = some c) :
    sourceHashes sha256 files (fun _ => false) liveOpened = some c.sourceHashes ∧
      (∀ g ∈ c.gates, Tagged g) ∧ c.Approved := by
  obtain ⟨hagg, nodes, verdicts, agg, hgates⟩ := gates_of_certify hcert
  unfold liveWritten at h
  obtain ⟨hashes, hhashes, h⟩ := Option.bind_eq_some_iff.mp h
  cases h
  refine ⟨hhashes, ?_, ?_⟩
  · have htags : ∀ g ∈ cert.gates, g.soundnessTag ∈ validSoundnessTags := by
      rw [hgates]
      simp [liveGates, validSoundnessTags]
    rw [List.forall_mem_map]
    intro g hg
    refine ⟨htags g hg, ?_⟩
    dsimp only
    split <;> decide
  · rw [Written.Approved, if_pos (show Written.Live _ from Or.inl rfl)]
    refine ⟨rfl, rfl, ?_⟩
    dsimp only
    generalize cert.aggregate = agg' at hagg
    cases agg' with
    | pass => exact Or.inl rfl
    | apparatusLimited => exact Or.inr rfl
    | rejected => exact absurd rfl hagg

/-- **When a live certificate is taken**: no file that it claims has changed. A capture that is
rejected, or of too few nodes, has none. -/
theorem accepted_liveWritten_iff (hsha : Function.Injective sha256)
    (hnodup : (files.map Prod.fst).Nodup) (hcert : certify run = .ok cert)
    (h : liveWritten sha256 files w cert = some c) (files' : List (Str × Content)) :
    accepted sha256 files' c.fields = true ↔
      ∀ p ∈ c.sourceHashes.map Prod.fst, Dict.get? files' p = Dict.get? files p := by
  obtain ⟨hhashes, htagged, happroved⟩ := liveWritten_spec hcert h
  rw [c.accepted_iff htagged, claims_hold_iff hsha hnodup hhashes]
  exact and_iff_right happroved

end Live

end HorizonProtocol.Certification
