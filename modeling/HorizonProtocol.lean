import HorizonProtocol.Log
import HorizonProtocol.Machine
import HorizonProtocol.Frontier
import HorizonProtocol.Worklist
import HorizonProtocol.LightCone
import HorizonProtocol.ConeBalls
import HorizonProtocol.LineOfSight
import HorizonProtocol.Binding
import HorizonProtocol.LeastTime
import HorizonProtocol.Search
import HorizonProtocol.MaskedChain
import HorizonProtocol.Schedule
import HorizonProtocol.Dict
import HorizonProtocol.Geometry
import HorizonProtocol.VectorClock
import HorizonProtocol.CausalStore.Ordering
import HorizonProtocol.CausalStore.Store
import HorizonProtocol.CausalStore.Maximal
import HorizonProtocol.CausalStore.Convergence
import HorizonProtocol.CausalStore.Hybrid
import HorizonProtocol.CausalStore.Accounting
import HorizonProtocol.CausalStore.Race
import HorizonProtocol.CausalStore.HybridOrder
import HorizonProtocol.CausalStore.TrueTimes
import HorizonProtocol.CausalStore.Current
import HorizonProtocol.Providers.CausalKernel
import HorizonProtocol.Providers.LogicalClocks
import HorizonProtocol.Ledger.EdgeClaims
import HorizonProtocol.Ledger.Ledger
import HorizonProtocol.Ledger.Reachability
import HorizonProtocol.Ledger.Runs
import HorizonProtocol.Ledger.Trichotomy
import HorizonProtocol.Mnemesis.Memory
import HorizonProtocol.Mnemesis.Stale
import HorizonProtocol.Mnemesis.Runs
import HorizonProtocol.Mnemesis.Delivery
import HorizonProtocol.Mnemesis.Resolve
import HorizonProtocol.Mnemesis.Simulation
import HorizonProtocol.Mnemesis.Bridge
import HorizonProtocol.Trajectory.Locator
import HorizonProtocol.Trajectory.Occultation
import HorizonProtocol.Trajectory.Blackout
import HorizonProtocol.Trajectory.Flyby
import HorizonProtocol.Trajectory.Subluminal
import HorizonProtocol.Trajectory.LightDelay
import HorizonProtocol.Trajectory.TwoFloor
import HorizonProtocol.Trajectory.Reconcile
import HorizonProtocol.Attestation.ClockError
import HorizonProtocol.Attestation.Station
import HorizonProtocol.Attestation.Measure
import HorizonProtocol.Attestation.Telemetry
import HorizonProtocol.Attestation.EmissionClaim
import HorizonProtocol.Attestation.MeasuredVerdict
import HorizonProtocol.Attestation.Cone
import HorizonProtocol.Attestation.Capture
import HorizonProtocol.Attestation.LiveCapture
import HorizonProtocol.Attestation.ReceiptBands
import HorizonProtocol.Attestation.Distance
import HorizonProtocol.Attestation.DistanceSessions
import HorizonProtocol.Attestation.LightTime
import HorizonProtocol.Attestation.LatencyGate
import HorizonProtocol.Commitment.Reveal
import HorizonProtocol.Commitment.Session
import HorizonProtocol.Commitment.Transcript
import HorizonProtocol.Commitment.Isolation
import HorizonProtocol.Beacon.Blocks
import HorizonProtocol.Beacon.Beacon
import HorizonProtocol.Beacon.Routes
import HorizonProtocol.Beacon.Soundness
import HorizonProtocol.Beacon.Answers
import HorizonProtocol.Benchmark.Trace
import HorizonProtocol.Benchmark.Labels
import HorizonProtocol.Benchmark.VerifyOrder
import HorizonProtocol.Benchmark.Driver
import HorizonProtocol.Benchmark.DriverRuns
import HorizonProtocol.Benchmark.DriverProgress
import HorizonProtocol.Benchmark.Adapter
import HorizonProtocol.Benchmark.Genuine
import HorizonProtocol.Benchmark.Harness
import HorizonProtocol.Benchmark.HarnessRuns
import HorizonProtocol.Benchmark.ThreadedAdapters
import HorizonProtocol.Benchmark.Outline
import HorizonProtocol.Benchmark.CausalStoreThreads
import HorizonProtocol.Benchmark.Report
import HorizonProtocol.Codes
import HorizonProtocol.Json
import HorizonProtocol.Preimages
import HorizonProtocol.Attestation.Wire
import HorizonProtocol.Attestation.Orchestrate
import HorizonProtocol.Attestation.Responders
import HorizonProtocol.Kinematics
import HorizonProtocol.Trajectory.Tracking
import HorizonProtocol.Attestation.Broadcast
import HorizonProtocol.Attestation.Fixtures
import HorizonProtocol.Beacon.HonestBeacon
import HorizonProtocol.Decimals
import HorizonProtocol.Sampling
import HorizonProtocol.Digests
import HorizonProtocol.RedTeam.Timing
import HorizonProtocol.RedTeam.Forgery
import HorizonProtocol.RedTeam.Captures
import HorizonProtocol.RedTeam.Ledgers
import HorizonProtocol.RedTeam.Harness
import HorizonProtocol.Trajectory.ProperTime
import HorizonProtocol.Certification.Validator
import HorizonProtocol.Certification.Runners
import HorizonProtocol.Certification.Pipeline
