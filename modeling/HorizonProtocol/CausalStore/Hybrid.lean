import HorizonProtocol.CausalStore.Convergence
import Mathlib.Data.Prod.Lex

/-!
# The production ordering under honest clocks

`HybridOrdering` decides each pair by geometry where the uncertainty margin resolves and by vector
clocks elsewhere. Nothing in the code says what its verdicts mean, so that is stated here: a clock
is honest when it describes a true event as closely as it declares (`HonestClocks`).

* `hybrid_honest` — for honest clocks the verdicts are sound for the true light cones, complete for
  the true dependencies, and free of cycles.
* `hybrid_converges_iff` — they are not transitive, and a store over them ends alike in all delivery
  orders exactly when every superseded event has a current one directly after it.
-/

namespace HorizonProtocol.CausalStore

/-! ## Honest clocks -/

section Honest

variable {E Node : Type} [DecidableEq Node]

/-- The clocks of the events `evs` describe a true history: `trueTime` is when an event happened and
`hb` which events really happened before it. Positions are exact. That `hb` is a strict partial
order is part of `vc_iff`. -/
structure HonestClocks (clk : E → HybridClock Node) (evs : Set E) (trueTime : E → Int)
    (hb : E → E → Prop) : Prop where
  /-- Recorded times are within the declared uncertainty. -/
  near : ∀ a ∈ evs, |trueTime a - (clk a).timeNs| ≤ (clk a).uNs
  /-- Vector clocks characterise what happened before what. -/
  vc_iff : ∀ a ∈ evs, ∀ b ∈ evs, (clk a).vc.count < (clk b).vc.count ↔ hb a b
  /-- What happened before is strictly earlier. -/
  hb_earlier : ∀ a ∈ evs, ∀ b ∈ evs, hb a b → trueTime a < trueTime b
  /-- What happened before can have had an influence. -/
  hb_cone : ∀ a ∈ evs, ∀ b ∈ evs, hb a b →
    causallyAdmissible (trueTime a) (clk a).posNm (trueTime b) (clk b).posNm = true

namespace HonestClocks

variable {clk : E → HybridClock Node} {evs : Set E} {trueTime : E → Int} {hb : E → E → Prop}
variable {a b : E}

theorem near_bounds (h : HonestClocks clk evs trueTime hb) (ha : a ∈ evs) :
    trueTime a - (clk a).timeNs ≤ (clk a).uNs ∧ (clk a).timeNs - trueTime a ≤ (clk a).uNs := by
  have hnear := abs_le.mp (h.near a ha)
  omega

/-- A geometric verdict survives the move from recorded to true times. At the boundary of the margin
the true times may coincide, and then the recorded ones do not. -/
theorem geometric_before (h : HonestClocks clk evs trueTime hb) (ha : a ∈ evs) (hb' : b ∈ evs)
    (hab : GeometricOrdering.before (clk a).toGeoClock (clk b).toGeoClock = true) :
    (minLightTimeNs (clk a).posNm (clk b).posNm : Int) ≤ trueTime b - trueTime a ∧
      (clk a).timeNs < (clk b).timeNs := by
  have hna := h.near_bounds ha
  have hnb := h.near_bounds hb'
  rw [GeometricOrdering.before_iff (by omega)] at hab
  omega

theorem logical_before (h : HonestClocks clk evs trueTime hb) (ha : a ∈ evs) (hb' : b ∈ evs) :
    LogicalOrdering.before (clk a).vc (clk b).vc = true ↔ hb a b :=
  LogicalOrdering.before_iff.trans (h.vc_iff a ha b hb')

/-- Every true dependency is reported, whichever authority decides. -/
theorem before_of_hb (h : HonestClocks clk evs trueTime hb) (ha : a ∈ evs) (hb' : b ∈ evs)
    (hab : hb a b) : HybridOrdering.before (clk a) (clk b) = true := by
  unfold HybridOrdering.before
  split
  · next hres =>
      have hna := h.near_bounds ha
      have hnb := h.near_bounds hb'
      have hlt := h.hb_earlier a ha b hb' hab
      have hcone := h.hb_cone a ha b hb' hab
      rw [causallyAdmissible_iff_minLightTime] at hcone
      rw [GeometricOrdering.resolves_iff] at hres
      rw [GeometricOrdering.before_iff (by omega)]
      -- the far side of the margin would put `b` outside the true cone
      omega
  · exact (h.logical_before ha hb').mpr hab

/-- What a verdict says about the true events: either way `b` is in the true cone of `a`, and the
pair of true and recorded time rises. -/
theorem of_before (h : HonestClocks clk evs trueTime hb) (ha : a ∈ evs) (hb' : b ∈ evs)
    (hab : HybridOrdering.before (clk a) (clk b) = true) :
    (minLightTimeNs (clk a).posNm (clk b).posNm : Int) ≤ trueTime b - trueTime a ∧
      toLex (trueTime a, (clk a).timeNs) < toLex (trueTime b, (clk b).timeNs) := by
  unfold HybridOrdering.before at hab
  rw [Prod.Lex.toLex_lt_toLex]
  split at hab
  · obtain ⟨hfloor, hrec⟩ := h.geometric_before ha hb' hab
    refine ⟨hfloor, ?_⟩
    show trueTime a < trueTime b ∨ trueTime a = trueTime b ∧ (clk a).timeNs < (clk b).timeNs
    omega
  · rw [h.logical_before ha hb'] at hab
    have hcone := h.hb_cone a ha b hb' hab
    rw [causallyAdmissible_iff_minLightTime] at hcone
    exact ⟨hcone, Or.inl (h.hb_earlier a ha b hb' hab)⟩

/-- No chain of verdicts returns to its start. -/
theorem acyclic (h : HonestClocks clk evs trueTime hb) :
    Frontier.AcyclicOn (fun a b => HybridOrdering.before (clk a) (clk b) = true) evs := by
  apply Frontier.AcyclicOn.of_rank fun a => toLex (trueTime a, (clk a).timeNs)
  intro a ha b hb' hab
  exact (h.of_before ha hb' hab).2

end HonestClocks

/-- **`HybridOrdering` is correct for honest clocks**: it reports every true dependency, what it
reports lies in the true light cone, and its verdicts have no cycle. -/
theorem hybrid_honest {clk : E → HybridClock Node} {evs : Set E} {trueTime : E → Int}
    {hb : E → E → Prop} (h : HonestClocks clk evs trueTime hb) :
    (∀ a ∈ evs, ∀ b ∈ evs, hb a b → hybridOrdering.before (clk a) (clk b) = true) ∧
    (∀ a ∈ evs, ∀ b ∈ evs, hybridOrdering.before (clk a) (clk b) = true →
      causallyAdmissible (trueTime a) (clk a).posNm (trueTime b) (clk b).posNm = true) ∧
    Frontier.AcyclicOn (fun a b => hybridOrdering.before (clk a) (clk b) = true) evs := by
  refine ⟨fun a ha b hb' => h.before_of_hb ha hb', ?_, h.acyclic⟩
  intro a ha b hb' hab
  rw [causallyAdmissible_iff_minLightTime]
  exact (h.of_before ha hb' hab).1

end Honest

/-! ## Stores over the production ordering -/

section Stores

variable {Id Key Value Origin Node : Type} [DecidableEq Id] [DecidableEq Key] [DecidableEq Node]
variable {sha : HashInput Key Value Origin (HybridClock Node) → Id}
variable {ws : List (Body Key Value Origin (HybridClock Node))}
variable {trueTime : Body Key Value Origin (HybridClock Node) → Int}
variable {hb : Body Key Value Origin (HybridClock Node) →
  Body Key Value Origin (HybridClock Node) → Prop}

/-- Events ordered by their hybrid clocks. -/
abbrev hybridEvents (Key Value Origin Node : Type) [DecidableEq Node] :
    Ordering (Body Key Value Origin (HybridClock Node)) (HybridOrdering.Witness Node) :=
  hybridOrdering.comap Body.clock

/-- The writes converge when all orders of delivery read alike in every key, and no candidate of
any of them really happened before a stored event of its key. -/
structure Converges (sha : HashInput Key Value Origin (HybridClock Node) → Id)
    (hb : Body Key Value Origin (HybridClock Node) →
      Body Key Value Origin (HybridClock Node) → Prop)
    (ws : List (Body Key Value Origin (HybridClock Node))) : Prop where
  alike : ∀ xs ys, xs.Perm ws → ys.Perm ws → ∀ key,
    SameRead sha (deliver sha (hybridEvents Key Value Origin Node) xs)
      (deliver sha (hybridEvents Key Value Origin Node) ys) key
  current : ∀ xs, xs.Perm ws → ∀ key,
    let s := deliver sha (hybridEvents Key Value Origin Node) xs
    ∀ e ∈ s.frontier sha key, ∀ g ∈ s.backend.eventsForKey key, ¬ hb e.toBody g.toBody

omit [DecidableEq Key] in
theorem hybridEvents_exhaustive : (hybridEvents Key Value Origin Node).Exhaustive :=
  fun a b => hybridOrdering_exhaustive a.clock b.clock

/-- Covered events leave no candidate behind that really happened before another. -/
theorem HonestClocks.current_of_covered (h : HonestClocks Body.clock {b | b ∈ ws} trueTime hb)
    (hsha : CollisionFree sha ws) {key : Key}
    (hcov : Frontier.Covered (hybridEvents Key Value Origin Node).Before (submitted ws key))
    {e g : Event Id Key Value Origin (HybridClock Node)}
    (he : e ∈ (deliver sha (hybridEvents Key Value Origin Node) ws).frontier sha key)
    (hg : g ∈ (deliver sha (hybridEvents Key Value Origin Node) ws).backend.eventsForKey key) :
    ¬ hb e.toBody g.toBody := by
  intro hlate
  have hlive := live_deliver hybridEvents_exhaustive hsha hcov
  have hmax : e.toBody ∈ Frontier.maximal (hybridEvents Key Value Origin Node).Before
      (submitted ws key) := by
    rw [← hlive]
    exact ⟨e, he, rfl⟩
  rw [InMemoryBackend.mem_eventsForKey] at hg
  have hgw : g.toBody ∈ submitted ws key :=
    ⟨mem_of_stored hybridEvents_exhaustive hg.1, hg.2⟩
  exact hmax.2 g.toBody hgw (h.before_of_hb hmax.1.1 hgw.1 hlate)

/-- **Convergence of the production store**, exactly: honest writes converge when in every key each
event that has one after it, by the verdict of `HybridOrdering`, has directly after it one that
nothing is after. -/
theorem hybrid_converges_iff (h : HonestClocks Body.clock {b | b ∈ ws} trueTime hb)
    (hsha : CollisionFree sha ws) (hnd : ws.Nodup) :
    Converges sha hb ws ↔ ∀ key, Frontier.Covered
      (hybridEvents Key Value Origin Node).Before (submitted ws key) := by
  rw [← sameRead_iff_covered hybridEvents_exhaustive hsha hnd h.acyclic]
  constructor
  · exact fun hconv => hconv.alike
  · intro halike
    refine ⟨halike, ?_⟩
    intro xs hxs key s e he g hg
    rw [sameRead_iff_covered hybridEvents_exhaustive hsha hnd h.acyclic] at halike
    have hset : {b | b ∈ xs} = {b | b ∈ ws} := Set.ext fun _ => hxs.mem_iff
    have hxsh : HonestClocks Body.clock {b | b ∈ xs} trueTime hb := hset ▸ h
    have hcov := halike key
    rw [← submitted_of_perm hxs key] at hcov
    exact hxsh.current_of_covered (hsha.subset hxs.subset) hcov he hg

end Stores

/-! ## Where the verdicts fail to compose

Three writes of one key at one place. The first, honestly, has no idea of the time: it happened at
`0` and is recorded at `1000 ± 1000`. The second, at `1`, has seen it; the third, at `2`, has seen
neither. Vector clocks put the second after the first, geometry puts the third after the second, and
nothing relates the third to the first. The value of each body is its true time. -/

section Triple

abbrev HybridBody := Body Nat Nat Nat (HybridClock Nat)

/-- A body of the key written at the origin of space by this node. -/
def bodyAt (trueTime node : Nat) (timeNs uNs : Int) (vc : VClock Nat) : HybridBody where
  key := 0
  value := trueTime
  originNode := node
  clock := { timeNs, posNm := ⟨0, 0, 0⟩, uNs? := some uNs, vc }

def firstWrite : HybridBody := bodyAt 0 1 1000 1000 (Finmap.singleton 1 1)

def secondWrite : HybridBody := bodyAt 1 2 1 0 ((Finmap.singleton 1 1).insert 2 1)

def thirdWrite : HybridBody := bodyAt 2 3 2 0 (Finmap.singleton 3 1)

abbrev inOrder : List HybridBody := [firstWrite, secondWrite, thirdWrite]

abbrev firstLate : List HybridBody := [secondWrite, thirdWrite, firstWrite]

/-- The second write has seen the first. -/
def saw (a b : HybridBody) : Prop := a = firstWrite ∧ b = secondWrite

theorem triple_honest :
    HonestClocks Body.clock {b | b ∈ inOrder} (fun b => b.value) saw where
  near := by
    simp only [Set.mem_ofPred_eq]
    decide
  vc_iff := by
    simp only [Set.mem_ofPred_eq, ← LogicalOrdering.before_iff, saw]
    decide
  hb_earlier := by
    simp only [Set.mem_ofPred_eq, saw]
    decide
  hb_cone := by
    simp only [Set.mem_ofPred_eq, saw]
    decide

/-- The verdicts on the three: a true dependency is reported, and what geometry reports lies in the
true cone. -/
theorem hybrid_honest_triple :
    hybridOrdering.before firstWrite.clock secondWrite.clock = true ∧
      causallyAdmissible 1 secondWrite.clock.posNm 2 thirdWrite.clock.posNm = true :=
  ⟨(hybrid_honest triple_honest).1 firstWrite (by decide) secondWrite (by decide) ⟨rfl, rfl⟩,
    (hybrid_honest triple_honest).2.1 secondWrite (by decide) thirdWrite (by decide) (by decide)⟩

/-- Delivered in their true order the third write is left alone. Delivered last, the first is beside
it again, although the second, which had seen it, is stored. -/
theorem hybrid_diverges :
    let s := deliver id (hybridEvents Nat Nat Nat Nat) inOrder
    let s' := deliver id (hybridEvents Nat Nat Nat Nat) firstLate
    HonestClocks Body.clock {b | b ∈ inOrder} (fun b => b.value) saw ∧
      (s.read id 0).status = .resolved ∧ (s'.read id 0).status = .conflict ∧
      (∃ e ∈ s'.frontier id 0, ∃ g ∈ s'.backend.eventsForKey 0, saw e.toBody g.toBody) ∧
      ¬ Converges id saw inOrder := by
  intro s s'
  have hin : (s.read id 0).status = .resolved := by decide
  have hlate : (s'.read id 0).status = .conflict := by decide
  have hperm : firstLate.Perm inOrder := by decide
  have hsaw : ∃ e ∈ s'.frontier id 0, ∃ g ∈ s'.backend.eventsForKey 0, saw e.toBody g.toBody := by
    unfold saw
    decide
  -- equal status in both orders is part of convergence
  refine ⟨triple_honest, hin, hlate, hsaw, fun hconv => ?_⟩
  have hsame := (hconv.alike _ _ (.refl _) hperm 0).1
  change (s.read id 0).status = (s'.read id 0).status at hsame
  rw [hin, hlate] at hsame
  cases hsame

/-- The first write is the uncovered one: only the second is directly after it, and the third is
after the second. -/
theorem hybrid_converges_iff_triple : ¬ Converges id saw inOrder := by
  rw [hybrid_converges_iff triple_honest (.of_injective Function.injective_id _) (by decide)]
  intro hcov
  obtain ⟨z, ⟨hz, hmax⟩, hfz⟩ :=
    hcov 0 firstWrite ⟨by decide, rfl⟩ secondWrite ⟨by decide, rfl⟩ (by decide)
  have hcases : z = firstWrite ∨ z = secondWrite ∨ z = thirdWrite := by simpa using hz.1
  rcases hcases with rfl | rfl | rfl
  · exact absurd hfz (by decide)
  · exact hmax thirdWrite ⟨by decide, rfl⟩ (by decide)
  · exact absurd hfz (by decide)

end Triple

end HorizonProtocol.CausalStore
