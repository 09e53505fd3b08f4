import HorizonProtocol.Ledger.Reachability

/-!
# Runs of the causal ledger

`Steps` says what a single call can do, and every invariant is read off it. `Inv` ties the four
collections together: every edge joins recorded events and points strictly later inside the cone,
the index lists exactly the edges, and the physical claims are the edges, each once.

* `ledger_sound` — the admitted graph is acyclic and `precedes` is a strict order inside the cone.
* `precedesFast_eq_precedes` — the indexed query and the plain one agree.
* `edge_claims_typed` — no run launders "could have influenced" into "did influence".
-/

namespace HorizonProtocol.CausalLedger

open ReachabilityCache

variable {Eid Ref : Type} [DecidableEq Eid]

/-! ## What a call can do -/

/-- The state after a call, and its answer. -/
inductive Steps (s : CausalLedger Eid Ref) : Call Eid Ref → CausalLedger Eid Ref →
    Except (LedgerError Eid) (Reply Eid Ref) → Prop
  | recorded {eid t p} (fresh : s.events eid = none) :
      Steps s (.addEvent eid t p)
        { s with events := Function.update s.events eid (some ⟨t, p⟩) } (.ok .done)
  | admitted {a b ea eb c w} (tail : s.events a = some ea) (head : s.events b = some eb)
      (later : ea.Later eb) (new : (a, b) ∉ s.edges) (endpoints : c.endpoints = (a, b))
      (kind : c.kind = .physicalAdmissibility) :
      Steps s (.addEdge a b)
        { s with
          edges := insert (a, b) s.edges
          edgeClaims := s.edgeClaims ++ [c]
          adjacencyCache := none }
        (.ok (.edge ⟨(a, b), .admitted, w⟩))
  | readmitted {a b w} (old : (a, b) ∈ s.edges) :
      Steps s (.addEdge a b) s (.ok (.edge ⟨(a, b), .admitted, w⟩))
  | rejected {a b w} :
      Steps s (.addEdge a b) { s with rejections := s.rejections ++ [⟨(a, b), .rejected, w⟩] }
        (.ok (.edge ⟨(a, b), .rejected, w⟩))
  | claimed {a b k by_ at_ refs c} (endpoints : c.endpoints = (a, b))
      (kind : c.kind ∈ EdgeKind.dependencyKinds) :
      Steps s (.addDependencyClaim a b k by_ at_ refs)
        { s with edgeClaims := s.edgeClaims ++ [c] } (.ok (.claim c))
  | searched {order a b r} : Steps s (.precedes order a b) s (.ok (.reachable r))
  | indexed {order a b r} :
      Steps s (.precedesFast order a b)
        { s with
          adjacencyCache := some (s.adjacencyCache.getD (buildAdjacency (order.iter s.edges))) }
        (.ok (.reachable r))
  | raised {call e} : Steps s call s (.error e)

theorem admissible_iff {ea eb : Stamp} : admissible ea eb = true ↔ ea.Later eb := by
  simp only [admissible, Bool.and_eq_true, decide_eq_true_eq]
  exact ⟨fun h => ⟨h.1, h.2⟩, fun h => ⟨h.earlier, h.cone⟩⟩

/-- The time of an event, as a string, is never empty, so `add_edge` always gets its claim. -/
theorem toString_ne_empty (t : Int) : toString t ≠ "" := by
  show t.repr ≠ ""
  cases t with
  | ofNat n => simp [Int.repr]
  | negSucc n => simp [Int.repr]

theorem addEdge_cases (s : CausalLedger Eid Ref) (a b : Eid) :
    Steps s (.addEdge a b) (s.addEdge a b).1 ((s.addEdge a b).2.map .edge) := by
  unfold addEdge
  cases ha : s.events a with
  | none => exact .raised
  | some ea =>
      cases hb : s.events b with
      | none => exact .raised
      | some eb =>
          by_cases hadm : admissible ea eb = true
          · by_cases hnew : (a, b) ∈ s.edges
            · simp only [hadm, if_true, hnew, not_true_eq_false, if_false, Finset.insert_eq_of_mem]
              exact .readmitted hnew
            · obtain ⟨c, hc, hends, hkind⟩ := EdgeClaim.make_of_known a b
                .physicalAdmissibility (none : Option (List Ref))
                (by decide : "horizon.geometry.causally_admissible" ≠ "")
                (toString_ne_empty eb.timeNs)
              simp only [hadm, if_true, hnew, not_false_eq_true, hc]
              exact .admitted ha hb (admissible_iff.mp hadm) hnew hends hkind
          · simp only [hadm]
            exact .rejected

/-- Between recorded events the gate never raises: it admits the edge exactly when its head is later
inside the cone of its tail, and only then keeps it. -/
theorem addEdge_recorded (s : CausalLedger Eid Ref) {a b : Eid} {ea eb : Stamp}
    (ha : s.events a = some ea) (hb : s.events b = some eb) :
    (∃ rec, (s.addEdge a b).2 = .ok rec ∧ (rec.verdict = .admitted ↔ ea.Later eb)) ∧
    (s.addEdge a b).1.events = s.events ∧
    ∀ x y, (s.addEdge a b).1.Edge x y ↔ s.Edge x y ∨ (ea.Later eb ∧ x = a ∧ y = b) := by
  unfold addEdge Edge
  rw [ha]
  dsimp only
  rw [hb]
  dsimp only
  by_cases hadm : admissible ea eb = true
  · have hlater := admissible_iff.mp hadm
    have hinsert : ∀ x y, (x, y) ∈ insert (a, b) s.edges ↔
        (x, y) ∈ s.edges ∨ (ea.Later eb ∧ x = a ∧ y = b) := by
      intro x y
      rw [Finset.mem_insert, Prod.mk.injEq, or_comm]
      simp only [hlater, true_and]
    by_cases hnew : (a, b) ∈ s.edges
    · simp only [hadm, if_true, hnew, not_true_eq_false, if_false]
      exact ⟨⟨_, rfl, iff_of_true rfl hlater⟩, trivial, hinsert⟩
    · obtain ⟨c, hc, -⟩ := EdgeClaim.make_of_known a b
        .physicalAdmissibility (none : Option (List Ref))
        (by decide : "horizon.geometry.causally_admissible" ≠ "")
        (toString_ne_empty eb.timeNs)
      simp only [hadm, if_true, hnew, not_false_eq_true, hc]
      exact ⟨⟨_, rfl, iff_of_true rfl hlater⟩, trivial, hinsert⟩
  · have hlater : ¬ ea.Later eb := fun h => hadm (admissible_iff.mpr h)
    simp only [hadm]
    refine ⟨⟨_, rfl, iff_of_false (fun h => ?_) hlater⟩, rfl, fun x y => ?_⟩
    · cases h
    · simp [hlater]

theorem addDependencyClaim_cases (s : CausalLedger Eid Ref) (a b : Eid) (k by_ at_ : String)
    (refs : Option (List Ref)) :
    Steps s (.addDependencyClaim a b k by_ at_ refs) (s.addDependencyClaim a b k by_ at_ refs).1
      ((s.addDependencyClaim a b k by_ at_ refs).2.map .claim) := by
  unfold addDependencyClaim
  split
  · exact .raised
  · split
    · exact .raised
    · next hkind =>
        cases hc : EdgeClaim.make a b k by_ at_ refs with
        | error e => exact .raised
        | ok c =>
            obtain ⟨hends, hread⟩ := EdgeClaim.of_make hc
            rw [not_not, EdgeKind.mem_map_value_iff] at hkind
            obtain ⟨k', hk', hread'⟩ := hkind
            rw [hread, Option.some_inj] at hread'
            exact .claimed hends (hread' ▸ hk')

/-- **The step rule.** -/
theorem step_cases (s : CausalLedger Eid Ref) (call : Call Eid Ref) :
    Steps s call (machine.next s call) (machine.answer s call) := by
  cases call with
  | addEvent eid t p =>
      show Steps s _ (s.addEvent eid t p).1 ((s.addEvent eid t p).2.map fun _ => Reply.done)
      unfold addEvent
      cases hfresh : s.events eid with
      | some _ => exact .raised
      | none => exact .recorded hfresh
  | addEdge a b => exact s.addEdge_cases a b
  | addDependencyClaim a b k by_ at_ refs => exact s.addDependencyClaim_cases a b k by_ at_ refs
  | precedes order a b => exact .searched
  | precedesFast order a b => exact .indexed

/-! ## The invariant -/

/-- The claims that `add_edge` makes. -/
def physicalClaims (s : CausalLedger Eid Ref) : List (EdgeClaim Eid Ref) :=
  s.edgeClaims.filter fun c => decide (c.kind = .physicalAdmissibility)

/-- Two recorded events, the second later inside the cone of the first. -/
def RecordedLater (s : CausalLedger Eid Ref) (a b : Eid) : Prop :=
  ∃ ea eb, s.events a = some ea ∧ s.events b = some eb ∧ ea.Later eb

structure Inv (s : CausalLedger Eid Ref) : Prop where
  later : ∀ a b, s.Edge a b → s.RecordedLater a b
  cache : s.CacheValid
  claims_nodup : (s.physicalClaims.map EdgeClaim.endpoints).Nodup
  claimed_iff : ∀ e, e ∈ s.physicalClaims.map EdgeClaim.endpoints ↔ e ∈ s.edges

omit [DecidableEq Eid] in
theorem Inv.empty : Inv ({} : CausalLedger Eid Ref) where
  later _ _ h := absurd h (Finset.notMem_empty _)
  cache := by
    intro adj hadj
    cases hadj
  claims_nodup := List.nodup_nil
  claimed_iff e := by simp [physicalClaims]

/-- Recording another event moves no event that is there. -/
theorem RecordedLater.update {s : CausalLedger Eid Ref} {a b eid : Eid} {e : Stamp}
    (h : s.RecordedLater a b) (hfresh : s.events eid = none) :
    ({ s with events := Function.update s.events eid (some e) } :
      CausalLedger Eid Ref).RecordedLater a b := by
  obtain ⟨ea, eb, ha, hb, hlater⟩ := h
  have hne : ∀ {x ex}, s.events x = some ex → x ≠ eid := by
    intro x ex hx hxe
    rw [hxe, hfresh] at hx
    cases hx
  refine ⟨ea, eb, ?_, ?_, hlater⟩
  · show Function.update s.events eid (some e) a = some ea
    rw [Function.update_of_ne (hne ha), ha]
  · show Function.update s.events eid (some e) b = some eb
    rw [Function.update_of_ne (hne hb), hb]

/-- Every call keeps the invariant. -/
theorem Inv.steps {s s' : CausalLedger Eid Ref} {call : Call Eid Ref}
    {r : Except (LedgerError Eid) (Reply Eid Ref)} (h : Inv s) (hstep : Steps s call s' r) :
    Inv s' := by
  cases hstep with
  | recorded fresh =>
      exact
        { later := fun a b hab => (h.later a b hab).update fresh
          cache := h.cache
          claims_nodup := h.claims_nodup
          claimed_iff := h.claimed_iff }
  | @admitted a b ea eb c w tail head later new endpoints kind =>
      -- one edge and one physical claim, and no index left to go stale
      have hclaims : (physicalClaims { s with
            edges := insert (a, b) s.edges
            edgeClaims := s.edgeClaims ++ [c]
            adjacencyCache := none }).map EdgeClaim.endpoints =
          s.physicalClaims.map EdgeClaim.endpoints ++ [(a, b)] := by
        simp [physicalClaims, kind, endpoints]
      have hnew : (a, b) ∉ s.physicalClaims.map EdgeClaim.endpoints :=
        fun hin => new ((h.claimed_iff _).mp hin)
      constructor
      · intro x y hxy
        rcases Finset.mem_insert.mp hxy with heq | hold
        · cases heq
          exact ⟨ea, eb, tail, head, later⟩
        · exact h.later x y hold
      · intro adj hadj
        cases hadj
      · rw [hclaims, ← List.concat_eq_append]
        exact h.claims_nodup.concat hnew
      · intro e
        rw [hclaims, List.mem_append, h.claimed_iff, List.mem_singleton, Finset.mem_insert, or_comm]
  | readmitted _ => exact h
  | rejected =>
      exact
        { later := h.later
          cache := h.cache
          claims_nodup := h.claims_nodup
          claimed_iff := h.claimed_iff }
  | @claimed a b k by_ at_ refs c endpoints kind =>
      -- a dependency claim is no physical claim, so those stay as they are
      have hphysical : c.kind ≠ .physicalAdmissibility := by
        intro heq
        rw [heq] at kind
        exact absurd kind (by decide)
      have hclaims : physicalClaims { s with edgeClaims := s.edgeClaims ++ [c] } =
          s.physicalClaims := by
        simp [physicalClaims, hphysical]
      exact
        { later := h.later
          cache := h.cache
          claims_nodup := hclaims ▸ h.claims_nodup
          claimed_iff := hclaims ▸ h.claimed_iff }
  | searched => exact h
  | @indexed order a b r =>
      refine
        { later := h.later
          cache := ?_
          claims_nodup := h.claims_nodup
          claimed_iff := h.claimed_iff }
      intro adj hadj
      cases hadj
      exact h.cache.adjacency order
  | raised => exact h

theorem inv_run (calls : List (Call Eid Ref)) : Inv (machine.run calls) :=
  machine.run_induction Inv.empty (fun s call h => h.steps (s.step_cases call)) calls

/-! ## Soundness of the admitted graph -/

omit [DecidableEq Eid] in
/-- Along a path of admitted edges the events get later inside the cone. -/
theorem Inv.path_later {s : CausalLedger Eid Ref} (h : Inv s) {a b : Eid}
    (hab : Relation.TransGen s.Edge a b) : s.RecordedLater a b := by
  induction hab with
  | single hab => exact h.later _ _ hab
  | tail _ hbc ih =>
      obtain ⟨ea, eb, ha, hb, hlater⟩ := ih
      obtain ⟨eb', ec, hb', hc, hlater'⟩ := h.later _ _ hbc
      obtain rfl : eb = eb' := Option.some_inj.mp (hb.symm.trans hb')
      exact ⟨ea, ec, ha, hc, Trans.trans hlater hlater'⟩

omit [DecidableEq Eid] in
theorem Inv.acyclic {s : CausalLedger Eid Ref} (h : Inv s) (a : Eid) :
    ¬ Relation.TransGen s.Edge a a := by
  intro haa
  obtain ⟨ea, ea', ha, ha', hlater⟩ := h.path_later haa
  obtain rfl : ea = ea' := Option.some_inj.mp (ha.symm.trans ha')
  exact lt_irrefl _ hlater.earlier

theorem precedes_eq_true_iff (s : CausalLedger Eid Ref) (order : SetOrder (Eid × Eid)) {a b : Eid} :
    s.precedes order a b = some true ↔ Relation.TransGen s.Edge a b := by
  obtain ⟨r, hr, hiff⟩ := s.precedes_iff order a b
  rw [hr, Option.some_inj, hiff]

/-- **Soundness of the ledger**: after any run the admitted edges form no cycle, `precedes` is a
strict order, and what it orders are recorded events, the later one inside the cone of the other. -/
theorem ledger_sound (calls : List (Call Eid Ref)) (order : SetOrder (Eid × Eid)) :
    let s := machine.run calls
    (∀ a, ¬ Relation.TransGen s.Edge a a) ∧
    IsStrictOrder Eid (fun a b => s.precedes order a b = some true) ∧
    (∀ a b, s.precedes order a b = some true → ∃ ea eb, s.events a = some ea ∧
      s.events b = some eb ∧ ea.timeNs < eb.timeNs ∧
      causallyAdmissible ea.timeNs ea.posNm eb.timeNs eb.posNm = true) := by
  intro s
  have h : Inv s := inv_run calls
  simp only [precedes_eq_true_iff]
  refine ⟨h.acyclic, ?_, ?_⟩
  · exact
      { irrefl := h.acyclic
        trans := fun _ _ _ => Relation.TransGen.trans }
  · intro a b hab
    obtain ⟨ea, eb, ha, hb, hlater⟩ := h.path_later hab
    exact ⟨ea, eb, ha, hb, hlater.earlier, hlater.cone⟩

/-- **The indexed query agrees with the plain one**, in every state a run can reach, for any ids,
and in whatever orders the two iterate the edges. -/
theorem precedesFast_eq_precedes (calls : List (Call Eid Ref)) (order order' : SetOrder (Eid × Eid))
    (a b : Eid) :
    let s := machine.run calls
    ∃ r, s.precedes order a b = some r ∧ (s.precedesFast order' a b).2 = some r ∧
      (r = true ↔ Relation.TransGen s.Edge a b) := by
  intro s
  have h : Inv s := inv_run calls
  obtain ⟨r, hr, hiff⟩ := s.precedes_iff order a b
  obtain ⟨r', hr', hiff'⟩ := precedesFast_iff h.cache order' a b
  -- between equal ids the fast query gives up at once, rightly: there is no cycle
  have hne : Relation.TransGen s.Edge a b → a ≠ b := by
    intro hab heq
    exact h.acyclic b (heq ▸ hab)
  have hsame : r = r' := by
    rw [Bool.eq_iff_iff, hiff, hiff']
    exact ⟨fun hab => ⟨hne hab, hab⟩, fun hab => hab.2⟩
  exact ⟨r, hr, hsame ▸ hr', hiff⟩

/-! ## Typed claims -/

theorem hasObservedDependency_iff {s : CausalLedger Eid Ref} {a b : Eid} :
    s.hasObservedDependency a b = true ↔
      ∃ c ∈ s.edgeClaims, c.endpoints = (a, b) ∧ c.kind ∈ EdgeKind.dependencyKinds := by
  simp [hasObservedDependency, EdgeClaim.endpoints, and_assoc]

/-- A call that succeeded in asserting a dependency between exactly these events. -/
def Asserts (call : Call Eid Ref) (r : Except (LedgerError Eid) (Reply Eid Ref)) (a b : Eid) :
    Prop :=
  ∃ k by_ at_ refs c, call = .addDependencyClaim a b k by_ at_ refs ∧ r = .ok (.claim c)

/-- One call makes a dependency observed exactly when it asserts it. -/
theorem observed_step {s s' : CausalLedger Eid Ref} {call : Call Eid Ref}
    {r : Except (LedgerError Eid) (Reply Eid Ref)} (hstep : Steps s call s' r) (a b : Eid) :
    s'.hasObservedDependency a b = true ↔
      s.hasObservedDependency a b = true ∨ Asserts call r a b := by
  have hidle : (¬ Asserts call r a b) → s'.edgeClaims = s.edgeClaims →
      (s'.hasObservedDependency a b = true ↔
        s.hasObservedDependency a b = true ∨ Asserts call r a b) := by
    intro hno hclaims
    simp [hasObservedDependency, hclaims, hno]
  cases hstep with
  | recorded _ => exact hidle (by simp [Asserts]) rfl
  | @admitted x y ea eb c w tail head later new endpoints kind =>
      -- the claim that comes with an edge is not a dependency
      have hdep : c.kind ∉ EdgeKind.dependencyKinds := by
        rw [kind]
        decide
      simp only [hasObservedDependency_iff, List.mem_append, List.mem_singleton, Asserts]
      grind
  | readmitted _ => exact hidle (by simp [Asserts]) rfl
  | rejected => exact hidle (by simp [Asserts]) rfl
  | @claimed x y k by_ at_ refs c endpoints kind =>
      simp only [hasObservedDependency_iff, List.mem_append, List.mem_singleton, Asserts]
      grind
  | searched => exact hidle (by simp [Asserts]) rfl
  | indexed => exact hidle (by simp [Asserts]) rfl
  | raised => exact hidle (by simp [Asserts]) rfl

/-- A dependency is observed exactly when some earlier call asserted it. -/
theorem observed_run (calls : List (Call Eid Ref)) (a b : Eid) :
    (machine.run calls).hasObservedDependency a b = true ↔
      ∃ entry ∈ machine.trace calls, Asserts entry.call entry.answer a b := by
  induction calls using List.reverseRecOn with
  | nil => simp [machine, hasObservedDependency]
  | append_singleton calls call ih =>
      rw [Machine.run_concat, observed_step (step_cases _ call), ih, Machine.trace_concat]
      simp [or_and_right, exists_or]

/-- **The typing of edge claims**: after any run the physical claims are the admitted edges, each
once; a dependency is observed exactly when a call asserted it, and adding edges never makes it so;
a rejected edge leaves its record in the log and nothing else; a call that raises leaves nothing. -/
theorem edge_claims_typed (calls : List (Call Eid Ref)) :
    let s := machine.run calls
    ((s.physicalClaims.map EdgeClaim.endpoints).Nodup ∧
      ∀ e, e ∈ s.physicalClaims.map EdgeClaim.endpoints ↔ e ∈ s.edges) ∧
    (∀ a b, s.hasObservedDependency a b = true ↔
      ∃ entry ∈ machine.trace calls, Asserts entry.call entry.answer a b) ∧
    (∀ (edges : List (Eid × Eid)) a b,
      (machine.runFrom s (edges.map fun e => .addEdge e.1 e.2)).hasObservedDependency a b
        = s.hasObservedDependency a b) ∧
    (∀ a b s' record, s.addEdge a b = (s', .ok record) → record.verdict = .rejected →
      s' = { s with rejections := s.rejections ++ [record] }) ∧
    (∀ call s' e, machine.step s call = (s', .error e) → s' = s) := by
  intro s
  have h : Inv s := inv_run calls
  refine ⟨⟨h.claims_nodup, h.claimed_iff⟩, observed_run calls, ?_, ?_, ?_⟩
  · intro edges a b
    generalize s = s₀
    induction edges generalizing s₀ with
    | nil => rfl
    | cons e edges ih =>
        rw [List.map_cons, Machine.runFrom_cons, ih, Bool.eq_iff_iff,
          observed_step (step_cases s₀ (.addEdge e.1 e.2))]
        simp [Asserts]
  · intro a b s' record hadd hverdict
    have hstep := s.addEdge_cases a b
    rw [hadd] at hstep
    change Steps s _ s' (.ok (.edge record)) at hstep
    cases hstep with
    | admitted => cases hverdict
    | readmitted => cases hverdict
    | rejected => rfl
  · intro call s' e hraise
    have hstep := s.step_cases call
    have hnext : machine.next s call = s' := congrArg Prod.fst hraise
    have hanswer : machine.answer s call = .error e := congrArg Prod.snd hraise
    rw [hnext, hanswer] at hstep
    cases hstep with
    | raised => rfl

end HorizonProtocol.CausalLedger
