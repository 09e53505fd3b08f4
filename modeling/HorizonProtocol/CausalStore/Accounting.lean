import HorizonProtocol.CausalStore.Maximal

/-!
# The log, the counters, and what a retry may claim

What a store keeps over whole runs besides its frontiers, and the one path on which it does not look
at what a writer claims.

* `log_and_accounting` — the log only grows and never repeats an id, its edges lead strictly back,
  refused and repeated calls leave it alone, and the counters add up.
* `claims_checked_iff` — an admitted call vouches for its claims exactly when it is not a retry that
  claims something false: the event id does not cover the claims, and a retry is answered before
  they are looked at.
-/

namespace HorizonProtocol.CausalStore

variable {Id Key Value Origin Clock W : Type} [DecidableEq Id] [DecidableEq Key]
variable {sha : HashInput Key Value Origin Clock → Id}
variable {o : Ordering (Body Key Value Origin Clock) W}
variable {s : CausalStore Id Key Value Origin Clock}
variable {c : WriteCall Id Key Value Origin Clock}

/-! ## Edges lead back -/

/-- Some stored event with the id `i` records that it supersedes `j`. -/
def Recorded (sha : HashInput Key Value Origin Clock → Id)
    (s : CausalStore Id Key Value Origin Clock) (i j : Id) : Prop :=
  ∃ e ∈ s.backend.allEvents, e.eventId sha = i ∧ j ∈ e.supersedes

omit [DecidableEq Id] in
/-- A chain of recorded edges goes down in the order. -/
theorem Inv.before_of_chain (ho : o.Lawful) (h : Inv sha o s) {i j : Id}
    (hchain : Relation.TransGen (Recorded sha s) i j) :
    ∃ e ∈ s.backend.allEvents, e.eventId sha = i ∧
      ∃ pe ∈ s.backend.allEvents, pe.eventId sha = j ∧ o.Before pe.toBody e.toBody := by
  induction hchain with
  | single hedge =>
      obtain ⟨e, he, hid, hsup⟩ := hedge
      exact ⟨e, he, hid, h.edge he hsup⟩
  | tail _ hedge ih =>
      obtain ⟨e, he, hid, mid, hmid, hmidid, hb⟩ := ih
      obtain ⟨mid', hmid', hmidid', hsup⟩ := hedge
      obtain rfl := h.eq_of_eventId hmid hmid' (hmidid.trans hmidid'.symm)
      obtain ⟨pe, hpe, hpid, hpb⟩ := h.edge hmid hsup
      exact ⟨e, he, hid, pe, hpe, hpid, ho.strict.trans _ _ _ hpb hb⟩

/-! ## Retries -/

/-- Every answer carries the id of the call. -/
theorem eventId_write : (s.write sha o c).2.eventId = c.eventId sha := by
  unfold write
  dsimp only
  cases s.find sha (c.eventId sha) with
  | some existing => rfl
  | none =>
      dsimp only
      split
      · rfl
      · split_ifs <;> rfl

/-- A call is ignored as a duplicate exactly when its id is stored. -/
theorem mode_write_eq_duplicateIgnored :
    (s.write sha o c).2.mode = .duplicateIgnored ↔
      ∃ e ∈ s.backend.allEvents, e.eventId sha = c.eventId sha := by
  unfold write
  dsimp only
  cases hfind : s.find sha (c.eventId sha) with
  | some existing =>
      obtain ⟨hmem, hid⟩ := find_eq_some hfind
      exact ⟨fun _ => ⟨existing, hmem, hid⟩, fun _ => rfl⟩
  | none =>
      have fresh := find_eq_none.mp hfind
      have hnone : ¬ ∃ e ∈ s.backend.allEvents, e.eventId sha = c.eventId sha := by
        intro h
        obtain ⟨e, he, hid⟩ := h
        exact fresh e he hid
      simp only [hnone, iff_false]
      split
      · simp [CommitResult.reject]
      · split_ifs <;> simp [CommitResult.reject]

/-- A retry of a stored event is answered with that event, and nothing moves. -/
theorem Inv.write_retry (h : Inv sha o s) {e : Event Id Key Value Origin Clock}
    (he : e ∈ s.backend.allEvents) (hid : e.eventId sha = c.eventId sha) :
    s.write sha o c =
      (s, { eventId := e.eventId sha, mode := .duplicateIgnored, coordinated := false,
            verdict := .admitted, supersedes := e.supersedes }) := by
  unfold write
  dsimp only
  cases hfind : s.find sha (c.eventId sha) with
  | none => exact absurd hid (find_eq_none.mp hfind e he)
  | some existing =>
      obtain ⟨hmem, hid'⟩ := find_eq_some hfind
      obtain rfl := h.eq_of_eventId hmem he (hid'.trans hid.symm)
      rw [← hid]

/-! ## The counters -/

/-- Every stored event was counted once, as free or as coordinated, and every refused call once more
in the total. -/
structure Balanced (s : CausalStore Id Key Value Origin Clock) (refused : Nat) : Prop where
  stored : s.backend.allEvents.length = s.stats.coordinationFree + s.stats.coordinated
  total : s.stats.total = s.backend.allEvents.length + refused

omit [DecidableEq Id] in
theorem Balanced.commit {refused : Nat} (h : Balanced s refused) (coordinated : Bool)
    (e : Event Id Key Value Origin Clock) :
    Balanced (s.countTotal.commit coordinated e) refused := by
  obtain ⟨hstored, htotal⟩ := h
  have hlen : (s.countTotal.commit coordinated e).backend.allEvents.length =
      s.backend.allEvents.length + 1 := by
    rw [backend_commit, InMemoryBackend.allEvents_append, List.length_append]
    rfl
  have hsum : (s.countTotal.commit coordinated e).stats.coordinationFree +
      (s.countTotal.commit coordinated e).stats.coordinated =
      s.stats.coordinationFree + s.stats.coordinated + 1 := by
    cases coordinated with
    | false => exact Nat.add_right_comm _ _ _
    | true => rfl
  have htot : (s.countTotal.commit coordinated e).stats.total = s.stats.total + 1 := by
    cases coordinated <;> rfl
  exact ⟨by omega, by omega⟩

/-- How many calls of a run were refused. -/
def refusals (t : List (Machine.Entry (CausalStore Id Key Value Origin Clock)
    (WriteCall Id Key Value Origin Clock) (CommitResult Id W))) : Nat :=
  t.countP fun t => decide (t.answer.verdict = .rejected)

theorem balanced_run (ho : o.Exhaustive) (calls : List (WriteCall Id Key Value Origin Clock)) :
    Balanced ((machine sha o).run calls) (refusals ((machine sha o).trace calls)) := by
  induction calls using List.reverseRecOn with
  | nil => exact ⟨rfl, rfl⟩
  | append_singleton calls c ih =>
      rw [Machine.run_concat, Machine.trace_concat]
      unfold refusals at ih ⊢
      rw [List.countP_append, List.countP_singleton]
      have hw := writes_next sha ho ((machine sha o).run calls) c
      generalize (machine sha o).next ((machine sha o).run calls) c = s' at hw ⊢
      generalize (machine sha o).answer ((machine sha o).run calls) c = r at hw ⊢
      cases hw with
      | duplicate e _ mem same answer =>
          subst answer
          exact ih
      | rejected w =>
          refine ⟨ih.stored, ?_⟩
          show ((machine sha o).run calls).stats.total + 1 = _
          rw [ih.total]
          rfl
      | admitted sup coordinated _ _ _ _ _ verdict =>
          simp only [verdict]
          exact ih.commit coordinated _

/-- **The log and the counters of a store**, over any calls whatever and any strict partial order. -/
theorem log_and_accounting (ho : o.Lawful) (calls : List (WriteCall Id Key Value Origin Clock)) :
    let M := machine sha o
    let s := M.run calls
    (∀ pre, pre <+: calls → (M.run pre).backend.allEvents <+: s.backend.allEvents) ∧
    (s.backend.allEvents.map (·.eventId sha)).Nodup ∧
    (∀ pre e post, s.backend.allEvents = pre ++ e :: post → ∀ p ∈ e.supersedes,
      ∃ pe ∈ pre, pe.eventId sha = p ∧ o.Before pe.toBody e.toBody) ∧
    (∀ i, ¬ Relation.TransGen (Recorded sha s) i i) ∧
    (∀ c, (M.answer s c).verdict = .rejected ∨ (M.answer s c).mode = .duplicateIgnored →
      (M.next s c).backend = s.backend) ∧
    (∀ e ∈ s.backend.allEvents, ∀ (later : List (WriteCall Id Key Value Origin Clock))
      (c : WriteCall Id Key Value Origin Clock), c.toBody = e.toBody →
      M.next (M.runFrom s later) c = M.runFrom s later ∧
      (M.answer (M.runFrom s later) c).eventId = e.eventId sha ∧
      (M.answer (M.runFrom s later) c).supersedes = e.supersedes) ∧
    s.backend.allEvents.length = s.stats.coordinationFree + s.stats.coordinated ∧
    s.stats.total = s.backend.allEvents.length + refusals (M.trace calls) := by
  intro M s
  have h : Inv sha o s := inv_run ho.exhaustive calls
  have hbal : Balanced s (refusals (M.trace calls)) := balanced_run ho.exhaustive calls
  refine ⟨fun pre hpre => allEvents_run_grows ho.exhaustive hpre, h.idsNodup, h.earlier, ?_, ?_, ?_,
    hbal.stored, hbal.total⟩
  · -- a cycle would put an event before itself
    intro i hcycle
    obtain ⟨e, he, hid, pe, hpe, hpid, hb⟩ := h.before_of_chain ho hcycle
    obtain rfl := h.eq_of_eventId he hpe (hid.trans hpid.symm)
    exact ho.strict.irrefl _ hb
  · intro c hexit
    change (s.write sha o c).2.verdict = _ ∨ (s.write sha o c).2.mode = _ at hexit
    rw [mode_write_eq_duplicateIgnored] at hexit
    have hw : Writes sha o s c (M.next s c) (s.write sha o c).2 := write_cases ho.exhaustive c
    generalize M.next s c = s' at hw ⊢
    generalize (s.write sha o c).2 = r at hw hexit
    cases hw with
    | duplicate => rfl
    | rejected => rfl
    | admitted sup coordinated _ fresh _ _ _ verdict =>
        rcases hexit with hrej | ⟨e, he, hid⟩
        · rw [verdict] at hrej
          cases hrej
        · exact absurd hid (fresh e he)
  · intro e he later c hbody
    have hlater : M.runFrom s later = M.run (calls ++ later) := (M.run_append calls later).symm
    rw [hlater]
    have hgrown : e ∈ (M.run (calls ++ later)).backend.allEvents :=
      (allEvents_run_grows ho.exhaustive (List.prefix_append calls later)).subset he
    have hid : e.eventId sha = c.eventId sha := congrArg (Body.eventId sha) hbody.symm
    have hretry := (inv_run ho.exhaustive (calls ++ later)).write_retry hgrown hid
    refine ⟨congrArg Prod.fst hretry, ?_, ?_⟩
    · exact congrArg (fun p => p.2.eventId) hretry
    · exact congrArg (fun p => p.2.supersedes) hretry

/-- Three calls: two are stored and counted, the stale one is refused and counted once more. -/
theorem log_and_accounting_stale :
    let s := (machine id logicalEvents).run staleCalls
    s.backend.allEvents.length = 2 ∧
      s.stats.total = s.backend.allEvents.length +
        refusals ((machine id logicalEvents).trace staleCalls) :=
  ⟨by decide,
    (log_and_accounting (logicalOrdering_lawful.comap Body.clock) staleCalls).2.2.2.2.2.2.2⟩

/-! ## Claims -/

/-- A call answered with `ADMITTED` vouches for its claims: each is a stored event that is before
the event returned. Any other answer refuses the call and leaves the log alone. -/
def Vouches (sha : HashInput Key Value Origin Clock → Id)
    (o : Ordering (Body Key Value Origin Clock) W) (s : CausalStore Id Key Value Origin Clock)
    (c : WriteCall Id Key Value Origin Clock) : Prop :=
  let s' := (s.write sha o c).1
  let r := (s.write sha o c).2
  (r.verdict = .admitted ∧ ∃ e ∈ s'.backend.allEvents, e.eventId sha = r.eventId ∧
    ∀ p ∈ c.claims, ∃ pe ∈ s'.backend.allEvents, pe.eventId sha = p ∧
      o.Before pe.toBody e.toBody) ∨
  (r.verdict = .rejected ∧ s'.backend = s.backend)

/-- If the event of the call is stored already, the call claims only what is stored and before it. A
call whose event is new may claim anything. -/
def RetriesTruly (sha : HashInput Key Value Origin Clock → Id)
    (o : Ordering (Body Key Value Origin Clock) W) (s : CausalStore Id Key Value Origin Clock)
    (c : WriteCall Id Key Value Origin Clock) : Prop :=
  ∀ e ∈ s.backend.allEvents, e.eventId sha = c.eventId sha →
    ∀ p ∈ c.claims, ∃ pe ∈ s.backend.allEvents, pe.eventId sha = p ∧ o.Before pe.toBody e.toBody

theorem Inv.vouches_iff (ho : o.Exhaustive) (h : Inv sha o s) :
    Vouches sha o s c ↔ RetriesTruly sha o s c := by
  unfold Vouches
  have hw : Writes sha o s c (s.write sha o c).1 (s.write sha o c).2 := write_cases ho c
  have hreturned : (s.write sha o c).2.eventId = c.eventId sha := eventId_write
  generalize (s.write sha o c).1 = s' at hw ⊢
  generalize (s.write sha o c).2 = r at hw hreturned ⊢
  cases hw with
  | duplicate e _ mem same answer =>
      subst answer
      constructor
      · intro hv e' he' hid' p hp
        rcases hv with ⟨-, g, hg, hgid, hclaims⟩ | ⟨hrej, -⟩
        · obtain rfl := h.eq_of_eventId he' hg (hid'.trans hgid.symm)
          exact hclaims p hp
        · cases hrej
      · intro hc
        exact Or.inl ⟨rfl, e, mem, same, hc e mem same⟩
  | rejected w fresh =>
      refine ⟨fun _ e he hid => absurd hid (fresh e he), ?_⟩
      exact fun _ => Or.inr ⟨rfl, rfl⟩
  | admitted sup coordinated _ fresh valid _ _ verdict =>
      refine ⟨fun _ e he hid => absurd hid (fresh e he), ?_⟩
      -- the claims were checked on the way to the log
      intro _
      dsimp only
      rw [backend_commit, InMemoryBackend.allEvents_append]
      refine Or.inl ⟨verdict, ⟨c.toBody, sup⟩, by simp, hreturned.symm, ?_⟩
      intro p hp
      obtain ⟨pe, hfind, hb⟩ := valid p hp
      obtain ⟨hmem, hid⟩ := find_eq_some hfind
      exact ⟨pe, List.mem_append_left _ hmem, hid, hb⟩

/-- **When an admitted call vouches for its claims**, in every state a store can reach: exactly when
it does not repeat a stored event with a claim that is false. -/
theorem claims_checked_iff (ho : o.Exhaustive)
    (calls : List (WriteCall Id Key Value Origin Clock))
    (c : WriteCall Id Key Value Origin Clock) :
    Vouches sha o ((machine sha o).run calls) c ↔
      RetriesTruly sha o ((machine sha o).run calls) c :=
  (inv_run ho calls).vouches_iff ho

/-- A value and its successor, written over vector clocks. -/
def valueCall : WriteCall (HashInput Nat Nat Nat (VClock Nat)) Nat Nat Nat (VClock Nat) where
  key := 0
  value := 1
  originNode := 0
  clock := Finmap.singleton 0 1

/-- The same write again, now with the claim that it supersedes an event nobody wrote. -/
def boastingRetry : WriteCall (HashInput Nat Nat Nat (VClock Nat)) Nat Nat Nat (VClock Nat) :=
  { valueCall with supersedes := some [⟨⟨0, 2⟩, 0, Finmap.singleton 0 2⟩] }

/-- The retry is admitted, although what it claims to supersede is not stored at all. -/
theorem retry_hides_false_claim :
    let s := (machine id logicalEvents).run [valueCall]
    (s.write id logicalEvents boastingRetry).2.verdict = .admitted ∧
      (∀ p ∈ boastingRetry.claims, ∀ e ∈ s.backend.allEvents, e.eventId id ≠ p) ∧
      ¬ Vouches id logicalEvents s boastingRetry := by
  intro s
  have hadm : (s.write id logicalEvents boastingRetry).2.verdict = .admitted := by decide
  have hunknown : ∀ p ∈ boastingRetry.claims, ∀ e ∈ s.backend.allEvents, e.eventId id ≠ p := by
    decide
  refine ⟨hadm, hunknown, fun hv => ?_⟩
  rcases hv with ⟨-, e, -, -, hclaims⟩ | ⟨hrej, -⟩
  · obtain ⟨pe, hpe, hid, -⟩ := hclaims _ (List.mem_singleton_self _)
    -- the retry leaves the log as it was
    exact hunknown _ (List.mem_singleton_self _) pe hpe hid
  · rw [hadm] at hrej
    cases hrej

/-- The next value, which supersedes the first. -/
def succeedingCall : WriteCall (HashInput Nat Nat Nat (VClock Nat)) Nat Nat Nat (VClock Nat) :=
  { valueCall with
    value := 2
    clock := Finmap.singleton 0 2
    supersedes := some [valueCall.eventId id] }

/-- Written once more, it claims what is stored and before it, and is answered truly. -/
theorem claims_checked_iff_value :
    succeedingCall.claims = [valueCall.eventId id] ∧
      Vouches id logicalEvents ((machine id logicalEvents).run [valueCall, succeedingCall])
        succeedingCall := by
  refine ⟨rfl, (claims_checked_iff (fun a b => logicalOrdering_lawful.exhaustive a.clock b.clock)
    [valueCall, succeedingCall] succeedingCall).mpr ?_⟩
  unfold RetriesTruly
  decide

end HorizonProtocol.CausalStore
