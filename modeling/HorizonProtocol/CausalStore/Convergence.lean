import HorizonProtocol.CausalStore.Maximal

/-!
# Convergence under reordering

Writes that claim nothing are delivered to an empty store in different orders. The runs are not
comparable step by step: a late ancestor is refused in one and stored in the other. What they share
is the abstract shelf of each key, which sees only the bodies of that key (`shelf_deliver`).

* `reordering_converges` — over a strict partial order all orders end alike, with the maximal
  submitted events of each key.
* `sameRead_iff_covered` — over any ordering that has no cycle on the submitted events, the exact
  condition for all orders to end alike.
-/

namespace HorizonProtocol.CausalStore

variable {Id Key Value Origin Clock W : Type} [DecidableEq Id] [DecidableEq Key]
variable {sha : HashInput Key Value Origin Clock → Id}
variable {o : Ordering (Body Key Value Origin Clock) W}

/-- Write the bodies to an empty store in this order, without explicit `supersedes`. -/
def deliver (sha : HashInput Key Value Origin Clock → Id)
    (o : Ordering (Body Key Value Origin Clock) W) (bs : List (Body Key Value Origin Clock)) :
    CausalStore Id Key Value Origin Clock :=
  (machine sha o).run (bs.map fun b => { toBody := b })

/-- The submitted bodies of a key. -/
def submitted (bs : List (Body Key Value Origin Clock)) (key : Key) :
    Set (Body Key Value Origin Clock) := {b | b ∈ bs ∧ b.key = key}

/-- Two stores that a reader of the key cannot tell apart. -/
def SameRead (sha : HashInput Key Value Origin Clock → Id)
    (s₁ s₂ : CausalStore Id Key Value Origin Clock) (key : Key) : Prop :=
  (s₁.read sha key).status = (s₂.read sha key).status ∧
    ∀ cand, cand ∈ (s₁.read sha key).candidates ↔ cand ∈ (s₂.read sha key).candidates

omit [DecidableEq Id] in
theorem setOf_mem_filter (bs : List (Body Key Value Origin Clock)) (key : Key) :
    {b | b ∈ bs.filter fun b => decide (b.key = key)} = submitted bs key := by
  ext b
  simp [submitted]

theorem deliver_concat (bs : List (Body Key Value Origin Clock))
    (b : Body Key Value Origin Clock) :
    deliver sha o (bs ++ [b]) = ((deliver sha o bs).write sha o { toBody := b }).1 := by
  unfold deliver
  rw [List.map_append, List.map_cons, List.map_nil, Machine.run_concat]
  rfl

theorem inv_deliver (ho : o.Exhaustive) (bs : List (Body Key Value Origin Clock)) :
    Inv sha o (deliver sha o bs) :=
  inv_run ho _

theorem mem_of_stored (ho : o.Exhaustive) {bs : List (Body Key Value Origin Clock)}
    {e : Event Id Key Value Origin Clock} (he : e ∈ (deliver sha o bs).backend.allEvents) :
    e.toBody ∈ bs := by
  obtain ⟨c, hc, hbody⟩ := exists_call_of_stored ho _ e he
  obtain ⟨b, hb, rfl⟩ := List.mem_map.mp hc
  exact hbody ▸ hb

/-! ## A delivery as the abstract shelves see it -/

/-- **Refinement**: a write that claims nothing offers its body to the shelf of its key. -/
theorem shelf_write {s : CausalStore Id Key Value Origin Clock} (ho : o.Exhaustive)
    (h : Inv sha o s) {b : Body Key Value Origin Clock}
    (hsha : ∀ e ∈ s.backend.allEvents, e.eventId sha = b.eventId sha → e.toBody = b) (key : Key) :
    ((s.write sha o { toBody := b }).1).shelf sha key =
      if b.key = key then (s.shelf sha key).offer o.Before b else s.shelf sha key := by
  have hw : Writes sha o s { toBody := b } (s.write sha o { toBody := b }).1
    (s.write sha o { toBody := b }).2 := write_cases ho { toBody := b }
  generalize (s.write sha o { toBody := b }).1 = s' at hw ⊢
  generalize (s.write sha o { toBody := b }).2 = r at hw
  cases hw with
  | duplicate e _ mem same =>
      split
      · next hkey =>
          have hbody : e.toBody = b := hsha e mem same
          have hstored : b ∈ (s.shelf sha key).stored := by
            refine ⟨e, InMemoryBackend.mem_eventsForKey.mpr ⟨mem, ?_⟩, hbody⟩
            rw [hbody]
            exact hkey
          rw [Frontier.Shelf.offer_of_refuses (Or.inl hstored)]
      · rfl
  | rejected w fresh why =>
      split
      · next hkey =>
          subst hkey
          rcases why with ⟨p, hp, -⟩ | ⟨-, f, hf, hb⟩
          · cases hp
          · have hdom : ∃ g ∈ (s.shelf sha b.key).live, o.Before b g := ⟨f.toBody, ⟨f, hf, rfl⟩, hb⟩
            rw [Frontier.Shelf.offer_of_refuses (Or.inr hdom)]
            rfl
      · rfl
  | admitted sup coordinated _ fresh valid current edges =>
      rw [shelf_commit coordinated h fresh valid edges]
      split
      · next hkey =>
          subst hkey
          rw [Frontier.Shelf.offer_of_not_refuses]
          intro hrefuses
          rcases hrefuses with ⟨e, he, hbody⟩ | ⟨_, ⟨f, hf, rfl⟩, hb⟩
          · exact fresh e (InMemoryBackend.mem_eventsForKey.mp he).1
              (congrArg (Body.eventId sha) hbody)
          · exact current ⟨f, hf, hb⟩
      · rfl

/-- Each key's shelf after a delivery is what the abstract model makes of the key's own bodies. -/
theorem shelf_deliver (ho : o.Exhaustive) {bs : List (Body Key Value Origin Clock)}
    (hsha : CollisionFree sha bs) (key : Key) :
    (deliver sha o bs).shelf sha key =
      Frontier.Shelf.deliver o.Before (bs.filter fun b => decide (b.key = key)) := by
  induction bs using List.reverseRecOn with
  | nil => exact shelf_empty key
  | append_singleton bs b ih =>
      have hold : CollisionFree sha bs := hsha.subset (List.subset_append_left _ _)
      have hb : b ∈ bs ++ [b] := List.mem_append_right _ (List.mem_singleton_self b)
      have hfresh : ∀ e ∈ (deliver sha o bs).backend.allEvents,
          e.eventId sha = b.eventId sha → e.toBody = b := fun e he =>
        hsha e.toBody (List.mem_append_left _ (mem_of_stored ho he)) b hb
      rw [deliver_concat, shelf_write ho (inv_deliver ho bs) hfresh, ih hold, List.filter_append]
      by_cases hkey : b.key = key
      · simp [hkey]
      · simp [hkey]

/-! ## What a reader sees is the live set -/

section Reads

variable {s₁ s₂ : CausalStore Id Key Value Origin Clock} {key : Key}

theorem mem_candidates {s : CausalStore Id Key Value Origin Clock}
    {cand : Candidate Id Value Origin} :
    cand ∈ (s.read sha key).candidates ↔ ∃ e ∈ s.frontier sha key, candidate sha e = cand := by
  rw [candidates_read, List.mem_map]

theorem candidates_subset (hlive : (s₁.shelf sha key).live ⊆ (s₂.shelf sha key).live)
    {cand : Candidate Id Value Origin} (hcand : cand ∈ (s₁.read sha key).candidates) :
    cand ∈ (s₂.read sha key).candidates := by
  rw [mem_candidates] at hcand ⊢
  obtain ⟨e, he, rfl⟩ := hcand
  obtain ⟨g, hg, hbody⟩ := hlive ⟨e, he, rfl⟩
  refine ⟨g, hg, ?_⟩
  simp only [candidate, hbody]

/-- Equal live sets read alike. -/
theorem sameRead_of_live (h₁ : Inv sha o s₁) (h₂ : Inv sha o s₂)
    (hlive : (s₁.shelf sha key).live = (s₂.shelf sha key).live) : SameRead sha s₁ s₂ key := by
  have hnodup : ∀ {s : CausalStore Id Key Value Origin Clock}, Inv sha o s →
      ((s.frontier sha key).map (·.toBody)).Nodup := by
    intro s h
    refine (List.nodup_map_iff_inj_on (h.frontier_nodup key)).mpr ?_
    intro e he g hg hbody
    exact h.eq_of_eventId (mem_frontier.mp he).1.1 (mem_frontier.mp hg).1.1
      (congrArg (Body.eventId sha) hbody)
  have hperm : ((s₁.frontier sha key).map (·.toBody)).Perm
      ((s₂.frontier sha key).map (·.toBody)) := by
    rw [List.perm_ext_iff_of_nodup (hnodup h₁) (hnodup h₂)]
    intro b
    rw [List.mem_map, List.mem_map]
    exact Set.ext_iff.mp hlive b
  have hlen : (s₁.frontier sha key).length = (s₂.frontier sha key).length := by
    simpa using hperm.length_eq
  refine ⟨?_, fun cand => ⟨candidates_subset hlive.subset, candidates_subset hlive.symm.subset⟩⟩
  rw [status_read, status_read, hlen]

/-- Without collisions the candidates of a read give the live set back. -/
theorem live_subset_of_candidates {bs : List (Body Key Value Origin Clock)}
    (hsha : CollisionFree sha bs) (h₁ : ∀ e ∈ s₁.backend.allEvents, e.toBody ∈ bs)
    (h₂ : ∀ e ∈ s₂.backend.allEvents, e.toBody ∈ bs)
    (hcand : ∀ cand, cand ∈ (s₁.read sha key).candidates → cand ∈ (s₂.read sha key).candidates) :
    (s₁.shelf sha key).live ⊆ (s₂.shelf sha key).live := by
  intro b hb
  obtain ⟨e, he, rfl⟩ := hb
  obtain ⟨g, hg, hge⟩ := mem_candidates.mp (hcand _ (mem_candidates.mpr ⟨e, he, rfl⟩))
  refine ⟨g, hg, ?_⟩
  have hid : g.eventId sha = e.eventId sha := congrArg Candidate.eventId hge
  exact hsha _ (h₂ g (mem_frontier.mp hg).1.1) _ (h₁ e (mem_frontier.mp he).1.1) hid

end Reads

/-! ## Convergence -/

omit [DecidableEq Key] in
theorem submitted_of_perm {bs bs' : List (Body Key Value Origin Clock)} (h : bs.Perm bs')
    (key : Key) : submitted bs key = submitted bs' key :=
  Set.ext fun _ => and_congr_left' h.mem_iff

/-- When the submitted events of a key are covered, its frontier ends as the maximal ones. -/
theorem live_deliver (ho : o.Exhaustive) {bs : List (Body Key Value Origin Clock)}
    (hsha : CollisionFree sha bs) {key : Key}
    (hcov : Frontier.Covered o.Before (submitted bs key)) :
    ((deliver sha o bs).shelf sha key).live = Frontier.maximal o.Before (submitted bs key) := by
  rw [← setOf_mem_filter] at hcov ⊢
  rw [shelf_deliver ho hsha, Frontier.live_deliver hcov]

/-- **Convergence under reordering.** Over a strict partial order, any two orders of delivery of
the same writes, with any repetitions, give every key the same status and the same candidates:
the maximal submitted events of the key. -/
theorem reordering_converges (ho : o.Lawful) {ws₁ ws₂ : List (Body Key Value Origin Clock)}
    (hperm : ws₁.Perm ws₂) (hsha : CollisionFree sha ws₁) (key : Key) :
    let s₁ := deliver sha o ws₁
    let s₂ := deliver sha o ws₂
    (s₁.read sha key).status = (s₂.read sha key).status ∧
    (∀ cand, cand ∈ (s₁.read sha key).candidates ↔ cand ∈ (s₂.read sha key).candidates) ∧
    (∀ b, (∃ e ∈ s₁.frontier sha key, e.toBody = b) ↔
      b ∈ Frontier.maximal o.Before (submitted ws₁ key)) ∧
    (∀ b, (∃ e ∈ s₂.frontier sha key, e.toBody = b) ↔
      b ∈ Frontier.maximal o.Before (submitted ws₁ key)) := by
  intro s₁ s₂
  have := ho.strict
  have hsha₂ : CollisionFree sha ws₂ := hsha.subset hperm.symm.subset
  have hfin : (submitted ws₁ key).Finite := (List.finite_toSet ws₁).subset fun _ hb => hb.1
  have hcov : Frontier.Covered o.Before (submitted ws₁ key) := Frontier.covered_of_finite hfin
  have hlive₁ := live_deliver ho.exhaustive hsha hcov
  have hlive₂ := live_deliver ho.exhaustive hsha₂ (submitted_of_perm hperm key ▸ hcov)
  rw [← submitted_of_perm hperm key] at hlive₂
  obtain ⟨hstatus, hcands⟩ := sameRead_of_live (inv_deliver ho.exhaustive ws₁)
    (inv_deliver ho.exhaustive ws₂) (hlive₁.trans hlive₂.symm)
  exact ⟨hstatus, hcands, Set.ext_iff.mp hlive₁, Set.ext_iff.mp hlive₂⟩

/-- A value, a concurrent one and a common successor, the successor delivered last or first. -/
theorem reordering_converges_diamond :
    let a : Body Nat Nat Nat (VClock Nat) := ⟨0, 1, 0, Finmap.singleton 0 1⟩
    let b : Body Nat Nat Nat (VClock Nat) := ⟨0, 2, 1, Finmap.singleton 1 1⟩
    let c : Body Nat Nat Nat (VClock Nat) := ⟨0, 3, 0, (Finmap.singleton 0 2).insert 1 1⟩
    ((deliver id logicalEvents [a, b, c]).read id 0).status =
      ((deliver id logicalEvents [c, b, a]).read id 0).status := by
  intro a b c
  have hperm : [a, b, c].Perm [c, b, a] := (List.reverse_perm [a, b, c]).symm
  exact (reordering_converges (logicalOrdering_lawful.comap Body.clock) hperm
    (.of_injective Function.injective_id _) 0).1

/-- **The exact condition.** On a set of submitted events without a cycle, all delivery orders read
alike exactly when in every key each event that has one after it has a maximal one after it. -/
theorem sameRead_iff_covered (ho : o.Exhaustive) {ws : List (Body Key Value Origin Clock)}
    (hsha : CollisionFree sha ws) (hnd : ws.Nodup)
    (hacy : Frontier.AcyclicOn o.Before {b | b ∈ ws}) :
    (∀ xs ys, xs.Perm ws → ys.Perm ws → ∀ key,
      SameRead sha (deliver sha o xs) (deliver sha o ys) key) ↔
      ∀ key, Frontier.Covered o.Before (submitted ws key) := by
  have hfree : ∀ {xs : List (Body Key Value Origin Clock)}, xs.Perm ws → CollisionFree sha xs :=
    fun h => hsha.subset h.subset
  constructor
  · intro halike key
    have hkeyacy : Frontier.AcyclicOn o.Before {b | b ∈ ws.filter fun b => decide (b.key = key)} :=
      hacy.subset fun b hb => (List.mem_filter.mp hb).1
    rw [← setOf_mem_filter, ← Frontier.delivers_alike_iff hkeyacy (hnd.filter _)]
    intro xs ys hxs hys
    -- deliver the other keys first, then this key in the given order
    have hfull : ∀ {zs : List (Body Key Value Origin Clock)},
        zs.Perm (ws.filter fun b => decide (b.key = key)) →
        (ws.filter (fun b => !decide (b.key = key)) ++ zs).Perm ws ∧
        (ws.filter (fun b => !decide (b.key = key)) ++ zs).filter (fun b => decide (b.key = key))
          = zs := by
      intro zs hzs
      constructor
      · exact (hzs.append_left _).trans
          (List.perm_append_comm.trans (List.filter_append_perm _ ws))
      · have hzskey : ∀ b ∈ zs, decide (b.key = key) = true := fun b hb =>
          (List.mem_filter.mp (hzs.mem_iff.mp hb)).2
        rw [List.filter_append, List.filter_eq_self.mpr hzskey, List.filter_filter]
        simp
    have hread := halike _ _ (hfull hxs).1 (hfull hys).1 key
    have hmem : ∀ {zs : List (Body Key Value Origin Clock)}, zs.Perm ws →
        ∀ e ∈ (deliver sha o zs).backend.allEvents, e.toBody ∈ ws :=
      fun h e he => h.mem_iff.mp (mem_of_stored ho he)
    have hlive := Set.Subset.antisymm
      (live_subset_of_candidates hsha (hmem (hfull hxs).1) (hmem (hfull hys).1)
        fun cand => (hread.2 cand).mp)
      (live_subset_of_candidates hsha (hmem (hfull hys).1) (hmem (hfull hxs).1)
        fun cand => (hread.2 cand).mpr)
    rwa [shelf_deliver ho (hfree (hfull hxs).1), shelf_deliver ho (hfree (hfull hys).1),
      (hfull hxs).2, (hfull hys).2] at hlive
  · intro hcov xs ys hxs hys key
    have hlive : ∀ {zs : List (Body Key Value Origin Clock)}, zs.Perm ws →
        ((deliver sha o zs).shelf sha key).live
          = Frontier.maximal o.Before (submitted ws key) := by
      intro zs hzs
      have hsub : submitted zs key = submitted ws key := submitted_of_perm hzs key
      rw [← hsub]
      exact live_deliver ho (hfree hzs) (hsub ▸ hcov key)
    exact sameRead_of_live (inv_deliver ho xs) (inv_deliver ho ys)
      ((hlive hxs).trans (hlive hys).symm)

end HorizonProtocol.CausalStore
