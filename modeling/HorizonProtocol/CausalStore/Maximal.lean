import HorizonProtocol.CausalStore.Store
import HorizonProtocol.Frontier
import HorizonProtocol.Log

/-!
# The frontier is the set of maximal events

The store computes its frontier from the `supersedes` edges it recorded; the law is about the
order itself. The two meet in an abstract shelf for each key (`shelf`): what the key stores, and
what its frontier holds.

* `Writes` — everything one `write` can do, in three cases; `write_cases` says there is no other.
* `Inv` — recorded edges point to earlier events that really are before.
* `shelf_commit` — an admitted write enters the shelf of its key as the abstract model says,
  whatever the ordering.
* `frontier_law` — over a strict partial order the frontier is the set of maximal stored events,
  with what that means for `read`, for retirement and for rejection.
-/

namespace HorizonProtocol.CausalStore

variable {Id Key Value Origin Clock W : Type} [DecidableEq Id] [DecidableEq Key]
variable {sha : HashInput Key Value Origin Clock → Id}
variable {o : Ordering (Body Key Value Origin Clock) W}
variable {s : CausalStore Id Key Value Origin Clock}
variable {c : WriteCall Id Key Value Origin Clock}

/-! ## What one write can do -/

/-- A claimed predecessor is stored and before the new event. -/
def ValidClaim (sha : HashInput Key Value Origin Clock → Id)
    (o : Ordering (Body Key Value Origin Clock) W) (s : CausalStore Id Key Value Origin Clock)
    (ev : Body Key Value Origin Clock) (pred : Id) : Prop :=
  ∃ pe, s.find sha pred = some pe ∧ o.Before pe.toBody ev

/-- Some frontier event of the key is causally after the new event. -/
def Dominated (sha : HashInput Key Value Origin Clock → Id)
    (o : Ordering (Body Key Value Origin Clock) W) (s : CausalStore Id Key Value Origin Clock)
    (ev : Body Key Value Origin Clock) : Prop :=
  ∃ f ∈ s.frontier sha ev.key, o.Before ev f.toBody

/-- The edges an admitted event records: all claims, every frontier event it comes after, and
nothing else. -/
structure Supersedes (sha : HashInput Key Value Origin Clock → Id)
    (o : Ordering (Body Key Value Origin Clock) W) (s : CausalStore Id Key Value Origin Clock)
    (c : WriteCall Id Key Value Origin Clock) (sup : List Id) : Prop where
  claims : ∀ p ∈ c.claims, p ∈ sup
  ancestors : ∀ f ∈ s.frontier sha c.key, o.Before f.toBody c.toBody → f.eventId sha ∈ sup
  only : ∀ p ∈ sup, p ∈ c.claims ∨
    ∃ f ∈ s.frontier sha c.key, o.Before f.toBody c.toBody ∧ f.eventId sha = p

/-- Everything one `write` can do. -/
inductive Writes (sha : HashInput Key Value Origin Clock → Id)
    (o : Ordering (Body Key Value Origin Clock) W) (s : CausalStore Id Key Value Origin Clock)
    (c : WriteCall Id Key Value Origin Clock) :
    CausalStore Id Key Value Origin Clock → CommitResult Id W → Prop
  | duplicate (e : Event Id Key Value Origin Clock) (r : CommitResult Id W)
      (mem : e ∈ s.backend.allEvents) (same : e.eventId sha = c.eventId sha)
      (answer : r = { eventId := c.eventId sha, mode := .duplicateIgnored, coordinated := false,
                      verdict := .admitted, supersedes := e.supersedes }) :
      Writes sha o s c s r
  | rejected (w : Rejection Id W)
      (fresh : ∀ e ∈ s.backend.allEvents, e.eventId sha ≠ c.eventId sha)
      (why : (∃ p ∈ c.claims, ¬ ValidClaim sha o s c.toBody p) ∨
        ((∀ p ∈ c.claims, ValidClaim sha o s c.toBody p) ∧ Dominated sha o s c.toBody)) :
      Writes sha o s c s.countTotal (.reject (c.eventId sha) w)
  | admitted (sup : List Id) (coordinated : Bool) (r : CommitResult Id W)
      (fresh : ∀ e ∈ s.backend.allEvents, e.eventId sha ≠ c.eventId sha)
      (valid : ∀ p ∈ c.claims, ValidClaim sha o s c.toBody p)
      (current : ¬ Dominated sha o s c.toBody)
      (edges : Supersedes sha o s c sup)
      (verdict : r.verdict = .admitted) (isCoordinated : r.coordinated = coordinated) :
      Writes sha o s c (s.countTotal.commit coordinated ⟨c.toBody, sup⟩) r

/-- The loop over the claims ends without a rejection just when all of them are valid. -/
theorem checkSupersedes_eq_none {ev : Body Key Value Origin Clock} {claims : List Id} :
    s.checkSupersedes sha o ev claims = none ↔ ∀ p ∈ claims, ValidClaim sha o s ev p := by
  induction claims with
  | nil => simp [checkSupersedes]
  | cons pred rest ih =>
      rw [List.forall_mem_cons, ← ih, checkSupersedes]
      cases hpe : s.find sha pred with
      | none => simp [ValidClaim, hpe]
      | some pe =>
          cases hb : o.before pe.toBody ev with
          | false => simp [ValidClaim, Ordering.Before, hpe, hb]
          | true => simp [ValidClaim, Ordering.Before, hpe, hb]

/-- Claims alone are the right edges when the new event comes after no frontier event. -/
theorem Supersedes.of_claims
    (hnone : ∀ f ∈ s.frontier sha c.key, ¬ o.Before f.toBody c.toBody) :
    Supersedes sha o s c c.claims where
  claims _ hp := hp
  ancestors f hf hb := absurd hb (hnone f hf)
  only _ hp := Or.inl hp

/-- Claims and the frontier events the new event comes after, as a set. -/
theorem Supersedes.of_ancestors :
    Supersedes sha o s c (c.claims ++ ((s.frontier sha c.key).filter
      fun f => o.before f.toBody c.toBody).map (·.eventId sha)).dedup where
  claims p hp := by simp [hp]
  ancestors f hf hb := by
    rw [List.mem_dedup, List.mem_append, List.mem_map]
    exact Or.inr ⟨f, List.mem_filter.mpr ⟨hf, hb⟩, rfl⟩
  only p hp := by
    rw [List.mem_dedup, List.mem_append, List.mem_map] at hp
    rcases hp with hp | ⟨f, hf, rfl⟩
    · exact Or.inl hp
    · have hf' := List.mem_filter.mp hf
      exact Or.inr ⟨f, hf'.1, hf'.2, rfl⟩

/-- **There is no other case.** The ordering need only mean incomparability by `concurrent`. -/
theorem write_cases (ho : o.Exhaustive) (c : WriteCall Id Key Value Origin Clock) :
    Writes sha o s c (s.write sha o c).1 (s.write sha o c).2 := by
  unfold write
  dsimp only
  cases hfind : s.find sha (c.eventId sha) with
  | some existing =>
      obtain ⟨hmem, hid⟩ := find_eq_some hfind
      exact .duplicate existing _ hmem hid rfl
  | none =>
      have fresh := find_eq_none.mp hfind
      cases hclaims : s.countTotal.checkSupersedes sha o c.toBody c.claims with
      | some w =>
          refine .rejected w fresh (Or.inl ?_)
          by_contra hall
          push Not at hall
          have hnone := (checkSupersedes_eq_none (s := s.countTotal)).mpr hall
          rw [hnone] at hclaims
          cases hclaims
      | none =>
          have valid : ∀ p ∈ c.claims, ValidClaim sha o s c.toBody p :=
            (checkSupersedes_eq_none (s := s.countTotal)).mp hclaims
          dsimp only
          split
          · -- the key has no frontier
            next hempty =>
              have hnil : s.frontier sha c.key = [] := List.isEmpty_iff.mp hempty
              refine .admitted c.claims false _ fresh valid ?_ (.of_claims ?_) rfl rfl
              · simp [Dominated, hnil]
              · simp [hnil]
          · next hne =>
              split
              · -- a frontier event is after the new one
                next hdom =>
                  refine .rejected _ fresh (Or.inr ⟨valid, ?_⟩)
                  rw [Bool.not_eq_true', List.isEmpty_eq_false_iff_exists_mem] at hdom
                  obtain ⟨f, hf⟩ := hdom
                  have hf' := List.mem_filter.mp hf
                  exact ⟨f, hf'.1, hf'.2⟩
              · next hdom =>
                  have current : ¬ Dominated sha o s c.toBody := by
                    intro h
                    obtain ⟨f, hf, hb⟩ := h
                    apply hdom
                    rw [Bool.not_eq_true', List.isEmpty_eq_false_iff_exists_mem]
                    exact ⟨f, List.mem_filter.mpr ⟨hf, hb⟩⟩
                  split
                  · -- after the whole frontier
                    next hall =>
                      have hfilter : (s.frontier sha c.key).filter
                          (fun f => o.before f.toBody c.toBody) = s.frontier sha c.key :=
                        List.filter_eq_self.mpr (List.all_eq_true.mp hall)
                      have edges : Supersedes sha o s c _ := .of_ancestors
                      rw [hfilter] at edges
                      exact .admitted _ false _ fresh valid current edges rfl rfl
                  · split
                    · -- concurrent with the whole frontier, and decided
                      next hall =>
                        refine .admitted c.claims false _ fresh valid current ?_ rfl rfl
                        apply Supersedes.of_claims
                        intro f hf
                        have h := List.all_eq_true.mp hall f hf
                        simp only [Bool.and_eq_true] at h
                        exact ((ho _ _).mp h.1.1).1
                    · -- mixed
                      exact .admitted _ true _ fresh valid current .of_ancestors rfl rfl

theorem writes_next (sha : HashInput Key Value Origin Clock → Id) (ho : o.Exhaustive)
    (s : CausalStore Id Key Value Origin Clock) (c : WriteCall Id Key Value Origin Clock) :
    Writes sha o s c ((machine sha o).next s c) ((machine sha o).answer s c) :=
  write_cases ho c

/-! ## What every state satisfies -/

/-- The invariant of the log: ids are not repeated, and every recorded edge leads to an event
stored earlier that is before. -/
structure Inv (sha : HashInput Key Value Origin Clock → Id)
    (o : Ordering (Body Key Value Origin Clock) W) (s : CausalStore Id Key Value Origin Clock) :
    Prop where
  idsNodup : (s.backend.allEvents.map (·.eventId sha)).Nodup
  earlier : ∀ pre e post, s.backend.allEvents = pre ++ e :: post → ∀ p ∈ e.supersedes,
    ∃ pe ∈ pre, pe.eventId sha = p ∧ o.Before pe.toBody e.toBody

omit [DecidableEq Id] in
/-- An id names one stored event. -/
theorem Inv.eq_of_eventId (h : Inv sha o s) {e g : Event Id Key Value Origin Clock}
    (he : e ∈ s.backend.allEvents) (hg : g ∈ s.backend.allEvents)
    (hid : e.eventId sha = g.eventId sha) : e = g :=
  List.inj_on_of_nodup_map h.idsNodup he hg hid

omit [DecidableEq Id] in
/-- A recorded edge leads to a stored event that is before. -/
theorem Inv.edge (h : Inv sha o s) {e : Event Id Key Value Origin Clock}
    (he : e ∈ s.backend.allEvents) {p : Id} (hp : p ∈ e.supersedes) :
    ∃ pe ∈ s.backend.allEvents, pe.eventId sha = p ∧ o.Before pe.toBody e.toBody := by
  obtain ⟨pre, post, hsplit⟩ := List.append_of_mem he
  obtain ⟨pe, hpe, hid, hb⟩ := h.earlier pre e post hsplit p hp
  exact ⟨pe, hsplit ▸ List.mem_append_left _ hpe, hid, hb⟩

omit [DecidableEq Id] in
theorem Inv.empty : Inv sha o ({} : CausalStore Id Key Value Origin Clock) where
  idsNodup := List.nodup_nil
  earlier pre e post h := by
    have hlen := congrArg List.length h
    simp at hlen

/-- Every edge an admitted event records is a stored event before it. -/
theorem Supersedes.stored {sup : List Id} (edges : Supersedes sha o s c sup)
    (valid : ∀ p ∈ c.claims, ValidClaim sha o s c.toBody p) {p : Id} (hp : p ∈ sup) :
    ∃ pe ∈ s.backend.allEvents, pe.eventId sha = p ∧ o.Before pe.toBody c.toBody := by
  rcases edges.only p hp with hclaim | ⟨f, hf, hb, hid⟩
  · obtain ⟨pe, hfind, hb⟩ := valid p hclaim
    obtain ⟨hmem, hid⟩ := find_eq_some hfind
    exact ⟨pe, hmem, hid, hb⟩
  · exact ⟨f, (mem_frontier.mp hf).1.1, hid, hb⟩

/-- An admitted event keeps the invariant: its id is new, and its edges lead to what was stored. -/
theorem Inv.commit {sup : List Id} (coordinated : Bool) (h : Inv sha o s)
    (fresh : ∀ e ∈ s.backend.allEvents, e.eventId sha ≠ c.eventId sha)
    (valid : ∀ p ∈ c.claims, ValidClaim sha o s c.toBody p)
    (edges : Supersedes sha o s c sup) :
    Inv sha o (s.countTotal.commit coordinated ⟨c.toBody, sup⟩) where
  idsNodup := by
    rw [backend_commit, InMemoryBackend.allEvents_append, List.map_append, List.nodup_append]
    refine ⟨h.idsNodup, List.nodup_singleton _, ?_⟩
    intro i hi j hj
    obtain ⟨e, he, rfl⟩ := List.mem_map.mp hi
    obtain rfl := List.mem_singleton.mp hj
    exact fresh e he
  earlier pre e post hsplit p hp := by
    rw [backend_commit, InMemoryBackend.allEvents_append] at hsplit
    rcases Log.concat_eq_split_iff.mp hsplit with ⟨rfl, rfl, -⟩ | ⟨post', hold, -⟩
    · -- the event just stored
      exact edges.stored valid hp
    · -- an older event
      exact h.earlier pre e post' hold p hp

theorem Inv.writes {s' : CausalStore Id Key Value Origin Clock} {r : CommitResult Id W}
    (h : Inv sha o s) (hw : Writes sha o s c s' r) : Inv sha o s' := by
  cases hw with
  | duplicate => exact h
  | rejected => exact ⟨h.idsNodup, h.earlier⟩
  | admitted sup coordinated _ fresh valid _ edges => exact h.commit coordinated fresh valid edges

/-- After any calls, by induction on them. -/
theorem inv_run (ho : o.Exhaustive) (calls : List (WriteCall Id Key Value Origin Clock)) :
    Inv sha o ((machine sha o).run calls) :=
  (machine sha o).run_induction Inv.empty (fun _ c h => h.writes (write_cases ho c)) calls

/-! ## The abstract shelf of a key -/

/-- What a key stores and what its frontier holds, as bodies. -/
def shelf (sha : HashInput Key Value Origin Clock → Id)
    (s : CausalStore Id Key Value Origin Clock) (key : Key) :
    Frontier.Shelf (Body Key Value Origin Clock) where
  stored := {b | ∃ e ∈ s.backend.eventsForKey key, e.toBody = b}
  live := {b | ∃ e ∈ s.frontier sha key, e.toBody = b}

theorem shelf_stored_finite (key : Key) : (s.shelf sha key).stored.Finite := by
  have hfin := List.finite_toSet ((s.backend.eventsForKey key).map (·.toBody))
  refine hfin.subset ?_
  intro b hb
  obtain ⟨e, he, rfl⟩ := hb
  exact List.mem_map.mpr ⟨e, he, rfl⟩

theorem shelf_empty (key : Key) :
    ({} : CausalStore Id Key Value Origin Clock).shelf sha key = Frontier.Shelf.empty := by
  apply Frontier.Shelf.ext
  · refine Set.eq_empty_of_forall_notMem fun b hb => ?_
    obtain ⟨e, he, -⟩ := hb
    exact List.not_mem_nil he
  · refine Set.eq_empty_of_forall_notMem fun b hb => ?_
    obtain ⟨e, he, -⟩ := hb
    exact List.not_mem_nil he

/-- The frontier after an admitted write: the new event, and the old frontier without what the
new event comes after. -/
theorem mem_frontier_commit {sup : List Id} (coordinated : Bool) (h : Inv sha o s)
    (fresh : ∀ e ∈ s.backend.allEvents, e.eventId sha ≠ c.eventId sha)
    (valid : ∀ p ∈ c.claims, ValidClaim sha o s c.toBody p)
    (edges : Supersedes sha o s c sup) (key : Key) (e : Event Id Key Value Origin Clock) :
    e ∈ (s.countTotal.commit coordinated ⟨c.toBody, sup⟩).frontier sha key ↔
      (e = ⟨c.toBody, sup⟩ ∧ c.key = key) ∨
      (e ∈ s.frontier sha key ∧ (c.key = key → ¬ o.Before e.toBody c.toBody)) := by
  rw [mem_frontier, mem_frontier, backend_commit, InMemoryBackend.allEvents_append]
  simp only [backend_countTotal, List.mem_append, List.mem_singleton]
  constructor
  · intro hfr
    obtain ⟨⟨hmem | rfl, hkey⟩, hnot⟩ := hfr
    -- what the new event comes after is among its edges, and would be superseded
    · refine Or.inr ⟨⟨⟨hmem, hkey⟩, fun g hg => hnot g (Or.inl hg)⟩, ?_⟩
      intro hck hb
      have hfront : e ∈ s.frontier sha c.key := by
        rw [mem_frontier, hck]
        exact ⟨⟨hmem, hkey⟩, fun g hg => hnot g (Or.inl hg)⟩
      exact hnot ⟨c.toBody, sup⟩ (Or.inr rfl) hck (fresh e hmem).symm
        (edges.ancestors e hfront hb)
    · exact Or.inl ⟨rfl, hkey⟩
  · intro hfr
    rcases hfr with ⟨rfl, hkey⟩ | ⟨⟨⟨hmem, hkey⟩, hnot⟩, hb⟩
    · refine ⟨⟨Or.inr rfl, hkey⟩, ?_⟩
      intro g hg _ hne hsup
      rcases hg with hg | rfl
      · -- an older event cannot have named the new one
        obtain ⟨pe, hpe, hid, -⟩ := h.edge hg hsup
        exact fresh pe hpe hid
      · exact hne rfl
    · refine ⟨⟨Or.inl hmem, hkey⟩, ?_⟩
      intro g hg hgkey hne hsup
      rcases hg with hg | rfl
      · exact hnot g hg hgkey hne hsup
      · obtain ⟨pe, hpe, hid, hbefore⟩ := edges.stored valid hsup
        obtain rfl := h.eq_of_eventId hpe hmem hid
        exact hb hgkey hbefore

/-- **An admitted write enters the shelf of its key**, and no other shelf changes. -/
theorem shelf_commit {sup : List Id} (coordinated : Bool) (h : Inv sha o s)
    (fresh : ∀ e ∈ s.backend.allEvents, e.eventId sha ≠ c.eventId sha)
    (valid : ∀ p ∈ c.claims, ValidClaim sha o s c.toBody p)
    (edges : Supersedes sha o s c sup) (key : Key) :
    (s.countTotal.commit coordinated ⟨c.toBody, sup⟩).shelf sha key =
      if c.key = key then (s.shelf sha key).enter o.Before c.toBody else s.shelf sha key := by
  have hfront := mem_frontier_commit coordinated h fresh valid edges key
  have hevents : ∀ e, e ∈ (s.countTotal.commit coordinated
      ⟨c.toBody, sup⟩).backend.eventsForKey key ↔
      e ∈ s.backend.eventsForKey key ∨ (e = ⟨c.toBody, sup⟩ ∧ c.key = key) := by
    intro e
    rw [InMemoryBackend.mem_eventsForKey, backend_commit, InMemoryBackend.allEvents_append,
      List.mem_append, List.mem_singleton, InMemoryBackend.mem_eventsForKey, backend_countTotal]
    grind
  by_cases hkey : c.key = key
  · rw [if_pos hkey]
    apply Frontier.Shelf.ext
    · ext b
      rw [Frontier.Shelf.mem_enter_stored]
      constructor
      · intro hb
        obtain ⟨e, he, rfl⟩ := hb
        rcases (hevents e).mp he with he | ⟨rfl, -⟩
        · exact Or.inr ⟨e, he, rfl⟩
        · exact Or.inl rfl
      · intro hb
        rcases hb with rfl | ⟨e, he, rfl⟩
        · exact ⟨⟨c.toBody, sup⟩, (hevents _).mpr (Or.inr ⟨rfl, hkey⟩), rfl⟩
        · exact ⟨e, (hevents e).mpr (Or.inl he), rfl⟩
    · ext b
      rw [Frontier.Shelf.mem_enter_live]
      constructor
      · intro hb
        obtain ⟨e, he, rfl⟩ := hb
        rcases (hfront e).mp he with ⟨rfl, -⟩ | ⟨he, hnot⟩
        · exact Or.inl rfl
        · exact Or.inr ⟨⟨e, he, rfl⟩, hnot hkey⟩
      · intro hb
        rcases hb with rfl | ⟨⟨e, he, rfl⟩, hnot⟩
        · exact ⟨⟨c.toBody, sup⟩, (hfront _).mpr (Or.inl ⟨rfl, hkey⟩), rfl⟩
        · exact ⟨e, (hfront e).mpr (Or.inr ⟨he, fun _ => hnot⟩), rfl⟩
  · rw [if_neg hkey]
    apply Frontier.Shelf.ext
    · ext b
      have hsame : ∀ e, e ∈ (s.countTotal.commit coordinated
          ⟨c.toBody, sup⟩).backend.eventsForKey key ↔ e ∈ s.backend.eventsForKey key := by
        intro e
        rw [hevents e]
        simp only [hkey, and_false, or_false]
      exact exists_congr fun e => and_congr_left' (hsame e)
    · ext b
      have hsame : ∀ e, e ∈ (s.countTotal.commit coordinated
          ⟨c.toBody, sup⟩).frontier sha key ↔ e ∈ s.frontier sha key := by
        intro e
        rw [hfront e]
        simp only [hkey, and_false, false_or, false_imp_iff, and_true]
      exact exists_congr fun e => and_congr_left' (hsame e)

/-! ## Over a strict partial order -/

/-- A state whose log is sound and whose every frontier is the set of maximal stored bodies. -/
structure Sound (sha : HashInput Key Value Origin Clock → Id)
    (o : Ordering (Body Key Value Origin Clock) W) (s : CausalStore Id Key Value Origin Clock) :
    Prop where
  inv : Inv sha o s
  kept : ∀ key, Frontier.Kept o.Before (s.shelf sha key)

theorem Sound.empty : Sound sha o ({} : CausalStore Id Key Value Origin Clock) where
  inv := .empty
  kept key := by
    rw [shelf_empty]
    exact .empty

/-- **One write keeps the frontier maximal.** -/
theorem Sound.writes (ho : o.Lawful) {s' : CausalStore Id Key Value Origin Clock}
    {r : CommitResult Id W} (h : Sound sha o s) (hw : Writes sha o s c s' r) : Sound sha o s' where
  inv := h.inv.writes hw
  kept key := by
    have := ho.strict
    cases hw with
    | duplicate => exact h.kept key
    | rejected => exact h.kept key
    | admitted sup coordinated _ fresh valid current edges =>
        rw [shelf_commit coordinated h.inv fresh valid edges]
        split
        · next hkey =>
            refine (h.kept key).enter ?_
            intro hdom
            obtain ⟨f, ⟨e, he, rfl⟩, hb⟩ := hdom
            exact current ⟨e, hkey ▸ he, hb⟩
        · exact h.kept key

theorem sound_run (ho : o.Lawful) (calls : List (WriteCall Id Key Value Origin Clock)) :
    Sound sha o ((machine sha o).run calls) :=
  (machine sha o).run_induction Sound.empty
    (fun _ c h => h.writes ho (write_cases ho.exhaustive c)) calls

/-- A stored event of the key that no stored event of the key is after. -/
def MaximalEvent (o : Ordering (Body Key Value Origin Clock) W)
    (s : CausalStore Id Key Value Origin Clock) (key : Key)
    (e : Event Id Key Value Origin Clock) : Prop :=
  e ∈ s.backend.eventsForKey key ∧
    ∀ g ∈ s.backend.eventsForKey key, ¬ o.Before e.toBody g.toBody

/-- What the shelf says of bodies holds of the events that carry them. -/
theorem Sound.mem_frontier_iff (h : Sound sha o s) {key : Key}
    {e : Event Id Key Value Origin Clock} :
    e ∈ s.frontier sha key ↔ MaximalEvent o s key e := by
  have hlive := (h.kept key).live_eq
  constructor
  · intro he
    have hmax : e.toBody ∈ (s.shelf sha key).live := ⟨e, he, rfl⟩
    rw [hlive] at hmax
    refine ⟨InMemoryBackend.mem_eventsForKey.mpr (mem_frontier.mp he).1, ?_⟩
    intro g hg
    exact hmax.2 g.toBody ⟨g, hg, rfl⟩
  · intro he
    obtain ⟨hmem, hmax⟩ := he
    have hbody : e.toBody ∈ (s.shelf sha key).live := by
      rw [hlive]
      refine ⟨⟨e, hmem, rfl⟩, ?_⟩
      intro b hb
      obtain ⟨g, hg, rfl⟩ := hb
      exact hmax g hg
    -- the frontier event with this body is `e`, since ids are not repeated
    obtain ⟨f, hf, hfe⟩ := hbody
    have hid : f.eventId sha = e.eventId sha := congrArg (Body.eventId sha) hfe
    obtain rfl := h.inv.eq_of_eventId (mem_frontier.mp hf).1.1
      (InMemoryBackend.mem_eventsForKey.mp hmem).1 hid
    exact hf

/-- It is enough to look at the frontier: what is before a stored event is before a maximal one. -/
theorem Sound.dominated_iff (ho : o.Lawful) (h : Sound sha o s)
    {b : Body Key Value Origin Clock} :
    Dominated sha o s b ↔ ∃ g ∈ s.backend.eventsForKey b.key, o.Before b g.toBody := by
  have := ho.strict
  have hiff := (h.kept b.key).dominated_iff (x := b)
  constructor
  · intro hdom
    obtain ⟨f, hf, hb⟩ := hdom
    obtain ⟨_, ⟨g, hg, rfl⟩, hbg⟩ := hiff.mp ⟨f.toBody, ⟨f, hf, rfl⟩, hb⟩
    exact ⟨g, hg, hbg⟩
  · intro hdom
    obtain ⟨g, hg, hb⟩ := hdom
    obtain ⟨_, ⟨f, hf, rfl⟩, hbf⟩ := hiff.mpr ⟨g.toBody, ⟨g, hg, rfl⟩, hb⟩
    exact ⟨f, hf, hbf⟩

/-! ## Reading -/

theorem status_eq_empty {key : Key} :
    (s.read sha key).status = .empty ↔ s.frontier sha key = [] := by
  rw [status_read]
  rcases s.frontier sha key with _ | ⟨f, _ | ⟨g, fs⟩⟩ <;> simp

theorem status_eq_resolved {key : Key} :
    (s.read sha key).status = .resolved ↔ ∃ f, s.frontier sha key = [f] := by
  rw [status_read]
  rcases s.frontier sha key with _ | ⟨f, _ | ⟨g, fs⟩⟩ <;> simp

theorem Inv.frontier_nodup (h : Inv sha o s) (key : Key) : (s.frontier sha key).Nodup := by
  have hall : s.backend.allEvents.Nodup := List.Nodup.of_map _ h.idsNodup
  unfold frontier
  dsimp only [InMemoryBackend.eventsForKey]
  rw [s.backend.byKey_eq]
  exact (hall.filter _).filter _

theorem Inv.status_eq_resolved_iff (h : Inv sha o s) {key : Key} :
    (s.read sha key).status = .resolved ↔ ∃! e, e ∈ s.frontier sha key := by
  rw [status_eq_resolved]
  constructor
  · intro hf
    obtain ⟨f, hf⟩ := hf
    rw [hf]
    exact ⟨f, List.mem_singleton_self f, fun g hg => List.mem_singleton.mp hg⟩
  · intro hf
    obtain ⟨f, hmem, huniq⟩ := hf
    refine ⟨f, List.perm_singleton.mp ?_⟩
    rw [List.perm_ext_iff_of_nodup (h.frontier_nodup key) (List.nodup_singleton f)]
    intro g
    rw [List.mem_singleton]
    exact ⟨huniq g, fun hg => hg ▸ hmem⟩

/-! ## Whole runs -/

/-- No two of these bodies share an event id. -/
def CollisionFree (sha : HashInput Key Value Origin Clock → Id)
    (bs : List (Body Key Value Origin Clock)) : Prop :=
  ∀ b ∈ bs, ∀ b' ∈ bs, b.eventId sha = b'.eventId sha → b = b'

omit [DecidableEq Id] [DecidableEq Key] in
theorem CollisionFree.subset {bs bs' : List (Body Key Value Origin Clock)}
    (h : CollisionFree sha bs') (hsub : bs ⊆ bs') : CollisionFree sha bs :=
  fun b hb b' hb' => h b (hsub hb) b' (hsub hb')

omit [DecidableEq Id] [DecidableEq Key] in
/-- A hash without collisions gives different ids to different bodies. -/
theorem CollisionFree.of_injective (h : Function.Injective sha)
    (bs : List (Body Key Value Origin Clock)) : CollisionFree sha bs := by
  intro b _ b' _ hid
  have hinput := h hid
  simp only [HashInput.mk.injEq, Payload.mk.injEq] at hinput
  obtain ⟨⟨hkey, hvalue⟩, horigin, hclock⟩ := hinput
  cases b
  cases b'
  simp_all

/-- A write adds at most one event to the log. -/
theorem Writes.allEvents_cases {s' : CausalStore Id Key Value Origin Clock}
    {r : CommitResult Id W} (hw : Writes sha o s c s' r) :
    s'.backend.allEvents = s.backend.allEvents ∨
      ∃ e, s'.backend.allEvents = s.backend.allEvents ++ [e] := by
  cases hw with
  | duplicate => exact Or.inl rfl
  | rejected => exact Or.inl rfl
  | admitted sup coordinated =>
      refine Or.inr ⟨⟨c.toBody, sup⟩, ?_⟩
      rw [backend_commit, InMemoryBackend.allEvents_append]
      rfl

/-- The log only grows. -/
theorem Writes.allEvents_grows {s' : CausalStore Id Key Value Origin Clock}
    {r : CommitResult Id W} (hw : Writes sha o s c s' r) :
    s.backend.allEvents <+: s'.backend.allEvents := by
  rcases hw.allEvents_cases with hsame | ⟨e, hgrown⟩
  · rw [hsame]
  · rw [hgrown]
    exact List.prefix_append _ _

theorem next_allEvents (ho : o.Exhaustive) (s : CausalStore Id Key Value Origin Clock)
    (c : WriteCall Id Key Value Origin Clock) :
    ((machine sha o).next s c).backend.allEvents = s.backend.allEvents ∨
      ∃ e, ((machine sha o).next s c).backend.allEvents = s.backend.allEvents ++ [e] :=
  (write_cases ho c).allEvents_cases

theorem allEvents_run_grows (ho : o.Exhaustive)
    {pre calls : List (WriteCall Id Key Value Origin Clock)} (hpre : pre <+: calls) :
    ((machine sha o).run pre).backend.allEvents <+:
      ((machine sha o).run calls).backend.allEvents := by
  obtain ⟨post, rfl⟩ := hpre
  rw [Machine.run_append]
  refine (machine sha o).runFrom_induction (s := (machine sha o).run pre)
    (P := fun s' => ((machine sha o).run pre).backend.allEvents <+: s'.backend.allEvents)
    (List.prefix_refl _) ?_ post
  intro s' c h
  exact h.trans (write_cases ho c).allEvents_grows

/-- Everything stored was written, by induction on the calls. -/
theorem exists_call_of_stored (ho : o.Exhaustive)
    (calls : List (WriteCall Id Key Value Origin Clock)) :
    ∀ e ∈ ((machine sha o).run calls).backend.allEvents, ∃ c ∈ calls, c.toBody = e.toBody := by
  induction calls using List.reverseRecOn with
  | nil =>
      intro e he
      cases he
  | append_singleton calls c ih =>
      intro e he
      have hold : ∀ e ∈ ((machine sha o).run calls).backend.allEvents,
          ∃ c' ∈ calls ++ [c], c'.toBody = e.toBody := by
        intro e he
        obtain ⟨c', hc', hbody⟩ := ih e he
        exact ⟨c', List.mem_append_left _ hc', hbody⟩
      rw [Machine.run_concat] at he
      have hw := writes_next sha ho ((machine sha o).run calls) c
      generalize (machine sha o).next ((machine sha o).run calls) c = s' at hw he
      generalize (machine sha o).answer ((machine sha o).run calls) c = r at hw
      cases hw with
      | duplicate => exact hold e he
      | rejected => exact hold e he
      | admitted sup coordinated =>
          rw [backend_commit, InMemoryBackend.allEvents_append] at he
          rcases List.mem_append.mp he with he | he
          · exact hold e he
          · obtain rfl := List.mem_singleton.mp he
            exact ⟨c, List.mem_append_right _ (List.mem_singleton_self c), rfl⟩

/-- A key stores something exactly when some write of it was answered with `ADMITTED`. -/
theorem stored_iff_admitted (ho : o.Exhaustive)
    (calls : List (WriteCall Id Key Value Origin Clock))
    (hsha : CollisionFree sha (calls.map (·.toBody))) (key : Key) :
    (∃ e, e ∈ ((machine sha o).run calls).backend.eventsForKey key) ↔
      ∃ t ∈ (machine sha o).trace calls, t.call.key = key ∧ t.answer.verdict = .admitted := by
  induction calls using List.reverseRecOn with
  | nil =>
      constructor
      · intro h
        obtain ⟨e, he⟩ := h
        cases he
      · intro h
        obtain ⟨t, ht, -⟩ := h
        cases ht
  | append_singleton calls c ih =>
      have hsub : calls.map (·.toBody) ⊆ (calls ++ [c]).map (·.toBody) := by
        rw [List.map_append]
        exact List.subset_append_left _ _
      have hc : c.toBody ∈ (calls ++ [c]).map (·.toBody) := by simp
      specialize ih (hsha.subset hsub)
      rw [Machine.run_concat, Machine.trace_concat]
      simp only [List.mem_append, List.mem_singleton, or_and_right, exists_or, exists_eq_left]
      rw [← ih]
      have hw := writes_next sha ho ((machine sha o).run calls) c
      generalize (machine sha o).next ((machine sha o).run calls) c = s' at hw ⊢
      generalize (machine sha o).answer ((machine sha o).run calls) c = r at hw ⊢
      cases hw with
      | duplicate e _ mem same answer =>
          -- the retried event is the one stored under this id
          obtain ⟨c', hc', hbody⟩ := exists_call_of_stored ho calls e mem
          have he : e.toBody = c.toBody := by
            rw [← hbody] at same ⊢
            exact hsha _ (hsub (List.mem_map.mpr ⟨c', hc', rfl⟩)) _ hc same
          constructor
          · exact Or.inl
          · intro h
            rcases h with h | ⟨hkey, -⟩
            · exact h
            · refine ⟨e, InMemoryBackend.mem_eventsForKey.mpr ⟨mem, ?_⟩⟩
              rw [he]
              exact hkey
      | rejected w =>
          constructor
          · exact Or.inl
          · intro h
            rcases h with h | ⟨-, hverdict⟩
            · exact h
            · cases hverdict
      | admitted sup coordinated _ _ _ _ _ verdict =>
          have hnew : ∀ e, e ∈ (((machine sha o).run calls).countTotal.commit coordinated
              ⟨c.toBody, sup⟩).backend.eventsForKey key ↔
              e ∈ ((machine sha o).run calls).backend.eventsForKey key ∨
                (e = ⟨c.toBody, sup⟩ ∧ e.key = key) := by
            intro e
            simp only [InMemoryBackend.mem_eventsForKey, backend_commit,
              InMemoryBackend.allEvents_append, backend_countTotal, List.mem_append,
              List.mem_singleton, or_and_right]
          simp only [hnew, exists_or, exists_eq_left, verdict, and_true]

/-! ## The law -/

/-- **The frontier law.** Over any strict partial order and after any calls whatever, the frontier
of a key is the set of its maximal stored events. Hence what `read` reports, why an event leaves
the frontier, and when a write that claims nothing is refused. -/
theorem frontier_law (ho : o.Lawful) (calls : List (WriteCall Id Key Value Origin Clock))
    (hsha : CollisionFree sha (calls.map (·.toBody))) (key : Key) :
    let s := (machine sha o).run calls
    (∀ e, e ∈ s.frontier sha key ↔ MaximalEvent o s key e) ∧
    ((s.read sha key).status = .empty ↔
      ¬ ∃ t ∈ (machine sha o).trace calls, t.call.key = key ∧ t.answer.verdict = .admitted) ∧
    ((s.read sha key).status = .resolved ↔ ∃! e, MaximalEvent o s key e) ∧
    (∀ cands, s.read sha key = .conflict key cands →
      cands = (s.frontier sha key).map (candidate sha) ∧
      ∀ e ∈ s.frontier sha key, ∀ g ∈ s.frontier sha key, ¬ o.Before e.toBody g.toBody) ∧
    (∀ pre, pre <+: calls → ∀ e ∈ ((machine sha o).run pre).frontier sha key,
      e ∉ s.frontier sha key → ∃ g ∈ s.backend.eventsForKey key, o.Before e.toBody g.toBody) ∧
    (∀ c : WriteCall Id Key Value Origin Clock, c.claims = [] →
      (∀ e ∈ s.backend.allEvents, e.eventId sha ≠ c.eventId sha) →
      ((s.write sha o c).2.verdict = .rejected ↔
        ∃ g ∈ s.backend.eventsForKey c.key, o.Before c.toBody g.toBody)) := by
  intro s
  have hs : Sound sha o s := sound_run ho calls
  refine ⟨fun e => hs.mem_frontier_iff, ?_, ?_, ?_, ?_, ?_⟩
  · -- an empty frontier is an empty key
    rw [status_eq_empty, ← stored_iff_admitted ho.exhaustive calls hsha]
    constructor
    · intro hnil hne
      have := ho.strict
      have hbodies : (s.shelf sha key).stored.Nonempty := by
        obtain ⟨e, he⟩ := hne
        exact ⟨e.toBody, e, he, rfl⟩
      obtain ⟨b, hb⟩ := Frontier.maximal_nonempty (r := o.Before) (shelf_stored_finite key) hbodies
      rw [← (hs.kept key).live_eq] at hb
      obtain ⟨f, hf, -⟩ := hb
      rw [hnil] at hf
      cases hf
    · intro hnone
      rw [List.eq_nil_iff_forall_not_mem]
      intro e he
      exact hnone ⟨e, (hs.mem_frontier_iff.mp he).1⟩
  · rw [hs.inv.status_eq_resolved_iff]
    simp only [hs.mem_frontier_iff]
  · intro cands hread
    refine ⟨?_, ?_⟩
    · rw [← candidates_read, hread]
      rfl
    · intro e he g hg
      exact (hs.mem_frontier_iff.mp he).2 g (hs.mem_frontier_iff.mp hg).1
  · intro pre hpre e he hgone
    have hmem := (mem_frontier.mp he).1
    rw [hs.mem_frontier_iff] at hgone
    -- what is still stored and has nothing after it would still be in the frontier
    by_contra hnone
    push Not at hnone
    apply hgone
    refine ⟨InMemoryBackend.mem_eventsForKey.mpr ⟨?_, hmem.2⟩, hnone⟩
    exact (allEvents_run_grows ho.exhaustive hpre).subset hmem.1
  · intro c hclaims hfresh
    rw [← hs.dominated_iff ho]
    have hw : Writes sha o s c (s.write sha o c).1 (s.write sha o c).2 :=
      write_cases ho.exhaustive c
    generalize (s.write sha o c).1 = s' at hw
    generalize (s.write sha o c).2 = r at hw ⊢
    cases hw with
    | duplicate e _ mem same => exact absurd same (hfresh e mem)
    | rejected w _ why =>
        rcases why with ⟨p, hp, -⟩ | ⟨-, hdom⟩
        · rw [hclaims] at hp
          cases hp
        · exact ⟨fun _ => hdom, fun _ => rfl⟩
    | admitted _ _ _ _ _ current _ verdict =>
        rw [verdict]
        exact ⟨fun h => Verdict.noConfusion h, fun h => absurd h current⟩

/-! ### A run under vector clocks -/

/-- Events ordered by their vector clocks. -/
abbrev logicalEvents : Ordering (Body Nat Nat Nat (VClock Nat)) (VClock Nat × VClock Nat) :=
  logicalOrdering.comap Body.clock

/-- A value, its successor, and a late write that carries the first clock again. -/
def staleCalls : List (WriteCall (HashInput Nat Nat Nat (VClock Nat)) Nat Nat Nat (VClock Nat)) :=
  [{ key := 0, value := 1, originNode := 0, clock := Finmap.singleton 0 1 },
   { key := 0, value := 2, originNode := 0, clock := Finmap.singleton 0 2 },
   { key := 0, value := 3, originNode := 0, clock := Finmap.singleton 0 1 }]

/-- The late write is refused, and the successor stays the only maximal event. -/
theorem frontier_law_stale :
    ∃! e, MaximalEvent logicalEvents ((machine id logicalEvents).run staleCalls) 0 e :=
  (frontier_law (logicalOrdering_lawful.comap Body.clock) staleCalls
    (.of_injective Function.injective_id _) 0).2.2.1.mp (by decide)

end HorizonProtocol.CausalStore
