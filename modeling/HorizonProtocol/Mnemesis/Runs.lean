import HorizonProtocol.Mnemesis.Stale

/-!
# What every run of the memory keeps

Both entry points come to at most one `put` (`submission`), and a `put` leaves what is stored alone
or records one valid write. So everything stored stays, and predecessors are stored first.

* `next_cases` — one call, over any ordering at all.
* `memory_run` — the log, the index, the predecessor graph and the audit trail over whole runs.
-/

namespace HorizonProtocol.Mnemesis.CausalMemory

variable {Wid Key Value Observer Clock W : Type} [DecidableEq Wid] [DecidableEq Key]
variable {digest : WidInput Wid Key Value Observer Clock → Wid} {o : Ordering Clock W}
variable {s : CausalMemory Wid Key Value Observer Clock W}
variable {v w : Write Wid Key Value Observer Clock} {key : Key}

/-! ## One call -/

/-- The `put` a call comes to: its own, the one a resolution makes, or none when the chosen write is
no candidate. -/
def submission (digest : WidInput Wid Key Value Observer Clock → Wid)
    (s : CausalMemory Wid Key Value Observer Clock W) :
    Call Wid Key Value Observer Clock → Option (Write Wid Key Value Observer Clock)
  | .put w => some w
  | .resolve key chosenWid observer clock =>
      ((s.frontier digest key).find? fun w => decide (w.wid digest = chosenWid)).map fun chosen =>
        { key, value := chosen.value, observer, clock,
          preds := (s.frontier digest key).map fun w => w.wid digest }

theorem next_submission (call : Call Wid Key Value Observer Clock) :
    (machine digest o).next s call =
      match s.submission digest call with
      | none => s
      | some w => (s.put digest o w).1 := by
  cases call with
  | put w => rfl
  | resolve key chosenWid observer clock =>
      show (s.resolve digest o key chosenWid observer clock).1 = _
      simp only [resolve, submission]
      cases (s.frontier digest key).find? fun w => decide (w.wid digest = chosenWid) <;> rfl

/-- A call leaves what is stored alone, or records one valid write. -/
theorem next_cases (call : Call Wid Key Value Observer Clock) :
    ((machine digest o).next s call).writes = s.writes ∨
      ∃ w, Accepts digest o s w ∧ (machine digest o).next s call = s.record digest w := by
  rw [next_submission]
  cases s.submission digest call with
  | none => exact Or.inl rfl
  | some w =>
      dsimp only
      have hput := s.put_cases digest o w
      generalize (s.put digest o w).1 = s' at hput ⊢
      generalize (s.put digest o w).2 = r at hput
      cases hput with
      | retry _ => exact Or.inl rfl
      | refused _ _ => exact Or.inl rfl
      | stored ok => exact Or.inr ⟨w, ok, rfl⟩

/-- What is stored stays as it is. -/
theorem next_writes {i : Wid} (call : Call Wid Key Value Observer Clock)
    (hv : s.writes i = some v) : ((machine digest o).next s call).writes i = some v := by
  rcases next_cases (o := o) call with hsame | ⟨w, ok, heq⟩
  · rw [hsame]
    exact hv
  · rw [heq]
    exact writes_record ok.fresh hv

theorem run_writes {pre calls : List (Call Wid Key Value Observer Clock)} (hpre : pre <+: calls)
    {i : Wid} (hv : ((machine digest o).run pre).writes i = some v) :
    ((machine digest o).run calls).writes i = some v := by
  obtain ⟨post, rfl⟩ := hpre
  rw [Machine.run_append]
  exact (machine digest o).runFrom_induction
    (P := fun s => s.writes i = some v) hv (fun _ call h => next_writes call h) post

/-- A refused `put` leaves the record it answers with. -/
theorem put_rejected (hrej : (s.put digest o w).2.verdict = .rejected) :
    ∃ rejection, s.put digest o w =
      ({ s with rejections := s.rejections ++ [rejection] }, .rejected rejection) := by
  unfold put at hrej ⊢
  cases hw : s.writes (w.wid digest) with
  | some existing =>
      rw [hw] at hrej
      cases hrej
  | none =>
      rw [hw] at hrej
      dsimp only at hrej ⊢
      cases hc : s.checkPreds digest o w w.preds with
      | none =>
          rw [hc] at hrej
          cases hrej
      | some rejection => exact ⟨rejection, rfl⟩

/-- Content is all a retry needs: the claims count as a set. -/
theorem put_retry (hv : s.writes (v.wid digest) = some v) (hcontent : w.content = v.content) :
    s.put digest o w = (s, .admitted (v.wid digest) (v.provenance digest)) := by
  have hid : w.wid digest = v.wid digest := congrArg digest hcontent
  unfold put
  rw [hid, hv]

/-! ## Predecessors -/

/-- The stored write `i` names `j` as a predecessor. -/
def Names (s : CausalMemory Wid Key Value Observer Clock W) (i j : Wid) : Prop :=
  ∃ w, s.writes i = some w ∧ j ∈ w.preds

/-- Whatever a stored write names was stored in an earlier state, and is before it. -/
theorem stored_earlier (calls : List (Call Wid Key Value Observer Clock)) {i p : Wid}
    (hw : ((machine digest o).run calls).writes i = some w) (hp : p ∈ w.preds) :
    ∃ pre, pre <+: calls ∧ ((machine digest o).run pre).writes i = none ∧
      ∃ v, ((machine digest o).run pre).writes p = some v ∧ o.Before v.clock w.clock := by
  induction calls using List.reverseRecOn with
  | nil => cases hw
  | append_singleton calls call ih =>
      have hold : ((machine digest o).run calls).writes i = some w →
          ∃ pre, pre <+: calls ++ [call] ∧ ((machine digest o).run pre).writes i = none ∧
            ∃ v, ((machine digest o).run pre).writes p = some v ∧ o.Before v.clock w.clock := by
        intro hw
        obtain ⟨pre, hpre, hrest⟩ := ih hw
        exact ⟨pre, hpre.trans (List.prefix_append _ _), hrest⟩
      rw [Machine.run_concat] at hw
      rcases next_cases (o := o) call with hsame | ⟨u, ok, heq⟩
      · rw [hsame] at hw
        exact hold hw
      · rw [heq] at hw
        rcases (writes_record_iff ok.fresh).mp hw with ⟨rfl, rfl⟩ | hw
        · -- the write just recorded
          exact ⟨calls, List.prefix_append _ _, ok.fresh, ok.valid p hp⟩
        · exact hold hw

/-- Predecessors have a lower rank than what names them. -/
theorem exists_rank (calls : List (Call Wid Key Value Observer Clock)) :
    ∃ rank : Wid → Nat, ∀ i j, Names ((machine digest o).run calls) i j → rank j < rank i := by
  induction calls using List.reverseRecOn with
  | nil =>
      refine ⟨fun _ => 0, fun i j h => ?_⟩
      obtain ⟨w, hw, -⟩ := h
      cases hw
  | append_singleton calls call ih =>
      obtain ⟨rank, hrank⟩ := ih
      rw [Machine.run_concat]
      rcases next_cases (o := o) call with hsame | ⟨u, ok, heq⟩
      · refine ⟨rank, fun i j h => hrank i j ?_⟩
        obtain ⟨w, hw, hj⟩ := h
        exact ⟨w, hsame ▸ hw, hj⟩
      · -- the new write goes above everything it names
        rw [heq]
        refine ⟨Function.update rank (u.wid digest) ((u.preds.map rank).sum + 1), ?_⟩
        intro i j h
        obtain ⟨w, hw, hj⟩ := h
        have hjold : ∃ x, ((machine digest o).run calls).writes j = some x := by
          rcases (writes_record_iff ok.fresh).mp hw with ⟨-, rfl⟩ | hw
          · obtain ⟨x, hx, -⟩ := ok.valid j hj
            exact ⟨x, hx⟩
          · obtain ⟨x, hx, -⟩ := (inv_run calls).valid i w hw j hj
            exact ⟨x, hx⟩
        have hjne : j ≠ u.wid digest := by
          rintro rfl
          obtain ⟨x, hx⟩ := hjold
          rw [ok.fresh] at hx
          cases hx
        rw [Function.update_of_ne hjne]
        rcases (writes_record_iff ok.fresh).mp hw with ⟨rfl, rfl⟩ | hw
        · rw [Function.update_self]
          exact Nat.lt_succ_of_le (List.le_sum_of_mem (List.mem_map_of_mem hj))
        · have hine : i ≠ u.wid digest := by
            rintro rfl
            rw [ok.fresh] at hw
            cases hw
          rw [Function.update_of_ne hine]
          exact hrank i j ⟨w, hw, hj⟩

/-! ## Runs -/

/-- **What a memory keeps over any calls whatever**, for any ordering and any digest. -/
theorem memory_run (calls : List (Call Wid Key Value Observer Clock)) :
    let M := machine digest o
    let s := M.run calls
    -- nothing stored is removed or altered
    (∀ pre, pre <+: calls → ∀ i w, (M.run pre).writes i = some w → s.writes i = some w) ∧
    -- every id is listed once, under the key of its write
    (∀ i w, s.writes i = some w → w.wid digest = i ∧ (s.byKey w.key).count i = 1 ∧
      ∀ k, k ≠ w.key → i ∉ s.byKey k) ∧
    (∀ k, ∀ i ∈ s.byKey k, ∃ w, s.writes i = some w ∧ w.key = k) ∧
    -- predecessors are stored earlier and are before
    (∀ i w, s.writes i = some w → ∀ p ∈ w.preds, ∃ pre, pre <+: calls ∧
      (M.run pre).writes i = none ∧
      ∃ v, (M.run pre).writes p = some v ∧ o.Before v.clock w.clock) ∧
    (∀ i, ¬ Relation.TransGen (Names s) i i) ∧
    -- a key that stores something shows something
    (∀ i w, s.writes i = some w → s.frontier digest w.key ≠ []) ∧
    -- a refused put leaves its record and nothing else
    (∀ w, (s.put digest o w).2.verdict = .rejected → ∃ rejection,
      s.put digest o w = ({ s with rejections := s.rejections ++ [rejection] },
        .rejected rejection)) ∧
    -- a retry with the same claims, in any order and with repeats, gets the write that is stored
    (∀ i v w, s.writes i = some v → w.key = v.key → w.value = v.value →
      w.observer = v.observer → w.clock = v.clock → (∀ p, p ∈ w.preds ↔ p ∈ v.preds) →
      s.put digest o w = (s, .admitted i (v.provenance digest))) := by
  intro M s
  have h : Inv digest o s := inv_run calls
  have hranked : ∃ rank : Wid → Nat, ∀ i j, Names s i j → rank j < rank i := exists_rank calls
  obtain ⟨rank, hrank⟩ := hranked
  refine ⟨fun pre hpre i w => run_writes hpre, ?_, fun k i => (h.listed k i).mp,
    fun i w hw p => stored_earlier calls hw, ?_, ?_, ?_, ?_⟩
  · intro i w hw
    refine ⟨h.wid_eq i w hw, ?_, ?_⟩
    · exact List.count_eq_one_of_mem (h.listed_nodup _) ((h.listed _ i).mpr ⟨w, hw, rfl⟩)
    · intro k hk hin
      obtain ⟨v, hv, hkey⟩ := (h.listed k i).mp hin
      obtain rfl : v = w := Option.some_inj.mp (hv.symm.trans hw)
      exact hk hkey.symm
  · have hacy : Frontier.AcyclicOn (fun j i => Names s i j) Set.univ :=
      .of_rank rank fun j _ i _ => hrank i j
    intro i hcycle
    exact hacy.not_transGen i (Relation.transGen_swap.mpr hcycle)
  · -- a write of the highest rank is named by none
    intro i w hw
    have hmem : w ∈ s.writesForKey w.key := by
      rw [h.mem_writesForKey, h.wid_eq i w hw]
      exact ⟨hw, rfl⟩
    have hacy : Frontier.AcyclicOn (NamedBy digest) {v | v ∈ s.writesForKey w.key} := by
      apply Frontier.AcyclicOn.of_rank fun v => rank (v.wid digest)
      intro u _ v hv hnamed
      exact hrank _ _ ⟨v, (h.mem_writesForKey.mp hv).1, hnamed.2⟩
    obtain ⟨f, hf⟩ := hacy.maximal_nonempty (List.finite_toSet _) ⟨w, hmem⟩
    exact List.ne_nil_of_mem (mem_frontier_iff.mpr hf)
  · exact fun w => put_rejected
  · intro i v w hv hkey hvalue hobserver hclock hclaims
    obtain rfl := h.wid_eq i v hv
    have hpreds : w.preds.toFinset = v.preds.toFinset := by
      apply Finset.ext
      intro p
      rw [List.mem_toFinset, List.mem_toFinset]
      exact hclaims p
    refine put_retry hv ?_
    unfold Write.content
    rw [hkey, hvalue, hobserver, hclock, hpreds]

end HorizonProtocol.Mnemesis.CausalMemory
