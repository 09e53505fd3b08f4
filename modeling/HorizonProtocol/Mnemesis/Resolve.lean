import HorizonProtocol.Mnemesis.Delivery
import HorizonProtocol.Mnemesis.Runs

/-!
# Explicit resolution

`CausalMemory.resolve` is a `put` that names all candidates of a key and repeats the value of the
chosen one, and takes the exits of a `put` with it. It is never a retry: a stored write with the
content of a resolution would name the candidates, which no stored write does
(`not_stored_of_frontier`). So it leaves one candidate or is refused.

* `resolve_settles` — a resolution settles its key and nothing else.
-/

namespace HorizonProtocol.Mnemesis.CausalMemory

variable {Wid Key Value Observer Clock W : Type} [DecidableEq Wid]
variable {digest : WidInput Wid Key Value Observer Clock → Wid} {o : Ordering Clock W}
variable {s : CausalMemory Wid Key Value Observer Clock W}
variable {v w : Write Wid Key Value Observer Clock} {key : Key}

/-- The write a resolution puts. -/
def resolution (digest : WidInput Wid Key Value Observer Clock → Wid)
    (s : CausalMemory Wid Key Value Observer Clock W) (key : Key)
    (chosen : Write Wid Key Value Observer Clock) (observer : Observer) (clock : Clock) :
    Write Wid Key Value Observer Clock where
  key := key
  value := chosen.value
  observer := observer
  clock := clock
  preds := (s.frontier digest key).map fun w => w.wid digest

/-- No stored write of other content has the id of this one. -/
def NoCollision (digest : WidInput Wid Key Value Observer Clock → Wid)
    (s : CausalMemory Wid Key Value Observer Clock W)
    (w : Write Wid Key Value Observer Clock) : Prop :=
  ∀ v, s.writes (w.wid digest) = some v → v.content = w.content

/-! ## Reads -/

/-- Reads are made of the stored writes and the index. -/
theorem get_congr {s' : CausalMemory Wid Key Value Observer Clock W}
    (hwrites : s'.writesForKey key = s.writesForKey key) :
    s'.get digest key = s.get digest key := by
  unfold get frontier
  rw [hwrites]

theorem get_of_frontier (h : s.frontier digest key = [w]) :
    s.get digest key = .resolved key w.value (w.provenance digest) := by
  unfold get
  rw [h]

variable [DecidableEq Key]

/-- A write that names every candidate of its key is left as the only one. -/
theorem Inv.frontier_record_of_names_all (h : Inv digest o s) (ok : Accepts digest o s w)
    (hall : ∀ f ∈ s.frontier digest w.key, f.wid digest ∈ w.preds) :
    (s.record digest w).frontier digest w.key = [w] := by
  have hmem : ∀ v, v ∈ (s.record digest w).frontier digest w.key ↔ v = w := by
    intro v
    rw [h.mem_frontier_record ok]
    constructor
    · rintro (⟨-, rfl⟩ | ⟨hv, hnot⟩)
      · rfl
      · exact absurd (hall v hv) (hnot rfl)
    · exact fun hv => Or.inl ⟨rfl, hv⟩
  have hnodup : ((s.record digest w).frontier digest w.key).Nodup :=
    ((h.record ok).writesForKey_nodup _).filter _
  apply List.perm_singleton.mp
  rw [List.perm_ext_iff_of_nodup hnodup (List.nodup_singleton w)]
  simpa using hmem

/-! ## No retry -/

/-- **No stored write names a candidate of its key**, not even itself. -/
theorem not_stored_of_frontier (calls : List (Call Wid Key Value Observer Clock))
    {f : Write Wid Key Value Observer Clock}
    (hf : f ∈ ((machine digest o).run calls).frontier digest key)
    (hv : v ∈ ((machine digest o).run calls).writesForKey key) : f.wid digest ∉ v.preds := by
  intro hnamed
  have h : Inv digest o ((machine digest o).run calls) := inv_run calls
  obtain ⟨-, hmax⟩ := mem_frontier_iff.mp hf
  by_cases hid : v.wid digest = f.wid digest
  · -- a write that names itself has no rank
    have hranked : ∃ rank : Wid → Nat, ∀ i j, Names ((machine digest o).run calls) i j →
        rank j < rank i := exists_rank calls
    obtain ⟨rank, hrank⟩ := hranked
    have hself := hrank (v.wid digest) (v.wid digest)
      ⟨v, (h.mem_writesForKey.mp hv).1, hid ▸ hnamed⟩
    exact lt_irrefl _ hself
  · exact hmax v hv ⟨hid, hnamed⟩

/-! ## One resolution -/

/-- A resolution is refused for want of a candidate, or is the `put` of its write. -/
theorem resolve_eq (digest : WidInput Wid Key Value Observer Clock → Wid) (o : Ordering Clock W)
    (s : CausalMemory Wid Key Value Observer Clock W) (key : Key) (chosenWid : Wid)
    (observer : Observer) (clock : Clock) :
    s.resolve digest o key chosenWid observer clock = (s, .notAFrontierCandidate key chosenWid) ∨
    ∃ chosen ∈ s.frontier digest key, chosen.wid digest = chosenWid ∧
      s.resolve digest o key chosenWid observer clock =
        s.put digest o (s.resolution digest key chosen observer clock) := by
  unfold resolve
  cases hfind : (s.frontier digest key).find? fun w => decide (w.wid digest = chosenWid) with
  | none => exact Or.inl rfl
  | some chosen =>
      have hid := List.find?_some hfind
      rw [decide_eq_true_eq] at hid
      exact Or.inr ⟨chosen, List.mem_of_find?_eq_some hfind, hid, rfl⟩

/-- Nothing of the content of a resolution is stored yet. -/
theorem resolution_fresh (calls : List (Call Wid Key Value Observer Clock))
    {chosen : Write Wid Key Value Observer Clock} {observer : Observer} {clock : Clock}
    (hchosen : chosen ∈ ((machine digest o).run calls).frontier digest key)
    (hfree : NoCollision digest ((machine digest o).run calls)
      (((machine digest o).run calls).resolution digest key chosen observer clock)) :
    ((machine digest o).run calls).writes
      ((((machine digest o).run calls).resolution digest key chosen observer clock).wid digest) =
        none := by
  cases hstored : ((machine digest o).run calls).writes
      ((((machine digest o).run calls).resolution digest key chosen observer clock).wid digest) with
  | none => rfl
  | some v =>
      have h : Inv digest o ((machine digest o).run calls) := inv_run calls
      have hcontent := hfree v hstored
      have hmem : v ∈ ((machine digest o).run calls).writesForKey key := by
        rw [h.mem_writesForKey, h.wid_eq _ _ hstored]
        exact ⟨hstored, congrArg WidInput.key hcontent⟩
      apply absurd _ (not_stored_of_frontier calls hchosen hmem)
      rw [mem_preds_of_content hcontent]
      exact List.mem_map_of_mem hchosen

/-- **A resolution settles its key and nothing else.** In every state that calls lead to: when it is
admitted, the chosen id is that of a candidate, the key is resolved to the value of this candidate,
and the new write is after all candidates of before; when it is refused, no read changes; and the
reads of other keys never do. -/
theorem resolve_settles (calls : List (Call Wid Key Value Observer Clock)) (key : Key)
    (chosenWid : Wid) (observer : Observer) (clock : Clock)
    (hfree : ∀ chosen ∈ ((machine digest o).run calls).frontier digest key,
      NoCollision digest ((machine digest o).run calls)
        (((machine digest o).run calls).resolution digest key chosen observer clock)) :
    let s := (machine digest o).run calls
    let s' := (s.resolve digest o key chosenWid observer clock).1
    let answer := (s.resolve digest o key chosenWid observer clock).2
    (answer.verdict = .admitted → ∃ chosen ∈ s.frontier digest key, chosen.wid digest = chosenWid ∧
      ∃ w : Write Wid Key Value Observer Clock, w.value = chosen.value ∧ w.observer = observer ∧
        w.clock = clock ∧ answer = .admitted (w.wid digest) (w.provenance digest) ∧
        s'.get digest key = .resolved key chosen.value (w.provenance digest) ∧
        ∀ f ∈ s.frontier digest key, o.Before f.clock w.clock) ∧
    (answer.verdict = .rejected → ∀ k, s'.get digest k = s.get digest k) ∧
    ∀ k, k ≠ key → s'.get digest k = s.get digest k := by
  intro s s' answer
  have h : Inv digest o s := inv_run calls
  rcases s.resolve_eq digest o key chosenWid observer clock with
    heq | ⟨chosen, hchosen, hid, heq⟩
  · have hstate : s' = s := congrArg Prod.fst heq
    have hanswer : answer = .notAFrontierCandidate key chosenWid := congrArg Prod.snd heq
    rw [hstate, hanswer]
    exact ⟨nofun, fun _ _ => rfl, fun _ _ => rfl⟩
  · have hfresh := resolution_fresh calls hchosen (hfree chosen hchosen)
    have hput := s.put_cases digest o (s.resolution digest key chosen observer clock)
    rw [← heq] at hput
    change Puts digest o s _ s' answer at hput
    generalize s' = s₁ at hput ⊢
    generalize answer = r at hput ⊢
    cases hput with
    | retry known =>
        rw [hfresh] at known
        cases known
    | refused _ _ => exact ⟨nofun, fun _ _ => rfl, fun _ _ => rfl⟩
    | stored ok =>
        have hall : ∀ f ∈ s.frontier digest key,
            f.wid digest ∈ (s.resolution digest key chosen observer clock).preds :=
          fun f hf => List.mem_map_of_mem hf
        refine ⟨fun _ => ⟨chosen, hchosen, hid, s.resolution digest key chosen observer clock, rfl,
          rfl, rfl, rfl, ?_, ?_⟩, nofun, ?_⟩
        · exact get_of_frontier (h.frontier_record_of_names_all ok hall)
        · intro f hf
          obtain ⟨u, hu, hbefore⟩ := ok.valid _ (hall f hf)
          have hstored := (h.mem_writesForKey.mp (mem_frontier_iff.mp hf).1).1
          cases hstored.symm.trans hu
          exact hbefore
        · intro k hk
          have hother : (s.resolution digest key chosen observer clock).key ≠ k := Ne.symm hk
          apply get_congr
          rw [h.writesForKey_record ok, List.filter_cons_of_neg (by simpa using hother),
            List.filter_nil, List.append_nil]

/-! ### Two values and a choice -/

/-- Here the observer and the value of a write are digest enough. -/
def observerWid (i : WidInput Nat Nat Nat Nat (VClock Nat)) : Nat := 10 * i.observer + i.value

/-- A memory that holds two concurrent values. -/
def conflicted : CausalMemory Nat Nat Nat Nat (VClock Nat) (VClock Nat × VClock Nat) :=
  (machine observerWid logicalOrdering).run [.put oldValue, .put otherValue]

/-- After both values. -/
def choiceClock : VClock Nat := (Finmap.singleton 0 2).insert 1 1

theorem resolve_settles_conflict :
    (conflicted.get observerWid 0).status = .conflict ∧
    ∃ value provenance, (conflicted.resolve observerWid logicalOrdering 0 13 2
      choiceClock).1.get observerWid 0 = .resolved 0 value provenance := by
  refine ⟨by decide, ?_⟩
  have hfree : ∀ chosen ∈ conflicted.frontier observerWid 0, NoCollision observerWid conflicted
      (conflicted.resolution observerWid 0 chosen 2 choiceClock) := by
    have hfrontier : conflicted.frontier observerWid 0 = [oldValue, otherValue] := by decide
    intro chosen hchosen v hv
    rw [hfrontier, List.mem_cons, List.mem_singleton] at hchosen
    rcases hchosen with rfl | rfl
    · cases hv
    · cases hv
  have hsettles := resolve_settles [.put oldValue, .put otherValue] 0 13 2 choiceClock hfree
  obtain ⟨chosen, -, -, w, -, -, -, -, hget, -⟩ := hsettles.1 (by decide)
  exact ⟨_, _, hget⟩

end HorizonProtocol.Mnemesis.CausalMemory
