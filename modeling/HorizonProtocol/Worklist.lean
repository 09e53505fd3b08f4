import Mathlib.Data.List.Perm.Basic
import Mathlib.Data.List.Nodup
import Mathlib.Data.Finset.Card
import Mathlib.Data.Finset.Dedup
import Mathlib.Logic.Relation

/-!
# Worklist graph search

The loop `while work: x = pop(work); scan the successors of x; push the new ones` that depth-first
and breadth-first reachability share. What differs between them is how the successors are scanned
and where the new nodes go, so both are parameters:

* `scan x seen` answers `none` when it meets the target among the successors of `x`, and otherwise
  the successors not in `seen` (`ScanSpec`).
* `push work fresh` puts the new nodes into the worklist, in any order (`PushSpec`).

`search` runs on fuel and answers `none` when the fuel runs out. `search_of_inv` says that it never
does when there is more fuel than nodes left to visit, and that the answer is reachability by at
least one edge.
-/

namespace Worklist

variable {V : Type*}

/-- The search loop: `seen` are the nodes met so far, `work` those whose successors are still to
be scanned. -/
def search (scan : V → List V → Option (List V)) (push : List V → List V → List V) :
    Nat → List V → List V → Option Bool
  | 0, _, _ => none
  | _ + 1, _, [] => some false
  | fuel + 1, seen, x :: work =>
      match scan x seen with
      | none => some true
      | some fresh => search scan push fuel (seen ++ fresh) (push work fresh)

/-- What a scan may answer, for a target `b` not met so far. -/
structure ScanSpec (edge : V → V → Prop) (b : V) (scan : V → List V → Option (List V)) :
    Prop where
  hit : ∀ {x seen}, b ∉ seen → scan x seen = none → edge x b
  fresh_nodup : ∀ {x seen fresh}, b ∉ seen → scan x seen = some fresh → fresh.Nodup
  fresh_iff : ∀ {x seen fresh}, b ∉ seen → scan x seen = some fresh →
    ∀ v, v ∈ fresh ↔ edge x v ∧ v ∉ seen
  miss : ∀ {x seen fresh}, b ∉ seen → scan x seen = some fresh → ¬ edge x b

/-- Pushing keeps the worklist and the new nodes, in some order. -/
def PushSpec (push : List V → List V → List V) : Prop :=
  ∀ work fresh, (push work fresh).Perm (work ++ fresh)

/-- The loop invariant of a search from `a` for `b`. -/
structure Inv (edge : V → V → Prop) (a b : V) (seen work : List V) : Prop where
  target : b ∉ seen
  seen_reached : ∀ v ∈ seen, v = a ∨ Relation.TransGen edge a v
  work_known : ∀ v ∈ work, v = a ∨ v ∈ seen
  closed : ∀ x, (x = a ∨ x ∈ seen) → x ∉ work → ∀ v, edge x v → v ∈ seen

variable {edge : V → V → Prop} {a b : V} {seen work : List V}
variable {scan : V → List V → Option (List V)} {push : List V → List V → List V}

/-- A scan need only be right about lists that do not hold the target. -/
theorem ScanSpec.congr {scan' : V → List V → Option (List V)} (h : ScanSpec edge b scan)
    (heq : ∀ {x seen}, b ∉ seen → scan' x seen = scan x seen) : ScanSpec edge b scan' where
  hit hb hx := h.hit hb ((heq hb).symm.trans hx)
  fresh_nodup hb hx := h.fresh_nodup hb ((heq hb).symm.trans hx)
  fresh_iff hb hx := h.fresh_iff hb ((heq hb).symm.trans hx)
  miss hb hx := h.miss hb ((heq hb).symm.trans hx)

/-- A node on the worklist is `a` or was reached from it. -/
theorem Inv.work_reached (h : Inv edge a b seen work) {x : V} (hx : x ∈ work) :
    x = a ∨ Relation.TransGen edge a x := by
  rcases h.work_known x hx with rfl | hseen
  · exact Or.inl rfl
  · exact h.seen_reached x hseen

/-- An edge from a node on the worklist leads to a node that can be reached. -/
theorem Inv.reached_succ (h : Inv edge a b seen work) {x v : V} (hx : x ∈ work)
    (hv : edge x v) : Relation.TransGen edge a v := by
  rcases h.work_reached hx with rfl | hr
  · exact .single hv
  · exact hr.tail hv

/-- One round of the loop keeps the invariant. -/
theorem Inv.step {x : V} {fresh : List V} (h : Inv edge a b seen (x :: work))
    (hscan : ScanSpec edge b scan) (hpush : PushSpec push) (hx : scan x seen = some fresh) :
    Inv edge a b (seen ++ fresh) (push work fresh) where
  target := by
    rw [List.mem_append]
    rintro (hb | hb)
    · exact h.target hb
    · exact hscan.miss h.target hx ((hscan.fresh_iff h.target hx b).mp hb).1
  seen_reached := by
    intro v hv
    rcases List.mem_append.mp hv with hv | hv
    · exact h.seen_reached v hv
    · exact Or.inr (h.reached_succ List.mem_cons_self ((hscan.fresh_iff h.target hx v).mp hv).1)
  work_known := by
    intro v hv
    rw [List.mem_append]
    rcases List.mem_append.mp ((hpush work fresh).mem_iff.mp hv) with hv | hv
    · rcases h.work_known v (List.mem_cons_of_mem x hv) with rfl | hs
      · exact Or.inl rfl
      · exact Or.inr (Or.inl hs)
    · exact Or.inr (Or.inr hv)
  closed := by
    intro y hy hyw v hv
    have hyw' : y ∉ work ∧ y ∉ fresh := by
      constructor
      · exact fun hw => hyw ((hpush work fresh).mem_iff.mpr (List.mem_append_left _ hw))
      · exact fun hf => hyw ((hpush work fresh).mem_iff.mpr (List.mem_append_right _ hf))
    by_cases hyx : y = x
    · -- the successors of the node just scanned are old or fresh
      subst hyx
      rw [List.mem_append]
      by_cases hvs : v ∈ seen
      · exact Or.inl hvs
      · exact Or.inr ((hscan.fresh_iff h.target hx v).mpr ⟨hv, hvs⟩)
    · have hys : y = a ∨ y ∈ seen := by
        rcases hy with rfl | hy
        · exact Or.inl rfl
        · rcases List.mem_append.mp hy with hy | hy
          · exact Or.inr hy
          · exact absurd hy hyw'.2
      refine List.mem_append_left _ (h.closed y hys ?_ v hv)
      rw [List.mem_cons]
      rintro (rfl | hw)
      · exact hyx rfl
      · exact hyw'.1 hw

/-- When the worklist is empty, everything that can be reached was seen. -/
theorem Inv.reached_seen (h : Inv edge a b seen []) {v : V} (hv : Relation.TransGen edge a v) :
    v ∈ seen := by
  induction hv with
  | single hv => exact h.closed a (Or.inl rfl) List.not_mem_nil _ hv
  | tail _ hv ih => exact h.closed _ (Or.inr ih) List.not_mem_nil _ hv

variable [DecidableEq V]

/-- The search ends, and answers whether `b` can be reached. The universe `U` holds every node an
edge leads to; each round takes one node off the worklist and moves the fresh ones from the unseen
part of `U` onto it, so the rounds are bounded by the two together. -/
theorem search_of_inv (hscan : ScanSpec edge b scan) (hpush : PushSpec push) {U : Finset V}
    (hU : ∀ x v, edge x v → v ∈ U) (fuel : Nat) (h : Inv edge a b seen work)
    (hfuel : (U \ seen.toFinset).card + work.length < fuel) :
    ∃ r, search scan push fuel seen work = some r ∧ (r = true ↔ Relation.TransGen edge a b) := by
  induction fuel generalizing seen work with
  | zero => omega
  | succ fuel ih =>
      cases work with
      | nil =>
          refine ⟨false, rfl, ?_⟩
          simp only [Bool.false_eq_true, false_iff]
          exact fun hr => h.target (h.reached_seen hr)
      | cons x work =>
          cases hx : scan x seen with
          | none =>
              refine ⟨true, by simp only [search, hx], ?_⟩
              simp only [true_iff]
              exact h.reached_succ List.mem_cons_self (hscan.hit h.target hx)
          | some fresh =>
              simp only [search, hx]
              refine ih (h.step hscan hpush hx) ?_
              have hfresh := hscan.fresh_iff h.target hx
              have hsub : fresh.toFinset ⊆ U \ seen.toFinset := by
                intro v hv
                rw [List.mem_toFinset, hfresh] at hv
                rw [Finset.mem_sdiff, List.mem_toFinset]
                exact ⟨hU x v hv.1, hv.2⟩
              have hcard : (U \ (seen ++ fresh).toFinset).card + fresh.length
                  = (U \ seen.toFinset).card := by
                rw [← List.toFinset_card_of_nodup (hscan.fresh_nodup h.target hx),
                  List.toFinset_append, ← Finset.sup_eq_union, ← sdiff_sdiff_left]
                exact Finset.card_sdiff_add_card_eq_card hsub
              have hlen := (hpush work fresh).length_eq
              rw [List.length_append] at hlen
              rw [List.length_cons] at hfuel
              omega

end Worklist
