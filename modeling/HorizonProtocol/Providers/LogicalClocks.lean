import HorizonProtocol.Providers.CausalKernel

/-!
# The semilattice of vector clocks

`mnemesis/vclock.py` compares and merges dictionaries, in which an explicit zero and a missing entry
are two things. Up to zero padding they are one, and there the clocks are a join semilattice: what
`VClock.padded` says of them. `classify_logical` names the relation of two clocks in it, and the
`LogicalOrdering` of the stores is its strict order.

* `vectorClocks_semilattice` — all laws of the clocks.
* `logicalOrdering_holdsOf_iff` — what the stores call before and concurrent.
-/

namespace HorizonProtocol.Providers

variable {Node : Type} [DecidableEq Node] {a b c : VClock Node}

/-! ## Counters that are not negative -/

theorem hasNegative_eq_false_iff : hasNegative a = false ↔ 0 ≤ a.padded := by
  simp only [hasNegative, decide_eq_false_iff_not, not_exists, not_and, not_lt]
  constructor
  · intro h k
    by_cases hk : k ∈ a.keys
    · exact h k hk
    · exact (VClock.count_of_not_mem hk).ge
  · exact fun h k _ => h k

/-- Merging keeps clocks well formed. -/
theorem hasNegative_merge (ha : hasNegative a = false) : hasNegative (a.merge b) = false := by
  rw [hasNegative_eq_false_iff] at ha ⊢
  rw [VClock.padded_merge]
  exact ha.trans le_sup_left

/-! ## Four relations -/

/-- What a relation says of two vector clocks. The other relations are not of vector clocks. -/
def CausalRelation.HoldsOf (a b : VClock Node) : CausalRelation → Prop
  | .before => a.happensBefore b = true
  | .after => b.happensBefore a = true
  | .equivalent => a.Equivalent b
  | .logicallyConcurrent => ¬ a.leq b = true ∧ ¬ b.leq a = true
  | _ => False

/-- The relation that the two comparisons leave. -/
theorem holdsOf_iff {relation : CausalRelation} :
    relation.HoldsOf a b ↔
      relation = if a.leq b then (if b.leq a then .equivalent else .before)
        else if b.leq a then .after else .logicallyConcurrent := by
  cases relation <;>
    simp only [CausalRelation.HoldsOf, VClock.happensBefore, ← VClock.leq_antisymm_iff] <;>
    cases a.leq b <;> cases b.leq a <;> simp

theorem existsUnique_holdsOf (a b : VClock Node) :
    ∃! relation : CausalRelation, relation.HoldsOf a b := by
  simp only [holdsOf_iff, existsUnique_eq]

theorem classifyLogical_holdsOf (ha : hasNegative a = false) (hb : hasNegative b = false) :
    (classifyLogical a b).relation.HoldsOf a b := by
  rw [holdsOf_iff, classifyLogical, ha, hb]
  cases a.leq b <;> cases b.leq a <;> rfl

/-! ## The laws -/

/-- **The join is the least clock above both.** -/
theorem merge_leq_iff : (a.merge b).leq c = true ↔ a.leq c = true ∧ b.leq c = true := by
  rw [VClock.leq_iff_padded, VClock.leq_iff_padded, VClock.leq_iff_padded, VClock.padded_merge]
  exact sup_le_iff

/-- **Vector clocks are a join semilattice up to zero padding.** `leq` is a preorder in which the
clocks that mean the same are equivalent. Happens-before is a strict order that cannot tell these
apart. Of two well-formed clocks exactly one of the four relations holds, it is the one that
`classify_logical` names, and swapping the clocks swaps before and after. And `merge` is the least
upper bound, so up to padding it is commutative, associative and idempotent. -/
theorem vectorClocks_semilattice :
    IsPreorder (VClock Node) (fun a b => a.leq b = true) ∧
    (∀ a b : VClock Node, a.leq b = true ∧ b.leq a = true ↔ a.Equivalent b) ∧
    IsStrictOrder (VClock Node) (fun a b => a.happensBefore b = true) ∧
    (∀ a a' b b' : VClock Node, a.Equivalent a' → b.Equivalent b' →
      a.happensBefore b = a'.happensBefore b') ∧
    (∀ a b : VClock Node, hasNegative a = false → hasNegative b = false →
      (∃! relation : CausalRelation, relation.HoldsOf a b) ∧
      (classifyLogical a b).relation.HoldsOf a b ∧
      (classifyLogical b a).relation = (classifyLogical a b).relation.swap ∧
      hasNegative (a.merge b) = false) ∧
    (∀ a b : VClock Node, a.leq (a.merge b) = true ∧ b.leq (a.merge b) = true ∧
      ∀ c : VClock Node, a.leq c = true → b.leq c = true → (a.merge b).leq c = true) ∧
    (∀ a b : VClock Node, (a.merge b).Equivalent (b.merge a)) ∧
    (∀ a b c : VClock Node, ((a.merge b).merge c).Equivalent (a.merge (b.merge c))) ∧
    ∀ a : VClock Node, (a.merge a).Equivalent a := by
  refine ⟨?_, fun _ _ => VClock.leq_antisymm_iff, VClock.happensBefore_strict, ?_, ?_, ?_, ?_, ?_,
    ?_⟩
  · exact
      { refl := fun a => VClock.leq_iff_padded.mpr le_rfl
        trans := fun a b c hab hbc => VClock.leq_iff_padded.mpr
          ((VClock.leq_iff_padded.mp hab).trans (VClock.leq_iff_padded.mp hbc)) }
  · intro a a' b b' ha hb
    rw [Bool.eq_iff_iff, VClock.happensBefore_iff_padded, VClock.happensBefore_iff_padded, ha, hb]
  · intro a b ha hb
    refine ⟨existsUnique_holdsOf a b, classifyLogical_holdsOf ha hb, ?_, hasNegative_merge ha⟩
    rw [classifyLogical_swap]
    rfl
  · intro a b
    have hself := (merge_leq_iff (a := a) (b := b)).mp (VClock.leq_iff_padded.mpr le_rfl)
    exact ⟨hself.1, hself.2, fun c hac hbc => merge_leq_iff.mpr ⟨hac, hbc⟩⟩
  · intro a b
    simp only [VClock.Equivalent, VClock.padded_merge]
    exact sup_comm _ _
  · intro a b c
    simp only [VClock.Equivalent, VClock.padded_merge]
    exact sup_assoc _ _ _
  · intro a
    simp only [VClock.Equivalent, VClock.padded_merge]
    exact sup_idem _

/-! ## The stores -/

open CausalStore

/-- **Before is the same for a store and for the provider**, and what a store calls concurrent is
either concurrent or one logical instant. -/
theorem logicalOrdering_holdsOf_iff :
    (logicalOrdering.Before a b ↔ CausalRelation.before.HoldsOf a b) ∧
    (logicalOrdering.concurrent a b = true ↔
      CausalRelation.equivalent.HoldsOf a b ∨ CausalRelation.logicallyConcurrent.HoldsOf a b) := by
  refine ⟨Iff.rfl, ?_⟩
  show (!LogicalOrdering.before a b && !LogicalOrdering.before b a) = true ↔ _
  simp only [holdsOf_iff, LogicalOrdering.before, LogicalOrdering.leq]
  cases a.leq b <;> cases b.leq a <;> simp

end HorizonProtocol.Providers
