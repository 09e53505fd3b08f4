import Mathlib

/-!
# Vector clocks

`mnemesis/vclock.py`: a clock is a dictionary from node ids to counters, and a missing entry counts
as zero. Two dictionaries with the same entries in another order are one `Finmap`; two that differ
by an explicit zero are not, although no comparison below can tell them apart. What a clock means
is its counter function `count`, and the comparisons are the pointwise order on those
(`leq_iff`, `happensBefore_iff`).

* `padded_merge` — up to zero padding the clocks are finitely supported functions, and merging is
  their join.
-/

namespace HorizonProtocol

/-- `{node_id: counter}`. -/
abbrev VClock (Node : Type) := Finmap fun _ : Node => Int

namespace VClock

variable {Node : Type} [DecidableEq Node]

/-- `a.get(k, 0)`. -/
def count (a : VClock Node) (k : Node) : Int := (Finmap.lookup k a).getD 0

def leq (a b : VClock Node) : Bool :=
  decide (∀ k ∈ a.keys ∪ b.keys, a.count k ≤ b.count k)

def happensBefore (a b : VClock Node) : Bool := a.leq b && !b.leq a

def concurrent (a b : VClock Node) : Bool := !a.happensBefore b && !b.happensBefore a

/-- `{k: f(k) for k in keys}`. -/
def ofKeys (keys : Finset Node) (f : Node → Int) : VClock Node :=
  Finmap.keysLookupEquiv.symm
    ⟨(keys, fun k => if k ∈ keys then some (f k) else none), fun k => by
      by_cases hk : k ∈ keys <;> simp [hk]⟩

def merge (a b : VClock Node) : VClock Node :=
  ofKeys (a.keys ∪ b.keys) fun k => max (a.count k) (b.count k)

variable {a b c : VClock Node}

@[simp] theorem count_ofKeys (keys : Finset Node) (f : Node → Int) (k : Node) :
    (ofKeys keys f).count k = if k ∈ keys then f k else 0 := by
  rw [count, ofKeys, Finmap.keysLookupEquiv_symm_apply_lookup]
  show (if k ∈ keys then some (f k) else none).getD 0 = _
  split <;> rfl

theorem count_of_not_mem {k : Node} (hk : k ∉ a.keys) : a.count k = 0 := by
  have hnone : Finmap.lookup k a = none := by
    rw [Finmap.lookup_eq_none]
    exact fun h => hk (Finmap.mem_keys.mpr h)
  simp [count, hnone]

/-- Comparing the keys that occur compares all counters, the missing ones being zero. -/
theorem leq_iff : a.leq b = true ↔ a.count ≤ b.count := by
  simp only [leq, decide_eq_true_eq, Finset.mem_union]
  constructor
  · intro h k
    by_cases hk : k ∈ a.keys ∨ k ∈ b.keys
    · exact h k hk
    · push Not at hk
      rw [count_of_not_mem hk.1, count_of_not_mem hk.2]
  · intro h k _
    exact h k

/-- Happens-before is the strict pointwise order of the counters. -/
theorem happensBefore_iff : a.happensBefore b = true ↔ a.count < b.count := by
  rw [lt_iff_le_not_ge, ← leq_iff, ← leq_iff]
  simp [happensBefore]

instance happensBefore_strict :
    IsStrictOrder (VClock Node) fun a b => a.happensBefore b = true where
  irrefl _ h := lt_irrefl _ (happensBefore_iff.mp h)
  trans _ _ _ hab hbc :=
    happensBefore_iff.mpr (lt_trans (happensBefore_iff.mp hab) (happensBefore_iff.mp hbc))

/-- A merge has the greater counters, a counter that both clocks lack being zero in both. -/
theorem count_merge (a b : VClock Node) (k : Node) :
    (a.merge b).count k = max (a.count k) (b.count k) := by
  rw [merge, count_ofKeys]
  split
  · rfl
  · next h =>
      rw [Finset.mem_union, not_or] at h
      rw [count_of_not_mem h.1, count_of_not_mem h.2, max_self]

example : merge ((Finmap.singleton 1 3).insert 2 1) ((Finmap.singleton 1 1).insert 2 5) =
    ((Finmap.singleton 1 3).insert 2 5 : VClock Nat) := by decide +kernel

/-! ## The lattice of clocks -/

/-- What a clock means: the counters, with zero for the missing ones. -/
noncomputable def padded (a : VClock Node) : Node →₀ Int :=
  Finsupp.onFinset a.keys a.count fun k hk => by
    by_contra hmem
    exact hk (count_of_not_mem hmem)

@[simp] theorem padded_apply (a : VClock Node) (k : Node) : a.padded k = a.count k := rfl

theorem leq_iff_padded : a.leq b = true ↔ a.padded ≤ b.padded := leq_iff

theorem happensBefore_iff_padded : a.happensBefore b = true ↔ a.padded < b.padded :=
  happensBefore_iff.trans (Finsupp.coe_lt_coe (f := a.padded) (g := b.padded))

/-- **A merge is the join**, of what the clocks mean. -/
@[simp] theorem padded_merge (a b : VClock Node) : (a.merge b).padded = a.padded ⊔ b.padded := by
  ext k
  exact count_merge a b k

/-- The clocks mean the same: they are equal once their missing entries are zero. -/
def Equivalent (a b : VClock Node) : Prop := a.padded = b.padded

/-- **Each is at most the other just when they mean the same.** -/
theorem leq_antisymm_iff : a.leq b = true ∧ b.leq a = true ↔ a.Equivalent b := by
  rw [leq_iff_padded, leq_iff_padded]
  exact le_antisymm_iff.symm

/-! ## Clocks of one entry -/

theorem count_singleton (r k : Node) (n : Int) :
    count (Finmap.singleton r n) k = if k = r then n else 0 := by
  unfold count
  split
  · next h =>
      rw [h, Finmap.lookup_singleton_eq]
      rfl
  · next h =>
      rw [Finmap.lookup_eq_none.mpr (by simpa [Finmap.mem_singleton] using h)]
      rfl

/-- Clocks of one entry are ordered within a node, and not across nodes. -/
theorem count_singleton_lt_iff {r r' : Node} {n m : Int} (hn : 0 < n) :
    count (Finmap.singleton r n) < count (Finmap.singleton r' m) ↔ r = r' ∧ n < m := by
  rw [Pi.lt_def]
  constructor
  · rintro ⟨hle, k, hlt⟩
    have hr : count (Finmap.singleton r n) r ≤ count (Finmap.singleton r' m) r := hle r
    rw [count_singleton, count_singleton, if_pos rfl] at hr
    rw [count_singleton, count_singleton] at hlt
    have heq : r = r' := by
      by_contra hne
      rw [if_neg hne] at hr
      omega
    subst heq
    refine ⟨rfl, ?_⟩
    by_cases hk : k = r
    · rw [if_pos hk, if_pos hk] at hlt
      exact hlt
    · rw [if_neg hk, if_neg hk] at hlt
      omega
  · rintro ⟨rfl, hlt⟩
    refine ⟨fun k => ?_, r, ?_⟩
    · rw [count_singleton, count_singleton]
      split
      · exact hlt.le
      · exact le_rfl
    · rw [count_singleton, count_singleton, if_pos rfl, if_pos rfl]
      exact hlt

end VClock

end HorizonProtocol
