import HorizonProtocol.Log
import Mathlib.Data.List.Basic
import Mathlib.Data.List.Induction
import Mathlib.Data.List.Nodup
import Mathlib.Tactic.Tauto

/-!
# Dictionaries in insertion order

A dictionary is the list of its entries in the order of first insertion. Setting a key that is there
replaces its value and keeps its place, so an entry of a dictionary built from pairs is a pair whose
key is not set again by a later one.

* `mem_ofPairs` — the entries of a dictionary built from pairs.
-/

namespace Dict

variable {K V : Type*} [DecidableEq K]

/-- `d[k] = v`. -/
def set : List (K × V) → K → V → List (K × V)
  | [], k, v => [(k, v)]
  | (k', v') :: d, k, v => if k' = k then (k, v) :: d else (k', v') :: set d k v

/-- `d.get(k)`. -/
def get? (d : List (K × V)) (k : K) : Option V := (d.find? fun e => decide (e.1 = k)).map Prod.snd

/-- The pairs set one after another. -/
def ofPairs (l : List (K × V)) : List (K × V) := l.foldl (fun d p => set d p.1 p.2) []

variable {d l : List (K × V)} {k k' : K} {v v' : V}

theorem mem_keys_set : k' ∈ (set d k v).map Prod.fst ↔ k' = k ∨ k' ∈ d.map Prod.fst := by
  induction d with
  | nil => simp [set]
  | cons e d ih =>
      rw [set]
      split
      · next h =>
          rw [List.map_cons, List.mem_cons, List.map_cons, List.mem_cons, h]
          simp
      · next h =>
          rw [List.map_cons, List.mem_cons, ih, List.map_cons, List.mem_cons]
          tauto

theorem set_ne_nil : set d k v ≠ [] := by
  intro h
  have hk : k ∈ (set d k v).map Prod.fst := mem_keys_set.mpr (Or.inl rfl)
  rw [h] at hk
  cases hk

theorem nodup_keys_set (h : (d.map Prod.fst).Nodup) : ((set d k v).map Prod.fst).Nodup := by
  induction d with
  | nil => simp [set]
  | cons e d ih =>
      rw [List.map_cons, List.nodup_cons] at h
      rw [set]
      split
      · next hk =>
          rw [List.map_cons, List.nodup_cons]
          exact ⟨hk ▸ h.1, h.2⟩
      · next hk =>
          rw [List.map_cons, List.nodup_cons, mem_keys_set]
          exact ⟨fun hmem => hmem.elim hk h.1, ih h.2⟩

theorem mem_set (h : (d.map Prod.fst).Nodup) :
    (k', v') ∈ set d k v ↔ (k' = k ∧ v' = v) ∨ (k' ≠ k ∧ (k', v') ∈ d) := by
  induction d with
  | nil => simp [set]
  | cons e d ih =>
      rw [List.map_cons, List.nodup_cons] at h
      rw [set]
      split
      · next hk =>
          have hnot : ∀ w, (k, w) ∉ d := fun w hw => h.1 (hk ▸ List.mem_map_of_mem hw)
          rw [List.mem_cons, List.mem_cons, Prod.mk.injEq]
          constructor
          · rintro (heq | hmem)
            · exact Or.inl heq
            · refine Or.inr ⟨?_, Or.inr hmem⟩
              rintro rfl
              exact hnot _ hmem
          · rintro (heq | ⟨hne, rfl | hmem⟩)
            · exact Or.inl heq
            · exact absurd hk hne
            · exact Or.inr hmem
      · next hk =>
          rw [List.mem_cons, ih h.2, List.mem_cons]
          have hfirst : (k', v') = e → k' ≠ k := by
            rintro rfl
            exact hk
          show (k', v') = e ∨ _ ↔ _
          tauto

theorem ofPairs_concat (l : List (K × V)) (p : K × V) :
    ofPairs (l ++ [p]) = set (ofPairs l) p.1 p.2 := by
  simp [ofPairs]

theorem nodup_keys_ofPairs (l : List (K × V)) : ((ofPairs l).map Prod.fst).Nodup := by
  induction l using List.reverseRecOn with
  | nil => simp [ofPairs]
  | append_singleton l p ih =>
      rw [ofPairs_concat]
      exact nodup_keys_set ih

theorem mem_keys_ofPairs : k ∈ (ofPairs l).map Prod.fst ↔ k ∈ l.map Prod.fst := by
  induction l using List.reverseRecOn with
  | nil => rfl
  | append_singleton l p ih =>
      rw [ofPairs_concat, mem_keys_set, ih, List.map_append, List.mem_append, List.map_singleton,
        List.mem_singleton, or_comm]

/-- **An entry is a pair whose key no later pair sets again.** -/
theorem mem_ofPairs :
    (k, v) ∈ ofPairs l ↔ ∃ l₁ l₂, l = l₁ ++ (k, v) :: l₂ ∧ k ∉ l₂.map Prod.fst := by
  induction l using List.reverseRecOn with
  | nil => simp [ofPairs]
  | append_singleton l p ih =>
      rw [ofPairs_concat, mem_set (nodup_keys_ofPairs l), ih]
      constructor
      · rintro (⟨rfl, rfl⟩ | ⟨hne, l₁, l₂, rfl, hlast⟩)
        · exact ⟨l, [], rfl, by simp⟩
        · refine ⟨l₁, l₂ ++ [p], by simp, ?_⟩
          rw [List.map_append, List.mem_append]
          rintro (hmem | hmem)
          · exact hlast hmem
          · exact hne (by simpa using hmem)
      · rintro ⟨l₁, l₂, heq, hlast⟩
        rcases Log.concat_eq_split_iff.mp heq with ⟨-, rfl, -⟩ | ⟨l₂, rfl, rfl⟩
        · exact Or.inl ⟨rfl, rfl⟩
        · rw [List.map_append, List.mem_append, not_or] at hlast
          refine Or.inr ⟨?_, l₁, l₂, rfl, hlast.1⟩
          simpa using hlast.2

/-- A key that is not there is set last. -/
theorem set_of_notMem (h : k ∉ d.map Prod.fst) : set d k v = d ++ [(k, v)] := by
  induction d with
  | nil => rfl
  | cons e d ih =>
      rw [List.map_cons, List.mem_cons, not_or] at h
      rw [set, if_neg (Ne.symm h.1), ih h.2]
      rfl

/-- Pairs of distinct keys are the dictionary. -/
theorem ofPairs_of_nodup (h : (l.map Prod.fst).Nodup) : ofPairs l = l := by
  induction l using List.reverseRecOn with
  | nil => rfl
  | append_singleton l p ih =>
      rw [List.map_append, List.nodup_append'] at h
      obtain ⟨hl, -, hdisj⟩ := h
      rw [ofPairs_concat, ih hl]
      exact set_of_notMem fun hmem => hdisj hmem (by simp)

theorem get?_eq_some (h : (d.map Prod.fst).Nodup) : get? d k = some v ↔ (k, v) ∈ d := by
  induction d with
  | nil => simp [get?]
  | cons e d ih =>
      rw [List.map_cons, List.nodup_cons] at h
      by_cases hk : e.1 = k
      · have hnot : (k, v) ∉ d := fun hmem => h.1 (hk ▸ List.mem_map_of_mem hmem)
        rw [List.mem_cons, or_iff_left hnot]
        simp only [get?, List.find?_cons, hk, decide_true, Option.map_some, Option.some.injEq]
        constructor
        · rintro rfl
          rw [← hk]
        · rintro rfl
          rfl
      · rw [List.mem_cons, ← ih h.2, or_iff_right fun heq => hk (congrArg Prod.fst heq).symm]
        simp [get?, hk]

theorem get?_set : get? (set d k v) k' = if k' = k then some v else get? d k' := by
  induction d with
  | nil =>
      by_cases hk : k' = k
      · simp [get?, set, hk]
      · simp [get?, set, hk, Ne.symm hk]
  | cons e d ih =>
      rw [set]
      split
      · next he =>
          by_cases hk : k' = k
          · simp [get?, hk]
          · simp [get?, hk, he, Ne.symm hk]
      · next he =>
          by_cases hek : e.1 = k'
          · have hne : k' ≠ k := hek ▸ he
            simp [get?, hek, hne]
          · simpa [get?, hek] using ih

theorem get?_eq_none : get? d k = none ↔ k ∉ d.map Prod.fst := by
  rw [get?, Option.map_eq_none_iff, List.find?_eq_none]
  simp only [decide_eq_true_eq, List.mem_map, not_exists, not_and]

theorem get?_append (d d' : List (K × V)) (k : K) :
    get? (d ++ d') k = (get? d k).or (get? d' k) := by
  rw [get?, get?, get?, List.find?_append]
  cases List.find? (fun e => decide (e.1 = k)) d <;> rfl

theorem get?_map_snd {W : Type*} (f : V → W) (d : List (K × V)) (k : K) :
    get? (d.map fun e => (e.1, f e.2)) k = (get? d k).map f := by
  rw [get?, get?, List.find?_map, Option.map_map, Option.map_map]
  rfl

theorem get?_map_fst {K' : Type*} [DecidableEq K'] {g : K → K'} (hg : Function.Injective g)
    (d : List (K × V)) (k : K) : get? (d.map fun e => (g e.1, e.2)) (g k) = get? d k := by
  rw [get?, get?, List.find?_map, Option.map_map]
  simp only [Function.comp_def, hg.eq_iff]

/-- The order of the entries does not matter. -/
theorem get?_perm {d' : List (K × V)} (hperm : d.Perm d') (h : (d.map Prod.fst).Nodup) (k : K) :
    get? d k = get? d' k := by
  apply Option.ext
  intro v
  rw [get?_eq_some h, get?_eq_some ((hperm.map Prod.fst).nodup_iff.mp h), hperm.mem_iff]

/-- Keys that are all given the same value have it. -/
theorem get?_ofPairs_const {ks : List K} (hk : k ∈ ks) :
    get? (ofPairs (ks.map fun k => (k, v))) k = some v := by
  induction ks using List.reverseRecOn with
  | nil => cases hk
  | append_singleton ks k' ih =>
      rw [List.map_append, List.map_singleton, ofPairs_concat, get?_set]
      split
      · rfl
      · next hne =>
          apply ih
          simpa [hne] using hk

/-- Where all values of a key are equal, each pair is an entry in the end. -/
theorem mem_ofPairs_of_functional {f : K → V} (hl : ∀ p ∈ l, p.2 = f p.1) {p : K × V} :
    p ∈ ofPairs l ↔ p ∈ l := by
  have hsub : ∀ q ∈ ofPairs l, q ∈ l := by
    rintro ⟨k, v⟩ hq
    obtain ⟨l₁, l₂, rfl, -⟩ := mem_ofPairs.mp hq
    simp
  refine ⟨hsub p, fun hp => ?_⟩
  obtain ⟨q, hq, hkey⟩ := List.mem_map.mp (mem_keys_ofPairs.mpr (List.mem_map_of_mem hp))
  have heq : q = p := Prod.ext hkey (by rw [hl q (hsub q hq), hl p hp, hkey])
  exact heq ▸ hq

/-- An entry is set by the later pairs, or by the earlier ones and not again. -/
theorem mem_ofPairs_append {l' : List (K × V)} {p : K × V} :
    p ∈ ofPairs (l ++ l') ↔ p ∈ ofPairs l' ∨ (p.1 ∉ l'.map Prod.fst ∧ p ∈ ofPairs l) := by
  induction l' using List.reverseRecOn with
  | nil => simp [ofPairs]
  | append_singleton l' q ih =>
      obtain ⟨k, v⟩ := p
      rw [← List.append_assoc, ofPairs_concat, ofPairs_concat, mem_set (nodup_keys_ofPairs _),
        mem_set (nodup_keys_ofPairs _), ih]
      simp only [List.map_append, List.mem_append, List.map_cons, List.map_nil, List.mem_singleton]
      tauto

theorem set_map_snd {W : Type*} (f : V → W) (d : List (K × V)) (k : K) (v : V) :
    set (d.map fun e => (e.1, f e.2)) k (f v) = (set d k v).map fun e => (e.1, f e.2) := by
  induction d with
  | nil => rfl
  | cons e d ih =>
      rw [List.map_cons, set, set]
      split
      · rfl
      · rw [ih, List.map_cons]

theorem isSome_get?_set (h : (get? d k').isSome) : (get? (set d k v) k').isSome := by
  rw [get?_set]
  split
  · rfl
  · exact h

end Dict
