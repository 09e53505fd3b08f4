import HorizonProtocol.Beacon.Beacon
import Mathlib.Logic.Relation

/-!
# What a beacon excludes

A pair of emissions is refused when light connects it, and then no chain of admissible steps through
any events of spacetime does, since the cone is transitive. The verifier reads the verdicts of the
pairs from the dictionary, and where two pairs share a key it reads the later one only.

* `pairwise_of_distinct` — the dictionary holds the last pair of every key.
* `pairwise_spacelike_iff` — all verdicts say spacelike when the last pair of every key is.
-/

namespace HorizonProtocol.Beacon

open Attestation

/-! ## Pairs -/

section Pairs

variable {α : Type} {l : List α} {a b : α}

theorem of_mem_pairs (h : (a, b) ∈ pairs l) : a ∈ l ∧ b ∈ l := by
  induction l with
  | nil => cases h
  | cons x l ih =>
      rw [pairs, List.mem_append, List.mem_map] at h
      rcases h with ⟨y, hy, heq⟩ | h
      · cases heq
        exact ⟨List.mem_cons_self, List.mem_cons_of_mem _ hy⟩
      · exact ⟨List.mem_cons_of_mem _ (ih h).1, List.mem_cons_of_mem _ (ih h).2⟩

theorem ne_of_mem_pairs (hl : l.Nodup) (h : (a, b) ∈ pairs l) : a ≠ b := by
  induction l with
  | nil => cases h
  | cons x l ih =>
      rw [List.nodup_cons] at hl
      rw [pairs, List.mem_append, List.mem_map] at h
      rcases h with ⟨y, hy, heq⟩ | h
      · cases heq
        rintro rfl
        exact hl.1 hy
      · exact ih hl.2 h

/-- Two elements are a pair one way or the other. -/
theorem mem_pairs_or (ha : a ∈ l) (hb : b ∈ l) (hne : a ≠ b) :
    (a, b) ∈ pairs l ∨ (b, a) ∈ pairs l := by
  induction l with
  | nil => cases ha
  | cons x l ih =>
      simp only [pairs, List.mem_append, List.mem_map, Prod.mk.injEq]
      rcases List.mem_cons.mp ha with rfl | ha'
      · rcases List.mem_cons.mp hb with rfl | hb'
        · exact absurd rfl hne
        · exact Or.inl (Or.inl ⟨b, hb', rfl, rfl⟩)
      · rcases List.mem_cons.mp hb with rfl | hb'
        · exact Or.inr (Or.inl ⟨a, ha', rfl, rfl⟩)
        · exact (ih ha' hb').imp Or.inr Or.inr

theorem nodup_pairs (hl : l.Nodup) : (pairs l).Nodup := by
  induction l with
  | nil => exact List.nodup_nil
  | cons x l ih =>
      rw [List.nodup_cons] at hl
      rw [pairs, List.nodup_append']
      refine ⟨hl.2.map fun y z h => (Prod.mk.inj h).2, ih hl.2, ?_⟩
      rw [List.disjoint_left]
      rintro ⟨y, z⟩ hleft hright
      obtain ⟨w, -, hw⟩ := List.mem_map.mp hleft
      cases hw
      exact hl.1 (of_mem_pairs hright).1

end Pairs

/-- A separator that is in neither first part tells the parts. -/
theorem append_cons_inj {α : Type} {sep : α} {a b c d : List α} (ha : sep ∉ a) (hc : sep ∉ c)
    (h : a ++ sep :: b = c ++ sep :: d) : a = c ∧ b = d := by
  induction a generalizing c with
  | nil =>
      cases c with
      | nil => exact ⟨rfl, (List.cons_eq_cons.mp h).2⟩
      | cons y c =>
          obtain ⟨rfl, -⟩ := List.cons_eq_cons.mp h
          exact absurd List.mem_cons_self hc
  | cons x a ih =>
      cases c with
      | nil =>
          obtain ⟨rfl, -⟩ := List.cons_eq_cons.mp h
          exact absurd List.mem_cons_self ha
      | cons y c =>
          obtain ⟨rfl, htail⟩ := List.cons_eq_cons.mp h
          obtain ⟨rfl, rfl⟩ := ih (fun hm => ha (List.mem_cons_of_mem _ hm))
            (fun hm => hc (List.mem_cons_of_mem _ hm)) htail
          exact ⟨rfl, rfl⟩

/-- Without the separator in the first id, a key is of one pair only. -/
theorem pairKey_inj {a b c d : String} (ha : '|' ∉ a.toList) (hc : '|' ∉ c.toList)
    (h : pairKey a b = pairKey c d) : a = c ∧ b = d := by
  have hlist : a.toList ++ '|' :: b.toList = c.toList ++ '|' :: d.toList := by
    simpa [pairKey, String.toList_append] using congrArg String.toList h
  obtain ⟨h1, h2⟩ := append_cons_inj ha hc hlist
  exact ⟨String.toList_injective h1, String.toList_injective h2⟩

/-- No later pair of the loop has the key of this one. -/
def LastOfKey (ids : List String) (a b : String) : Prop :=
  ∃ l₁ l₂, pairs ids = l₁ ++ (a, b) :: l₂ ∧
    pairKey a b ∉ l₂.map fun p => pairKey p.1 p.2

/-- A later pair of the loop has the key of this one, and is written over it. -/
def Overwritten (ids : List String) (a b : String) : Prop :=
  ∃ l₁ l₂, pairs ids = l₁ ++ (a, b) :: l₂ ∧
    pairKey a b ∈ l₂.map fun p => pairKey p.1 p.2

theorem lastOfKey_or_overwritten {ids : List String} {a b : String} (h : (a, b) ∈ pairs ids) :
    LastOfKey ids a b ∨ Overwritten ids a b := by
  obtain ⟨l₁, l₂, heq⟩ := List.append_of_mem h
  by_cases hlater : pairKey a b ∈ l₂.map fun p => pairKey p.1 p.2
  · exact Or.inr ⟨l₁, l₂, heq, hlater⟩
  · exact Or.inl ⟨l₁, l₂, heq, hlater⟩

/-- Ids without the separator: nothing is written over. -/
theorem not_overwritten {ids : List String} (hids : ids.Nodup) (hbar : ∀ a ∈ ids, '|' ∉ a.toList)
    {a b : String} : ¬ Overwritten ids a b := by
  rintro ⟨l₁, l₂, heq, hlater⟩
  obtain ⟨⟨c, d⟩, hmem, hkey⟩ := List.mem_map.mp hlater
  have hab : (a, b) ∈ pairs ids := heq ▸ by simp
  have hcd : (c, d) ∈ pairs ids := heq ▸ by simp [hmem]
  obtain ⟨rfl, rfl⟩ := pairKey_inj (hbar c (of_mem_pairs hcd).1) (hbar a (of_mem_pairs hab).1) hkey
  have hnodup := nodup_pairs hids
  rw [heq] at hnodup
  exact (List.nodup_cons.mp (List.nodup_append'.mp hnodup).2.1).1 hmem

/-! ## Emissions -/

section Emissions

variable {Id Hash Tag : Type} {perBlock : List (BeaconBlock Id Hash Tag)}

def BeaconBlock.stamp (b : BeaconBlock Id Hash Tag) : Stamp := ⟨b.tEmitNs, b.posNm⟩

/-- The ids of the contributions, sorted. -/
def idsOf (perBlock : List (BeaconBlock Id Hash Tag)) : List String :=
  (perBlock.map fun b => b.emitterId).insertionSort (· ≤ ·)

theorem emissionsOf_of_nodup (h : (perBlock.map fun b => b.emitterId).Nodup) :
    emissionsOf perBlock = perBlock.map fun b => (b.emitterId, b.stamp) := by
  apply Dict.ofPairs_of_nodup
  simpa [Function.comp_def] using h

theorem sortedIds_emissionsOf (h : (perBlock.map fun b => b.emitterId).Nodup) :
    sortedIds (emissionsOf perBlock) = idsOf perBlock := by
  rw [emissionsOf_of_nodup h]
  simp [sortedIds, idsOf, Function.comp_def]

theorem mem_idsOf {a : String} : a ∈ idsOf perBlock ↔ ∃ b ∈ perBlock, b.emitterId = a := by
  simp [idsOf]

theorem nodup_idsOf (h : (perBlock.map fun b => b.emitterId).Nodup) : (idsOf perBlock).Nodup :=
  (List.perm_insertionSort _ _).nodup_iff.mpr h

theorem get?_emissionsOf (h : (perBlock.map fun b => b.emitterId).Nodup) {b : BeaconBlock Id Hash Tag}
    (hb : b ∈ perBlock) : Dict.get? (emissionsOf perBlock) b.emitterId = some b.stamp := by
  have hnodup : ((emissionsOf perBlock).map Prod.fst).Nodup := Dict.nodup_keys_ofPairs _
  rw [Dict.get?_eq_some hnodup, emissionsOf_of_nodup h]
  exact List.mem_map_of_mem hb

end Emissions

theorem recordAll_spec {emissions : Emissions} (eids : List String) (heids : eids.Nodup)
    (hknown : ∀ eid ∈ eids, ∃ e, Dict.get? emissions eid = some e)
    (ledger : CausalLedger String Unit) (hfresh : ∀ eid ∈ eids, ledger.events eid = none) :
    ∃ ledger', recordAll emissions eids ledger = .ok ledger' ∧
      ∀ eid, ledger'.events eid =
        if eid ∈ eids then Dict.get? emissions eid else ledger.events eid := by
  induction eids generalizing ledger with
  | nil => exact ⟨ledger, rfl, by simp⟩
  | cons x eids ih =>
      rw [List.nodup_cons] at heids
      obtain ⟨e, he⟩ := hknown x List.mem_cons_self
      have hadd : ledger.addEvent x e.timeNs e.posNm =
          ({ ledger with events := Function.update ledger.events x (some e) }, .ok ()) := by
        simp [CausalLedger.addEvent, hfresh x List.mem_cons_self]
      obtain ⟨ledger', hrec, hevents⟩ := ih heids.2
        (fun y hy => hknown y (List.mem_cons_of_mem _ hy))
        { ledger with events := Function.update ledger.events x (some e) } (fun y hy => by
          have hne : y ≠ x := fun h => heids.1 (h ▸ hy)
          show Function.update ledger.events x (some e) y = none
          rw [Function.update_of_ne hne]
          exact hfresh y (List.mem_cons_of_mem _ hy))
      refine ⟨ledger', ?_, fun y => ?_⟩
      · rw [recordAll, he]
        dsimp only
        rw [hadd]
        exact hrec
      · rw [hevents y]
        by_cases hy : y ∈ eids
        · simp [hy]
        · by_cases hyx : y = x
          · subst hyx
            simp [hy, he]
          · simp [hy, hyx]

theorem pairwiseLoop_spec {emissions : Emissions} {ledger : CausalLedger String Unit}
    {w : String × String → PairWitness} (ps : List (String × String))
    (hw : ∀ p ∈ ps, pairWitness emissions ledger p.1 p.2 = .ok (w p))
    (out : List (String × PairWitness)) :
    pairwiseLoop emissions ledger ps out =
      .ok ((ps.map fun p => (pairKey p.1 p.2, w p)).foldl (fun d p => Dict.set d p.1 p.2) out) := by
  induction ps generalizing out with
  | nil => rfl
  | cons p ps ih =>
      rw [pairwiseLoop, hw p List.mem_cons_self]
      exact ih (fun q hq => hw q (List.mem_cons_of_mem _ hq)) _

/-! ## The pairwise gate -/

section Gate

variable {Id Hash Key Tag : Type}

/-- Neither emission is in the light cone of the other. -/
def Spacelike (x y : BeaconBlock Id Hash Tag) : Prop :=
  ¬ causallyAdmissible x.tEmitNs x.posNm y.tEmitNs y.posNm = true ∧
  ¬ causallyAdmissible y.tEmitNs y.posNm x.tEmitNs x.posNm = true

/-- The witness of the pair of these blocks. -/
def blockWitness (x y : BeaconBlock Id Hash Tag) : PairWitness where
  witnessForward := admissibilityWitness x.tEmitNs x.posNm y.tEmitNs y.posNm
  witnessBackward := admissibilityWitness y.tEmitNs y.posNm x.tEmitNs x.posNm
  spacelike := !causallyAdmissible x.tEmitNs x.posNm y.tEmitNs y.posNm &&
    !causallyAdmissible y.tEmitNs y.posNm x.tEmitNs x.posNm

theorem blockWitness_spacelike_iff {x y : BeaconBlock Id Hash Tag} :
    (blockWitness x y).spacelike = true ↔ Spacelike x y := by
  simp [blockWitness, Spacelike]

/-- The direction that a refused pair names is admissible. -/
theorem blockWitness_direction {x y : BeaconBlock Id Hash Tag}
    (h : (blockWitness x y).spacelike = false) :
    ((blockWitness x y).towards (blockWitness x y).admissibleDirection).admissible = true := by
  rw [← Bool.not_eq_true, blockWitness_spacelike_iff, Spacelike, not_and_or, not_not, not_not] at h
  unfold PairWitness.admissibleDirection
  split
  · next hforward => exact hforward
  · next hforward => exact h.resolve_left hforward

/-- **The gate reads the last pair of every key.** The witnesses of contributions under distinct ids
are the dictionary of all pairs, each under its key. -/
theorem pairwise_of_distinct {perBlock : List (BeaconBlock Id Hash Tag)}
    (h : (perBlock.map fun b => b.emitterId).Nodup) :
    ∃ w : String × String → PairWitness,
      pairwiseSpacelikeWitnesses (emissionsOf perBlock) =
        .ok (Dict.ofPairs ((pairs (idsOf perBlock)).map fun p => (pairKey p.1 p.2, w p))) ∧
      ∀ x ∈ perBlock, ∀ y ∈ perBlock, w (x.emitterId, y.emitterId) = blockWitness x y := by
  have hknown : ∀ a ∈ idsOf perBlock, ∃ b ∈ perBlock, b.emitterId = a ∧
      Dict.get? (emissionsOf perBlock) a = some b.stamp := by
    intro a ha
    obtain ⟨b, hb, rfl⟩ := mem_idsOf.mp ha
    exact ⟨b, hb, rfl, get?_emissionsOf h hb⟩
  obtain ⟨ledger, hrec, hevents⟩ := @recordAll_spec (emissionsOf perBlock) (idsOf perBlock)
    (nodup_idsOf h) (fun a ha => by
      obtain ⟨b, -, -, hget⟩ := hknown a ha
      exact ⟨_, hget⟩) {} (fun _ _ => rfl)
  -- what the ledger and the dictionary say of two contributions
  have hpair : ∀ x ∈ perBlock, ∀ y ∈ perBlock,
      pairWitness (emissionsOf perBlock) ledger x.emitterId y.emitterId = .ok (blockWitness x y) := by
    intro x hx y hy
    have hxe : ledger.events x.emitterId = some x.stamp := by
      rw [hevents, if_pos (mem_idsOf.mpr ⟨x, hx, rfl⟩), get?_emissionsOf h hx]
    have hye : ledger.events y.emitterId = some y.stamp := by
      rw [hevents, if_pos (mem_idsOf.mpr ⟨y, hy, rfl⟩), get?_emissionsOf h hy]
    simp only [pairWitness, get?_emissionsOf h hx, get?_emissionsOf h hy,
      CausalLedger.concurrent, hxe, hye]
    rfl
  refine ⟨fun p => (pairWitness (emissionsOf perBlock) ledger p.1 p.2).toOption.getD
    ⟨admissibilityWitness 0 ⟨0, 0, 0⟩ 0 ⟨0, 0, 0⟩,
      admissibilityWitness 0 ⟨0, 0, 0⟩ 0 ⟨0, 0, 0⟩, false⟩, ?_, ?_⟩
  · unfold pairwiseSpacelikeWitnesses
    rw [sortedIds_emissionsOf h, hrec]
    dsimp only
    apply pairwiseLoop_spec
    rintro ⟨a, b⟩ hp
    obtain ⟨ha, hb⟩ := of_mem_pairs hp
    obtain ⟨x, hx, rfl, -⟩ := hknown a ha
    obtain ⟨y, hy, rfl, -⟩ := hknown b hb
    simp only [hpair x hx y hy, Except.toOption, Option.getD_some]
  · intro x hx y hy
    simp only [hpair x hx y hy, Except.toOption, Option.getD_some]

/-- The entries are the pairs that are the last of their key. -/
theorem mem_pairwise_iff {perBlock : List (BeaconBlock Id Hash Tag)}
    {w : String × String → PairWitness}
    (hw : ∀ x ∈ perBlock, ∀ y ∈ perBlock, w (x.emitterId, y.emitterId) = blockWitness x y)
    {key : String} {v : PairWitness} :
    (key, v) ∈ Dict.ofPairs ((pairs (idsOf perBlock)).map fun p => (pairKey p.1 p.2, w p)) ↔
      ∃ x ∈ perBlock, ∃ y ∈ perBlock, LastOfKey (idsOf perBlock) x.emitterId y.emitterId ∧
        key = pairKey x.emitterId y.emitterId ∧ v = blockWitness x y := by
  rw [Dict.mem_ofPairs]
  constructor
  · rintro ⟨m₁, m₂, heq, hlast⟩
    obtain ⟨l₁, l, hl, rfl, hl₂⟩ := List.map_eq_append_iff.mp heq
    obtain ⟨⟨a, b⟩, l₂, rfl, hab, rfl⟩ := List.map_eq_cons_iff.mp hl₂
    obtain ⟨hkey, hv⟩ := Prod.mk.inj hab
    have hmem : (a, b) ∈ pairs (idsOf perBlock) := hl ▸ by simp
    obtain ⟨ha, hb⟩ := of_mem_pairs hmem
    obtain ⟨x, hx, rfl⟩ := mem_idsOf.mp ha
    obtain ⟨y, hy, rfl⟩ := mem_idsOf.mp hb
    refine ⟨x, hx, y, hy, ⟨l₁, l₂, hl, ?_⟩, hkey.symm, hv.symm.trans (hw x hx y hy)⟩
    rw [hkey]
    simpa [Function.comp_def] using hlast
  · rintro ⟨x, hx, y, hy, ⟨l₁, l₂, heq, hlast⟩, rfl, rfl⟩
    refine ⟨l₁.map fun p => (pairKey p.1 p.2, w p), l₂.map fun p => (pairKey p.1 p.2, w p), ?_, ?_⟩
    · rw [heq, List.map_append, List.map_cons, hw x hx y hy]
    · simpa [Function.comp_def] using hlast

/-- The pairwise gate is passed when the last pair of every key is spacelike. -/
theorem pairwise_spacelike_iff {perBlock : List (BeaconBlock Id Hash Tag)}
    {w : String × String → PairWitness}
    (hw : ∀ x ∈ perBlock, ∀ y ∈ perBlock, w (x.emitterId, y.emitterId) = blockWitness x y) :
    (∀ e ∈ Dict.ofPairs ((pairs (idsOf perBlock)).map fun p => (pairKey p.1 p.2, w p)),
      e.2.spacelike = true) ↔
      ∀ x ∈ perBlock, ∀ y ∈ perBlock, LastOfKey (idsOf perBlock) x.emitterId y.emitterId →
        Spacelike x y := by
  constructor
  · intro h x hx y hy hlast
    rw [← blockWitness_spacelike_iff]
    exact h _ ((mem_pairwise_iff hw).mpr ⟨x, hx, y, hy, hlast, rfl, rfl⟩)
  · rintro h ⟨key, v⟩ he
    obtain ⟨x, hx, y, hy, hlast, -, rfl⟩ := (mem_pairwise_iff hw).mp he
    exact blockWitness_spacelike_iff.mpr (h x hx y hy hlast)

end Gate

end HorizonProtocol.Beacon
