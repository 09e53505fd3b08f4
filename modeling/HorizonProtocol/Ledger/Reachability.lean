import HorizonProtocol.Ledger.Ledger

/-!
# The two reachability queries

`precedes` rescans the edge set at every node and walks depth first; `precedes_fast` reads an index
and walks breadth first. Both are `Worklist.search`, and their inner loops make the same list of new
nodes from the heads of a node's edges (`scanEdges_eq`), so one `ScanSpec` serves both.
-/

namespace HorizonProtocol

open ReachabilityCache

variable {Eid Ref : Type} [DecidableEq Eid]

/-- The heads of the edges of a node, in the order of the edges. -/
def heads (x : Eid) (edges : List (Eid × Eid)) : List Eid :=
  (edges.filter fun e => decide (e.1 = x)).map Prod.snd

theorem mem_heads {x v : Eid} {edges : List (Eid × Eid)} : v ∈ heads x edges ↔ (x, v) ∈ edges := by
  simp only [heads, List.mem_map, List.mem_filter, decide_eq_true_eq]
  constructor
  · intro h
    obtain ⟨⟨u, w⟩, ⟨he, rfl⟩, rfl⟩ := h
    exact he
  · intro h
    exact ⟨(x, v), ⟨h, rfl⟩, rfl⟩

/-- An entry of the index is the list of heads. -/
theorem buildAdjacency_apply (edges : List (Eid × Eid)) (x : Eid) :
    buildAdjacency edges x = heads x edges := by
  unfold buildAdjacency
  induction edges using List.reverseRecOn with
  | nil => rfl
  | append_singleton edges e ih =>
      rw [List.foldl_append, List.foldl_cons, List.foldl_nil]
      by_cases hx : e.1 = x
      · subst hx
        rw [Function.update_self, ih]
        simp [heads]
      · rw [Function.update_of_ne (Ne.symm hx), ih]
        simp [heads, hx]

/-! ## The inner loops -/

namespace ReachabilityCache

variable {b : Eid}

/-- The inner loop stops at the target, and otherwise lists each new node once. -/
theorem scanNeighbours_spec (vs : List Eid) {seen : List Eid} (hb : b ∉ seen) :
    match scanNeighbours b vs seen with
    | none => b ∈ vs
    | some fresh => b ∉ vs ∧ fresh.Nodup ∧ ∀ v, v ∈ fresh ↔ v ∈ vs ∧ v ∉ seen := by
  induction vs generalizing seen with
  | nil => simp [scanNeighbours]
  | cons v vs ih =>
      unfold scanNeighbours
      by_cases hvb : v = b
      · simp [hvb]
      · by_cases hvs : v ∈ seen
        · simp only [hvb, hvs, if_false, not_true_eq_false]
          have hrest := ih hb
          cases hscan : scanNeighbours b vs seen with
          | none =>
              rw [hscan] at hrest
              exact List.mem_cons_of_mem v hrest
          | some fresh =>
              rw [hscan] at hrest
              obtain ⟨hbvs, hnd, hmem⟩ := hrest
              refine ⟨by grind, hnd, fun w => ?_⟩
              grind
        · simp only [hvb, hvs, if_false, not_false_eq_true, if_true]
          have hb' : b ∉ seen ++ [v] := by grind
          have hrest := ih hb'
          cases hscan : scanNeighbours b vs (seen ++ [v]) with
          | none =>
              rw [hscan] at hrest
              exact List.mem_cons_of_mem v hrest
          | some fresh =>
              rw [hscan] at hrest
              obtain ⟨hbvs, hnd, hmem⟩ := hrest
              refine ⟨by grind, List.nodup_cons.mpr ⟨by grind, hnd⟩, fun w => ?_⟩
              grind

/-- The inner loop over an index of the edges is a scan. -/
theorem scanSpec_neighbours {edge : Eid → Eid → Prop} {adj : Eid → List Eid}
    (hadj : ∀ x v, v ∈ adj x ↔ edge x v) :
    Worklist.ScanSpec edge b fun x seen => scanNeighbours b (adj x) seen where
  hit := by
    intro x seen hb h
    have hspec := scanNeighbours_spec (adj x) hb
    rw [h] at hspec
    exact (hadj x b).mp hspec
  fresh_nodup := by
    intro x seen fresh hb h
    have hspec := scanNeighbours_spec (adj x) hb
    rw [h] at hspec
    exact hspec.2.1
  fresh_iff := by
    intro x seen fresh hb h v
    have hspec := scanNeighbours_spec (adj x) hb
    rw [h] at hspec
    rw [hspec.2.2 v, hadj]
  miss := by
    intro x seen fresh hb h
    have hspec := scanNeighbours_spec (adj x) hb
    rw [h] at hspec
    rw [← hadj]
    exact hspec.1

end ReachabilityCache

namespace CausalLedger

variable {b : Eid}

/-- Both inner loops agree. The one of `precedes` asks first whether a head is new, the other first
whether it is the target; the target is never among the nodes seen. -/
theorem scanEdges_eq {x : Eid} {edges : List (Eid × Eid)} {seen : List Eid} (hb : b ∉ seen) :
    scanEdges b x edges seen = scanNeighbours b (heads x edges) seen := by
  induction edges generalizing seen with
  | nil => rfl
  | cons e edges ih =>
      obtain ⟨u, v⟩ := e
      unfold scanEdges
      by_cases hu : u = x
      · have hheads : heads x ((u, v) :: edges) = v :: heads x edges := by simp [heads, hu]
        rw [hheads, scanNeighbours]
        by_cases hvb : v = b
        · subst hvb
          simp [hu, hb]
        · by_cases hvs : v ∈ seen
          · simp [hvb, hvs, ih hb]
          · have hb' : b ∉ seen ++ [v] := by grind
            simp [hu, hvb, hvs, ih hb']
      · have hheads : heads x ((u, v) :: edges) = heads x edges := by simp [heads, hu]
        rw [hheads, ← ih hb]
        simp [hu]

/-- The admitted edges as a relation. -/
def Edge (s : CausalLedger Eid Ref) (a b : Eid) : Prop := (a, b) ∈ s.edges

/-- The index, when there is one, lists exactly the admitted edges. -/
def CacheValid (s : CausalLedger Eid Ref) : Prop :=
  ∀ adj, s.adjacencyCache = some adj → ∀ x v, v ∈ adj x ↔ s.Edge x v

/-- The index that a query reads, built before or now, lists exactly the admitted edges. -/
theorem CacheValid.adjacency {s : CausalLedger Eid Ref} (h : s.CacheValid)
    (order : SetOrder (Eid × Eid)) (x v : Eid) :
    v ∈ s.adjacencyCache.getD (buildAdjacency (order.iter s.edges)) x ↔ s.Edge x v := by
  cases hc : s.adjacencyCache with
  | none =>
      rw [Option.getD_none, buildAdjacency_apply, mem_heads]
      exact order.mem_iter s.edges (x, v)
  | some adj => exact h adj hc x v

theorem scanSpec_edges (s : CausalLedger Eid Ref) (order : SetOrder (Eid × Eid)) :
    Worklist.ScanSpec s.Edge b fun x seen => scanEdges b x (order.iter s.edges) seen := by
  have hadj : ∀ x v, v ∈ heads x (order.iter s.edges) ↔ s.Edge x v := fun x v =>
    mem_heads.trans (order.mem_iter s.edges (x, v))
  exact (scanSpec_neighbours hadj).congr scanEdges_eq

/-! ## The searches -/

/-- The nodes that edges lead to, and their number against the fuel. -/
theorem fuel_suffices (s : CausalLedger Eid Ref) (seen : List Eid) (a : Eid) :
    ((s.edges.image Prod.snd) \ seen.toFinset).card + [a].length < s.searchFuel := by
  have hle : ((s.edges.image Prod.snd) \ seen.toFinset).card ≤ s.edges.card :=
    (Finset.card_le_card Finset.sdiff_subset).trans Finset.card_image_le
  simp only [searchFuel, List.length_singleton]
  omega

theorem mem_image_of_edge (s : CausalLedger Eid Ref) :
    ∀ x v, s.Edge x v → v ∈ s.edges.image Prod.snd :=
  fun x v h => Finset.mem_image.mpr ⟨(x, v), h, rfl⟩

/-- The reference query ends, and decides the transitive closure of the admitted edges. -/
theorem precedes_iff (s : CausalLedger Eid Ref) (order : SetOrder (Eid × Eid)) (a b : Eid) :
    ∃ r, s.precedes order a b = some r ∧ (r = true ↔ Relation.TransGen s.Edge a b) := by
  apply Worklist.search_of_inv (s.scanSpec_edges order) ?_ s.mem_image_of_edge s.searchFuel ?_
    (s.fuel_suffices [] a)
  · intro stack fresh
    exact ((List.reverse_perm fresh).append_right stack).trans List.perm_append_comm
  · exact
      { target := List.not_mem_nil
        seen_reached := by simp
        work_known := by simp
        closed := by simp +contextual }

/-- Under a valid index the fast query ends, and decides the closure between different ids; between
equal ones it answers that there is no path. -/
theorem precedesFast_iff {s : CausalLedger Eid Ref} (h : s.CacheValid)
    (order : SetOrder (Eid × Eid)) (a b : Eid) :
    ∃ r, (s.precedesFast order a b).2 = some r ∧
      (r = true ↔ a ≠ b ∧ Relation.TransGen s.Edge a b) := by
  simp only [CausalLedger.precedesFast, ReachabilityCache.precedesFast]
  split
  · next hab => exact ⟨false, rfl, by simp [hab]⟩
  · next hab =>
      have hpush : Worklist.PushSpec fun queue fresh : List Eid => queue ++ fresh :=
        fun _ _ => .refl _
      have hsearch := Worklist.search_of_inv (a := a) (b := b) 
        (scanSpec_neighbours (h.adjacency order)) hpush
        s.mem_image_of_edge s.searchFuel
        { target := by simpa using Ne.symm hab
          seen_reached := by simp
          work_known := by simp
          closed := by simp +contextual }
        (s.fuel_suffices [a] a)
      simpa [hab] using hsearch

end CausalLedger

end HorizonProtocol
