import Mathlib.Data.Set.Finite.Basic
import Mathlib.Data.List.Perm.Basic
import Mathlib.Logic.Relation
import Mathlib.Order.WellFoundedSet

/-!
# Keeping the maximal elements of what was offered

An abstract shelf is offered elements one at a time and keeps a *live* set. A new element that a
live element is above is refused; otherwise it enters, and the live elements below it retire. The
question is when the live set is the set of maximal elements, whatever the order of the offers.

* `Kept.enter` — over a strict order, the live set stays the set of maximal stored elements with
  every element let in.
* `live_deliver` — over any relation, the live set ends as the maximal elements of everything
  offered when that is `Covered`: whatever is below something is below something maximal.
* `delivers_alike_iff` — over an acyclic relation, being `Covered` is also necessary for all
  delivery orders to end alike.
-/

namespace Frontier

variable {α : Type*} (r : α → α → Prop)

/-- The elements of `s` that no element of `s` is above. -/
def maximal (s : Set α) : Set α := {x | x ∈ s ∧ ∀ y ∈ s, ¬ r x y}

/-- Whatever has something above it in `s` is directly below something maximal in `s`. Free when
`r` is transitive and `s` finite (`covered_of_finite`). -/
def Covered (s : Set α) : Prop :=
  ∀ x ∈ s, ∀ y ∈ s, r x y → ∃ z ∈ maximal r s, r x z

variable {r} {s : Set α}

theorem maximal_subset : maximal r s ⊆ s := fun _ hx => hx.1

/-- A map that carries one relation to another carries maximal elements to maximal elements. -/
theorem image_maximal {β : Type*} {q : β → β → Prop} (f : α → β)
    (hf : ∀ x y, r x y ↔ q (f x) (f y)) : f '' maximal r s = maximal q (f '' s) := by
  apply Set.Subset.antisymm
  · intro b hb
    obtain ⟨x, ⟨hx, hmax⟩, rfl⟩ := hb
    refine ⟨⟨x, hx, rfl⟩, fun c hc hxc => ?_⟩
    obtain ⟨y, hy, rfl⟩ := hc
    exact hmax y hy ((hf x y).mpr hxc)
  · intro b hb
    obtain ⟨⟨x, hx, rfl⟩, hmax⟩ := hb
    exact ⟨x, ⟨hx, fun y hy hxy => hmax (f y) ⟨y, hy, rfl⟩ ((hf x y).mp hxy)⟩, rfl⟩

/-- A finite nonempty set has a maximal element. -/
theorem maximal_nonempty [IsStrictOrder α r] (hs : s.Finite) (hne : s.Nonempty) :
    (maximal r s).Nonempty := by
  have : IsStrictOrder α (Function.swap r) :=
    { irrefl := fun a => irrefl_of r a
      trans := fun a b c hab hbc => trans_of r hbc hab }
  have hwf : s.WellFoundedOn (Function.swap r) := hs.wellFoundedOn
  obtain ⟨x, hx⟩ := hne
  obtain ⟨m, -, hm⟩ := WellFounded.has_min hwf Set.univ ⟨⟨x, hx⟩, trivial⟩
  exact ⟨m, m.2, fun y hy => hm ⟨y, hy⟩ trivial⟩

/-- In a finite set, what is not maximal is below something maximal. -/
theorem exists_maximal_above [IsStrictOrder α r] (hs : s.Finite) {x y : α}
    (hy : y ∈ s) (hxy : r x y) : ∃ z ∈ maximal r s, r x z := by
  have hfin : {z ∈ s | r x z}.Finite := hs.subset fun _ hz => hz.1
  obtain ⟨z, ⟨hz, hxz⟩, hmax⟩ := maximal_nonempty (r := r) hfin ⟨y, hy, hxy⟩
  exact ⟨z, ⟨hz, fun w hw hzw => hmax w ⟨hw, trans_of r hxz hzw⟩ hzw⟩, hxz⟩

theorem covered_of_finite [IsStrictOrder α r] (hs : s.Finite) : Covered r s :=
  fun _ _ _ hy hxy => exists_maximal_above hs hy hxy

/-! ## The shelf -/

/-- What was admitted, and the part of it that has not been superseded. -/
@[ext] structure Shelf (α : Type*) where
  stored : Set α
  live : Set α

namespace Shelf

/-- The shelf nothing was offered to. -/
def empty : Shelf α := ⟨∅, ∅⟩

/-- An element is refused when it is there already or a live element is above it. -/
def Refuses (r : α → α → Prop) (s : Shelf α) (x : α) : Prop :=
  x ∈ s.stored ∨ ∃ f ∈ s.live, r x f

/-- The shelf once `x` has been let in: the live elements below `x` retire. -/
def enter (r : α → α → Prop) (s : Shelf α) (x : α) : Shelf α where
  stored := insert x s.stored
  live := insert x {f ∈ s.live | ¬ r f x}

open Classical in
/-- Offer one element. -/
noncomputable def offer (r : α → α → Prop) (s : Shelf α) (x : α) : Shelf α :=
  if s.Refuses r x then s else s.enter r x

variable {t : Shelf α} {x : α}

theorem offer_of_refuses (h : t.Refuses r x) : t.offer r x = t := if_pos h

theorem offer_of_not_refuses (h : ¬ t.Refuses r x) : t.offer r x = t.enter r x := if_neg h

@[simp] theorem mem_enter_stored {y : α} : y ∈ (t.enter r x).stored ↔ y = x ∨ y ∈ t.stored :=
  Iff.rfl

@[simp] theorem mem_enter_live {y : α} :
    y ∈ (t.enter r x).live ↔ y = x ∨ (y ∈ t.live ∧ ¬ r y x) := Iff.rfl

/-- Offer a list of elements to the empty shelf, first to last. -/
noncomputable def deliver (r : α → α → Prop) (xs : List α) : Shelf α :=
  xs.foldl (Shelf.offer r) empty

@[simp] theorem deliver_nil : deliver r ([] : List α) = empty := rfl

@[simp] theorem deliver_concat (xs : List α) (x : α) :
    deliver r (xs ++ [x]) = (deliver r xs).offer r x := by
  simp [deliver]

end Shelf

open Frontier.Shelf

/-! ## Over a strict order: an invariant of every single offer -/

/-- The live elements are exactly the maximal stored ones. -/
structure Kept (r : α → α → Prop) (t : Shelf α) : Prop where
  finite : t.stored.Finite
  live_eq : t.live = maximal r t.stored

theorem Kept.empty : Kept r (Shelf.empty : Shelf α) where
  finite := Set.finite_empty
  live_eq := by simp [Shelf.empty, maximal]

/-- Being below a live element is being below a stored one. -/
theorem Kept.dominated_iff [IsStrictOrder α r] {t : Shelf α} (h : Kept r t) {x : α} :
    (∃ f ∈ t.live, r x f) ↔ ∃ f ∈ t.stored, r x f := by
  rw [h.live_eq]
  constructor
  · rintro ⟨f, hf, hxf⟩
    exact ⟨f, maximal_subset hf, hxf⟩
  · rintro ⟨f, hf, hxf⟩
    exact exists_maximal_above h.finite hf hxf

/-- Letting in an element nothing live is above keeps the invariant. -/
theorem Kept.enter [IsStrictOrder α r] {t : Shelf α} (h : Kept r t) {x : α}
    (hx : ¬ ∃ f ∈ t.live, r x f) : Kept r (t.enter r x) where
  finite := h.finite.insert x
  live_eq := by
    rw [h.dominated_iff] at hx
    push Not at hx
    ext y
    rw [mem_enter_live, h.live_eq]
    constructor
    · rintro (rfl | ⟨⟨hy, hmax⟩, hyx⟩)
      · refine ⟨Or.inl rfl, ?_⟩
        rintro z (rfl | hz)
        · exact irrefl_of r z
        · exact hx z hz
      · refine ⟨Or.inr hy, ?_⟩
        rintro z (rfl | hz)
        · exact hyx
        · exact hmax z hz
    · rintro ⟨rfl | hy, hmax⟩
      · exact Or.inl rfl
      · exact Or.inr ⟨⟨hy, fun z hz => hmax z (Or.inr hz)⟩, hmax x (Or.inl rfl)⟩

/-! ## Over any relation: what a whole delivery leaves live -/

theorem stored_deliver_subset (xs : List α) : (deliver r xs).stored ⊆ {x | x ∈ xs} := by
  induction xs using List.reverseRecOn with
  | nil => exact fun _ h => h.elim
  | append_singleton xs x ih =>
      rw [deliver_concat]
      by_cases hx : (deliver r xs).Refuses r x
      · rw [offer_of_refuses hx]
        exact fun y hy => List.mem_append_left _ (ih hy)
      · rw [offer_of_not_refuses hx]
        rintro y (rfl | hy)
        · exact List.mem_append_right _ (List.mem_singleton_self y)
        · exact List.mem_append_left _ (ih hy)

theorem live_deliver_subset (xs : List α) : (deliver r xs).live ⊆ (deliver r xs).stored := by
  induction xs using List.reverseRecOn with
  | nil => exact fun _ h => h
  | append_singleton xs x ih =>
      rw [deliver_concat]
      by_cases hx : (deliver r xs).Refuses r x
      · rwa [offer_of_refuses hx]
      · rw [offer_of_not_refuses hx]
        rintro y (rfl | ⟨hy, -⟩)
        · exact Or.inl rfl
        · exact Or.inr (ih hy)

/-- A maximal element of `s` is live from the moment it is delivered, and from then on nothing
below it is. -/
theorem live_of_maximal {xs : List α} (hxs : ∀ x ∈ xs, x ∈ s) {z : α} (hz : z ∈ maximal r s)
    (hzx : z ∈ xs) : z ∈ (deliver r xs).live ∧ ∀ x ∈ (deliver r xs).live, ¬ r x z := by
  induction xs using List.reverseRecOn with
  | nil => cases hzx
  | append_singleton xs x ih =>
      have hsub : ∀ y ∈ xs, y ∈ s := fun y hy => hxs y (List.mem_append_left _ hy)
      have hxs' : x ∈ s := hxs x (List.mem_append_right _ (List.mem_singleton_self x))
      have hstored := stored_deliver_subset (r := r) xs
      have hlive := live_deliver_subset (r := r) xs
      rw [deliver_concat]
      by_cases hzxs : z ∈ xs
      · -- `z` came earlier: it is live, so `x` is refused when below it
        obtain ⟨hzl, hbelow⟩ := ih hsub hzxs
        by_cases hx : (deliver r xs).Refuses r x
        · rw [offer_of_refuses hx]
          exact ⟨hzl, hbelow⟩
        · rw [offer_of_not_refuses hx]
          refine ⟨Or.inr ⟨hzl, hz.2 x hxs'⟩, ?_⟩
          rintro y (rfl | ⟨hy, -⟩)
          · exact fun hyz => hx (Or.inr ⟨z, hzl, hyz⟩)
          · exact hbelow y hy
      · -- `z` comes now: nothing refuses it, and what is live below it retires
        obtain rfl : z = x := by
          rcases List.mem_append.mp hzx with h | h
          · exact absurd h hzxs
          · exact List.mem_singleton.mp h
        have hx : ¬ (deliver r xs).Refuses r z := by
          rintro (h | ⟨f, hf, hzf⟩)
          · exact hzxs (hstored h)
          · exact hz.2 f (hsub f (hstored (hlive hf))) hzf
        rw [offer_of_not_refuses hx]
        refine ⟨Or.inl rfl, ?_⟩
        rintro y (rfl | ⟨-, hyz⟩)
        · exact hz.2 y hxs'
        · exact hyz

/-- **Convergence.** When the delivered elements are covered, exactly the maximal ones end live,
whatever the order of delivery and however often each is repeated. -/
theorem live_deliver {xs : List α} (hcov : Covered r {x | x ∈ xs}) :
    (deliver r xs).live = maximal r {x | x ∈ xs} := by
  have hxs : ∀ x ∈ xs, x ∈ {x | x ∈ xs} := fun _ h => h
  ext x
  constructor
  · intro hx
    have hxm : x ∈ xs := stored_deliver_subset xs (live_deliver_subset xs hx)
    refine ⟨hxm, fun y hy hxy => ?_⟩
    obtain ⟨z, hz, hxz⟩ := hcov x hxm y hy hxy
    exact (live_of_maximal hxs hz hz.1).2 x hx hxz
  · exact fun hx => (live_of_maximal hxs hx hx.1).1

/-! ## Why nothing weaker will do -/

/-- No chain of elements of `s`, each below the next, returns to its start. -/
def AcyclicOn (r : α → α → Prop) (s : Set α) : Prop :=
  ∀ x, ¬ Relation.TransGen (fun a b => r a b ∧ a ∈ s ∧ b ∈ s) x x

theorem AcyclicOn.irrefl (h : AcyclicOn r s) {x : α} (hx : x ∈ s) : ¬ r x x :=
  fun hxx => h x (.single ⟨hxx, hx, hx⟩)

theorem AcyclicOn.asymm (h : AcyclicOn r s) {x y : α} (hx : x ∈ s) (hy : y ∈ s) (hxy : r x y) :
    ¬ r y x :=
  fun hyx => h x (.tail (.single ⟨hxy, hx, hy⟩) ⟨hyx, hy, hx⟩)

theorem AcyclicOn.subset {t : Set α} (h : AcyclicOn r t) (hst : s ⊆ t) : AcyclicOn r s :=
  fun x hx => h x (Relation.TransGen.mono
    (fun _ _ hab => ⟨hab.1, hst hab.2.1, hst hab.2.2⟩) x x hx)

/-- A relation that raises a rank in a partial order has no cycle. -/
theorem AcyclicOn.of_rank {β : Type*} [Preorder β] (rank : α → β)
    (hrank : ∀ a ∈ s, ∀ b ∈ s, r a b → rank a < rank b) : AcyclicOn r s := by
  have hchain : ∀ a b, Relation.TransGen (fun a b => r a b ∧ a ∈ s ∧ b ∈ s) a b →
      rank a < rank b := by
    intro a b h
    induction h with
    | single hab => exact hrank _ hab.2.1 _ hab.2.2 hab.1
    | tail _ hbc ih => exact ih.trans (hrank _ hbc.2.1 _ hbc.2.2 hbc.1)
  intro x hx
  exact lt_irrefl _ (hchain x x hx)

theorem AcyclicOn.not_transGen (h : AcyclicOn r Set.univ) (x : α) : ¬ Relation.TransGen r x x :=
  fun hx => h x (Relation.TransGen.mono (fun _ _ hab => ⟨hab, trivial, trivial⟩) x x hx)

/-- Acyclic is enough for a finite nonempty set to have a maximal element. -/
theorem AcyclicOn.maximal_nonempty (h : AcyclicOn r s) (hs : s.Finite) (hne : s.Nonempty) :
    (maximal r s).Nonempty := by
  have : IsStrictOrder α (Relation.TransGen fun a b => r a b ∧ a ∈ s ∧ b ∈ s) :=
    { irrefl := h, trans := fun _ _ _ => Relation.TransGen.trans }
  obtain ⟨m, hm, hmax⟩ := Frontier.maximal_nonempty
    (r := Relation.TransGen fun a b => r a b ∧ a ∈ s ∧ b ∈ s) hs hne
  exact ⟨m, hm, fun y hy hmy => hmax y hy (.single ⟨hmy, hm, hy⟩)⟩

/-- Delivering a list in which nothing comes after something above it leaves exactly the maximal
elements live. -/
theorem deliver_of_pairwise {xs : List α} (hirr : ∀ x ∈ xs, ¬ r x x) (hnd : xs.Nodup)
    (hup : xs.Pairwise fun a b => ¬ r b a) :
    (deliver r xs).stored = {x | x ∈ xs} ∧ (deliver r xs).live = maximal r {x | x ∈ xs} := by
  induction xs using List.reverseRecOn with
  | nil => simp [Shelf.empty, maximal]
  | append_singleton xs x ih =>
      rw [List.nodup_append] at hnd
      rw [List.pairwise_append] at hup
      obtain ⟨hnd, -, hdisj⟩ := hnd
      obtain ⟨hup, -, hlast⟩ := hup
      obtain ⟨hstored, hlive⟩ := ih (fun y hy => hirr y (List.mem_append_left _ hy)) hnd hup
      have hx : ∀ y ∈ xs, ¬ r x y := fun y hy => hlast y hy x (List.mem_singleton_self x)
      have hnew : ¬ (deliver r xs).Refuses r x := by
        rintro (h | ⟨f, hf, hxf⟩)
        · rw [hstored] at h
          exact hdisj x h x (List.mem_singleton_self x) rfl
        · rw [hlive] at hf
          exact hx f hf.1 hxf
      rw [deliver_concat, offer_of_not_refuses hnew]
      constructor
      · ext y
        rw [mem_enter_stored, hstored]
        simp [or_comm]
      · ext y
        rw [mem_enter_live, hlive]
        simp only [maximal, Set.mem_ofPred_eq, List.mem_append, List.mem_singleton]
        constructor
        · rintro (rfl | ⟨⟨hy, hmax⟩, hyx⟩)
          · refine ⟨Or.inr rfl, ?_⟩
            rintro z (hz | rfl)
            · exact hx z hz
            · exact hirr z (List.mem_append_right _ (List.mem_singleton_self z))
          · refine ⟨Or.inl hy, ?_⟩
            rintro z (hz | rfl)
            · exact hmax z hz
            · exact hyx
        · rintro ⟨hy | rfl, hmax⟩
          · exact Or.inr ⟨⟨hy, fun z hz => hmax z (Or.inl hz)⟩, hmax x (Or.inr rfl)⟩
          · exact Or.inl rfl

/-- An acyclic relation lets any list be put in an order in which nothing comes after something
above it. -/
theorem exists_perm_pairwise (hacy : AcyclicOn r s) (xs : List α) (hxs : ∀ x ∈ xs, x ∈ s)
    (hnd : xs.Nodup) : ∃ ys : List α, ys.Perm xs ∧ ys.Pairwise fun a b => ¬ r b a := by
  classical
  induction hn : xs.length generalizing xs with
  | zero => exact ⟨[], by rw [List.length_eq_zero_iff.mp hn], List.Pairwise.nil⟩
  | succ n ih =>
      have hne : {x | x ∈ xs}.Nonempty := by
        obtain ⟨x, hx⟩ := List.exists_mem_of_length_pos (by omega : 0 < xs.length)
        exact ⟨x, hx⟩
      -- the last element is one that nothing is above
      obtain ⟨m, hm, hmax⟩ :=
        (hacy.subset hxs : AcyclicOn r {x | x ∈ xs}).maximal_nonempty (List.finite_toSet xs) hne
      have hlen : (xs.erase m).length = n := by
        rw [List.length_erase_of_mem hm, hn]
        rfl
      obtain ⟨ys, hperm, hys⟩ := ih (xs.erase m)
        (fun x hx => hxs x (List.mem_of_mem_erase hx)) (hnd.erase m) hlen
      refine ⟨ys ++ [m], ?_, ?_⟩
      · have hcons : (m :: ys).Perm xs := (hperm.cons m).trans (List.perm_cons_erase hm).symm
        exact (List.perm_append_singleton m ys).trans hcons
      · rw [List.pairwise_append]
        refine ⟨hys, List.pairwise_singleton _ _, ?_⟩
        intro a ha b hb hba
        obtain rfl := List.mem_singleton.mp hb
        have ham : a ∈ xs := List.mem_of_mem_erase (hperm.mem_iff.mp ha)
        exact hmax a ham hba

/-- Being covered depends on the elements only. -/
theorem Covered.of_perm {xs ys : List α} (h : xs.Perm ys) (hcov : Covered r {x | x ∈ ys}) :
    Covered r {x | x ∈ xs} := by
  have hset : {x | x ∈ xs} = {x | x ∈ ys} := Set.ext fun _ => h.mem_iff
  rwa [hset]

/-- **Exactness.** Over a set on which the relation is acyclic, all delivery orders end with the
same live elements exactly when the set is covered. When some `x` is below something but below
nothing maximal, an upward order ends without `x` live, and the same order with `x` moved last
ends with it. -/
theorem delivers_alike_iff {ws : List α} (hacy : AcyclicOn r {x | x ∈ ws}) (hnd : ws.Nodup) :
    (∀ xs ys : List α, xs.Perm ws → ys.Perm ws → (deliver r xs).live = (deliver r ys).live) ↔
      Covered r {x | x ∈ ws} := by
  classical
  constructor
  · intro halike x hx y hy hxy
    by_contra hnone
    push Not at hnone
    have hrestws : ∀ z ∈ ws.erase x, z ∈ ws := fun z hz => List.mem_of_mem_erase hz
    obtain ⟨up, hup, hpair⟩ := exists_perm_pairwise hacy ws (fun _ h => h) hnd
    obtain ⟨rest, hrest, hpair'⟩ := exists_perm_pairwise hacy (ws.erase x) hrestws (hnd.erase x)
    have hlast : (rest ++ [x]).Perm ws :=
      (List.perm_append_singleton x rest).trans
        ((hrest.cons x).trans (List.perm_cons_erase hx).symm)
    have hmem : ∀ z, z ∈ rest ↔ z ≠ x ∧ z ∈ ws := fun z =>
      hrest.mem_iff.trans hnd.mem_erase_iff
    have hlive : x ∈ (deliver r (rest ++ [x])).live := by
      obtain ⟨hstored, hl⟩ := deliver_of_pairwise
        (fun z hz => hacy.irrefl ((hmem z).mp hz).2)
        (hrest.nodup_iff.mpr (hnd.erase x)) hpair'
      have hnew : ¬ (deliver r rest).Refuses r x := by
        intro h
        rcases h with h | ⟨f, hf, hxf⟩
        · rw [hstored] at h
          exact ((hmem x).mp h).1 rfl
        · -- a live `f` above `x` would be maximal in the whole set
          rw [hl] at hf
          have hfw : f ∈ ws := ((hmem f).mp hf.1).2
          refine hnone f ⟨hfw, fun z hz hfz => ?_⟩ hxf
          by_cases hzx : z = x
          · subst hzx
            exact hacy.asymm hx hfw hxf hfz
          · exact hf.2 z ((hmem z).mpr ⟨hzx, hz⟩) hfz
      rw [deliver_concat, offer_of_not_refuses hnew]
      exact Or.inl rfl
    have hupirr : ∀ z ∈ up, ¬ r z z := fun z hz => hacy.irrefl (hup.mem_iff.mp hz)
    rw [halike _ up hlast hup,
      (deliver_of_pairwise hupirr (hup.nodup_iff.mpr hnd) hpair).2] at hlive
    exact hlive.2 y (hup.mem_iff.mpr hy) hxy
  · intro hcov xs ys hxs hys
    have hset : ∀ {zs : List α}, zs.Perm ws → {x | x ∈ zs} = {x | x ∈ ws} :=
      fun h => Set.ext fun _ => h.mem_iff
    rw [live_deliver (hcov.of_perm hxs), live_deliver (hcov.of_perm hys), hset hxs, hset hys]

end Frontier
