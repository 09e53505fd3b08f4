import HorizonProtocol.Mnemesis.Stale

/-!
# Delivery orders of dependent writes

A `put` that arrives before a write it claims to supersede is refused with `unknown_predecessor`,
and refused for good: nothing holds it back until that write arrives (`early_write_is_lost`).
Delivered after their predecessors, the same writes always end as the same memory to a reader.

* `timely_delivery_converges` — writes that some order of delivery gets admitted read alike after
  every order that delivers each write after those it claims.
-/

namespace HorizonProtocol.Mnemesis.CausalMemory

variable {Wid Key Value Observer Clock W : Type} [DecidableEq Wid]
variable {digest : WidInput Wid Key Value Observer Clock → Wid} {o : Ordering Clock W}

/-! ## Reads -/

/-- Two memories that a reader of the key cannot tell apart by status and values. -/
def SameRead (digest : WidInput Wid Key Value Observer Clock → Wid)
    (s₁ s₂ : CausalMemory Wid Key Value Observer Clock W) (key : Key) : Prop :=
  (s₁.get digest key).status = (s₂.get digest key).status ∧
    ∀ x, x ∈ (s₁.get digest key).values ↔ x ∈ (s₂.get digest key).values

/-- The status of a read counts the candidates. -/
theorem status_get (s : CausalMemory Wid Key Value Observer Clock W) (key : Key) :
    (s.get digest key).status =
      match (s.frontier digest key).length with
      | 0 => .empty
      | 1 => .resolved
      | _ => .conflict := by
  unfold get
  cases s.frontier digest key with
  | nil => rfl
  | cons w ws =>
      cases ws with
      | nil => rfl
      | cons _ _ => rfl

/-- The values of a read are those of the candidates. -/
theorem values_get (s : CausalMemory Wid Key Value Observer Clock W) (key : Key) :
    (s.get digest key).values = (s.frontier digest key).map (·.value) := by
  unfold get
  cases s.frontier digest key with
  | nil => rfl
  | cons w ws =>
      cases ws with
      | nil => rfl
      | cons _ _ => simp [ReadResult.values, Write.provenance]

theorem Inv.writesForKey_nodup {s : CausalMemory Wid Key Value Observer Clock W}
    (h : Inv digest o s) (key : Key) : (s.writesForKey key).Nodup := by
  refine (h.listed_nodup key).filterMap fun i j w hi hj => ?_
  rw [← h.wid_eq i w hi, h.wid_eq j w hj]

/-- Memories whose candidates of a key have the same contents read alike. -/
theorem sameRead_of_contents {s₁ s₂ : CausalMemory Wid Key Value Observer Clock W} {key : Key}
    (h₁ : Inv digest o s₁) (h₂ : Inv digest o s₂)
    (hsame : Write.content '' {w | w ∈ s₁.frontier digest key} =
      Write.content '' {w | w ∈ s₂.frontier digest key}) : SameRead digest s₁ s₂ key := by
  have hnodup : ∀ {s : CausalMemory Wid Key Value Observer Clock W}, Inv digest o s →
      ((s.frontier digest key).map Write.content).Nodup := by
    intro s h
    refine (List.nodup_map_iff_inj_on ((h.writesForKey_nodup key).filter _)).mpr ?_
    intro v hv w hw hc
    exact h.eq_of_wid (List.mem_of_mem_filter hv) (List.mem_of_mem_filter hw)
      (congrArg digest hc)
  have hperm : ((s₁.frontier digest key).map Write.content).Perm
      ((s₂.frontier digest key).map Write.content) := by
    rw [List.perm_ext_iff_of_nodup (hnodup h₁) (hnodup h₂)]
    intro c
    rw [List.mem_map, List.mem_map]
    exact Set.ext_iff.mp hsame c
  have hvalues : ∀ s : CausalMemory Wid Key Value Observer Clock W,
      (s.get digest key).values =
        ((s.frontier digest key).map Write.content).map (·.value) := by
    intro s
    rw [values_get, List.map_map]
    rfl
  have hlen : (s₁.frontier digest key).length = (s₂.frontier digest key).length := by
    simpa using hperm.length_eq
  constructor
  · rw [status_get, status_get, hlen]
  · intro x
    rw [hvalues, hvalues]
    exact (hperm.map _).mem_iff

/-- One content is one set of claims. -/
theorem mem_preds_of_content {v w : Write Wid Key Value Observer Clock}
    (h : v.content = w.content) {p : Wid} : p ∈ v.preds ↔ p ∈ w.preds := by
  have hpreds : v.preds.toFinset = w.preds.toFinset := congrArg WidInput.preds h
  rw [← List.mem_toFinset, hpreds, List.mem_toFinset]

/-! ## Deliveries -/

/-- No two of the writes have one id and different contents. -/
def CollisionFree (digest : WidInput Wid Key Value Observer Clock → Wid)
    (ws : List (Write Wid Key Value Observer Clock)) : Prop :=
  ∀ v ∈ ws, ∀ w ∈ ws, v.wid digest = w.wid digest → v.content = w.content

/-- Each write is delivered after the writes it claims to supersede. -/
def Timely (digest : WidInput Wid Key Value Observer Clock → Wid)
    (ws : List (Write Wid Key Value Observer Clock)) : Prop :=
  ∀ i, (hi : i < ws.length) → ∀ p ∈ ws[i].preds, p ∈ (ws.take i).map fun v => v.wid digest

instance (ws : List (Write Wid Key Value Observer Clock)) : Decidable (Timely digest ws) :=
  inferInstanceAs (Decidable (∀ i, (hi : i < ws.length) → _))

theorem Timely.concat {ws : List (Write Wid Key Value Observer Clock)}
    {w : Write Wid Key Value Observer Clock} (h : Timely digest (ws ++ [w])) :
    Timely digest ws ∧ ∀ p ∈ w.preds, p ∈ ws.map fun v => v.wid digest := by
  constructor
  · intro i hi p hp
    have hlast := h i (by simp; omega) p
    rw [List.getElem_append_left hi, List.take_append_of_le_length hi.le] at hlast
    exact hlast hp
  · intro p hp
    have hlast := h ws.length (by simp) p
    simpa using hlast (by simpa using hp)

variable [DecidableEq Key]

/-- Put the writes into an empty memory in this order. -/
def deliver (digest : WidInput Wid Key Value Observer Clock → Wid) (o : Ordering Clock W)
    (ws : List (Write Wid Key Value Observer Clock)) :
    CausalMemory Wid Key Value Observer Clock W :=
  (machine digest o).run (ws.map .put)

/-- Every `put` of this order is admitted. -/
def AllAdmitted (digest : WidInput Wid Key Value Observer Clock → Wid) (o : Ordering Clock W)
    (ws : List (Write Wid Key Value Observer Clock)) : Prop :=
  ∀ e ∈ (machine digest o).trace (ws.map .put), e.answer.verdict = .admitted

instance (ws : List (Write Wid Key Value Observer Clock)) : Decidable (AllAdmitted digest o ws) :=
  inferInstanceAs (Decidable (∀ e ∈ (machine digest o).trace (ws.map .put), _))

theorem deliver_concat (ws : List (Write Wid Key Value Observer Clock))
    (w : Write Wid Key Value Observer Clock) :
    deliver digest o (ws ++ [w]) = ((deliver digest o ws).put digest o w).1 := by
  unfold deliver
  rw [List.map_append, List.map_cons, List.map_nil, Machine.run_concat]
  rfl

theorem inv_deliver (ws : List (Write Wid Key Value Observer Clock)) :
    Inv digest o (deliver digest o ws) :=
  inv_run _

/-- What is stored was delivered. -/
theorem mem_of_stored {ws : List (Write Wid Key Value Observer Clock)} {i : Wid}
    {v : Write Wid Key Value Observer Clock} (hv : (deliver digest o ws).writes i = some v) :
    v ∈ ws := by
  induction ws using List.reverseRecOn with
  | nil => cases hv
  | append_singleton ws w ih =>
      rw [deliver_concat] at hv
      have hput := (deliver digest o ws).put_cases digest o w
      generalize ((deliver digest o ws).put digest o w).1 = s' at hput hv
      generalize ((deliver digest o ws).put digest o w).2 = r at hput
      rw [List.mem_append, List.mem_singleton]
      cases hput with
      | retry _ => exact Or.inl (ih hv)
      | refused _ _ => exact Or.inl (ih hv)
      | stored ok =>
          rcases (writes_record_iff ok.fresh).mp hv with ⟨-, rfl⟩ | hv
          · exact Or.inr rfl
          · exact Or.inl (ih hv)

/-- A `put` keeps the stored ids. -/
theorem Puts.grows {s s' : CausalMemory Wid Key Value Observer Clock W}
    {w : Write Wid Key Value Observer Clock} {r : PutResult Wid Key Value Observer Clock W}
    (hput : Puts digest o s w s' r) {i : Wid} (hi : (s.writes i).isSome) :
    (s'.writes i).isSome := by
  cases hput with
  | retry _ => exact hi
  | refused _ _ => exact hi
  | stored ok =>
      obtain ⟨v, hv⟩ := Option.isSome_iff_exists.mp hi
      rw [writes_record ok.fresh hv]
      rfl

/-- After a `put` that is not refused its id is stored. -/
theorem Puts.isSome {s s' : CausalMemory Wid Key Value Observer Clock W}
    {w : Write Wid Key Value Observer Clock} {r : PutResult Wid Key Value Observer Clock W}
    (hput : Puts digest o s w s' r)
    (hok : Valid o s w ∨ r.verdict = .admitted) :
    (s'.writes (w.wid digest)).isSome := by
  cases hput with
  | retry known =>
      rw [known]
      rfl
  | refused _ why =>
      rcases hok with hvalid | hverdict
      · exact absurd hvalid why
      · cases hverdict
  | stored ok =>
      rw [(writes_record_iff ok.fresh).mpr (Or.inl ⟨rfl, rfl⟩)]
      rfl

theorem stored_of_allAdmitted {ws : List (Write Wid Key Value Observer Clock)}
    (hadm : AllAdmitted digest o ws) :
    ∀ w ∈ ws, ((deliver digest o ws).writes (w.wid digest)).isSome := by
  induction ws using List.reverseRecOn with
  | nil => simp
  | append_singleton ws v ih =>
      unfold AllAdmitted at hadm
      rw [List.map_append, List.map_cons, List.map_nil, Machine.trace_concat,
        List.forall_mem_append, List.forall_mem_singleton] at hadm
      have hput := (deliver digest o ws).put_cases digest o v
      rw [deliver_concat, List.forall_mem_append, List.forall_mem_singleton]
      exact ⟨fun w hw => hput.grows (ih hadm.1 w hw), hput.isSome (Or.inr hadm.2)⟩

/-- Every claim is about a causally earlier write, whichever of the writes its id stands for. -/
def Truthful (digest : WidInput Wid Key Value Observer Clock → Wid) (o : Ordering Clock W)
    (ws : List (Write Wid Key Value Observer Clock)) : Prop :=
  ∀ w ∈ ws, ∀ v ∈ ws, v.wid digest ∈ w.preds → o.Before v.clock w.clock

/-- What some order gets admitted is truthful. -/
theorem truthful_of_allAdmitted {ws : List (Write Wid Key Value Observer Clock)}
    (hadm : AllAdmitted digest o ws) (hfree : CollisionFree digest ws) :
    Truthful digest o ws := by
  intro w hw v hv hclaim
  have h : Inv digest o (deliver digest o ws) := inv_deliver ws
  obtain ⟨w', hw'⟩ := Option.isSome_iff_exists.mp (stored_of_allAdmitted hadm w hw)
  have hcw : w'.content = w.content := hfree w' (mem_of_stored hw') w hw (h.wid_eq _ w' hw')
  have hclaim' : v.wid digest ∈ w'.preds := (mem_preds_of_content hcw).mpr hclaim
  obtain ⟨v', hv', hb⟩ := h.valid _ w' hw' _ hclaim'
  have hcv : v'.content = v.content := hfree v' (mem_of_stored hv') v hv (h.wid_eq _ v' hv')
  have hclockw : w'.clock = w.clock := congrArg WidInput.clock hcw
  have hclockv : v'.clock = v.clock := congrArg WidInput.clock hcv
  rwa [hclockw, hclockv] at hb

/-- Delivered in time, truthful writes are all stored. -/
theorem stored_of_timely {ws : List (Write Wid Key Value Observer Clock)}
    (htimely : Timely digest ws) (htrue : Truthful digest o ws) :
    ∀ w ∈ ws, ((deliver digest o ws).writes (w.wid digest)).isSome := by
  induction ws using List.reverseRecOn with
  | nil => simp
  | append_singleton ws w ih =>
      obtain ⟨hearlier, hlast⟩ := htimely.concat
      have hsub : ∀ v ∈ ws, v ∈ ws ++ [w] := fun v hv => List.mem_append_left _ hv
      -- by induction what the last write claims is stored by now
      have hstored := ih hearlier fun x hx v hv => htrue x (hsub x hx) v (hsub v hv)
      have hvalid : Valid o (deliver digest o ws) w := by
        intro p hp
        obtain ⟨v, hv, rfl⟩ := List.mem_map.mp (hlast p hp)
        obtain ⟨u, hu⟩ := Option.isSome_iff_exists.mp (hstored v hv)
        have hid := (inv_deliver ws).wid_eq _ u hu
        refine ⟨u, hu, htrue w (by simp) u (hsub u (mem_of_stored hu)) ?_⟩
        rw [hid]
        exact hp
      have hput := (deliver digest o ws).put_cases digest o w
      rw [deliver_concat, List.forall_mem_append, List.forall_mem_singleton]
      exact ⟨fun v hv => hput.grows (hstored v hv), hput.isSome (Or.inl hvalid)⟩

/-! ## Convergence -/

/-- One content claims to supersede another. -/
def Claimed (digest : WidInput Wid Key Value Observer Clock → Wid)
    (c d : WidInput Wid Key Value Observer Clock) : Prop :=
  digest d ≠ digest c ∧ digest c ∈ d.preds

/-- The contents of a key among the writes. -/
def submitted (ws : List (Write Wid Key Value Observer Clock)) (key : Key) :
    Set (WidInput Wid Key Value Observer Clock) :=
  Write.content '' {w | w ∈ ws ∧ w.key = key}

/-- Once all writes are stored, the candidates of a key are the contents that no other claims. -/
theorem frontier_of_stored {ws : List (Write Wid Key Value Observer Clock)}
    (hfree : CollisionFree digest ws)
    (hstored : ∀ w ∈ ws, ((deliver digest o ws).writes (w.wid digest)).isSome) (key : Key) :
    Write.content '' {w | w ∈ (deliver digest o ws).frontier digest key} =
      Frontier.maximal (Claimed digest) (submitted ws key) := by
  have h : Inv digest o (deliver digest o ws) := inv_deliver ws
  have hcontents : Write.content '' {w | w ∈ (deliver digest o ws).writesForKey key} =
      submitted ws key := by
    ext c
    constructor
    · rintro ⟨w, hw, rfl⟩
      have hw' := h.mem_writesForKey.mp hw
      exact ⟨w, ⟨mem_of_stored hw'.1, hw'.2⟩, rfl⟩
    · rintro ⟨w, ⟨hw, hkey⟩, rfl⟩
      obtain ⟨u, hu⟩ := Option.isSome_iff_exists.mp (hstored w hw)
      have hid := h.wid_eq _ u hu
      have hc : u.content = w.content := hfree u (mem_of_stored hu) w hw hid
      have hukey : u.key = w.key := congrArg WidInput.key hc
      refine ⟨u, h.mem_writesForKey.mpr ⟨?_, hukey.trans hkey⟩, hc⟩
      rw [hid, hu]
  have hnamed : ∀ v w : Write Wid Key Value Observer Clock,
      NamedBy digest v w ↔ Claimed digest v.content w.content := by
    intro v w
    show _ ↔ _ ∧ v.wid digest ∈ w.preds.toFinset
    rw [List.mem_toFinset]
    rfl
  have hfront : {w | w ∈ (deliver digest o ws).frontier digest key} =
      Frontier.maximal (NamedBy digest) {v | v ∈ (deliver digest o ws).writesForKey key} :=
    Set.ext fun w => mem_frontier_iff
  rw [hfront, Frontier.image_maximal Write.content hnamed, hcontents]

/-- A write that arrives before one it claims is refused, and leaves a line in the log. -/
theorem put_early {pre : List (Write Wid Key Value Observer Clock)}
    {w : Write Wid Key Value Observer Clock} (hfree : CollisionFree digest (pre ++ [w])) {p : Wid}
    (hp : p ∈ w.preds) (hearly : p ∉ pre.map fun v => v.wid digest) :
    ∃ r, (deliver digest o pre).put digest o w =
      ({ deliver digest o pre with rejections := (deliver digest o pre).rejections ++ [r] },
        .rejected r) := by
  have h : Inv digest o (deliver digest o pre) := inv_deliver pre
  have hunknown : ¬ ∃ v, (deliver digest o pre).writes p = some v := by
    intro hv
    obtain ⟨v, hv⟩ := hv
    exact hearly (List.mem_map.mpr ⟨v, mem_of_stored hv, h.wid_eq p v hv⟩)
  have hput := (deliver digest o pre).put_cases digest o w
  generalize (deliver digest o pre).put digest o w = answer at hput ⊢
  obtain ⟨s', r⟩ := answer
  change Puts digest o _ w s' r at hput
  cases hput with
  | @retry existing known =>
      -- what is stored under this id claims the same predecessors
      have hc : existing.content = w.content :=
        hfree existing (List.mem_append_left _ (mem_of_stored known)) w (by simp)
          (h.wid_eq _ existing known)
      have hp' : p ∈ existing.preds := (mem_preds_of_content hc).mpr hp
      obtain ⟨v, hv, -⟩ := h.valid _ existing known p hp'
      exact absurd ⟨v, hv⟩ hunknown
  | refused _ _ => exact ⟨_, rfl⟩
  | stored ok =>
      obtain ⟨v, hv, -⟩ := ok.valid p hp
      exact absurd ⟨v, hv⟩ hunknown

/-- **Convergence of timely deliveries**: writes that some order gets admitted read alike, in every
key, after any two orders that deliver each write after those it claims to supersede. In any order,
a write that arrives before one it claims is refused, and leaves nothing but a line in the log. -/
theorem timely_delivery_converges {ws : List (Write Wid Key Value Observer Clock)}
    (hfree : CollisionFree digest ws) (hadm : ∃ zs, zs.Perm ws ∧ AllAdmitted digest o zs) :
    (∀ xs ys, xs.Perm ws → ys.Perm ws → Timely digest xs → Timely digest ys →
      ∀ key, SameRead digest (deliver digest o xs) (deliver digest o ys) key) ∧
    (∀ xs, xs.Perm ws → ∀ pre w, pre ++ [w] <+: xs →
      (∃ p ∈ w.preds, p ∉ pre.map fun v => v.wid digest) →
      ∃ r, (deliver digest o pre).put digest o w =
        ({ deliver digest o pre with rejections := (deliver digest o pre).rejections ++ [r] },
          .rejected r)) := by
  have hfree' : ∀ {us : List (Write Wid Key Value Observer Clock)}, (∀ w ∈ us, w ∈ ws) →
      CollisionFree digest us := fun hus v hv w hw => hfree v (hus v hv) w (hus w hw)
  obtain ⟨zs, hzs, hadm⟩ := hadm
  have htrue := truthful_of_allAdmitted hadm (hfree' fun w => hzs.mem_iff.mp)
  have hfront : ∀ {us : List (Write Wid Key Value Observer Clock)}, us.Perm ws →
      Timely digest us → ∀ key,
      Write.content '' {w | w ∈ (deliver digest o us).frontier digest key} =
        Frontier.maximal (Claimed digest) (submitted ws key) := by
    intro us hus htimely key
    have hmem : ∀ w, w ∈ us ↔ w ∈ zs := fun w => hus.mem_iff.trans hzs.mem_iff.symm
    have hstored := stored_of_timely htimely fun w hw v hv =>
      htrue w ((hmem w).mp hw) v ((hmem v).mp hv)
    have hsub : submitted us key = submitted ws key := by
      unfold submitted
      simp only [hus.mem_iff]
    rw [frontier_of_stored (hfree' fun w => hus.mem_iff.mp) hstored, hsub]
  constructor
  · intro xs ys hxs hys hx hy key
    exact sameRead_of_contents (inv_deliver xs) (inv_deliver ys)
      ((hfront hxs hx key).trans (hfront hys hy key).symm)
  · intro xs hxs pre w hpre hearly
    obtain ⟨p, hp, hearly⟩ := hearly
    exact put_early (hfree' fun v hv => hxs.mem_iff.mp (hpre.subset hv)) hp hearly

/-! ### A value and its replacement -/

/-- The replacement, this time naming the value it replaces. -/
def replacement : Write Nat Nat Nat Nat (VClock Nat) := { newValue with preds := [1] }

/-- A concurrent value of another node. -/
def otherValue : Write Nat Nat Nat Nat (VClock Nat) :=
  { oldValue with value := 3, observer := 1, clock := Finmap.singleton 1 1 }

/-- The replacement of both values. -/
def merged : Write Nat Nat Nat Nat (VClock Nat) :=
  { newValue with clock := (Finmap.singleton 0 2).insert 1 1, preds := [1, 3] }

/-- Delivered first, the replacement is refused, and the value it replaces is what remains. -/
theorem early_write_is_lost :
    AllAdmitted valueWid logicalOrdering [oldValue, replacement] ∧
      CollisionFree valueWid [oldValue, replacement] ∧
      (deliver valueWid logicalOrdering [oldValue, replacement]).get valueWid 0 =
        .resolved 0 2 (replacement.provenance valueWid) ∧
      (deliver valueWid logicalOrdering [replacement, oldValue]).get valueWid 0 =
        .resolved 0 1 (oldValue.provenance valueWid) ∧
      ¬ SameRead valueWid (deliver valueWid logicalOrdering [oldValue, replacement])
        (deliver valueWid logicalOrdering [replacement, oldValue]) 0 := by
  have hfree : CollisionFree valueWid [oldValue, replacement] := by
    unfold CollisionFree
    decide
  refine ⟨by decide, hfree, rfl, rfl, fun h => ?_⟩
  have hold : 1 ∈ ((deliver valueWid logicalOrdering
      [oldValue, replacement]).get valueWid 0).values := (h.2 1).mpr (by decide)
  exact absurd hold (by decide)

/-- Two concurrent values in either order, and then the write that replaces both. -/
theorem timely_delivery_converges_merged :
    SameRead valueWid (deliver valueWid logicalOrdering [oldValue, otherValue, merged])
      (deliver valueWid logicalOrdering [otherValue, oldValue, merged]) 0 := by
  have hfree : CollisionFree valueWid [oldValue, otherValue, merged] := by
    unfold CollisionFree
    decide
  exact (timely_delivery_converges hfree ⟨_, .refl _, by decide⟩).1 _ _ (.refl _) (by decide)
    (by decide) (by decide) 0

end HorizonProtocol.Mnemesis.CausalMemory
