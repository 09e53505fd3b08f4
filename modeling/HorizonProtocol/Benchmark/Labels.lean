import HorizonProtocol.Benchmark.Trace

/-!
# The labels of a generated trace

Of each operation of a trace, `generate_trace` says how it relates to the last write of its key
before: it depends on it, or makes a concurrent pair with it. The loop keeps the last writer of each
key (`IsLastWriter`), so that a label, once given, is about the writers that the whole trace has.

* `Labels.emit` — one pass of the loop labels one more operation.
* `generateTrace_labelled` — every trace is labelled by its own times and places.
-/

namespace HorizonProtocol.Benchmark

section Labels

variable {Region Seed : Type}

/-! ## What the labels say -/

/-- No earlier operation writes the key of operation `i`. -/
def FirstWriter (ops : List (Op Nat Region)) (i : Nat) (op : Op Nat Region) : Prop :=
  ∀ (k : Nat) (other : Op Nat Region), k < i → ops[k]? = some other → other.key ≠ op.key

/-- Operation `j` is the last one before `i` that writes the key of `i`. -/
structure PreviousWriter (ops : List (Op Nat Region)) (j : Nat) (pred : Op Nat Region) (i : Nat)
    (op : Op Nat Region) : Prop where
  writes : ops[j]? = some pred
  earlier : j < i
  key : pred.key = op.key
  last : ∀ (k : Nat) (other : Op Nat Region), j < k → k < i → ops[k]? = some other →
    other.key ≠ op.key

/-- The time from one operation to another is at least the light floor between their regions. -/
def InReach (args : TraceArgs Region Seed) (pred op : Op Nat Region) : Prop :=
  ∃ p q, args.regionPositionsNm pred.originRegion = some p ∧
    args.regionPositionsNm op.originRegion = some q ∧
    (minLightTimeNs p q : Int) ≤ op.tLogicalNs - pred.tLogicalNs

/-- The time from one operation to another is below the light floor between their regions. -/
def OutOfReach (args : TraceArgs Region Seed) (pred op : Op Nat Region) : Prop :=
  ∃ p q, args.regionPositionsNm pred.originRegion = some p ∧
    args.regionPositionsNm op.originRegion = some q ∧
    op.tLogicalNs - pred.tLogicalNs < minLightTimeNs p q

/-- The label of operation `i`: its dependencies, and the pairs that it closes. -/
inductive Label (args : TraceArgs Region Seed) (ops : List (Op Nat Region))
    (pairs : List (Nat × Nat)) (i : Nat) (op : Op Nat Region) : Prop where
  | first (h : FirstWriter ops i op) (hdeps : op.dependsOn = []) (hpairs : ∀ a, (a, i) ∉ pairs)
  | dependent {j : Nat} {pred : Op Nat Region} (h : PreviousWriter ops j pred i op)
      (hreach : InReach args pred op) (hdeps : op.dependsOn = [j]) (hpairs : ∀ a, (a, i) ∉ pairs)
  | concurrent {j : Nat} {pred : Op Nat Region} (h : PreviousWriter ops j pred i op)
      (hreach : OutOfReach args pred op) (hdeps : op.dependsOn = [])
      (hpairs : ∀ a, (a, i) ∈ pairs ↔ a = j)

variable {args : TraceArgs Region Seed} {ops : List (Op Nat Region)} {pairs : List (Nat × Nat)}
  {i j j' n : Nat} {op pred pred' new : Op Nat Region}

theorem InReach.not_outOfReach (h : InReach args pred op) : ¬ OutOfReach args pred op := by
  rintro ⟨p', q', hp', hq', hlt⟩
  obtain ⟨p, q, hp, hq, hle⟩ := h
  cases hp.symm.trans hp'
  cases hq.symm.trans hq'
  omega

/-- There is one previous writer at the most. -/
theorem PreviousWriter.unique (h : PreviousWriter ops j pred i op)
    (h' : PreviousWriter ops j' pred' i op) : j = j' ∧ pred = pred' := by
  obtain rfl : j = j' := by
    rcases Nat.lt_trichotomy j j' with hlt | heq | hgt
    · exact absurd h'.key (h.last j' pred' hlt h'.earlier h'.writes)
    · exact heq
    · exact absurd h.key (h'.last j pred hgt h.earlier h.writes)
  exact ⟨rfl, Option.some.inj (h.writes.symm.trans h'.writes)⟩

theorem FirstWriter.not_previousWriter (h : FirstWriter ops i op) :
    ¬ PreviousWriter ops j pred i op :=
  fun hprev => h j pred hprev.earlier hprev.writes hprev.key

/-! ## A trace grows -/

/-- What is before an operation stays when the trace grows. -/
theorem getElem?_append_iff (hi : i ≤ ops.length) {k : Nat} (hk : k < i) {other : Op Nat Region} :
    (ops ++ [new])[k]? = some other ↔ ops[k]? = some other := by
  rw [List.getElem?_append_left (by omega)]

theorem FirstWriter.append (h : FirstWriter ops i op) (hi : i ≤ ops.length) :
    FirstWriter (ops ++ [new]) i op := by
  intro k other hk hother
  exact h k other hk ((getElem?_append_iff hi hk).mp hother)

theorem PreviousWriter.append (h : PreviousWriter ops j pred i op) (hi : i ≤ ops.length) :
    PreviousWriter (ops ++ [new]) j pred i op where
  writes := (getElem?_append_iff hi h.earlier).mpr h.writes
  earlier := h.earlier
  key := h.key
  last k other hjk hki hother := h.last k other hjk hki ((getElem?_append_iff hi hki).mp hother)

/-- A label stays when the trace grows, and the new pairs are closed by a later operation. -/
theorem Label.append (h : Label args ops pairs i op) (hi : i < ops.length)
    {more : List (Nat × Nat)} (hmore : ∀ a, (a, i) ∉ more) :
    Label args (ops ++ [new]) (pairs ++ more) i op := by
  have hmem : ∀ a, (a, i) ∈ pairs ++ more ↔ (a, i) ∈ pairs := by
    intro a
    rw [List.mem_append, or_iff_left (hmore a)]
  cases h with
  | first h hdeps hpairs =>
      exact .first (h.append hi.le) hdeps fun a ha => hpairs a ((hmem a).mp ha)
  | dependent h hreach hdeps hpairs =>
      exact .dependent (h.append hi.le) hreach hdeps fun a ha => hpairs a ((hmem a).mp ha)
  | concurrent h hreach hdeps hpairs =>
      exact .concurrent (h.append hi.le) hreach hdeps fun a => (hmem a).trans (hpairs a)

/-! ## The last writers -/

/-- The table has the last position of the trace at which each key is written. -/
structure IsLastWriter (ops : List (Op Nat Region)) (table : List (String × Nat)) : Prop where
  none : ∀ key, Dict.get? table key = none → ∀ op ∈ ops, op.key ≠ key
  some : ∀ key j, Dict.get? table key = some j → ∃ op, ops[j]? = some op ∧ op.key = key ∧
    ∀ (k : Nat) (other : Op Nat Region), j < k → ops[k]? = some other → other.key ≠ key

theorem IsLastWriter.append {table : List (String × Nat)} (h : IsLastWriter ops table) :
    IsLastWriter (ops ++ [new]) (Dict.set table new.key ops.length) where
  none key hkey := by
    rw [Dict.get?_set] at hkey
    split at hkey
    · cases hkey
    · next hne =>
        rw [List.forall_mem_append, List.forall_mem_singleton]
        exact ⟨h.none key hkey, Ne.symm hne⟩
  some key j hkey := by
    rw [Dict.get?_set] at hkey
    split at hkey
    · next heq =>
        obtain rfl := Option.some.inj hkey
        refine ⟨new, List.getElem?_concat_length, heq.symm, ?_⟩
        intro k other hk hother
        have hlt := Log.lt_length_of_getElem? hother
        rw [List.length_append, List.length_singleton] at hlt
        omega
    · next hne =>
        obtain ⟨op, hop, hopkey, hlast⟩ := h.some key j hkey
        refine ⟨op, Log.getElem?_concat_eq_some_iff.mpr (Or.inl hop), hopkey, ?_⟩
        intro k other hk hother
        rcases Log.getElem?_concat_eq_some_iff.mp hother with hold | ⟨-, rfl⟩
        · exact hlast k other hk hold
        · exact Ne.symm hne

/-! ## The loop -/

variable {perMillion : ℚ → Int} {g g' : Generation Region}

/-- What the loop keeps. -/
structure Labelling (args : TraceArgs Region Seed) (n : Nat) (g : Generation Region) : Prop where
  emitted : Emitted args n g.trace
  table : IsLastWriter g.trace g.lastWriterOfKey
  times : g.trace.Pairwise fun a b => a.tLogicalNs < b.tLogicalNs
  past : ∀ op ∈ g.trace, op.tLogicalNs ≤ g.tNs
  labels : ∀ (i : Nat) (op : Op Nat Region), g.trace[i]? = some op →
    Label args g.trace g.concurrentPairs i op
  closed : ∀ a b, (a, b) ∈ g.concurrentPairs → b < n
  nodup : g.concurrentPairs.Nodup

theorem Labelling.start (rng : Rng) :
    Labelling args 0 ({ rng } : Generation Region) where
  emitted := ⟨rfl, by simp, by simp, by simp⟩
  table := ⟨by simp, by simp [Dict.get?]⟩
  times := List.Pairwise.nil
  past := by simp
  labels := by simp
  closed := by simp
  nodup := List.nodup_nil

/-- The operation of a pass closes the pair it makes, if it makes one. -/
theorem Emits.pairs_closed {more : List (Nat × Nat)} (h : Emits args g n g' op more) :
    more.Nodup ∧ ∀ a b, (a, b) ∈ more → b = n := by
  rcases relate_cases h.related with ⟨-, -, rfl⟩ | ⟨j, pred, p, q, -, -, -, -, hcase⟩
  · simp
  · rcases hcase with ⟨-, -, rfl⟩ | ⟨-, -, rfl⟩
    · simp
    · simp

/-- The label of the operation of a pass. -/
theorem Labelling.label {more : List (Nat × Nat)} (hg : Labelling args n g)
    (h : Emits args g n g' op more) :
    Label args (g.trace ++ [op]) (g.concurrentPairs ++ more) n op := by
  have hlength := hg.emitted.length
  have hnew : ∀ a, (a, n) ∉ g.concurrentPairs := fun a ha => lt_irrefl _ (hg.closed a n ha)
  rcases relate_cases h.related with
    ⟨hnone, hdeps, rfl⟩ | ⟨j, pred, p, q, hlast, hpred, hp, hq, hcase⟩
  · refine .first ?_ hdeps (by simpa using hnew)
    intro k other hk hother
    rw [getElem?_append_iff hlength.ge hk] at hother
    exact hg.table.none op.key hnone other (List.mem_of_getElem? hother)
  · obtain ⟨pred', hpred', hkey, hafter⟩ := hg.table.some op.key j hlast
    cases hpred.symm.trans hpred'
    have hj : j < n := hlength ▸ Log.lt_length_of_getElem? hpred
    have hprev : PreviousWriter (g.trace ++ [op]) j pred n op := by
      refine ⟨(getElem?_append_iff hlength.ge hj).mpr hpred, hj, hkey, ?_⟩
      intro k other hjk hk hother
      exact hafter k other hjk ((getElem?_append_iff hlength.ge hk).mp hother)
    rcases hcase with ⟨helapsed, hdeps, rfl⟩ | ⟨helapsed, hdeps, rfl⟩
    · exact .dependent hprev ⟨p, q, hp, hq, helapsed⟩ hdeps (by simpa using hnew)
    · refine .concurrent hprev ⟨p, q, hp, hq, helapsed⟩ hdeps ?_
      simp [hnew]

/-- **One pass of the loop labels one more operation**, and leaves the labels there are. -/
theorem Labelling.emit (hstep : 1 ≤ args.timeStepRange.1) (hg : Labelling args n g)
    (h : emit perMillion args g n = .ok g') : Labelling args (n + 1) g' := by
  have hemitted := hg.emitted.emit h
  obtain ⟨op, more, hop⟩ := emit_spec h
  have hlabel := hg.label hop
  have hlength := hg.emitted.length
  obtain ⟨hmore, hclosed⟩ := hop.pairs_closed
  have htime := hop.step
  refine ⟨hemitted, ?_, ?_, ?_, ?_, ?_, ?_⟩
  · rw [hop.trace, hop.lastWriter, ← hlength]
    exact hg.table.append
  · rw [hop.trace, List.pairwise_append]
    refine ⟨hg.times, List.pairwise_singleton _ _, ?_⟩
    intro a ha b hb
    obtain rfl := List.mem_singleton.mp hb
    have hpast := hg.past a ha
    rw [hop.time]
    omega
  · rw [hop.trace, List.forall_mem_append, List.forall_mem_singleton]
    refine ⟨?_, hop.time.le⟩
    intro a ha
    have hpast := hg.past a ha
    omega
  · rw [hop.trace, hop.concurrentPairs]
    intro i op' hop'
    rcases Log.getElem?_concat_eq_some_iff.mp hop' with hold | ⟨rfl, rfl⟩
    · have hi := Log.lt_length_of_getElem? hold
      apply (hg.labels i op' hold).append hi
      intro a ha
      exact hi.ne ((hclosed a i ha).trans hlength.symm)
    · rw [hlength]
      exact hlabel
  · rw [hop.concurrentPairs]
    intro a b hab
    rcases List.mem_append.mp hab with hold | hnew
    · exact Nat.lt_succ_of_lt (hg.closed a b hold)
    · exact (hclosed a b hnew).trans_lt (Nat.lt_succ_self n)
  · rw [hop.concurrentPairs, List.nodup_append']
    refine ⟨hg.nodup, hmore, ?_⟩
    rintro ⟨a, b⟩ hold hnew
    exact (hg.closed a b hold).ne (hclosed a b hnew)

/-! ## The loop does not fail -/

theorem choice_total (Region : Type) {α : Type} {seq : List α} (h : seq ≠ []) (rng : Rng) :
    ∃ a rng', (rng.choice seq : Except (TraceError Region) (α × Rng)) = .ok (a, rng') := by
  have hpos : (0 : Int) < seq.length := by exact_mod_cast List.length_pos_iff.mpr h
  have hlt : (rng.nextInt seq.length).1.toNat < seq.length := by
    have hnonneg := rng.nextInt_nonneg seq.length
    have hmod : (rng.nextInt seq.length).1 < seq.length := by
      simp only [Rng.nextInt, gt_iff_lt, hpos, if_true]
      exact Int.emod_lt_of_pos _ hpos
    omega
  unfold Rng.choice
  dsimp only
  rw [List.getElem?_eq_getElem hlt]
  exact ⟨_, _, rfl⟩

theorem pickKey_total (perMillion : ℚ → Int) (args : TraceArgs Region Seed) (g : Generation Region)
    (rng : Rng) : ∃ key rng', pickKey perMillion args g rng = .ok (key, rng') := by
  unfold pickKey
  dsimp only
  split_ifs with hempty hroll
  · exact ⟨_, _, rfl⟩
  · apply choice_total
    rintro hnil
    rw [hnil] at hempty
    exact hempty rfl
  · exact ⟨_, _, rfl⟩

/-- The last writer of a key is in the trace, and every region has a position. -/
theorem Labelling.relate_total (hg : Labelling args n g)
    (hpositions : ∀ r ∈ args.regions, (args.regionPositionsNm r).isSome) (key : String)
    {region : Region} (hregion : region ∈ args.regions) (tNs : Int) :
    ∃ deps pairs, relate args g n key region tNs = .ok (deps, pairs) := by
  unfold relate
  cases hlast : Dict.get? g.lastWriterOfKey key with
  | none => exact ⟨_, _, rfl⟩
  | some j =>
      obtain ⟨pred, hpred, -⟩ := hg.table.some key j hlast
      have hmem := hg.emitted.region pred (List.mem_of_getElem? hpred)
      obtain ⟨p, hp⟩ := Option.isSome_iff_exists.mp (hpositions _ hmem)
      obtain ⟨q, hq⟩ := Option.isSome_iff_exists.mp (hpositions _ hregion)
      simp only [hpred, position_eq_ok.mpr hp, position_eq_ok.mpr hq, bind, Except.bind]
      split
      · exact ⟨_, _, rfl⟩
      · exact ⟨_, _, rfl⟩

theorem Labelling.emit_total (perMillion : ℚ → Int) (hg : Labelling args n g)
    (hregions : args.regions ≠ [])
    (hpositions : ∀ r ∈ args.regions, (args.regionPositionsNm r).isSome) :
    ∃ g', Benchmark.emit perMillion args g n = .ok g' := by
  unfold Benchmark.emit
  dsimp only
  obtain ⟨region, rng, hregion⟩ := choice_total Region hregions
    (g.rng.nextInt (args.timeStepRange.2 - args.timeStepRange.1 + 1)).2
  obtain ⟨key, rng', hkey⟩ := pickKey_total perMillion args g rng
  obtain ⟨deps, pairs, hrelate⟩ := hg.relate_total hpositions key (choice_ok hregion)
    (g.tNs + (args.timeStepRange.1 +
      (g.rng.nextInt (args.timeStepRange.2 - args.timeStepRange.1 + 1)).1))
  simp only [hregion, hkey, hrelate, bind, Except.bind, pure, Except.pure]
  exact ⟨_, rfl⟩

/-- **The loop runs to its end from every state of the generator**, and labels what it emits. -/
theorem labelling_loop (hregions : args.regions ≠ [])
    (hpositions : ∀ r ∈ args.regions, (args.regionPositionsNm r).isSome)
    (hstep : 1 ≤ args.timeStepRange.1) (rng : Rng) (n : Nat) :
    ∃ g, (List.range n).foldlM (emit perMillion args) { rng } = .ok g ∧ Labelling args n g := by
  induction n with
  | zero => exact ⟨_, rfl, .start rng⟩
  | succ n ih =>
      obtain ⟨g, hg, hlabelling⟩ := ih
      obtain ⟨g', hg'⟩ := hlabelling.emit_total perMillion hregions hpositions
      refine ⟨g', ?_, hlabelling.emit hstep hg'⟩
      rw [List.range_succ, List.foldlM_append, hg]
      show (List.foldlM (emit perMillion args) g [n]) = _
      rw [List.foldlM_cons, hg']
      rfl

/-! ## The trace -/

/-- A trace with its concurrent pairs says of each operation how it relates to the one that wrote
its key before. -/
structure Labelled (args : TraceArgs Region Seed) (ops : List (Op Nat Region))
    (pairs : List (Nat × Nat)) : Prop where
  times : ops.Pairwise fun a b => a.tLogicalNs < b.tLogicalNs
  earlier : ∀ (i : Nat) (op : Op Nat Region), ops[i]? = some op → op.opId = i ∧
    ∀ d ∈ op.dependsOn, d < i
  labels : ∀ (i : Nat) (op : Op Nat Region), ops[i]? = some op → Label args ops pairs i op
  dependsOn_iff : ∀ (i : Nat) (op : Op Nat Region), ops[i]? = some op → ∀ j,
    op.dependsOn = [j] ↔ ∃ pred, PreviousWriter ops j pred i op ∧ InReach args pred op
  pairs_nodup : pairs.Nodup
  pairs_iff : ∀ j i, (j, i) ∈ pairs ↔ ∃ op pred, ops[i]? = some op ∧
    PreviousWriter ops j pred i op ∧ OutOfReach args pred op

/-- A dependency is declared exactly on a previous writer in reach. -/
theorem Label.dependsOn_iff (h : Label args ops pairs i op) :
    op.dependsOn = [j] ↔ ∃ pred, PreviousWriter ops j pred i op ∧ InReach args pred op := by
  cases h with
  | first h hdeps hpairs =>
      rw [hdeps]
      exact iff_of_false nofun fun ⟨_, hprev, _⟩ => h.not_previousWriter hprev
  | @dependent j' pred h hreach hdeps hpairs =>
      rw [hdeps, List.cons.injEq, and_iff_left rfl]
      constructor
      · rintro rfl
        exact ⟨pred, h, hreach⟩
      · rintro ⟨pred', h', -⟩
        exact (h.unique h').1
  | concurrent h hreach hdeps hpairs =>
      rw [hdeps]
      refine iff_of_false nofun ?_
      rintro ⟨pred', h', hreach'⟩
      obtain ⟨rfl, rfl⟩ := h.unique h'
      exact hreach'.not_outOfReach hreach

/-- A pair is recorded exactly with a previous writer out of reach. -/
theorem Label.mem_pairs_iff (h : Label args ops pairs i op) :
    (j, i) ∈ pairs ↔ ∃ pred, PreviousWriter ops j pred i op ∧ OutOfReach args pred op := by
  cases h with
  | first h hdeps hpairs =>
      exact iff_of_false (hpairs j) fun ⟨_, hprev, _⟩ => h.not_previousWriter hprev
  | dependent h hreach hdeps hpairs =>
      refine iff_of_false (hpairs j) ?_
      rintro ⟨pred', h', hreach'⟩
      obtain ⟨rfl, rfl⟩ := h.unique h'
      exact hreach.not_outOfReach hreach'
  | @concurrent j' pred h hreach hdeps hpairs =>
      rw [hpairs]
      constructor
      · rintro rfl
        exact ⟨pred, h, hreach⟩
      · rintro ⟨pred', h', -⟩
        exact (h'.unique h).1

theorem Labelling.labelled (h : Labelling args n g) :
    Labelled args g.trace g.concurrentPairs where
  times := h.times
  earlier i op hop := by
    refine ⟨h.emitted.opId i op hop, fun d hd => ?_⟩
    obtain ⟨pred, p, q, hlt, -⟩ := h.emitted.light i op hop d hd
    exact hlt
  labels := h.labels
  dependsOn_iff i op hop j := (h.labels i op hop).dependsOn_iff
  pairs_nodup := h.nodup
  pairs_iff j i := by
    constructor
    · intro hmem
      have hi := h.closed j i hmem
      obtain ⟨op, hop⟩ : ∃ op, g.trace[i]? = some op :=
        ⟨_, List.getElem?_eq_getElem (h.emitted.length.symm ▸ hi)⟩
      obtain ⟨pred, hprev, hreach⟩ := (h.labels i op hop).mem_pairs_iff.mp hmem
      exact ⟨op, pred, hop, hprev, hreach⟩
    · rintro ⟨op, pred, hop, hprev, hreach⟩
      exact (h.labels i op hop).mem_pairs_iff.mpr ⟨pred, hprev, hreach⟩

/-- What `generate_trace` asks of its arguments. -/
structure AcceptedArgs (args : TraceArgs Region Seed) : Prop where
  contentionRatio : 0 ≤ args.contentionRatio ∧ args.contentionRatio ≤ 1
  nOps : 0 < args.nOps
  nKeys : 0 < args.nKeys
  positions : ∀ r ∈ args.regions, (args.regionPositionsNm r).isSome

/-- **A generated trace is labelled by its own times and places.** Of accepted arguments, with a
region to draw and time that goes on, a trace is emitted from every state of the random numbers, and
its labels are right. -/
theorem generateTrace_labelled (digest : Seed → BitVec 64) (hargs : AcceptedArgs args)
    (hregions : args.regions ≠ []) (hstep : 1 ≤ args.timeStepRange.1) :
    (∀ rng, ∃ g, (List.range args.nOps.toNat).foldlM (emit perMillion args) { rng } = .ok g ∧
      g.trace.length = args.nOps.toNat ∧ Labelled args g.trace g.concurrentPairs) ∧
    ∃ out, generateTrace digest perMillion args = .ok out ∧
      out.trace.length = args.nOps.toNat ∧ Labelled args out.trace out.concurrentPairs := by
  have hloop : ∀ rng, ∃ g, (List.range args.nOps.toNat).foldlM (emit perMillion args) { rng } =
      .ok g ∧ Labelling args args.nOps.toNat g := fun rng =>
    labelling_loop hregions hargs.positions hstep rng _
  refine ⟨?_, ?_⟩
  · intro rng
    obtain ⟨g, hg, hlabelling⟩ := hloop rng
    exact ⟨g, hg, hlabelling.emitted.length, hlabelling.labelled⟩
  · obtain ⟨g, hg, hlabelling⟩ := hloop (.make (digest args.seed))
    refine ⟨⟨g.trace, g.concurrentPairs, args.regions, args.nKeys, args.contentionRatio, args.seed⟩,
      ?_, hlabelling.emitted.length, hlabelling.labelled⟩
    have hmissing : args.regions.filter (fun r => (args.regionPositionsNm r).isNone) = [] := by
      rw [List.filter_eq_nil_iff]
      intro r hr
      simpa using Option.isSome_iff_ne_none.mp (hargs.positions r hr)
    have hpositive : ¬ ((decide (args.nOps ≤ 0) || decide (args.nKeys ≤ 0)) = true) := by
      simp [hargs.nOps, hargs.nKeys]
    unfold generateTrace
    dsimp only
    rw [if_neg (by simp [hargs.contentionRatio]), if_neg hpositive, hmissing, if_neg (by simp), hg]
    rfl

/-- Two places 300 m apart, one key, and steps of up to a microsecond. -/
def twoPlaces : TraceArgs String String where
  regions := ["east", "west"]
  regionPositionsNm r :=
    if r = "east" then some ⟨0, 0, 0⟩ else if r = "west" then some ⟨300000000000, 0, 0⟩ else none
  nKeys := 1
  nOps := 20
  contentionRatio := 1
  seed := "s5"

theorem generateTrace_labelled_twoPlaces :
    ∃ out, generateTrace (fun _ => 88172645463325252) (fun _ => 1000000) twoPlaces = .ok out ∧
      out.trace.length = 20 ∧ Labelled twoPlaces out.trace out.concurrentPairs := by
  have hargs : AcceptedArgs twoPlaces :=
    { contentionRatio := by decide
      nOps := by decide
      nKeys := by decide
      positions := by decide }
  exact (generateTrace_labelled _ hargs (by decide) (by decide)).2

end Labels

end HorizonProtocol.Benchmark
