import HorizonProtocol.Geometry
import HorizonProtocol.MaskedChain
import Mathlib.Data.List.Sort
import Mathlib.Data.ZMod.Basic
import Mathlib.NumberTheory.LucasLehmer

/-!
# Commitment transcripts

`horizon/commitment.py`: a bit is committed to in round `0` and sustained by a chain of answers over
the prime field, and a reveal is checked by recomputing every answer. A transcript in order is a
masked chain over `ZMod pField` whose first mask is the bit (`accepts_iff_opens`).

* `accepts_iff` — what the verifier accepts is the rounds solved in sequence.
* `solveRounds_ne` — the solutions for the two bits differ in every secret.
-/

namespace HorizonProtocol.Commitment

/-- `P_FIELD`. -/
def pField : Nat := 2 ^ 61 - 1

theorem pField_prime : pField.Prime :=
  lucas_lehmer_sufficiency 61 (by norm_num) (by norm_num)

instance : Fact pField.Prime := ⟨pField_prime⟩

/-- One round of a transcript. -/
structure Round where
  k : Int
  siteNm : Pos
  r : Int
  y : Int
  tChallengeNs : Int
  tResponseNs : Int
  deriving DecidableEq

inductive ChainError where
  /-- `ValueError`, "committed bit must be 0 or 1". -/
  | bitDomain
  /-- `IndexError` -/
  | index
  deriving DecidableEq

/-! ## Chain algebra -/

/-- Round `0`. -/
def commitResponse (a0 b r0 : Int) : Except ChainError Int :=
  if b = 0 ∨ b = 1 then .ok ((a0 + b * r0) % pField) else .error .bitDomain

/-- Rounds from `1` on. -/
def sustainResponse (ak akPrev rk : Int) : Int := (ak + akPrev * rk) % pField

/-- `xs[i]`; a negative index counts from the end. -/
def index (xs : List Int) (i : Int) : Except ChainError Int :=
  let j := if i < 0 then i + xs.length else i
  if j < 0 then .error .index
  else
    match xs[j.toNat]? with
    | none => .error .index
    | some x => .ok x

/-- The answer that the secrets give in the round of index `k`. -/
def answer (b : Int) (secrets : List Int) (k r : Int) : Except ChainError Int :=
  if k = 0 then (index secrets 0).bind fun a0 => commitResponse a0 b r
  else (index secrets k).bind fun ak =>
    (index secrets (k - 1)).bind fun akPrev => .ok (sustainResponse ak akPrev r)

/-! ## The verifier -/

inductive RevealWitness where
  | revealedBitDomain (b : Int)
  | roundCount (expected : Int) (got : Nat)
  | roundSequence (expected got : List Int)
  | secretCount (expected got : Nat)
  | chainConsistency (failingRound lhsTranscriptY rhsRecomputed : Int) (fieldPrime : Nat)
  deriving DecidableEq

inductive RevealResult where
  | admitted (roundsChecked : Nat)
  | rejected (witness : RevealWitness)
  deriving DecidableEq

/-- `list(range(n))`. -/
def range (n : Int) : List Int := (List.range n.toNat).map Int.ofNat

/-- The loop over the rounds: `none` when every equation holds. -/
def checkRounds (b : Int) (secrets : List Int) :
    List Round → Except ChainError (Option RevealWitness)
  | [] => .ok none
  | rec :: rounds =>
      match answer b secrets rec.k rec.r with
      | .error e => .error e
      | .ok expected =>
          if expected ≠ rec.y then .ok (some (.chainConsistency rec.k rec.y expected pField))
          else checkRounds b secrets rounds

def verifyReveal (rounds : List Round) (b : Int) (secrets : List Int) (kSustain : Int) :
    Except ChainError RevealResult :=
  if ¬ (b = 0 ∨ b = 1) then .ok (.rejected (.revealedBitDomain b))
  else
    let expectedCount := kSustain + 1
    if (rounds.length : Int) ≠ expectedCount then
      .ok (.rejected (.roundCount expectedCount rounds.length))
    else
      let ks := rounds.map Round.k
      -- the indices are compared after sorting
      if ks.insertionSort (· ≤ ·) ≠ range expectedCount then
        .ok (.rejected (.roundSequence (range expectedCount) ks))
      else if secrets.length ≠ rounds.length then
        .ok (.rejected (.secretCount rounds.length secrets.length))
      else
        match checkRounds b secrets rounds with
        | .error e => .error e
        | .ok (some w) => .ok (.rejected w)
        | .ok none => .ok (.admitted rounds.length)

/-- The verifier answers ADMITTED. -/
def Accepts (rounds : List Round) (b : Int) (secrets : List Int) (kSustain : Int) : Prop :=
  ∃ n, verifyReveal rounds b secrets kSustain = .ok (.admitted n)

/-! ## What is accepted -/

variable {b : Int} {secrets : List Int} {rounds : List Round} {K : Nat}

theorem checkRounds_iff :
    checkRounds b secrets rounds = .ok none ↔
      ∀ rec ∈ rounds, answer b secrets rec.k rec.r = .ok rec.y := by
  induction rounds with
  | nil => simp [checkRounds]
  | cons rec rounds ih =>
      rw [checkRounds, List.forall_mem_cons, ← ih]
      split
      · next h => simp [h]
      · next expected h =>
          rw [h]
          split
          · next hne => simp [hne]
          · next heq => simp [not_not.mp heq]

theorem range_sorted (n : Int) : (range n).Pairwise (· ≤ ·) := by
  rw [range, List.pairwise_map]
  exact List.pairwise_lt_range.imp fun h => Int.ofNat_le.mpr h.le

/-- What is compared after sorting is the indices in any order. -/
theorem insertionSort_eq_range_iff {ks : List Int} {n : Int} :
    ks.insertionSort (· ≤ ·) = range n ↔ ks.Perm (range n) := by
  constructor
  · intro h
    rw [← h]
    exact (List.perm_insertionSort _ ks).symm
  · intro h
    apply List.Perm.eq_of_pairwise' (List.pairwise_insertionSort _ ks) (range_sorted n)
    exact (List.perm_insertionSort _ ks).trans h

/-- What is checked before the equations. -/
structure Gates (b : Int) (secrets : List Int) (rounds : List Round) (K : Nat) : Prop where
  bit : b = 0 ∨ b = 1
  indices : (rounds.map Round.k).Perm (range (K + 1 : Nat))
  secrets : secrets.length = rounds.length

theorem Gates.length (h : Gates b secrets rounds K) : rounds.length = K + 1 := by
  simpa [range] using h.indices.length_eq

theorem verifyReveal_of_gates (h : Gates b secrets rounds K) :
    verifyReveal rounds b secrets K =
      match checkRounds b secrets rounds with
      | .error e => .error e
      | .ok (some w) => .ok (.rejected w)
      | .ok none => .ok (.admitted rounds.length) := by
  have hcount : (rounds.length : Int) = K + 1 := by
    rw [h.length]
    push_cast
    rfl
  have hsorted := insertionSort_eq_range_iff.mpr h.indices
  push_cast at hsorted
  simp only [verifyReveal, h.bit, hcount, hsorted, h.secrets, ne_eq, not_true_eq_false, if_false]

theorem rejected_of_not_gates (h : ¬ Gates b secrets rounds K) :
    ∃ w, verifyReveal rounds b secrets K = .ok (.rejected w) := by
  unfold verifyReveal
  split
  · exact ⟨_, rfl⟩
  · next hb =>
      dsimp only
      split
      · exact ⟨_, rfl⟩
      · split
        · exact ⟨_, rfl⟩
        · next hsorted =>
            split
            · exact ⟨_, rfl⟩
            · next hsecrets =>
                refine absurd ⟨not_not.mp hb, ?_, not_not.mp hsecrets⟩ h
                apply insertionSort_eq_range_iff.mp
                push_cast
                exact not_not.mp hsorted

/-- **The verifier accepts a permuted transcript whose secrets give every answer.** -/
theorem accepts_iff_gates :
    Accepts rounds b secrets K ↔
      Gates b secrets rounds K ∧ ∀ rec ∈ rounds, answer b secrets rec.k rec.r = .ok rec.y := by
  rw [← checkRounds_iff]
  by_cases h : Gates b secrets rounds K
  · rw [Accepts, verifyReveal_of_gates h, and_iff_right h]
    split
    · next hcheck => simp [hcheck]
    · next hcheck => simp [hcheck]
    · next hcheck => simp [hcheck]
  · obtain ⟨w, hw⟩ := rejected_of_not_gates h
    simp [Accepts, hw, h]

/-- A transcript in order, with as many secrets, is accepted when the secrets give every answer. -/
theorem accepts_iff_answers (hb : b = 0 ∨ b = 1) (hks : rounds.map Round.k = range (K + 1 : Nat)) :
    Accepts rounds b secrets K ↔ secrets.length = rounds.length ∧
      ∀ rec ∈ rounds, answer b secrets rec.k rec.r = .ok rec.y := by
  rw [accepts_iff_gates]
  constructor
  · rintro ⟨hgates, hanswers⟩
    exact ⟨hgates.secrets, hanswers⟩
  · rintro ⟨hsecrets, hanswers⟩
    exact ⟨⟨hb, hks ▸ List.Perm.refl _, hsecrets⟩, hanswers⟩

/-! ## Transcripts as masked chains -/

/-- The round in the field. -/
def Round.toField (rec : Round) : ZMod pField × ZMod pField := ((rec.r : ZMod pField), rec.y)

theorem index_append (pre : List Int) (a : Int) (rest : List Int) :
    index (pre ++ a :: rest) pre.length = .ok a := by
  have hneg : ¬ ((pre.length : Int) < 0) := by omega
  simp [index, hneg]

/-- The answer in the round after `pre` is masked by the last secret of `pre`, and by the bit when
there is none. -/
theorem answer_append (hb : b = 0 ∨ b = 1) (pre : List Int) (a : Int) (rest : List Int) (r : Int) :
    answer b (pre ++ a :: rest) pre.length r = .ok ((a + pre.getLast?.getD b * r) % pField) := by
  rcases List.eq_nil_or_concat pre with rfl | ⟨init, prev, rfl⟩
  · simp [answer, index, commitResponse, hb, Except.bind]
  · have hk : ¬ (((init.concat prev).length : Int) = 0) := by simp; omega
    have hlast : index (init.concat prev ++ a :: rest) ((init.concat prev).length - 1) = .ok prev := by
      simpa using index_append init prev (a :: rest)
    rw [answer, if_neg hk, index_append, hlast]
    simp [Except.bind, sustainResponse]

/-- Equality with a reduced answer is equality in the field. -/
theorem emod_eq_iff {x y : Int} (hy : 0 ≤ y ∧ y < pField) :
    x % pField = y ↔ (x : ZMod pField) = y := by
  rw [ZMod.intCast_eq_intCast_iff', Int.emod_eq_of_lt hy.1 hy.2]

/-- **A transcript in order is a masked chain**, from whatever secret came before. -/
theorem answers_iff_opens (hb : b = 0 ∨ b = 1)
    (hy : ∀ rec ∈ rounds, 0 ≤ rec.y ∧ rec.y < pField) (pre : List Int)
    (hks : rounds.map Round.k = (List.range' pre.length rounds.length).map Int.ofNat) :
    (secrets.length = rounds.length ∧
      ∀ rec ∈ rounds, answer b (pre ++ secrets) rec.k rec.r = .ok rec.y) ↔
      MaskedChain.Opens ((pre.getLast?.getD b : Int) : ZMod pField) (rounds.map Round.toField)
        (secrets.map fun a : Int => (a : ZMod pField)) := by
  induction rounds generalizing pre secrets with
  | nil => cases secrets <;> simp [MaskedChain.Opens]
  | cons rec rounds ih =>
      rw [List.map_cons, List.length_cons, List.range'_succ, List.map_cons, List.cons_eq_cons] at hks
      cases secrets with
      | nil => simp [MaskedChain.Opens]
      | cons a secrets =>
          have hlen : pre.length + 1 = (pre ++ [a]).length := by simp
          have hrest := @ih secrets (fun x hx => hy x (List.mem_cons_of_mem _ hx))
            (pre ++ [a]) (by rw [← hlen]; exact hks.2)
          have hone : answer b (pre ++ a :: secrets) rec.k rec.r = .ok rec.y ↔
              (a : ZMod pField) + ((pre.getLast?.getD b : Int) : ZMod pField) * rec.r = rec.y := by
            rw [hks.1]
            show answer b (pre ++ a :: secrets) (pre.length : Int) rec.r = .ok rec.y ↔ _
            rw [answer_append hb, Except.ok.injEq, emod_eq_iff (hy rec List.mem_cons_self)]
            push_cast
            rfl
          rw [List.getLast?_concat, Option.getD_some, List.append_assoc] at hrest
          show _ ↔ (a : ZMod pField) + _ * (rec.r : ZMod pField) = (rec.y : ZMod pField) ∧ _
          rw [← hrest, ← hone, List.forall_mem_cons]
          simp only [List.length_cons, Nat.add_right_cancel_iff, List.singleton_append]
          tauto

/-- The rounds solved in sequence, reduced. -/
def solveRounds (prev : Int) : List Round → List Int
  | [] => []
  | rec :: rounds =>
      let a := (rec.y - prev * rec.r) % pField
      a :: solveRounds a rounds

theorem solveRounds_toField (prev : Int) (rounds : List Round) :
    (solveRounds prev rounds).map (fun a : Int => (a : ZMod pField)) =
      MaskedChain.solve (prev : ZMod pField) (rounds.map Round.toField) := by
  induction rounds generalizing prev with
  | nil => rfl
  | cons rec rounds ih =>
      have hcast : (((rec.y - prev * rec.r) % pField : Int) : ZMod pField) =
          (rec.y : ZMod pField) - prev * rec.r := by
        rw [ZMod.intCast_mod]
        push_cast
        rfl
      simp only [solveRounds, List.map_cons, MaskedChain.solve, Round.toField, ih, hcast]

theorem mem_solveRounds {prev a : Int} (h : a ∈ solveRounds prev rounds) : 0 ≤ a ∧ a < pField := by
  have hpos : (0 : Int) < pField := by decide
  induction rounds generalizing prev with
  | nil => cases h
  | cons rec rounds ih =>
      rcases List.mem_cons.mp h with rfl | hmem
      · exact ⟨Int.emod_nonneg _ hpos.ne', Int.emod_lt_of_pos _ hpos⟩
      · exact ih hmem

@[simp] theorem length_solveRounds (prev : Int) (rounds : List Round) :
    (solveRounds prev rounds).length = rounds.length := by
  induction rounds generalizing prev with
  | nil => rfl
  | cons rec rounds ih => simp [solveRounds, ih]

/-- Integers of one image in the field are those of one residue. -/
theorem map_cast_eq_iff {xs ys : List Int} :
    xs.map (fun a : Int => (a : ZMod pField)) = ys.map (fun a : Int => (a : ZMod pField)) ↔
      xs.map (fun a : Int => a % pField) = ys.map (fun a : Int => a % pField) := by
  induction xs generalizing ys with
  | nil => cases ys <;> simp
  | cons x xs ih =>
      cases ys with
      | nil => simp
      | cons y ys =>
          simp only [List.map_cons, List.cons_eq_cons, ih]
          rw [ZMod.intCast_eq_intCast_iff']

/-- The rounds of a transcript in order, its answers reduced. -/
structure InOrder (K : Nat) (rounds : List Round) : Prop where
  indices : rounds.map Round.k = range (K + 1 : Nat)
  reduced : ∀ rec ∈ rounds, 0 ≤ rec.y ∧ rec.y < pField

/-- **The verifier accepts the rounds solved in sequence**, and what is congruent to that. -/
theorem accepts_iff (hb : b = 0 ∨ b = 1) (h : InOrder K rounds) :
    Accepts rounds b secrets K ↔ secrets.map (fun a : Int => a % pField) = solveRounds b rounds := by
  have hcount : rounds.length = K + 1 := by
    simpa [range] using congrArg List.length h.indices
  have hreduced : (solveRounds b rounds).map (fun a : Int => a % pField) =
      solveRounds b rounds := by
    rw [List.map_congr_left fun a ha =>
      Int.emod_eq_of_lt (mem_solveRounds ha).1 (mem_solveRounds ha).2]
    exact List.map_id' _
  have hopens := @answers_iff_opens b secrets rounds hb h.reduced [] (by
    rw [h.indices, range, hcount, List.length_nil, ← List.range_eq_range']
    rfl)
  rw [accepts_iff_answers hb h.indices]
  rw [List.nil_append] at hopens
  rw [hopens, MaskedChain.opens_iff]
  show _ = MaskedChain.solve (b : ZMod pField) _ ↔ _
  rw [← solveRounds_toField, map_cast_eq_iff, hreduced]

/-- **The two openings differ in every secret** when no challenge vanishes. -/
theorem solveRounds_ne (hr : ∀ rec ∈ rounds, rec.r % pField ≠ 0) :
    List.Forall₂ (fun a a' => a ≠ a') (solveRounds 0 rounds) (solveRounds 1 rounds) := by
  have hfield : ∀ p ∈ rounds.map Round.toField, p.1 ≠ 0 := by
    intro p hp
    obtain ⟨rec, hrec, rfl⟩ := List.mem_map.mp hp
    intro hzero
    apply hr rec hrec
    exact Int.emod_eq_zero_of_dvd ((ZMod.intCast_zmod_eq_zero_iff_dvd rec.r pField).mp hzero)
  have hne : ((0 : Int) : ZMod pField) ≠ ((1 : Int) : ZMod pField) := by
    rw [Int.cast_zero, Int.cast_one]
    exact zero_ne_one
  have hchain := MaskedChain.solve_ne hfield hne
  rw [← solveRounds_toField, ← solveRounds_toField, List.forall₂_map_left_iff,
    List.forall₂_map_right_iff] at hchain
  exact hchain.imp fun a a' hcast heq => hcast (by rw [heq])

end HorizonProtocol.Commitment
