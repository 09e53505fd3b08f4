import HorizonProtocol.Commitment.Session

/-!
# Transcripts: order and hash chain

What the two verifiers of `horizon/commitment.py` say of the sequence of the rounds. The indices of
a reveal are compared after sorting, so a transcript may come in another order, and the hash chain
is compared as far as the rounds go, so the claimed chain may go on.

* `verifyReveal_in_order_iff` — when a reveal is accepted in order only.
* `verifyTranscriptChain_exact_iff` — when a chain is accepted in full only.
-/

namespace HorizonProtocol.Commitment

/-! ## The order of the rounds -/

variable {b : Int} {secrets : List Int} {rounds : List Round} {K : Nat}

/-- Past the gates every equation has both its sides. -/
theorem Gates.answer_ok (h : Gates b secrets rounds K) {rec : Round} (hrec : rec ∈ rounds) :
    ∃ y, answer b secrets rec.k rec.r = .ok y := by
  obtain ⟨n, hn, hk⟩ := List.mem_map.mp (h.indices.subset (List.mem_map_of_mem hrec))
  have hlt : n < secrets.length := by
    rw [h.secrets, h.length]
    simpa using hn
  obtain ⟨y, hy, -⟩ := answer_of_lt h.bit hlt rec.r
  rw [← hk]
  exact ⟨y, hy⟩

theorem checkRounds_ok (h : ∀ rec ∈ rounds, ∃ y, answer b secrets rec.k rec.r = .ok y) :
    ∃ witness?, checkRounds b secrets rounds = .ok witness? := by
  induction rounds with
  | nil => exact ⟨none, rfl⟩
  | cons rec rounds ih =>
      obtain ⟨y, hy⟩ := h rec List.mem_cons_self
      rw [checkRounds, hy]
      dsimp only
      split
      · exact ⟨_, rfl⟩
      · exact ih fun x hx => h x (List.mem_cons_of_mem _ hx)

/-- The verifier does not raise. -/
theorem verifyReveal_total :
    Accepts rounds b secrets K ∨ ∃ w, verifyReveal rounds b secrets K = .ok (.rejected w) := by
  by_cases h : Gates b secrets rounds K
  · obtain ⟨witness?, hcheck⟩ := checkRounds_ok fun rec hrec => h.answer_ok hrec
    rw [Accepts, verifyReveal_of_gates h, hcheck]
    cases witness? with
    | none => exact Or.inl ⟨_, rfl⟩
    | some w => exact Or.inr ⟨w, rfl⟩
  · exact Or.inr (rejected_of_not_gates h)

/-- **A reveal is accepted in order only, exactly when its indices do not come out of order with
nothing else wrong.** -/
theorem verifyReveal_in_order_iff (rounds : List Round) (b : Int) (secrets : List Int) (K : Nat) :
    ((Accepts rounds b secrets K →
        rounds.map Round.k = range (K + 1 : Nat) ∧ secrets.length = rounds.length) ∧
      (rounds.map Round.k ≠ range (K + 1 : Nat) →
        ∃ w, verifyReveal rounds b secrets K = .ok (.rejected w))) ↔
    (rounds.map Round.k).Pairwise (· ≤ ·) ∨ ¬ (b = 0 ∨ b = 1) ∨
      ¬ (rounds.map Round.k).Perm (range (K + 1 : Nat)) ∨ secrets.length ≠ rounds.length ∨
      ∃ rec ∈ rounds, answer b secrets rec.k rec.r ≠ .ok rec.y := by
  constructor
  · rintro ⟨horder, -⟩
    by_contra! h
    obtain ⟨hsorted, hb, hperm, hsecrets, hanswers⟩ := h
    have haccepts := accepts_iff_gates.mpr ⟨⟨hb, hperm, hsecrets⟩, hanswers⟩
    apply hsorted
    rw [(horder haccepts).1]
    exact range_sorted _
  · intro h
    have horder : Accepts rounds b secrets K →
        rounds.map Round.k = range (K + 1 : Nat) ∧ secrets.length = rounds.length := by
      intro haccepts
      obtain ⟨hgates, hanswers⟩ := accepts_iff_gates.mp haccepts
      rcases h with hsorted | hb | hperm | hsecrets | ⟨rec, hrec, hne⟩
      · exact ⟨hgates.indices.eq_of_pairwise' hsorted (range_sorted _), hgates.secrets⟩
      · exact absurd hgates.bit hb
      · exact absurd hgates.indices hperm
      · exact absurd hgates.secrets hsecrets
      · exact absurd (hanswers rec hrec) hne
    refine ⟨horder, ?_⟩
    intro hks
    exact verifyReveal_total.resolve_left fun haccepts => hks (horder haccepts).1

/-- The rounds in which the secrets `5` and `7` answer for the bit `1`. -/
def twoRounds : List Round :=
  [{ k := 0, siteNm := site1, r := 2, y := 7, tChallengeNs := 0, tResponseNs := 10 },
    { k := 1, siteNm := site2, r := 3, y := 22, tChallengeNs := 40000, tResponseNs := 40010 }]

/-- They are accepted the second one first. -/
theorem reversed_accepted :
    ¬ (Accepts twoRounds.reverse 1 [5, 7] 1 →
      twoRounds.reverse.map Round.k = range (1 + 1 : Nat) ∧
        [5, 7].length = twoRounds.reverse.length) := by
  intro h
  have horder := (h ⟨2, by decide⟩).1
  exact absurd horder (by decide)

/-! ## The hash chain -/

section Chain

variable (roundRecordHash : String → Round → String) (genesisHash : String)

/-- The gate `"transcript_hash_chain"`. -/
structure TranscriptWitness where
  failingRound : Int
  recomputed : String
  claimed : Option String
  deriving DecidableEq

inductive TranscriptResult where
  | admitted (roundsChecked : Nat)
  | rejected (witness : TranscriptWitness)
  deriving DecidableEq

/-- The loop over the rounds, from the `i`-th on: `none` when every claimed hash is met. -/
def checkTranscript (claimedHashes : List String) :
    Nat → String → List Round → Option TranscriptWitness
  | _, _, [] => none
  | i, prev, rec :: rounds =>
      let hash := roundRecordHash prev rec
      if i ≥ claimedHashes.length ∨ some hash ≠ claimedHashes[i]? then
        some
          { failingRound := rec.k, recomputed := hash, claimed := claimedHashes[i]? }
      else checkTranscript claimedHashes (i + 1) hash rounds

/-- `verify_transcript_chain`. -/
def verifyTranscriptChain (rounds : List Round) (claimedHashes : List String) : TranscriptResult :=
  match checkTranscript roundRecordHash claimedHashes 0 genesisHash rounds with
  | some w => .rejected w
  | none => .admitted rounds.length

variable {roundRecordHash genesisHash} {claimedHashes : List String}

@[simp] theorem length_chainTranscript (prev : String) :
    (chainTranscript roundRecordHash prev rounds).length = rounds.length := by
  induction rounds generalizing prev with
  | nil => rfl
  | cons rec rounds ih => simp [chainTranscript, ih]

/-- **The loop compares the claimed hashes with the chain as far as the rounds go.** -/
theorem checkTranscript_eq_none_iff (i : Nat) (prev : String) :
    checkTranscript roundRecordHash claimedHashes i prev rounds = none ↔
      chainTranscript roundRecordHash prev rounds <+: claimedHashes.drop i := by
  induction rounds generalizing i prev with
  | nil => simp [checkTranscript, chainTranscript]
  | cons rec rounds ih =>
      simp only [checkTranscript, chainTranscript]
      by_cases hi : i < claimedHashes.length
      · rw [List.drop_eq_getElem_cons hi, List.cons_prefix_cons, ← ih, List.getElem?_eq_getElem hi]
        split
        · next hne =>
            have hhash : roundRecordHash prev rec ≠ claimedHashes[i] := by
              simpa [hi, not_le.mpr hi] using hne
            simp [hhash]
        · next heq =>
            have hhash : roundRecordHash prev rec = claimedHashes[i] := by
              simpa [hi] using heq
            simp [hhash]
      · have hend : claimedHashes.drop i = [] := List.drop_eq_nil_of_le (by omega)
        simp [hend, not_lt.mp hi]

/-- **A claimed chain is accepted exactly when it begins with the chain of the rounds.** -/
theorem verifyTranscriptChain_eq_admitted_iff :
    (∃ n, verifyTranscriptChain roundRecordHash genesisHash rounds claimedHashes = .admitted n) ↔
      chainTranscript roundRecordHash genesisHash rounds <+: claimedHashes := by
  rw [← List.drop_zero (l := claimedHashes), ← checkTranscript_eq_none_iff, List.drop_zero]
  unfold verifyTranscriptChain
  split
  · next w hw => simp [hw]
  · next hnone => simp [hnone]

/-- **Verification of a chain is exact when the claimed chain does not go on after the rounds.** -/
theorem verifyTranscriptChain_exact_iff (roundRecordHash : String → Round → String)
    (genesisHash : String) (rounds : List Round) (claimedHashes : List String) :
    ((∃ n, verifyTranscriptChain roundRecordHash genesisHash rounds claimedHashes = .admitted n) ↔
      claimedHashes = chainTranscript roundRecordHash genesisHash rounds) ↔
    ¬ (rounds.length < claimedHashes.length ∧
      claimedHashes.take rounds.length = chainTranscript roundRecordHash genesisHash rounds) := by
  rw [verifyTranscriptChain_eq_admitted_iff, List.prefix_iff_eq_take, length_chainTranscript]
  constructor
  · rintro h ⟨hlonger, htake⟩
    have hlen := congrArg List.length (h.mp htake.symm)
    rw [length_chainTranscript] at hlen
    omega
  · intro h
    constructor
    · intro htake
      have hle : claimedHashes.length ≤ rounds.length := by
        by_contra hlonger
        exact h ⟨not_le.mp hlonger, htake.symm⟩
      rw [List.take_of_length_le hle] at htake
      exact htake.symm
    · rintro rfl
      exact (List.take_of_length_le (length_chainTranscript genesisHash).le).symm

/-- Without its last round a transcript is accepted against the chain of all its rounds. -/
theorem truncated_admitted :
    ¬ ((∃ n, verifyTranscriptChain (fun prev rec => prev ++ toString rec.y) "genesis"
          (twoRounds.take 1)
          (chainTranscript (fun prev rec => prev ++ toString rec.y) "genesis" twoRounds) =
            .admitted n) ↔
      chainTranscript (fun prev rec => prev ++ toString rec.y) "genesis" twoRounds =
        chainTranscript (fun prev rec => prev ++ toString rec.y) "genesis"
          (twoRounds.take 1)) := by
  intro h
  have hprefix : chainTranscript (fun prev rec => prev ++ toString rec.y) "genesis"
      (twoRounds.take 1) <+:
        chainTranscript (fun prev rec => prev ++ toString rec.y) "genesis" twoRounds :=
    ⟨_, rfl⟩
  have hlen := congrArg List.length (h.mp (verifyTranscriptChain_eq_admitted_iff.mpr hprefix))
  simp [twoRounds] at hlen

end Chain

end HorizonProtocol.Commitment
