import HorizonProtocol.Commitment.Reveal

/-!
# Commitment sessions

`horizon/commit_sim.py`: a session answers every round with the true secrets and then reveals, either
honestly or with the other bit and a first secret solved for it.

* `runSession_honest` — an honest session is accepted.
* `reveal_binding` — one opening for each bit, honest transcripts are accepted, and the two openings
  differ throughout.
* `cheatFlip_rejected` — a flipped bit with a back-solved first secret does not open the transcript.
-/

namespace HorizonProtocol.Commitment

/-! ## Frozen parameters -/

/-- `SITE_1`. -/
def site1 : Pos := ⟨0, 0, 0⟩

/-- `SITE_2`. -/
def site2 : Pos := ⟨30000000000000, 0, 0⟩

/-- `K_SUSTAIN`. -/
def kSustain : Nat := 8

/-- `DT_ROUND_NS`. -/
def dtRoundNs : Int := 40000

/-- `SEED_H2`. -/
def seedH2 : String := "H2-FROZEN-SEED-v1"

/-- `RESPONSE_PROC_NS`. -/
def responseProcNs : Int := 10

/-! ## Derivation -/

section Derive

/- The digest of a string, read as one big-endian number. -/
variable (digest : String → Nat)

def deriveFieldElement (seed label : String) (counter : Nat) : Int :=
  ((digest (seed ++ "||" ++ label ++ "||" ++ toString counter) % pField : Nat) : Int)

def deriveSecrets (seed : String) (kSustain : Nat) : List Int :=
  (List.range (kSustain + 1)).map (deriveFieldElement digest seed "secret-a")

def deriveChallenges (seed : String) (kSustain : Nat) : List Int :=
  (List.range (kSustain + 1)).map (deriveFieldElement digest seed "challenge-r")

end Derive

/-! ## Sessions -/

/-- Where and when the rounds of a session take place. -/
structure Schedule where
  site1 : Pos := Commitment.site1
  site2 : Pos := Commitment.site2
  dtRoundNs : Int := Commitment.dtRoundNs
  t0Ns : Int := 0

/-- Where a round takes place. -/
def Schedule.site (sched : Schedule) (k : Nat) : Pos :=
  if k % 2 = 0 then sched.site1 else sched.site2

/-- When a round opens. -/
def Schedule.opensNs (sched : Schedule) (k : Nat) : Int := sched.t0Ns + k * sched.dtRoundNs

def sessionRound (sched : Schedule) (b : Int) (secrets challenges : List Int) (k : Nat) :
    Except ChainError Round :=
  let site := sched.site k
  let tChallenge := sched.opensNs k
  let tResponse := tChallenge + responseProcNs
  (index challenges k).bind fun r => (answer b secrets k r).bind fun y =>
    .ok { k, siteNm := site, r, y, tChallengeNs := tChallenge, tResponseNs := tResponse }

/-- The loop over the rounds. -/
def sessionRounds (sched : Schedule) (b : Int) (secrets challenges : List Int) :
    List Nat → Except ChainError (List Round)
  | [] => .ok []
  | k :: ks =>
      (sessionRound sched b secrets challenges k).bind fun rec =>
        (sessionRounds sched b secrets challenges ks).bind fun rounds => .ok (rec :: rounds)

inductive CommitRole where
  | honest
  | cheatFlip
  deriving DecidableEq

structure RevealedBit where
  b : Int
  secrets : List Int
  deriving DecidableEq

/-- What is revealed after these rounds. -/
def reveal (role : CommitRole) (b : Int) (secrets challenges : List Int) (rounds : List Round) :
    Except ChainError RevealedBit :=
  match role with
  | .honest => .ok ⟨b, secrets⟩
  | .cheatFlip =>
      match rounds with
      | [] => .error .index
      | first :: _ =>
          (index challenges 0).bind fun r0 =>
            let bFlip := 1 - b
            let a0Forged := (first.y - bFlip * r0) % pField
            .ok ⟨bFlip, a0Forged :: secrets.drop 1⟩

/-- The running hash chain over the rounds. -/
def chainTranscript (roundRecordHash : String → Round → String) (prev : String) :
    List Round → List String
  | [] => []
  | rec :: rounds =>
      let hash := roundRecordHash prev rec
      hash :: chainTranscript roundRecordHash hash rounds

structure Session where
  rounds : List Round
  transcriptHashes : List String
  reveal : RevealedBit
  tCommitNs : Int
  tRevealNs : Int
  bindingDurationNs : Int
  role : CommitRole
  seed : String

def runSession (digest : String → Nat) (roundRecordHash : String → Round → String)
    (genesisHash : String) (role : CommitRole) (b : Int) (seed : String := seedH2)
    (kSustain : Nat := Commitment.kSustain) (sched : Schedule := {}) : Except ChainError Session :=
  let secrets := deriveSecrets digest seed kSustain
  let challenges := deriveChallenges digest seed kSustain
  (sessionRounds sched b secrets challenges (List.range (kSustain + 1))).bind fun rounds =>
    (reveal role b secrets challenges rounds).bind fun revealed =>
      match rounds with
      | [] => .error .index
      | first :: _ =>
          let tReveal := sched.t0Ns + (kSustain + 1) * sched.dtRoundNs
          .ok
            { rounds, transcriptHashes := chainTranscript roundRecordHash genesisHash rounds
              reveal := revealed, tCommitNs := first.tChallengeNs, tRevealNs := tReveal
              bindingDurationNs := tReveal - first.tChallengeNs, role, seed }

/-! ## Honest rounds -/

variable {b : Int} {secrets challenges : List Int} {sched : Schedule} {K : Nat}

theorem index_of_lt {xs : List Int} {k : Nat} (hk : k < xs.length) : index xs k = .ok xs[k] := by
  have hneg : ¬ ((k : Int) < 0) := by omega
  simp [index, hneg, hk]

/-- With a secret for the round, a bit has its answer, and that is reduced. -/
theorem answer_of_lt (hb : b = 0 ∨ b = 1) {k : Nat} (hk : k < secrets.length) (r : Int) :
    ∃ y, answer b secrets k r = .ok y ∧ 0 ≤ y ∧ y < pField := by
  have hsplit : secrets = secrets.take k ++ secrets[k] :: secrets.drop (k + 1) := by simp
  have hlen : (secrets.take k).length = k := by simp; omega
  have hans := answer_append hb (secrets.take k) secrets[k] (secrets.drop (k + 1)) r
  rw [← hsplit, hlen] at hans
  have hpos : (0 : Int) < pField := by decide
  exact ⟨_, hans, Int.emod_nonneg _ hpos.ne', Int.emod_lt_of_pos _ hpos⟩

/-- A session's rounds carry the indices asked for, the challenges, and the answers of its secrets. -/
structure Honest (b : Int) (secrets challenges : List Int) (ks : List Nat) (rounds : List Round) :
    Prop where
  indices : rounds.map Round.k = ks.map Int.ofNat
  answers : ∀ rec ∈ rounds, answer b secrets rec.k rec.r = .ok rec.y
  reduced : ∀ rec ∈ rounds, 0 ≤ rec.y ∧ rec.y < pField
  challenged : ∀ rec ∈ rounds, rec.r ∈ challenges

theorem sessionRounds_honest (hb : b = 0 ∨ b = 1) (ks : List Nat)
    (hks : ∀ k ∈ ks, k < secrets.length ∧ k < challenges.length) :
    ∃ rounds, sessionRounds sched b secrets challenges ks = .ok rounds ∧
      Honest b secrets challenges ks rounds := by
  induction ks with
  | nil => exact ⟨[], rfl, ⟨rfl, by simp, by simp, by simp⟩⟩
  | cons k ks ih =>
      obtain ⟨hsec, hch⟩ := hks k List.mem_cons_self
      obtain ⟨rounds, hrounds, hhonest⟩ := ih fun x hx => hks x (List.mem_cons_of_mem _ hx)
      obtain ⟨y, hy, hred⟩ := answer_of_lt hb hsec challenges[k]
      simp only [sessionRounds, sessionRound, index_of_lt hch, hy, hrounds, Except.bind]
      refine ⟨_, rfl, ?_, ?_, ?_, ?_⟩
      · simp [hhonest.indices]
      · exact List.forall_mem_cons.mpr ⟨hy, hhonest.answers⟩
      · exact List.forall_mem_cons.mpr ⟨hred, hhonest.reduced⟩
      · exact List.forall_mem_cons.mpr ⟨List.getElem_mem hch, hhonest.challenged⟩

theorem Honest.inOrder {rounds : List Round}
    (h : Honest b secrets challenges (List.range (K + 1)) rounds) : InOrder K rounds where
  indices := h.indices
  reduced := h.reduced

/-- What the session answered, the verifier accepts with the secrets of the session. -/
theorem honest_accepted (hb : b = 0 ∨ b = 1) (hsecrets : secrets.length = K + 1)
    (hchallenges : challenges.length = K + 1) :
    ∃ rounds, sessionRounds sched b secrets challenges (List.range (K + 1)) = .ok rounds ∧
      Honest b secrets challenges (List.range (K + 1)) rounds ∧ Accepts rounds b secrets K := by
  obtain ⟨rounds, hrounds, hhonest⟩ := @sessionRounds_honest b secrets challenges sched hb
    (List.range (K + 1)) (fun k hk => by rw [List.mem_range] at hk; omega)
  refine ⟨rounds, hrounds, hhonest, ?_⟩
  rw [accepts_iff_answers hb hhonest.indices]
  refine ⟨?_, hhonest.answers⟩
  rw [hsecrets]
  simpa using (congrArg List.length hhonest.indices).symm

/-- **An honest session is accepted**: it runs to its end, whatever the hashes, and opens with what
it reveals. -/
theorem runSession_honest (digest : String → Nat) (roundRecordHash : String → Round → String)
    (genesisHash : String) (hb : b = 0 ∨ b = 1) (seed : String) (K : Nat) (sched : Schedule) :
    ∃ session, runSession digest roundRecordHash genesisHash .honest b seed K sched = .ok session ∧
      Accepts session.rounds session.reveal.b session.reveal.secrets K := by
  obtain ⟨rounds, hrounds, hhonest, hacc⟩ :=
    @honest_accepted b (deriveSecrets digest seed K) (deriveChallenges digest seed K) sched K hb
      (by simp [deriveSecrets]) (by simp [deriveChallenges])
  have hlen : rounds.length = K + 1 := by
    simpa using congrArg List.length hhonest.indices
  cases rounds with
  | nil => cases hlen
  | cons first rest =>
      rw [runSession, hrounds]
      exact ⟨_, rfl, hacc⟩

/-! ## Binding -/

/-- Openings of one transcript for the two bits differ, modulo the field, in every coordinate. -/
theorem openings_differ {rounds : List Round} (h : InOrder K rounds)
    (hr : ∀ rec ∈ rounds, rec.r % pField ≠ 0) {s0 s1 : List Int} (h0 : Accepts rounds 0 s0 K)
    (h1 : Accepts rounds 1 s1 K) :
    List.Forall₂ (fun a a' : Int => a % pField ≠ a' % pField) s0 s1 := by
  rw [accepts_iff (Or.inl rfl) h] at h0
  rw [accepts_iff (Or.inr rfl) h] at h1
  have hne := solveRounds_ne hr
  rwa [← h0, ← h1, List.forall₂_map_left_iff, List.forall₂_map_right_iff] at hne

/-- There is one reduced opening for each bit. -/
theorem existsUnique_opening (hb : b = 0 ∨ b = 1) {rounds : List Round} (h : InOrder K rounds) :
    ∃! s : List Int, (∀ a ∈ s, 0 ≤ a ∧ a < pField) ∧ s.length = K + 1 ∧ Accepts rounds b s K := by
  have hreduced : ∀ s : List Int, (∀ a ∈ s, 0 ≤ a ∧ a < pField) →
      s.map (fun a : Int => a % pField) = s := by
    intro s hs
    rw [List.map_congr_left fun a ha => Int.emod_eq_of_lt (hs a ha).1 (hs a ha).2]
    exact List.map_id' _
  refine ⟨solveRounds b rounds, ⟨fun a => mem_solveRounds, ?_, ?_⟩, ?_⟩
  · rw [length_solveRounds]
    simpa [range] using congrArg List.length h.indices
  · rw [accepts_iff hb h, hreduced _ fun a => mem_solveRounds]
  · rintro s ⟨hs, -, hacc⟩
    rwa [accepts_iff hb h, hreduced s hs] at hacc

/-- **A transcript binds the bit.** In a transcript in order each bit has one opening modulo the
field, the rounds solved in sequence; honest transcripts are accepted, whatever the secrets and
challenges; and where no challenge vanishes the openings of the two bits differ throughout. -/
theorem reveal_binding (K : Nat) :
    (∀ rounds b, InOrder K rounds → b = 0 ∨ b = 1 →
      (∀ secrets, Accepts rounds b secrets K ↔
        secrets.map (fun a : Int => a % pField) = solveRounds b rounds) ∧
      ∃! s : List Int, (∀ a ∈ s, 0 ≤ a ∧ a < pField) ∧ s.length = K + 1 ∧ Accepts rounds b s K) ∧
    (∀ sched b secrets challenges, b = 0 ∨ b = 1 → secrets.length = K + 1 →
      challenges.length = K + 1 → ∃ rounds,
        sessionRounds sched b secrets challenges (List.range (K + 1)) = .ok rounds ∧
        Accepts rounds b secrets K) ∧
    ∀ rounds, InOrder K rounds → (∀ rec ∈ rounds, rec.r % pField ≠ 0) →
      ∀ s0 s1, Accepts rounds 0 s0 K → Accepts rounds 1 s1 K →
        List.Forall₂ (fun a a' : Int => a % pField ≠ a' % pField) s0 s1 := by
  refine ⟨?_, ?_, ?_⟩
  · intro rounds b h hb
    exact ⟨fun secrets => accepts_iff hb h, existsUnique_opening hb h⟩
  · intro sched b secrets challenges hb hsecrets hchallenges
    obtain ⟨rounds, hrounds, -, hacc⟩ := honest_accepted hb hsecrets hchallenges
    exact ⟨rounds, hrounds, hacc⟩
  · intro rounds h hr s0 s1 h0 h1
    exact openings_differ h hr h0 h1

/-- **A flipped bit is caught.** Later rounds were answered with the true secrets, so solving only
the first one again does not open the transcript. -/
theorem cheatFlip_rejected (hb : b = 0 ∨ b = 1) (hK : 0 < K) (hsecrets : secrets.length = K + 1)
    (hchallenges : challenges.length = K + 1) (hr : ∀ r ∈ challenges, r % (pField : Int) ≠ 0) :
    ∃ rounds revealed, sessionRounds sched b secrets challenges (List.range (K + 1)) = .ok rounds ∧
      reveal .cheatFlip b secrets challenges rounds = .ok revealed ∧
      ¬ Accepts rounds revealed.b revealed.secrets K := by
  obtain ⟨rounds, hrounds, hhonest, hacc⟩ :=
    @honest_accepted b secrets challenges sched K hb hsecrets hchallenges
  have hlen : rounds.length = K + 1 := by
    simpa using congrArg List.length hhonest.indices
  have hreveal : ∃ a, reveal .cheatFlip b secrets challenges rounds =
      .ok ⟨1 - b, a :: secrets.drop 1⟩ := by
    cases rounds with
    | nil => cases hlen
    | cons first rest =>
        have h0 : index challenges 0 = .ok challenges[0] := index_of_lt (k := 0) (by omega)
        exact ⟨_, by simp only [reveal, h0, Except.bind]; rfl⟩
  obtain ⟨a, ha⟩ := hreveal
  refine ⟨rounds, _, hrounds, ha, fun hforged => ?_⟩
  obtain ⟨a0, a1, rest, rfl⟩ : ∃ a0 a1 rest, secrets = a0 :: a1 :: rest := by
    match secrets, hsecrets with
    | [], h => simp at h
    | [_], h => simp at h; omega
    | a0 :: a1 :: rest, _ => exact ⟨a0, a1, rest, rfl⟩
  have hr' : ∀ rec ∈ rounds, rec.r % (pField : Int) ≠ 0 :=
    fun rec hrec => hr _ (hhonest.challenged rec hrec)
  -- the second secret is the same in both openings
  rcases hb with rfl | rfl
  · have hne := openings_differ hhonest.inOrder hr' hacc hforged
    exact (List.forall₂_cons.mp (List.forall₂_cons.mp hne).2).1 rfl
  · have hne := openings_differ hhonest.inOrder hr' hforged hacc
    exact (List.forall₂_cons.mp (List.forall₂_cons.mp hne).2).1 rfl

end HorizonProtocol.Commitment
