import HorizonProtocol.Certification.Runners

/-!
# From edits to a release

A repository as its source files and certificates. Files are edited and removed, and scripts run, in
any order; `scripts/run_all.py` runs all of them and lets the validator have the last word.

* `validates_iff_current` — after any history, the validator takes the certificates just when the
  last run behind each was green and the files it claims are as they were then.
* `run_all_green_iff` — so `run_all` is green just when all it runs is, and the certificates that it
  does not write are still current.
-/

namespace HorizonProtocol.Certification

open Json (Value Str lit)
open Attestation.Capture (LiveRun certify)

structure Repository (Content : Type) where
  files : List (Str × Content)
  nodup : (files.map Prod.fst).Nodup
  certificates : List (Str × Fields)

abbrev CertificateName := { name : Str // isFound name = true }

inductive Command (Content Payload Id Hash : Type) where
  | edit (path : Str) (content : Content)
  | remove (path : Str)
  | run (r : Runner) (o : Outcome) (w : Wording)
  /-- `verify_live`, with the file that it writes to, where the validator finds it. -/
  | verifyLive (out : CertificateName) (live : LiveRun Payload Id Hash) (w : Wording)

variable {Content Payload Id Hash : Type} [LinearOrder Id]

namespace Command

/-- The certificate that is written, and its file. -/
def written? (sha256 : Content → Str) (files : List (Str × Content)) :
    Command Content Payload Id Hash → Option (Str × Written)
  | .edit _ _ => none
  | .remove _ => none
  | .run r o w => (r.written o sha256 files w).map fun c => (lit r.certificate, c)
  | .verifyLive out live w =>
      match certify live with
      | .error _ => none
      | .ok cert => (liveWritten sha256 files w cert).map fun c => (out.val, c)

omit [LinearOrder Id] in
/-- Whether what is written says PASS. A live capture that is not certified writes nothing. -/
def green : Command Content Payload Id Hash → Bool
  | .run r o _ => r.green o
  | _ => true

end Command

namespace Repository

def edit (repo : Repository Content) (path : Str) (content : Content) : Repository Content where
  files := Dict.set repo.files path content
  nodup := Dict.nodup_keys_set repo.nodup
  certificates := repo.certificates

def remove (repo : Repository Content) (path : Str) : Repository Content where
  files := repo.files.filter fun f => f.1 ≠ path
  nodup := repo.nodup.sublist (List.filter_sublist.map Prod.fst)
  certificates := repo.certificates

def write (repo : Repository Content) : Option (Str × Written) → Repository Content
  | none => repo
  | some (name, c) => { repo with certificates := Dict.set repo.certificates name c.fields }

variable (sha256 : Content → Str)

def step (repo : Repository Content) (cmd : Command Content Payload Id Hash) : Repository Content :=
  match cmd with
  | .edit path content => repo.edit path content
  | .remove path => repo.remove path
  | cmd => repo.write (cmd.written? sha256 repo.files)

def after (repo : Repository Content) (cmds : List (Command Content Payload Id Hash)) :
    Repository Content :=
  cmds.foldl (step sha256) repo

end Repository

/-! ## The last run behind each certificate -/

/-- A command that wrote, on the files as they were. -/
structure Entry (Content Payload Id Hash : Type) where
  command : Command Content Payload Id Hash
  files : List (Str × Content)
  written : Written

/-- The run was green, and what it claims has not changed since. -/
def Entry.Current (files : List (Str × Content)) (e : Entry Content Payload Id Hash) : Prop :=
  e.command.green = true ∧
    ∀ p ∈ e.written.sourceHashes.map Prod.fst, Dict.get? files p = Dict.get? e.files p

section History

variable (sha256 : Content → Str)

/-- All that is written in a history, under the names of the files. -/
def writes : Repository Content → List (Command Content Payload Id Hash) →
    List (Str × Entry Content Payload Id Hash)
  | _, [] => []
  | repo, cmd :: cmds =>
      ((cmd.written? sha256 repo.files).map fun c => (c.1, ⟨cmd, repo.files, c.2⟩)).toList ++
        writes (repo.step sha256 cmd) cmds

/-- What stands in the end. -/
def standing (repo : Repository Content) (cmds : List (Command Content Payload Id Hash)) :
    List (Str × Entry Content Payload Id Hash) :=
  Dict.ofPairs (writes sha256 repo cmds)

end History

variable {sha256 : Content → Str} {repo : Repository Content}
  {cmds : List (Command Content Payload Id Hash)}

theorem writes_append (cmds cmds' : List (Command Content Payload Id Hash)) :
    writes sha256 repo (cmds ++ cmds') =
      writes sha256 repo cmds ++ writes sha256 (repo.after sha256 cmds) cmds' := by
  induction cmds generalizing repo with
  | nil => rfl
  | cons cmd cmds ih =>
      rw [List.cons_append, writes, writes, ih, List.append_assoc]
      rfl

/-- What is written is written of the files as they were. -/
theorem mem_writes {name : Str} {e : Entry Content Payload Id Hash}
    (h : (name, e) ∈ writes sha256 repo cmds) :
    (e.files.map Prod.fst).Nodup ∧ e.command.written? sha256 e.files = some (name, e.written) := by
  induction cmds generalizing repo with
  | nil => cases h
  | cons cmd cmds ih =>
      rw [writes, List.mem_append] at h
      rcases h with h | h
      · rw [Option.mem_toList, Option.map_eq_some_iff] at h
        obtain ⟨⟨name', c⟩, hwritten, heq⟩ := h
        cases heq
        exact ⟨repo.nodup, hwritten⟩
      · exact ih h

theorem certificates_step (cmd : Command Content Payload Id Hash) :
    (repo.step sha256 cmd).certificates = match cmd.written? sha256 repo.files with
      | none => repo.certificates
      | some c => Dict.set repo.certificates c.1 c.2.fields := by
  have hwrite : ∀ c?, (repo.write c?).certificates = match c? with
      | none => repo.certificates
      | some c => Dict.set repo.certificates c.1 c.2.fields := by
    intro c?
    cases c? <;> rfl
  cases cmd with
  | edit path content => rfl
  | remove path => rfl
  | run r o w => exact hwrite _
  | verifyLive out live w => exact hwrite _

/-- The certificates are what stands in the end. -/
theorem certificates_after (hnew : repo.certificates = []) :
    (repo.after sha256 cmds).certificates =
      (standing sha256 repo cmds).map fun e => (e.1, e.2.written.fields) := by
  induction cmds using List.reverseRecOn with
  | nil => exact hnew
  | append_singleton cmds cmd ih =>
      have hstep : repo.after sha256 (cmds ++ [cmd]) =
          (repo.after sha256 cmds).step sha256 cmd := by
        rw [Repository.after, List.foldl_append]
        rfl
      have hwrites : writes sha256 (repo.after sha256 cmds) [cmd] =
          ((cmd.written? sha256 (repo.after sha256 cmds).files).map
            fun c => (c.1, ⟨cmd, (repo.after sha256 cmds).files, c.2⟩)).toList :=
        List.append_nil _
      rw [hstep, standing, writes_append, hwrites, certificates_step]
      cases cmd.written? sha256 (repo.after sha256 cmds).files with
      | none =>
          rw [Option.map_none, Option.toList_none, List.append_nil]
          exact ih
      | some c =>
          rw [Option.map_some, Option.toList_some, Dict.ofPairs_concat]
          dsimp only
          rw [ih]
          exact Dict.set_map_snd (fun e : Entry Content Payload Id Hash => e.written.fields)
            (standing sha256 repo cmds) c.1 ⟨cmd, (repo.after sha256 cmds).files, c.2⟩

/-- All that is written is found. -/
theorem isFound_of_mem_writes {entry : Str × Entry Content Payload Id Hash}
    (h : entry ∈ writes sha256 repo cmds) : isFound entry.1 = true := by
  obtain ⟨name, e⟩ := entry
  have hwritten := (mem_writes h).2
  cases hcommand : e.command with
  | edit path content =>
      rw [hcommand] at hwritten
      cases hwritten
  | remove path =>
      rw [hcommand] at hwritten
      cases hwritten
  | run r o w =>
      rw [hcommand, Command.written?, Option.map_eq_some_iff] at hwritten
      obtain ⟨c, -, heq⟩ := hwritten
      cases heq
      exact r.found
  | verifyLive out live w =>
      rw [hcommand] at hwritten
      unfold Command.written? at hwritten
      dsimp only at hwritten
      split at hwritten
      · cases hwritten
      · obtain ⟨c, -, heq⟩ := Option.map_eq_some_iff.mp hwritten
        cases heq
        exact out.property

/-- Whether a certificate is taken is whether it is current. -/
theorem accepted_iff_current (hsha : Function.Injective sha256) {name : Str}
    {e : Entry Content Payload Id Hash} (h : (name, e) ∈ writes sha256 repo cmds)
    (files : List (Str × Content)) :
    accepted sha256 files e.written.fields = true ↔ e.Current files := by
  obtain ⟨hnodup, hwritten⟩ := mem_writes h
  obtain ⟨cmd, files₀, c⟩ := e
  dsimp only at hnodup hwritten
  cases cmd with
  | edit path content => cases hwritten
  | remove path => cases hwritten
  | run r o w =>
      rw [Command.written?, Option.map_eq_some_iff] at hwritten
      obtain ⟨c', hc, heq⟩ := hwritten
      cases heq
      exact Runner.accepted_iff hsha hnodup hc files
  | verifyLive out live w =>
      unfold Command.written? at hwritten
      dsimp only at hwritten
      split at hwritten
      · cases hwritten
      · next cert hcert =>
          obtain ⟨c', hc, heq⟩ := Option.map_eq_some_iff.mp hwritten
          cases heq
          rw [accepted_liveWritten_iff hsha hnodup hcert hc files]
          exact (and_iff_right rfl).symm

/-- The validator takes what stands when it is current. -/
theorem validates_standing (hsha : Function.Injective sha256) (files : List (Str × Content)) :
    validates sha256 files
        ((standing sha256 repo cmds).map fun e => (e.1, e.2.written.fields)) = true ↔
      standing sha256 repo cmds ≠ [] ∧
        ∀ entry ∈ standing sha256 repo cmds, entry.2.Current files := by
  have hmem : ∀ entry ∈ standing sha256 repo cmds, entry ∈ writes sha256 repo cmds := by
    rintro ⟨name, e⟩ hentry
    obtain ⟨l₁, l₂, hsplit, -⟩ := Dict.mem_ofPairs.mp hentry
    rw [hsplit]
    simp
  have hfound : ((standing sha256 repo cmds).map fun e => (e.1, e.2.written.fields)).filter
      (fun entry => isFound entry.1) =
        (standing sha256 repo cmds).map fun e => (e.1, e.2.written.fields) := by
    rw [List.filter_eq_self, List.forall_mem_map]
    exact fun entry hentry => isFound_of_mem_writes (hmem entry hentry)
  rw [validates, hfound, Bool.and_eq_true, List.all_map, List.all_eq_true, List.isEmpty_map,
    Bool.not_eq_true', List.isEmpty_eq_false_iff]
  refine and_congr_right fun _ => forall₂_congr fun entry hentry => ?_
  exact accepted_iff_current hsha (hmem entry hentry) files

/-- **The validator sees what has changed.** After any history of a new repository (files edited and
removed, runners and live captures in any order), the validator exits with 0 just when there is a
certificate and, behind each, the last run that wrote it was green and no file that it claims has
changed since or is gone. -/
theorem validates_iff_current (hsha : Function.Injective sha256) (hnew : repo.certificates = []) :
    validates sha256 (repo.after sha256 cmds).files (repo.after sha256 cmds).certificates = true ↔
      standing sha256 repo cmds ≠ [] ∧
        ∀ entry ∈ standing sha256 repo cmds, entry.2.Current (repo.after sha256 cmds).files := by
  rw [certificates_after hnew]
  exact validates_standing hsha _

/-- A kernel and nothing else. The hash of a text is the text. -/
def small : Repository String where
  files := [(lit "horizon/geometry.py", "C_NM_PER_NS = 299792458")]
  nodup := by decide
  certificates := []

def plain : Wording where
  adversaryModel := ""
  heuristicWarnings := []
  unitConvention := []
  pythonVersion := "3.12.0"

def allPass : Outcome where
  passes _ := true
  recomputed := true

/-- H1 is certified, and then the kernel is edited. -/
def drifting : List (Command String Unit Nat Unit) :=
  [.run runH1 allPass plain, .edit (lit "horizon/geometry.py") "C_NM_PER_NS = 299792459"]

theorem standing_drifting : ∃ e, standing lit small drifting = [(lit "h1_certificate.json", e)] ∧
    e.files = small.files ∧ lit "horizon/geometry.py" ∈ e.written.sourceHashes.map Prod.fst :=
  ⟨_, rfl, rfl, by decide⟩

theorem validates_iff_current_drifting :
    validates lit (small.after lit drifting).files (small.after lit drifting).certificates =
      false := by
  obtain ⟨e, hstanding, hfiles, hclaimed⟩ := standing_drifting
  rw [← Bool.not_eq_true, validates_iff_current lit_injective rfl, hstanding]
  rintro ⟨-, hall⟩
  have hsame := (hall _ (List.mem_singleton_self _)).2 _ hclaimed
  rw [hfiles] at hsame
  exact absurd hsame (by decide)

/-! ## Running everything -/

/-- How the scripts fare that `run_all` starts. The runners are told apart by their benchmarks. -/
structure Session where
  outcome : String → Outcome
  wording : String → Wording
  /-- `run_d0.py` and `run_harness_local.py` of the causal store, and their certificates. -/
  d0 : Bool
  harness : Bool
  /-- Whether Z3 is installed. `run_formal.py` is skipped where it is not. -/
  z3 : Bool

namespace Session

variable (s : Session)

/-- A runner in a process of its own, and its certificate read again. -/
def start (sha256 : Content → Str) (state : Repository Content × Bool) (r : Runner) :
    Repository Content × Bool :=
  let written? := r.written (s.outcome r.benchmarkId) sha256 state.1.files (s.wording r.benchmarkId)
  let repo := state.1.write (written?.map fun c => (lit r.certificate, c))
  -- where nothing is written the script raised, and did not return 0
  let returned := written?.isSome && r.green (s.outcome r.benchmarkId)
  let aggregate := match Dict.get? repo.certificates (lit r.certificate) with
    | some cert => get cert "aggregate"
    | none => .null
  (repo, state.2 && (returned && isText (lit "PASS") aggregate))

/-- `scripts/run_all.py`, `main`: whether all is green. -/
def runAll (sha256 : Content → Str) (repo : Repository Content) : Repository Content × Bool :=
  let (repo, ok) := runners.foldl (s.start sha256) (repo, true)
  let (repo, ok) := (repo, ok && s.d0 && s.harness)
  let (repo, ok) := if s.z3 then s.start sha256 (repo, ok) runFormal else (repo, ok)
  (repo, ok && validates sha256 repo.files repo.certificates)

/-- The scripts that write certificates beside the others. -/
def scripts : List Runner := if s.z3 then runners ++ [runFormal] else runners

/-- The run of a script, as a command. -/
def command (r : Runner) : Command Content Payload Id Hash :=
  .run r (s.outcome r.benchmarkId) (s.wording r.benchmarkId)

variable {s} {r : Runner} {rs : List Runner} {ok : Bool}

theorem isSome_written {o : Outcome} {files : List (Str × Content)} {w : Wording} :
    (r.written o sha256 files w).isSome = true ↔
      ∀ p ∈ r.opened, (Dict.get? files (lit p)).isSome = true := by
  have hnamed : ∀ ps : List String, (ps.mapM fun p =>
      (Dict.get? files (lit p)).map fun content => (lit p, sha256 content)).isSome = true ↔
        ∀ p ∈ ps, (Dict.get? files (lit p)).isSome = true := by
    intro ps
    induction ps with
    | nil => simp
    | cons p ps ih =>
        rw [List.mapM_cons, List.forall_mem_cons, ← ih]
        cases Dict.get? files (lit p) with
        | none => simp
        | some content =>
            cases ps.mapM fun p =>
              (Dict.get? files (lit p)).map fun content => (lit p, sha256 content) <;> simp
  rw [← hnamed]
  unfold Runner.written sourceHashes
  cases r.opened.mapM fun p =>
    (Dict.get? files (lit p)).map fun content => (lit p, sha256 content) <;> rfl

theorem files_command (r : Runner) :
    (repo.step sha256 (s.command r : Command Content Payload Id Hash)).files = repo.files := by
  have hwrite : ∀ c?, (repo.write c?).files = repo.files := by
    intro c?
    cases c? <;> rfl
  exact hwrite _

theorem written_of_opened (s : Session) (sha256 : Content → Str)
    (hopened : ∀ p ∈ r.opened, (Dict.get? repo.files (lit p)).isSome = true) :
    ∃ c, r.written (s.outcome r.benchmarkId) sha256 repo.files (s.wording r.benchmarkId) = some c ∧
      c.aggregate = if r.green (s.outcome r.benchmarkId) then "PASS" else "FAIL" := by
  have hsome : (r.written (s.outcome r.benchmarkId) sha256 repo.files
      (s.wording r.benchmarkId)).isSome = true := isSome_written.mpr hopened
  obtain ⟨c, hc⟩ := Option.isSome_iff_exists.mp hsome
  refine ⟨c, hc, ?_⟩
  unfold Runner.written at hc
  obtain ⟨hashes, -, hc⟩ := Option.bind_eq_some_iff.mp hc
  cases hc
  rfl

theorem files_after (rs : List Runner) :
    (repo.after sha256 (rs.map s.command : List (Command Content Payload Id Hash))).files =
      repo.files := by
  induction rs generalizing repo with
  | nil => rfl
  | cons r rs ih => exact ih.trans (files_command r)

/-- A script that opens files that are there writes its certificate, and is found green or not. -/
theorem start_eq (hopened : ∀ p ∈ r.opened, (Dict.get? repo.files (lit p)).isSome = true) :
    s.start sha256 (repo, ok) r = (repo.step sha256 (s.command r : Command Content Payload Id Hash),
      ok && r.green (s.outcome r.benchmarkId)) := by
  obtain ⟨c, hc, haggregate⟩ := s.written_of_opened sha256 hopened
  have hread : isText (lit "PASS") (get c.fields "aggregate") =
      r.green (s.outcome r.benchmarkId) := by
    rw [Bool.eq_iff_iff, c.get_aggregate, isText_str, haggregate]
    cases r.green (s.outcome r.benchmarkId) <;> simp
  have hstep : repo.step sha256 (s.command r : Command Content Payload Id Hash) =
      repo.write (some (lit r.certificate, c)) := by
    change repo.write ((r.written _ sha256 repo.files _).map fun c => (lit r.certificate, c)) = _
    rw [hc]
    rfl
  rw [hstep, start, hc]
  simp [Repository.write, Dict.get?_set, hread]

/-- A script that raises is not green. -/
theorem start_of_raising (h : ¬ ∀ p ∈ r.opened, (Dict.get? repo.files (lit p)).isSome = true) :
    (s.start sha256 (repo, ok) r).2 = false := by
  have hnone : (r.written (s.outcome r.benchmarkId) sha256 repo.files
      (s.wording r.benchmarkId)).isSome = false :=
    Bool.not_eq_true _ ▸ mt isSome_written.mp h
  simp [start, hnone]

/-- Scripts one after another: each writes on the same files. -/
theorem foldl_start (rs : List Runner)
    (hopened : ∀ r ∈ rs, ∀ p ∈ r.opened, (Dict.get? repo.files (lit p)).isSome = true) :
    rs.foldl (s.start sha256) (repo, ok) =
      (repo.after sha256 (rs.map s.command : List (Command Content Payload Id Hash)),
        ok && rs.all fun r => r.green (s.outcome r.benchmarkId)) := by
  induction rs generalizing repo ok with
  | nil => simp [Repository.after]
  | cons r rs ih =>
      rw [List.forall_mem_cons] at hopened
      have hstart : s.start sha256 (repo, ok) r =
          (repo.step sha256 (s.command r : Command Content Payload Id Hash),
            ok && r.green (s.outcome r.benchmarkId)) := start_eq hopened.1
      rw [List.foldl_cons, hstart, ih]
      · rw [List.all_cons, Bool.and_assoc]
        rfl
      · rw [files_command]
        exact hopened.2

/-- What scripts write. -/
theorem mem_writes_command {name : Str} {e : Entry Content Payload Id Hash}
    (h : (name, e) ∈ writes sha256 repo (rs.map s.command)) :
    ∃ r ∈ rs, name = lit r.certificate ∧ e.command = s.command r ∧ e.files = repo.files := by
  induction rs generalizing repo with
  | nil => cases h
  | cons r rs ih =>
      rw [List.map_cons, writes, List.mem_append] at h
      rcases h with h | h
      · rw [Option.mem_toList, Option.map_eq_some_iff] at h
        obtain ⟨⟨name', c⟩, hwritten, heq⟩ := h
        cases heq
        obtain ⟨c', -, heq⟩ := Option.map_eq_some_iff.mp hwritten
        cases heq
        exact ⟨r, List.mem_cons_self, rfl, rfl, rfl⟩
      · obtain ⟨r', hr', hname, hcommand, hfiles⟩ := ih h
        rw [files_command] at hfiles
        exact ⟨r', List.mem_cons_of_mem _ hr', hname, hcommand, hfiles⟩

theorem keys_writes_command
    (hopened : ∀ r ∈ rs, ∀ p ∈ r.opened, (Dict.get? repo.files (lit p)).isSome = true) :
    (writes sha256 repo (rs.map s.command : List (Command Content Payload Id Hash))).map Prod.fst =
      rs.map fun r => lit r.certificate := by
  induction rs generalizing repo with
  | nil => rfl
  | cons r rs ih =>
      rw [List.forall_mem_cons] at hopened
      obtain ⟨c, hc, -⟩ := s.written_of_opened sha256 hopened.1
      have hwritten : (s.command r : Command Content Payload Id Hash).written? sha256 repo.files =
          some (lit r.certificate, c) := congrArg (Option.map fun c => (lit r.certificate, c)) hc
      rw [List.map_cons, writes, hwritten, List.map_append, ih]
      · rfl
      · rw [files_command]
        exact hopened.2

end Session

namespace Session

variable {s : Session}

theorem opened_of_mem_runners : ∀ r ∈ runners, r.opened = [] := by
  simp [runners, runH1, runH2, runH3, runH4, runH5, runH6, runH7, runH8, runMnx, runRedteam, runH9]

theorem runH1_mem_scripts : runH1 ∈ s.scripts := by
  unfold scripts
  split <;> simp [runners]

/-- What `run_all` says, before the validator is looked at: every script is green, none raised. -/
theorem runAll_green_iff (s : Session) (repo : Repository Content) :
    (s.runAll sha256 repo).2 = true ↔
      (∀ r ∈ s.scripts, r.green (s.outcome r.benchmarkId) = true ∧
        ∀ p ∈ r.opened, (Dict.get? repo.files (lit p)).isSome = true) ∧
      s.d0 = true ∧ s.harness = true ∧
      let final := repo.after sha256
        (s.scripts.map s.command : List (Command Content Payload Id Hash))
      validates sha256 final.files final.certificates = true := by
  have hrunners : ∀ r ∈ runners, ∀ p ∈ r.opened, (Dict.get? repo.files (lit p)).isSome = true := by
    intro r hr p hp
    rw [opened_of_mem_runners r hr] at hp
    cases hp
  obtain ⟨repo', hrepo'⟩ : ∃ repo',
      repo.after sha256 (runners.map s.command : List (Command Content Payload Id Hash)) = repo' :=
    ⟨_, rfl⟩
  have hfiles : repo'.files = repo.files := by
    rw [← hrepo', files_after]
  have hstart : runners.foldl (s.start sha256) (repo, true) =
      (repo.after sha256 (runners.map s.command : List (Command Content Payload Id Hash)),
        true && runners.all fun r => r.green (s.outcome r.benchmarkId)) :=
    foldl_start runners hrunners
  have hrun : runners.foldl (s.start sha256) (repo, true) =
      (repo', runners.all fun r => r.green (s.outcome r.benchmarkId)) := by
    rw [hstart, hrepo', Bool.true_and]
  have hgreen : (runners.all fun r => r.green (s.outcome r.benchmarkId)) = true ↔
      ∀ r ∈ runners, r.green (s.outcome r.benchmarkId) = true ∧
        ∀ p ∈ r.opened, (Dict.get? repo.files (lit p)).isSome = true :=
    List.all_eq_true.trans
      (forall₂_congr fun r hr => (and_iff_left (hrunners r hr)).symm)
  unfold runAll
  rw [hrun]
  cases hz : s.z3 with
  | false =>
      have hscripts : s.scripts = runners := if_neg (by rw [hz]; exact Bool.false_ne_true)
      rw [hscripts, hrepo', ← hgreen]
      simp only [Bool.false_eq_true, if_false, Bool.and_eq_true, and_assoc]
  | true =>
      have hscripts : s.scripts = runners ++ [runFormal] := if_pos hz
      have hafter : repo.after sha256
          ((runners ++ [runFormal]).map s.command : List (Command Content Payload Id Hash)) =
          repo'.step sha256 (s.command runFormal : Command Content Payload Id Hash) := by
        rw [List.map_append, Repository.after, List.foldl_append, ← hrepo']
        rfl
      rw [hscripts, hafter, List.forall_mem_append, List.forall_mem_singleton, ← hgreen]
      by_cases hopened : ∀ p ∈ runFormal.opened, (Dict.get? repo.files (lit p)).isSome = true
      · have hformal (ok : Bool) : s.start sha256 (repo', ok) runFormal =
            (repo'.step sha256 (s.command runFormal : Command Content Payload Id Hash),
              ok && runFormal.green (s.outcome runFormal.benchmarkId)) :=
          start_eq (by rwa [hfiles])
        simp only [if_true, hformal, Bool.and_eq_true]
        tauto
      · have hformal (ok : Bool) : (s.start sha256 (repo', ok) runFormal).2 = false :=
          start_of_raising (by rwa [hfiles])
        simp only [if_true, hformal, Bool.false_and, Bool.false_eq_true, false_iff]
        exact fun h => hopened h.1.2.2

/-- **When all gates are green.** After any history of a new repository, `run_all` exits with 0 just
when all scripts that it runs are green (and the files that they open are there), and every
certificate that none of them writes is current: that of a live capture, and without Z3 that of the
proofs. -/
theorem run_all_green_iff (hsha : Function.Injective sha256) (hnew : repo.certificates = [])
    (s : Session) :
    (s.runAll sha256 (repo.after sha256 cmds)).2 = true ↔
      (∀ r ∈ s.scripts, r.green (s.outcome r.benchmarkId) = true ∧
        ∀ p ∈ r.opened, (Dict.get? (repo.after sha256 cmds).files (lit p)).isSome = true) ∧
      s.d0 = true ∧ s.harness = true ∧
      ∀ entry ∈ standing sha256 repo cmds,
        entry.1 ∉ s.scripts.map (fun r => lit r.certificate) →
          entry.2.Current (repo.after sha256 cmds).files := by
  obtain ⟨now, hnow⟩ : ∃ now, repo.after sha256 cmds = now := ⟨_, rfl⟩
  let script : List (Command Content Payload Id Hash) := s.scripts.map s.command
  have hfinal : now.after sha256 script = repo.after sha256 (cmds ++ script) := by
    rw [← hnow, Repository.after, Repository.after, Repository.after, List.foldl_append]
  have hfiles : (repo.after sha256 (cmds ++ script)).files = now.files := by
    rw [← hfinal, files_after]
  have hstanding : standing sha256 repo (cmds ++ script) =
      Dict.ofPairs (writes sha256 repo cmds ++ writes sha256 now script) := by
    rw [standing, writes_append, hnow]
  rw [hnow, @runAll_green_iff Content Payload Id Hash _ sha256 s now]
  refine and_congr_right fun hscripts => and_congr_right fun _ => and_congr_right fun _ => ?_
  have hkeys : (writes sha256 now script).map Prod.fst = s.scripts.map fun r => lit r.certificate :=
    keys_writes_command fun r hr => (hscripts r hr).2
  have hcurrent : ∀ entry ∈ writes sha256 now script, entry.2.Current now.files := by
    rintro ⟨name, e⟩ hentry
    obtain ⟨r, hr, -, hcommand, hfilesE⟩ := mem_writes_command hentry
    refine ⟨?_, fun p _ => by rw [hfilesE]⟩
    rw [hcommand]
    exact (hscripts r hr).1
  change validates sha256 (now.after sha256 script).files (now.after sha256 script).certificates =
    true ↔ _
  rw [hfinal, certificates_after hnew, validates_standing hsha, hfiles, hstanding]
  constructor
  · rintro ⟨-, hall⟩ entry hentry hnot
    refine hall entry (Dict.mem_ofPairs_append.mpr (Or.inr ⟨?_, hentry⟩))
    rwa [hkeys]
  · intro hkept
    refine ⟨?_, fun entry hentry => ?_⟩
    · have hfirst : lit runH1.certificate ∈ (Dict.ofPairs
          (writes sha256 repo cmds ++ writes sha256 now script)).map Prod.fst := by
        rw [Dict.mem_keys_ofPairs, List.map_append, hkeys]
        exact List.mem_append_right _ (List.mem_map_of_mem runH1_mem_scripts)
      intro hempty
      rw [hempty] at hfirst
      cases hfirst
    · rcases Dict.mem_ofPairs_append.mp hentry with hnew | ⟨hnot, hold⟩
      · obtain ⟨l₁, l₂, hsplit, -⟩ := Dict.mem_ofPairs.mp hnew
        exact hcurrent entry (by rw [hsplit]; simp)
      · exact hkept entry hold (by rwa [hkeys] at hnot)

/-- All passes, and Z3 is not there. -/
def greenSession : Session where
  outcome _ := allPass
  wording _ := plain
  d0 := true
  harness := true
  z3 := false

/-- The proofs were run where Z3 was. -/
def proved : List (Command String Unit Nat Unit) := [.run runFormal allPass plain]

theorem standing_proved : ∃ e, standing lit small proved = [(lit "formal_certificate.json", e)] ∧
    e.command = .run runFormal allPass plain ∧ e.files = small.files :=
  ⟨_, rfl, rfl, rfl⟩

/-- All is green, and the certificate of the proofs, which is not written again, is still current. -/
theorem run_all_green_iff_proved :
    (greenSession.runAll lit (small.after lit proved)).2 = true := by
  have hscripts : greenSession.scripts = runners := rfl
  refine (run_all_green_iff lit_injective rfl greenSession).mpr
    ⟨fun r hr => ⟨?_, ?_⟩, rfl, rfl, ?_⟩
  · simp [Runner.green, greenSession, allPass]
  · intro p hp
    rw [opened_of_mem_runners r (hscripts ▸ hr)] at hp
    cases hp
  · obtain ⟨e, hstanding, hcommand, hfiles⟩ := standing_proved
    rw [hstanding]
    refine List.forall_mem_singleton.mpr fun _ => ⟨?_, fun p _ => ?_⟩
    · rw [hcommand]
      rfl
    · rw [hfiles]
      rfl

end Session

end HorizonProtocol.Certification
