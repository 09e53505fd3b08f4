import HorizonProtocol.CausalStore.Ordering
import HorizonProtocol.Machine
import Mathlib.Data.List.Dedup
import Mathlib.Logic.Function.Basic

/-!
# The causal store

`causalstore/store.py`: an append-only log of events with an index by key. `write` compares a new
event with the current frontier of its key and admits or refuses it; `read` reports the frontier.

The hash of `event_id` and the ordering are parameters: `sha` stands for the truncated SHA-256 of
the canonical JSON, `o` for any implementation of the ordering contract. An event's `event_id` is
always the hash of what it says, so it is computed (`Body.eventId`) and not stored.
-/

namespace HorizonProtocol.CausalStore

variable {Id Key Value Origin Clock W : Type}

/-! ## Events -/

/-- What a write says, and what orderings compare. -/
structure Body (Key Value Origin Clock : Type) where
  key : Key
  value : Value
  originNode : Origin
  clock : Clock
  deriving DecidableEq

/-- `{"k": key, "v": value}`. -/
structure Payload (Key Value : Type) where
  k : Key
  v : Value
  deriving DecidableEq

/-- `{"p": payload, "o": origin_node, "c": clock}`, the hashed record. -/
structure HashInput (Key Value Origin Clock : Type) where
  p : Payload Key Value
  o : Origin
  c : Clock
  deriving DecidableEq

/-- `event_id`. -/
def eventId (sha : HashInput Key Value Origin Clock → Id) (payload : Payload Key Value)
    (originNode : Origin) (clock : Clock) : Id :=
  sha { p := payload, o := originNode, c := clock }

/-- The event id `write` gives to a body. -/
def Body.eventId (sha : HashInput Key Value Origin Clock → Id)
    (b : Body Key Value Origin Clock) : Id :=
  CausalStore.eventId sha { k := b.key, v := b.value } b.originNode b.clock

/-- A stored event: a body and the ids it supersedes. -/
structure Event (Id Key Value Origin Clock : Type) extends Body Key Value Origin Clock where
  supersedes : List Id
  deriving DecidableEq

/-! ## The backend -/

/-- `InMemoryBackend`: the log and its index, with what makes it an index. -/
structure InMemoryBackend (Id Key Value Origin Clock : Type) [DecidableEq Key] where
  byKey : Key → List (Event Id Key Value Origin Clock)
  all : List (Event Id Key Value Origin Clock)
  byKey_eq : ∀ key, byKey key = all.filter fun e => decide (e.key = key)

section Backend

variable [DecidableEq Key]

namespace InMemoryBackend

def empty : InMemoryBackend Id Key Value Origin Clock where
  byKey _ := []
  all := []
  byKey_eq _ := rfl

def append (b : InMemoryBackend Id Key Value Origin Clock)
    (e : Event Id Key Value Origin Clock) : InMemoryBackend Id Key Value Origin Clock where
  byKey := Function.update b.byKey e.key (b.byKey e.key ++ [e])
  all := b.all ++ [e]
  byKey_eq key := by
    by_cases h : e.key = key
    · subst h
      rw [Function.update_self, b.byKey_eq]
      simp
    · rw [Function.update_of_ne (Ne.symm h), b.byKey_eq]
      simp [h]

def eventsForKey (b : InMemoryBackend Id Key Value Origin Clock) (key : Key) :
    List (Event Id Key Value Origin Clock) := b.byKey key

def allEvents (b : InMemoryBackend Id Key Value Origin Clock) :
    List (Event Id Key Value Origin Clock) := b.all

variable {b : InMemoryBackend Id Key Value Origin Clock} {e g : Event Id Key Value Origin Clock}

@[simp] theorem mem_eventsForKey {key : Key} :
    e ∈ b.eventsForKey key ↔ e ∈ b.allEvents ∧ e.key = key := by
  simp [eventsForKey, allEvents, b.byKey_eq]

@[simp] theorem allEvents_empty :
    (empty : InMemoryBackend Id Key Value Origin Clock).allEvents = [] := rfl

@[simp] theorem allEvents_append : (b.append e).allEvents = b.allEvents ++ [e] := rfl

end InMemoryBackend

end Backend

/-! ## Answers -/

inductive Verdict where
  | admitted
  | rejected
  deriving DecidableEq

inductive Mode where
  | coordinationFree
  | causalSupersede
  | conflictRetained
  | duplicateIgnored
  | rejected
  deriving DecidableEq

/-- The witness of a rejection, one constructor for each `reason`. -/
inductive Rejection (Id W : Type) where
  | unknownPredecessor (pred : Id)
  | supersedesNonAncestor (w : W)
  | staleWriteDominatedByExistingFrontier (dominatingEventIds : List Id)
  deriving DecidableEq

structure CommitResult (Id W : Type) where
  eventId : Id
  mode : Mode
  coordinated : Bool
  verdict : Verdict
  witness : Option (Rejection Id W) := none
  supersedes : List Id := []
  deriving DecidableEq

def CommitResult.reject (eid : Id) (w : Rejection Id W) : CommitResult Id W where
  eventId := eid
  mode := .rejected
  coordinated := false
  verdict := .rejected
  witness := some w

/-- What `read` shows of an event. -/
structure Candidate (Id Value Origin : Type) where
  eventId : Id
  value : Value
  origin : Origin
  deriving DecidableEq

inductive ReadResult (Id Key Value Origin : Type) where
  | empty (key : Key)
  | resolved (key : Key) (candidate : Candidate Id Value Origin)
  | conflict (key : Key) (candidates : List (Candidate Id Value Origin))
  deriving DecidableEq

inductive Status where
  | empty
  | resolved
  | conflict
  deriving DecidableEq

def ReadResult.status : ReadResult Id Key Value Origin → Status
  | .empty _ => .empty
  | .resolved _ _ => .resolved
  | .conflict _ _ => .conflict

/-- The candidates a reader is offered: none, the resolved one, or all of a conflict. -/
def ReadResult.candidates : ReadResult Id Key Value Origin → List (Candidate Id Value Origin)
  | .empty _ => []
  | .resolved _ c => [c]
  | .conflict _ cs => cs

/-- The arguments of `write`. -/
structure WriteCall (Id Key Value Origin Clock : Type) extends Body Key Value Origin Clock where
  supersedes : Option (List Id) := none

/-- `list(supersedes or [])`. -/
def WriteCall.claims (c : WriteCall Id Key Value Origin Clock) : List Id :=
  c.supersedes.getD []

structure Stats where
  total : Nat := 0
  coordinationFree : Nat := 0
  coordinated : Nat := 0
  deriving DecidableEq

end CausalStore

/-! ## The store -/

open CausalStore in
/-- The state of a `CausalStore`. -/
structure CausalStore (Id Key Value Origin Clock : Type) [DecidableEq Key] where
  backend : InMemoryBackend Id Key Value Origin Clock := .empty
  stats : Stats := {}

namespace CausalStore

variable {Id Key Value Origin Clock W : Type} [DecidableEq Id] [DecidableEq Key]
variable (sha : HashInput Key Value Origin Clock → Id)
variable (o : Ordering (Body Key Value Origin Clock) W)
variable (s : CausalStore Id Key Value Origin Clock)

/-- `_find`. -/
def find (eid : Id) : Option (Event Id Key Value Origin Clock) :=
  s.backend.allEvents.find? fun e => e.eventId sha = eid

/-- `_frontier`: the events of the key that no other event of the key records as superseded. -/
def frontier (key : Key) : List (Event Id Key Value Origin Clock) :=
  let evs := s.backend.eventsForKey key
  evs.filter fun e =>
    !evs.any fun g =>
      decide (g.eventId sha ≠ e.eventId sha) && decide (e.eventId sha ∈ g.supersedes)

/-- The explicit supersession claims, checked in order up to the first that fails. -/
def checkSupersedes (ev : Body Key Value Origin Clock) : List Id → Option (Rejection Id W)
  | [] => none
  | pred :: rest =>
      match s.find sha pred with
      | none => some (.unknownPredecessor pred)
      | some pe =>
          if !o.before pe.toBody ev then some (.supersedesNonAncestor (o.witness pe.toBody ev))
          else checkSupersedes ev rest

/-- `self.stats["total"] += 1`. -/
def countTotal : CausalStore Id Key Value Origin Clock :=
  { s with stats.total := s.stats.total + 1 }

/-- `self.backend.append(ev)` and the counter that goes with it. -/
def commit (coordinated : Bool) (ev : Event Id Key Value Origin Clock) :
    CausalStore Id Key Value Origin Clock :=
  let s := { s with backend := s.backend.append ev }
  if coordinated then { s with stats.coordinated := s.stats.coordinated + 1 }
  else { s with stats.coordinationFree := s.stats.coordinationFree + 1 }

/-- `write`. The `supersedes` lists that go through a Python set come out without repetitions, in an
order that nothing depends on. -/
def write (c : WriteCall Id Key Value Origin Clock) :
    CausalStore Id Key Value Origin Clock × CommitResult Id W :=
  let eid := c.eventId sha
  match s.find sha eid with
  | some existing =>
      -- a retry: the original stands, and the statistics do not move
      (s, { eventId := eid, mode := .duplicateIgnored, coordinated := false, verdict := .admitted,
            supersedes := existing.supersedes })
  | none =>
    let frontier := s.frontier sha c.key
    let s := s.countTotal
    match s.checkSupersedes sha o c.toBody c.claims with
    | some w => (s, .reject eid w)
    | none =>
      if frontier.isEmpty then
        -- the first event of the key
        (s.commit false ⟨c.toBody, c.claims⟩,
          { eventId := eid, mode := .coordinationFree, coordinated := false, verdict := .admitted })
      else
        -- a stale write would come back as a conflict candidate
        let dominators := frontier.filter fun f => o.before c.toBody f.toBody
        if !dominators.isEmpty then
          (s, .reject eid
            (.staleWriteDominatedByExistingFrontier (dominators.map (·.eventId sha))))
        else if frontier.all fun f => o.before f.toBody c.toBody then
          -- after the whole frontier: a clean supersession
          let supersedes := (c.claims ++ frontier.map (·.eventId sha)).dedup
          (s.commit false ⟨c.toBody, supersedes⟩,
            { eventId := eid, mode := .causalSupersede, coordinated := false,
              verdict := .admitted, supersedes := supersedes })
        else if frontier.all fun f => o.concurrent f.toBody c.toBody
            && o.resolves f.toBody c.toBody && o.resolves c.toBody f.toBody then
          -- proven independent of the whole frontier, not merely undecided
          (s.commit false ⟨c.toBody, c.claims⟩,
            { eventId := eid, mode := .coordinationFree, coordinated := false,
              verdict := .admitted })
        else
          -- mixed: retained, and only what it comes after is superseded
          let anc := (frontier.filter fun f => o.before f.toBody c.toBody).map (·.eventId sha)
          let supersedes := (c.claims ++ anc).dedup
          (s.commit true ⟨c.toBody, supersedes⟩,
            { eventId := eid, mode := .conflictRetained, coordinated := true,
              verdict := .admitted, supersedes := supersedes })

/-- The record `read` makes of a frontier event. -/
def candidate (f : Event Id Key Value Origin Clock) : Candidate Id Value Origin where
  eventId := f.eventId sha
  value := f.value
  origin := f.originNode

/-- `read`. -/
def read (key : Key) : ReadResult Id Key Value Origin :=
  match s.frontier sha key with
  | [] => .empty key
  | [f] => .resolved key (candidate sha f)
  | fs => .conflict key (fs.map (candidate sha))

/-- The store as a machine answering `write` calls. -/
def machine : Machine (CausalStore Id Key Value Origin Clock)
    (WriteCall Id Key Value Origin Clock) (CommitResult Id W) where
  init := {}
  step s c := s.write sha o c

/-! ## Reading the definitions -/

variable {sha o s}

omit [DecidableEq Id] in
@[simp] theorem backend_countTotal : s.countTotal.backend = s.backend := rfl

omit [DecidableEq Id] in
@[simp] theorem backend_commit (coordinated : Bool) (ev : Event Id Key Value Origin Clock) :
    (s.commit coordinated ev).backend = s.backend.append ev := by
  cases coordinated <;> rfl

theorem find_eq_some {eid : Id} {e : Event Id Key Value Origin Clock}
    (h : s.find sha eid = some e) : e ∈ s.backend.allEvents ∧ e.eventId sha = eid :=
  ⟨List.mem_of_find?_eq_some h, by simpa using List.find?_some h⟩

theorem find_eq_none {eid : Id} :
    s.find sha eid = none ↔ ∀ e ∈ s.backend.allEvents, e.eventId sha ≠ eid := by
  simp [find]

theorem mem_frontier {key : Key} {e : Event Id Key Value Origin Clock} :
    e ∈ s.frontier sha key ↔ (e ∈ s.backend.allEvents ∧ e.key = key) ∧
      ∀ g ∈ s.backend.allEvents, g.key = key → g.eventId sha ≠ e.eventId sha →
        e.eventId sha ∉ g.supersedes := by
  simp only [frontier, List.mem_filter, InMemoryBackend.mem_eventsForKey, Bool.not_eq_true',
    List.any_eq_false, Bool.and_eq_true, decide_eq_true_eq, not_and, and_imp]

/-- Every read shows exactly the frontier. -/
theorem candidates_read (key : Key) :
    (s.read sha key).candidates = (s.frontier sha key).map (candidate sha) := by
  unfold read
  rcases s.frontier sha key with _ | ⟨f, _ | ⟨g, fs⟩⟩ <;> rfl

theorem status_read (key : Key) :
    (s.read sha key).status =
      match (s.frontier sha key).length with
      | 0 => .empty
      | 1 => .resolved
      | _ => .conflict := by
  unfold read
  rcases s.frontier sha key with _ | ⟨f, _ | ⟨g, fs⟩⟩ <;> rfl

end CausalStore

end HorizonProtocol
