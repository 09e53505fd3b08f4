import Mathlib.Data.List.Basic

/-!
# Typed edge claims

`horizon/edge_claims.py`: that an influence was physically possible and that a dependency was
observed are different claims. A kind travels as a string and is checked when a claim is built, so a
claim that exists has a known kind, a claimant and a time. (A claim's `edge_id`, the digest of its
other fields, is read by nothing here.)
-/

namespace HorizonProtocol

inductive EdgeKind where
  | declaredDependency
  | observedDependency
  | attestedDependency
  | physicalAdmissibility
  | derivedFrom
  | supersedes
  | resolves
  | invalidates
  deriving DecidableEq

namespace EdgeKind

/-- The string a kind travels as. -/
def value : EdgeKind → String
  | .declaredDependency => "declared_dependency"
  | .observedDependency => "observed_dependency"
  | .attestedDependency => "attested_dependency"
  | .physicalAdmissibility => "physical_admissibility"
  | .derivedFrom => "derived_from"
  | .supersedes => "supersedes"
  | .resolves => "resolves"
  | .invalidates => "invalidates"

/-- `ALL`. -/
def all : List EdgeKind :=
  [.declaredDependency, .observedDependency, .attestedDependency, .physicalAdmissibility,
    .derivedFrom, .supersedes, .resolves, .invalidates]

/-- `DEPENDENCY_KINDS`: the kinds that assert that a dependency happened. -/
def dependencyKinds : List EdgeKind :=
  [.declaredDependency, .observedDependency, .attestedDependency]

/-- The known kind of a string. -/
def ofValue? (s : String) : Option EdgeKind := all.find? fun k => k.value == s

@[simp] theorem ofValue?_value (k : EdgeKind) : ofValue? k.value = some k := by
  cases k <;> decide

theorem value_of_ofValue? {s : String} {k : EdgeKind} (h : ofValue? s = some k) : k.value = s := by
  simpa using List.find?_some h

/-- A string is a kind of the list exactly when it reads as one. -/
theorem mem_map_value_iff {s : String} {kinds : List EdgeKind} :
    s ∈ kinds.map value ↔ ∃ k ∈ kinds, ofValue? s = some k := by
  rw [List.mem_map]
  constructor
  · intro h
    obtain ⟨k, hk, rfl⟩ := h
    exact ⟨k, hk, ofValue?_value k⟩
  · intro h
    obtain ⟨k, hk, hs⟩ := h
    exact ⟨k, hk, value_of_ofValue? hs⟩

end EdgeKind

/-- One claim about two events. It is only built by `EdgeClaim.make`, and what that checks is part
of it. -/
structure EdgeClaim (Eid Ref : Type) where
  fromEvent : Eid
  toEvent : Eid
  kind : EdgeKind
  assertedBy : String
  assertedAt : String
  evidenceRefs : List Ref
  assertedBy_ne : assertedBy ≠ ""
  assertedAt_ne : assertedAt ≠ ""

/-- Why a claim cannot be built. -/
inductive EdgeClaimError where
  /-- `ValueError`, "unknown EdgeKind: …". -/
  | unknownEdgeKind (kind : String)
  /-- `ValueError`, "asserted_by is required". -/
  | assertedByRequired
  /-- `ValueError`, "asserted_at is required". -/
  | assertedAtRequired
  deriving DecidableEq

variable {Eid Ref : Type}

/-- The pair of events a claim is about. -/
def EdgeClaim.endpoints (c : EdgeClaim Eid Ref) : Eid × Eid := (c.fromEvent, c.toEvent)

/-- The constructor, with the checks of `__post_init__` in their order. -/
def EdgeClaim.make (fromEvent toEvent : Eid) (kind assertedBy assertedAt : String)
    (evidenceRefs : Option (List Ref)) : Except EdgeClaimError (EdgeClaim Eid Ref) :=
  match EdgeKind.ofValue? kind with
  | none => .error (.unknownEdgeKind kind)
  | some k =>
      if hby : assertedBy = "" then .error .assertedByRequired
      else if hat : assertedAt = "" then .error .assertedAtRequired
      else .ok
        { fromEvent, toEvent, kind := k, assertedBy, assertedAt
          evidenceRefs := evidenceRefs.getD []
          assertedBy_ne := hby
          assertedAt_ne := hat }

/-- A claim says what its maker was given. -/
theorem EdgeClaim.of_make {a b : Eid} {kind by_ at_ : String} {refs : Option (List Ref)}
    {c : EdgeClaim Eid Ref} (h : EdgeClaim.make a b kind by_ at_ refs = .ok c) :
    c.endpoints = (a, b) ∧ EdgeKind.ofValue? kind = some c.kind := by
  unfold EdgeClaim.make at h
  split at h
  · cases h
  · next k hk =>
      split at h
      · cases h
      · split at h
        · cases h
        · cases h
          exact ⟨rfl, hk⟩

/-- A known kind with a claimant and a time always gives a claim. -/
theorem EdgeClaim.make_of_known (a b : Eid) (k : EdgeKind) {by_ at_ : String}
    (refs : Option (List Ref)) (hby : by_ ≠ "") (hat : at_ ≠ "") :
    ∃ c : EdgeClaim Eid Ref, EdgeClaim.make a b k.value by_ at_ refs = .ok c ∧
      c.endpoints = (a, b) ∧ c.kind = k := by
  simp only [EdgeClaim.make, EdgeKind.ofValue?_value, hby, hat, dif_neg, not_false_eq_true]
  exact ⟨_, rfl, rfl, rfl⟩

end HorizonProtocol
