import HorizonProtocol.Json

/-!
# The validator of certificates

`scripts/validate_certificates.py`: the fields and values that every certificate is to have, and the
hashes of source files that it claims, against the files as they are.

* `Written.accepted_iff` — what the validator takes of what the scripts write.
-/

namespace HorizonProtocol.Certification

open Json (Value Str lit record)

/-- A dictionary as `json.load` gives it. -/
abbrev Fields := List (Str × Value)

/-- Where Python finds a value of a type it did not expect. -/
inductive ValueFault where
  | attributeError
  | typeError
  deriving DecidableEq

/-- The types in `MANDATORY_FIELDS`. -/
inductive FieldType where
  | str
  | bool
  | list
  | dict
  deriving DecidableEq

def FieldType.holds : FieldType → Value → Bool
  | .str, .str _ => true
  | .bool, .bool _ => true
  | .list, .arr _ => true
  | .dict, .obj _ => true
  | _, _ => false

def mandatoryFields : List (String × FieldType) :=
  [("certificate_version", .str), ("benchmark_id", .str), ("program", .str), ("claim_class", .str),
    ("execution_tier", .str), ("promotion_allowed", .bool), ("empirical_claim", .str),
    ("adversary_model", .str), ("heuristic_warnings", .list), ("unit_convention", .dict),
    ("gates", .list), ("aggregate", .str), ("source_hashes", .dict), ("python_version", .str)]

def validSoundnessTags : List String := ["SOUND", "HEURISTIC"]

def validGateResults : List String := ["PASS", "FAIL", "EXPECTED_ATTACK_SUCCESS"]

inductive ValidationError where
  /-- `"missing mandatory field '{field}'"` -/
  | missing (field : String)
  /-- `"field '{field}' has type {type(cert[field])}, expected {typ}"` -/
  | wrongType (field : String) (got : Value) (typ : FieldType)
  /-- `"claim_class must be 'ENGINEERING_REFERENCE', got {}"` -/
  | claimClass (got : Value)
  /-- `"LIVE certificates must set execution_tier='LIVE', got {}"` -/
  | liveTier (got : Value)
  /-- `"LIVE certificates must set capture_origin='LIVE_CAPTURE', got {}"` -/
  | captureOrigin (got : Value)
  /-- `"LIVE aggregate must be 'PASS' or 'APPARATUS_LIMITED', got {}"` -/
  | liveAggregate (got : Value)
  /-- `"execution_tier must be 'BENCHMARK', got {}"` -/
  | executionTier (got : Value)
  /-- `"aggregate must be 'PASS', got {}"` -/
  | aggregate (got : Value)
  /-- `"promotion_allowed must be false, got {}"` -/
  | promotionAllowed (got : Value)
  /-- `"empirical_claim must be 'NONE', got {}"` -/
  | empiricalClaim (got : Value)
  /-- `"gate {gid} has invalid soundness_tag {tag}"` -/
  | soundnessTag (gid tag : Value)
  /-- `"gate {gid} has invalid result {result}"` -/
  | result (gid result : Value)
  /-- `"source_hashes references missing file '{rel_path}'"` -/
  | missingFile (relPath : Str)
  /-- `"'{rel_path}' has drifted from its certified hash (certificate: {}, actual: {})"` -/
  | drifted (relPath : Str) (claimed : Value) (actual : Str)

/-- `cert.get(field)`, which is `None` where there is no such field. -/
def get (cert : Fields) (field : String) : Value := (Dict.get? cert (lit field)).getD .null

/-- `value == text`. -/
def isText (s : Str) : Value → Bool
  | .str t => t == s
  | _ => false

/-- `value in texts`, for a set of texts. A list or a dictionary has no hash. -/
def memTexts (texts : List String) : Value → Except ValueFault Bool
  | .arr _ => .error .typeError
  | .obj _ => .error .typeError
  | v => .ok (texts.any fun s => isText (lit s) v)

/-- `for x in value`. -/
def iterate : Value → Except ValueFault (List Value)
  | .arr xs => .ok xs
  | .obj ms => .ok (ms.map fun m => .str m.1)
  | .str s => .ok (s.map fun c => .str [c])
  | _ => .error .typeError

/-- One `errors.append` under its condition. -/
def errorUnless (ok : Bool) (error : ValidationError) : List ValidationError :=
  if ok then [] else [error]

section Parts

variable (cert : Fields)

def fieldErrors (entry : String × FieldType) : List ValidationError :=
  match Dict.get? cert (lit entry.1) with
  | none => [.missing entry.1]
  | some v => errorUnless (entry.2.holds v) (.wrongType entry.1 v entry.2)

/-- A certificate of a live capture, by any of its marks. -/
def isLive : Bool :=
  isText (lit "LIVE") (get cert "execution_tier") ||
    isText (lit "LIVE_CAPTURE") (get cert "capture_origin") ||
    isText (lit "H8-LIVE") (get cert "benchmark_id")

def tierErrors : List ValidationError :=
  let tier := get cert "execution_tier"
  let origin := get cert "capture_origin"
  let aggregate := get cert "aggregate"
  if isLive cert then
    errorUnless (isText (lit "LIVE") tier) (.liveTier tier) ++
      errorUnless (isText (lit "LIVE_CAPTURE") origin) (.captureOrigin origin) ++
      errorUnless (isText (lit "PASS") aggregate || isText (lit "APPARATUS_LIMITED") aggregate)
        (.liveAggregate aggregate)
  else
    errorUnless (isText (lit "BENCHMARK") tier) (.executionTier tier) ++
      errorUnless (isText (lit "PASS") aggregate) (.aggregate aggregate)

def claimErrors : List ValidationError :=
  let claimClass := get cert "claim_class"
  let promotion := get cert "promotion_allowed"
  let empirical := get cert "empirical_claim"
  errorUnless (isText (lit "ENGINEERING_REFERENCE") claimClass) (.claimClass claimClass) ++
    tierErrors cert ++
    errorUnless (match promotion with | .bool false => true | _ => false)
      (.promotionAllowed promotion) ++
    errorUnless (isText (lit "NONE") empirical) (.empiricalClaim empirical)

def gateErrors : Value → Except ValueFault (List ValidationError)
  | .obj gate => do
      let gid := get gate "gate"
      let tag := get gate "soundness_tag"
      let tagOk ← memTexts validSoundnessTags tag
      let result := get gate "result"
      let resultOk ← memTexts validGateResults result
      return errorUnless tagOk (.soundnessTag gid tag) ++ errorUnless resultOk (.result gid result)
  | _ => .error .attributeError

end Parts

/-- `glob` of `*_certificate.json` in `certificates/`: neither a hidden file nor one elsewhere. -/
def isFound (name : Str) : Bool :=
  (lit "_certificate.json").isSuffixOf name && !(lit ".").isPrefixOf name &&
    !name.contains (Json.codePoint '/')

section Files

variable {Content : Type} (sha256 : Content → Str) (files : List (Str × Content))

def hashErrors (entry : Str × Value) : List ValidationError :=
  match Dict.get? files entry.1 with
  | none => [.missingFile entry.1]
  | some content =>
      errorUnless (isText (sha256 content) entry.2) (.drifted entry.1 entry.2 (sha256 content))

def validateCertificate (cert : Fields) : Except ValueFault (List ValidationError) := do
  let gates ← iterate ((Dict.get? cert (lit "gates")).getD (.arr []))
  let ofGates ← gates.mapM gateErrors
  let hashes ← match (Dict.get? cert (lit "source_hashes")).getD (.obj []) with
    | .obj ms => Except.ok ms
    | _ => Except.error ValueFault.attributeError
  return mandatoryFields.flatMap (fieldErrors cert) ++ claimErrors cert ++ ofGates.flatten ++
    hashes.flatMap (hashErrors sha256 files)

/-- Neither an error nor an exception. -/
def accepted (cert : Fields) : Bool :=
  match validateCertificate sha256 files cert with
  | .ok [] => true
  | _ => false

/-- `main`: whether it exits with 0. -/
def validates (certificates : List (Str × Fields)) : Bool :=
  let found := certificates.filter fun entry => isFound entry.1
  !found.isEmpty && found.all fun entry => accepted sha256 files entry.2

end Files

/-! ## Literals -/

theorem lit_injective : Function.Injective lit := fun _ _ h =>
  Json.utf16_lit_injective (congrArg Json.utf16 h)

@[simp] theorem isText_str {s t : String} : isText (lit s) (.str (lit t)) = true ↔ t = s :=
  beq_iff_eq.trans lit_injective.eq_iff

/-- A field of a dictionary whose keys are literals. -/
theorem get_lit (ms : List (String × Value)) (field : String) :
    get (ms.map fun e => (lit e.1, e.2)) field = (Dict.get? ms field).getD .null := by
  rw [get, Dict.get?_map_fst lit_injective ms field]

theorem errorUnless_eq_nil {ok : Bool} {e : ValidationError} :
    errorUnless ok e = [] ↔ ok = true := by
  cases ok <;> simp [errorUnless]

/-! ## What the scripts write -/

/-- The texts of a certificate that the validator asks for and does not read. -/
structure Wording where
  adversaryModel : String
  heuristicWarnings : List Value
  unitConvention : Fields
  pythonVersion : String

structure GateResult where
  gate : String
  description : String
  soundnessTag : String
  result : String

def GateResult.entries (g : GateResult) : List (String × Value) :=
  [("gate", .str (lit g.gate)), ("description", .str (lit g.description)),
    ("soundness_tag", .str (lit g.soundnessTag)), ("result", .str (lit g.result))]

def GateResult.value (g : GateResult) : Value := record g.entries

/-- The tags and results of the gates are of those the validator knows. -/
def Tagged (g : GateResult) : Prop :=
  g.soundnessTag ∈ validSoundnessTags ∧ g.result ∈ validGateResults

theorem gateErrors_value {g : GateResult} (h : Tagged g) : gateErrors g.value = .ok [] := by
  have hmem : ∀ texts : List String, ∀ t ∈ texts, memTexts texts (.str (lit t)) = .ok true := by
    intro texts t ht
    have hany : (texts.any fun s => isText (lit s) (.str (lit t))) = true :=
      List.any_eq_true.mpr ⟨t, ht, isText_str.mpr rfl⟩
    exact congrArg Except.ok hany
  have htag : get (g.entries.map fun e => (lit e.1, e.2)) "soundness_tag" =
      .str (lit g.soundnessTag) := get_lit g.entries "soundness_tag"
  have hresult : get (g.entries.map fun e => (lit e.1, e.2)) "result" = .str (lit g.result) :=
    get_lit g.entries "result"
  rw [GateResult.value, record, gateErrors]
  dsimp only
  rw [htag, hresult, hmem _ _ h.1, hmem _ _ h.2]
  rfl

/-- What the validator reads of the certificate that a script writes. -/
structure Written where
  benchmarkId : String
  program : String
  executionTier : String
  captureOrigin? : Option String
  wording : Wording
  gates : List GateResult
  aggregate : String
  sourceHashes : List (Str × Str)

namespace Written

def entries (c : Written) : List (String × Value) :=
  [("certificate_version", .str (lit "1")), ("benchmark_id", .str (lit c.benchmarkId)),
    ("program", .str (lit c.program)), ("claim_class", .str (lit "ENGINEERING_REFERENCE")),
    ("execution_tier", .str (lit c.executionTier)), ("promotion_allowed", .bool false),
    ("empirical_claim", .str (lit "NONE")),
    ("adversary_model", .str (lit c.wording.adversaryModel)),
    ("heuristic_warnings", .arr c.wording.heuristicWarnings),
    ("unit_convention", .obj c.wording.unitConvention),
    ("gates", .arr (c.gates.map GateResult.value)), ("aggregate", .str (lit c.aggregate)),
    ("source_hashes", .obj (c.sourceHashes.map fun e => (e.1, .str e.2))),
    ("python_version", .str (lit c.wording.pythonVersion))] ++
  (c.captureOrigin?.map fun origin => ("capture_origin", Value.str (lit origin))).toList

def fields (c : Written) : Fields := c.entries.map fun e => (lit e.1, e.2)

/-- It has one of the marks of a live capture. -/
def Live (c : Written) : Prop :=
  c.executionTier = "LIVE" ∨ c.captureOrigin? = some "LIVE_CAPTURE" ∨ c.benchmarkId = "H8-LIVE"

instance (c : Written) : Decidable c.Live := inferInstanceAs (Decidable (_ ∨ _ ∨ _))

/-- The tier and the aggregate that the validator asks for. -/
def Approved (c : Written) : Prop :=
  if c.Live then
    c.executionTier = "LIVE" ∧ c.captureOrigin? = some "LIVE_CAPTURE" ∧
      (c.aggregate = "PASS" ∨ c.aggregate = "APPARATUS_LIMITED")
  else c.executionTier = "BENCHMARK" ∧ c.aggregate = "PASS"

variable (c : Written)

theorem get?_fields (field : String) :
    Dict.get? c.fields (lit field) = Dict.get? c.entries field :=
  Dict.get?_map_fst lit_injective c.entries field

theorem get_fields (field : String) :
    get c.fields field = (Dict.get? c.entries field).getD .null :=
  get_lit c.entries field

theorem fieldErrors_fields : mandatoryFields.flatMap (fieldErrors c.fields) = [] := by
  have hentry : fieldErrors c.fields = fun entry => match Dict.get? c.entries entry.1 with
      | none => [.missing entry.1]
      | some v => errorUnless (entry.2.holds v) (.wrongType entry.1 v entry.2) := by
    funext entry
    rw [fieldErrors, get?_fields]
  rw [hentry]
  rfl

theorem get_benchmarkId : get c.fields "benchmark_id" = .str (lit c.benchmarkId) := by
  rw [get_fields]
  rfl

theorem get_executionTier : get c.fields "execution_tier" = .str (lit c.executionTier) := by
  rw [get_fields]
  rfl

theorem get_aggregate : get c.fields "aggregate" = .str (lit c.aggregate) := by
  rw [get_fields]
  rfl

theorem isText_captureOrigin {s : String} :
    isText (lit s) (get c.fields "capture_origin") = true ↔ c.captureOrigin? = some s := by
  have hget : get c.fields "capture_origin" =
      (c.captureOrigin?.map fun origin => Value.str (lit origin)).getD .null := by
    rw [get_fields]
    unfold entries
    cases c.captureOrigin? <;> rfl
  rw [hget]
  cases c.captureOrigin? with
  | none => simp [isText]
  | some origin => simp

theorem isLive_fields : isLive c.fields = true ↔ c.Live := by
  rw [Live, isLive, Bool.or_eq_true, Bool.or_eq_true, isText_captureOrigin, get_executionTier,
    get_benchmarkId, isText_str, isText_str, or_assoc]

theorem claimErrors_fields : claimErrors c.fields = [] ↔ c.Approved := by
  have hfixed : claimErrors c.fields = [] ↔ tierErrors c.fields = [] := by
    unfold claimErrors
    simp [get_fields, entries, Dict.get?, errorUnless_eq_nil]
  rw [hfixed, tierErrors, Approved]
  by_cases hlive : c.Live
  · rw [if_pos (c.isLive_fields.mpr hlive), if_pos hlive, List.append_eq_nil_iff,
      List.append_eq_nil_iff, errorUnless_eq_nil, errorUnless_eq_nil, errorUnless_eq_nil,
      Bool.or_eq_true, isText_captureOrigin, get_executionTier, get_aggregate, isText_str,
      isText_str, isText_str, and_assoc]
  · rw [if_neg (mt c.isLive_fields.mp hlive), if_neg hlive, List.append_eq_nil_iff,
      errorUnless_eq_nil, errorUnless_eq_nil, get_executionTier, get_aggregate, isText_str,
      isText_str]

/-- **What the validator takes of what the scripts write.** -/
theorem accepted_iff {Content : Type} {sha256 : Content → Str} {files : List (Str × Content)}
    (h : ∀ g ∈ c.gates, Tagged g) :
    accepted sha256 files c.fields = true ↔ c.Approved ∧
      ∀ e ∈ c.sourceHashes, (Dict.get? files e.1).map sha256 = some e.2 := by
  have hgates : ∀ gs : List GateResult, (∀ g ∈ gs, Tagged g) →
      (gs.map GateResult.value).mapM gateErrors = .ok (gs.map fun _ => []) := by
    intro gs hgs
    induction gs with
    | nil => rfl
    | cons g gs ih =>
        rw [List.forall_mem_cons] at hgs
        rw [List.map_cons, List.mapM_cons, gateErrors_value hgs.1, ih hgs.2]
        rfl
  have hhashes : (c.sourceHashes.map fun e => (e.1, Value.str e.2)).flatMap
      (hashErrors sha256 files) = [] ↔
        ∀ e ∈ c.sourceHashes, (Dict.get? files e.1).map sha256 = some e.2 := by
    rw [List.flatMap_eq_nil_iff, List.forall_mem_map]
    refine forall₂_congr fun e _ => ?_
    unfold hashErrors
    cases Dict.get? files e.1 with
    | none => simp
    | some content =>
        rw [Option.map_some, Option.some.injEq, errorUnless_eq_nil]
        exact beq_iff_eq.trans eq_comm
  have hvalidate : validateCertificate sha256 files c.fields = .ok (claimErrors c.fields ++
      (c.sourceHashes.map fun e => (e.1, Value.str e.2)).flatMap (hashErrors sha256 files)) := by
    have hnone : (c.gates.map fun _ => ([] : List ValidationError)).flatten = [] := by
      simp
    unfold validateCertificate
    rw [get?_fields, get?_fields, fieldErrors_fields]
    change (do
      let ofGates ← (c.gates.map GateResult.value).mapM gateErrors
      return [] ++ claimErrors c.fields ++ ofGates.flatten ++
        (c.sourceHashes.map fun e : Str × Str => (e.1, Value.str e.2)).flatMap
          (hashErrors sha256 files)) = _
    rw [hgates c.gates h]
    change Except.ok _ = _
    rw [hnone, List.nil_append, List.append_nil]
  have haccepted : accepted sha256 files c.fields = true ↔
      claimErrors c.fields ++ (c.sourceHashes.map fun e => (e.1, Value.str e.2)).flatMap
        (hashErrors sha256 files) = [] := by
    rw [accepted, hvalidate]
    cases claimErrors c.fields ++ (c.sourceHashes.map fun e => (e.1, Value.str e.2)).flatMap
      (hashErrors sha256 files) <;> simp
  rw [haccepted, List.append_eq_nil_iff, claimErrors_fields, hhashes]

end Written

end HorizonProtocol.Certification
