import HorizonProtocol.Attestation.EmissionClaim
import HorizonProtocol.Dict

/-!
# The declared verdict of a measured certificate

What `verify_measured_certificate` decides, said without its order of gates and its early exits: when
a receipt is refuted, when one is left in doubt, and the verdict that follows from these. The
verifier reads three fields of the certificate, which is a dictionary with other fields besides.

* `verifyMeasuredCertificate_verdict` — the gates give the declared verdict.
* `measured_verdict_iff` — and so does the verifier, unless it comes to a MAC that
  `hmac.compare_digest` raises on.
-/

namespace HorizonProtocol.Attestation

variable {Id Hash Key Tag : Type}

/-! ## The certificate as a dictionary -/

/-- A value in the dictionary, as far as the verifier looks into it. -/
inductive CertificateField (Id Hash Tag : Type) where
  | event (event : EmissionEvent Hash)
  | receipts (receipts : List (Receipt Id Hash Tag))
  | text (text : String)
  /-- Anything else, in JSON. -/
  | other (json : String)

abbrev CertificateDict (Id Hash Tag : Type) := List (String × CertificateField Id Hash Tag)

/-- `cert.get("fixture_origin") == "LIVE_CAPTURE"`. -/
def readOrigin (cert : CertificateDict Id Hash Tag) : FixtureOrigin :=
  match Dict.get? cert "fixture_origin" with
  | some (.text origin) => if origin = "LIVE_CAPTURE" then .liveCapture else .other
  | _ => .other

/-- What the verifier reads of a dictionary. There are no receipts where the field is missing, and
nothing to read where the event is missing or a field is of another type. -/
def readCertificate (cert : CertificateDict Id Hash Tag) :
    Option (MeasuredCertificate Id Hash Tag) :=
  match Dict.get? cert "event", Dict.get? cert "receipts" with
  | some (.event event), none =>
    some { event, receipts := [], fixtureOrigin := readOrigin cert }
  | some (.event event), some (.receipts receipts) =>
    some { event, receipts, fixtureOrigin := readOrigin cert }
  | _, _ => none

/-- Other fields do not influence what is read. -/
theorem readCertificate_congr {cert cert' : CertificateDict Id Hash Tag}
    (hevent : Dict.get? cert "event" = Dict.get? cert' "event")
    (hreceipts : Dict.get? cert "receipts" = Dict.get? cert' "receipts")
    (horigin : Dict.get? cert "fixture_origin" = Dict.get? cert' "fixture_origin") :
    readCertificate cert = readCertificate cert' := by
  unfold readCertificate readOrigin
  rw [hevent, hreceipts, horigin]

theorem event_of_readCertificate {cert : CertificateDict Id Hash Tag}
    {read : MeasuredCertificate Id Hash Tag} (h : readCertificate cert = some read) :
    Dict.get? cert "event" = some (.event read.event) ∧ read.fixtureOrigin = readOrigin cert := by
  unfold readCertificate at h
  split at h
  · next event hevent _ =>
      cases h
      exact ⟨hevent, rfl⟩
  · next event receipts hevent _ =>
      cases h
      exact ⟨hevent, rfl⟩
  · cases h

/-! ## The declared verdict -/

section Declared

variable [DecidableEq Tag]

/-- The caller has parameters for every registered station. -/
def Covers (nodeParams : Id → Option NodeParams) (registry : Registry Id Key) : Prop :=
  ∀ sid station, registry sid = some station → ∃ params, nodeParams sid = some params

variable {mac : Key → ReceiptBody Id Hash → Tag} {registry : Registry Id Key}
  {nodeParams : Id → Option NodeParams} [LinearOrder Id] {requiredStationIds : Option (List Id)}
  {cert : MeasuredCertificate Id Hash Tag}

/-- The verdict that is declared for a certificate. -/
structure Declared (mac : Key → ReceiptBody Id Hash → Tag) (registry : Registry Id Key)
    (nodeParams : Id → Option NodeParams) (requiredStationIds : Option (List Id))
    (cert : MeasuredCertificate Id Hash Tag) (verdict : MeasuredVerdict) : Prop where
  rejected : verdict = .rejected ↔
    Rejectable mac registry nodeParams requiredStationIds cert
  apparatusLimited : verdict = .apparatusLimited ↔
    ¬ Rejectable mac registry nodeParams requiredStationIds cert ∧
      Unresolved registry nodeParams cert
  pass : verdict = .pass ↔
    ¬ Rejectable mac registry nodeParams requiredStationIds cert ∧
      ¬ Unresolved registry nodeParams cert

theorem declared_of_rejectable
    (h : Rejectable mac registry nodeParams requiredStationIds cert) :
    Declared mac registry nodeParams requiredStationIds cert .rejected := by
  refine ⟨?_, ?_, ?_⟩ <;> simp [h]

theorem declared_of_unresolved
    (h : ¬ Rejectable mac registry nodeParams requiredStationIds cert)
    (hdoubt : Unresolved registry nodeParams cert) :
    Declared mac registry nodeParams requiredStationIds cert .apparatusLimited := by
  refine ⟨?_, ?_, ?_⟩ <;> simp [h, hdoubt]

theorem declared_of_clear (h : ¬ Rejectable mac registry nodeParams requiredStationIds cert)
    (hclear : ¬ Unresolved registry nodeParams cert) :
    Declared mac registry nodeParams requiredStationIds cert .pass := by
  refine ⟨?_, ?_, ?_⟩ <;> simp [h, hclear]

omit [DecidableEq Tag] in
theorem ProperSources.perm {rs rs' : List (Receipt Id Hash Tag)} (hperm : rs.Perm rs')
    (h : ProperSources requiredStationIds rs) : ProperSources requiredStationIds rs' where
  nonempty := by
    rintro rfl
    exact h.nonempty hperm.eq_nil
  distinct := (hperm.map _).nodup_iff.mp h.distinct
  covered ids hids := by
    rw [← h.covered ids hids]
    exact List.toFinset_eq_of_perm _ _ (hperm.map _).symm

/-- The order of the receipts does not count. -/
theorem Declared.perm {cert' : MeasuredCertificate Id Hash Tag} {verdict : MeasuredVerdict}
    (hevent : cert'.event = cert.event) (horigin : cert'.fixtureOrigin = cert.fixtureOrigin)
    (hperm : cert'.receipts.Perm cert.receipts)
    (h : Declared mac registry nodeParams requiredStationIds cert verdict) :
    Declared mac registry nodeParams requiredStationIds cert' verdict := by
  have hproper : ProperSources requiredStationIds cert'.receipts ↔
      ProperSources requiredStationIds cert.receipts :=
    ⟨fun hp => hp.perm hperm, fun hp => hp.perm hperm.symm⟩
  have hrejectable : Rejectable mac registry nodeParams requiredStationIds cert' ↔
      Rejectable mac registry nodeParams requiredStationIds cert := by
    simp only [Rejectable, hproper, hperm.mem_iff, hevent]
  have hunresolved : Unresolved registry nodeParams cert' ↔
      Unresolved registry nodeParams cert := by
    simp only [Unresolved, hperm.mem_iff, hevent, horigin]
  refine ⟨?_, ?_, ?_⟩
  · rw [hrejectable]
    exact h.rejected
  · rw [hrejectable, hunresolved]
    exact h.apparatusLimited
  · rw [hrejectable, hunresolved]
    exact h.pass

/-- **The gates give the declared verdict.** -/
theorem verifyMeasuredCertificate_verdict [DecidableEq Hash]
    (hcovers : Covers nodeParams registry) :
    ∃ result, verifyMeasuredCertificate mac registry nodeParams requiredStationIds cert =
        .ok result ∧
      Declared mac registry nodeParams requiredStationIds cert result.verdict := by
  have hdecides : Decides mac registry nodeParams requiredStationIds cert _ :=
    verifyMeasuredCertificate_decides
  generalize verifyMeasuredCertificate mac registry nodeParams requiredStationIds cert = out
    at hdecides ⊢
  cases hdecides with
  | noParams _ hstation hnone =>
      obtain ⟨params, hparams⟩ := hcovers _ _ hstation
      cases hnone.symm.trans hparams
  | @rejected result h hverdict =>
      refine ⟨result, rfl, ?_⟩
      rw [hverdict]
      exact declared_of_rejectable h
  | @apparatusLimited result h hdoubt hverdict =>
      refine ⟨result, rfl, ?_⟩
      rw [hverdict]
      exact declared_of_unresolved h hdoubt
  | @pass result _ h hclear hverdict =>
      refine ⟨result, rfl, ?_⟩
      rw [hverdict]
      exact declared_of_clear h hclear

/-! ## The comparison of the MACs -/

/-- What `verify_measured_certificate` may raise. -/
inductive MeasuredError (Id : Type) where
  | noNodeParams (e : NoNodeParams Id)
  /-- `TypeError` of `hmac.compare_digest`, on text that is not ASCII. -/
  | compareDigest
  deriving DecidableEq

section Raise

variable [DecidableEq Hash]

omit [DecidableEq Tag] in
/-- The gates before the loop over the receipts. -/
def sourcesPass (requiredStationIds : Option (List Id)) (rs : List (Receipt Id Hash Tag)) : Bool :=
  let stationIds := rs.map fun r => r.body.stationId
  !rs.isEmpty && decide (stationIds.toFinset.card = stationIds.length) &&
    (coverageGap requiredStationIds stationIds.toFinset).isNone

omit [LinearOrder Id] in
/-- The loop goes on after this receipt. -/
def goesOn (mac : Key → ReceiptBody Id Hash → Tag) (registry : Registry Id Key)
    (nodeParams : Id → Option NodeParams) (event : EmissionEvent Hash)
    (r : Receipt Id Hash Tag) : Bool :=
  match checkReceipt mac registry event.payloadHash r, receiptBudget registry nodeParams event r with
  | .ok _, some w => decide (w.verdict ≠ .rejected)
  | _, _ => false

/-- `verify_measured_certificate`, with what the comparison of the MACs raises. -/
def verifyMeasuredRaising (comparable : Tag → Bool) (mac : Key → ReceiptBody Id Hash → Tag)
    (registry : Registry Id Key) (nodeParams : Id → Option NodeParams)
    (requiredStationIds : Option (List Id)) (cert : MeasuredCertificate Id Hash Tag) :
    Except (MeasuredError Id) (MeasuredResult Id) :=
  if sourcesPass requiredStationIds cert.receipts &&
      Log.reaches (incomparable comparable registry) (goesOn mac registry nodeParams cert.event)
        cert.receipts then
    .error .compareDigest
  else
    match verifyMeasuredCertificate mac registry nodeParams requiredStationIds cert with
    | .error e => .error (.noNodeParams e)
    | .ok result => .ok result

/-- Of proper sources, a receipt that the loop comes to has a MAC that cannot be compared. -/
def MeetsIncomparable (comparable : Tag → Bool) (mac : Key → ReceiptBody Id Hash → Tag)
    (registry : Registry Id Key) (nodeParams : Id → Option NodeParams)
    (requiredStationIds : Option (List Id)) (cert : MeasuredCertificate Id Hash Tag) : Prop :=
  ProperSources requiredStationIds cert.receipts ∧
    ∃ pre r post, cert.receipts = pre ++ r :: post ∧
      (∀ r' ∈ pre, goesOn mac registry nodeParams cert.event r' = true) ∧
      incomparable comparable registry r = true

variable {comparable : Tag → Bool}

omit [DecidableEq Tag] [DecidableEq Hash] in
theorem sourcesPass_iff {rs : List (Receipt Id Hash Tag)} :
    sourcesPass requiredStationIds rs = true ↔ ProperSources requiredStationIds rs := by
  have hdistinct : (rs.map fun r => r.body.stationId).toFinset.card =
      (rs.map fun r => r.body.stationId).length ↔ (rs.map fun r => r.body.stationId).Nodup :=
    Multiset.toFinset_card_eq_card_iff_nodup
  unfold sourcesPass
  dsimp only
  rw [Bool.and_eq_true, Bool.and_eq_true, decide_eq_true_eq, hdistinct, Option.isNone_iff_eq_none,
    coverageGap_eq_none]
  constructor
  · rintro ⟨⟨hne, hnodup⟩, hcovered⟩
    exact ⟨by simpa using hne, hnodup, hcovered⟩
  · rintro ⟨hne, hnodup, hcovered⟩
    exact ⟨⟨by simpa using hne, hnodup⟩, hcovered⟩

/-- **The verifier gives the declared verdict just when it meets no MAC that it cannot compare.** -/
theorem verifyMeasuredRaising_declared_iff (hcovers : Covers nodeParams registry) :
    (∃ result, verifyMeasuredRaising comparable mac registry nodeParams requiredStationIds cert =
        .ok result ∧
      Declared mac registry nodeParams requiredStationIds cert result.verdict) ↔
      ¬ MeetsIncomparable comparable mac registry nodeParams requiredStationIds cert := by
  rw [MeetsIncomparable, ← sourcesPass_iff, ← Log.reaches_iff, ← Bool.and_eq_true]
  unfold verifyMeasuredRaising
  split
  · next hmeets => exact iff_of_false (by simp) (not_not.mpr hmeets)
  · next hnot =>
      refine iff_of_true ?_ hnot
      have hverdict : ∃ result,
          verifyMeasuredCertificate mac registry nodeParams requiredStationIds cert = .ok result ∧
            Declared mac registry nodeParams requiredStationIds cert result.verdict :=
        verifyMeasuredCertificate_verdict hcovers
      obtain ⟨result, hok, hdeclared⟩ := hverdict
      exact ⟨result, by rw [hok], hdeclared⟩

/-- In some order of its receipts a certificate meets what it cannot compare, if there is any. -/
theorem exists_perm_meets (hproper : ProperSources requiredStationIds cert.receipts)
    {r : Receipt Id Hash Tag} (hr : r ∈ cert.receipts)
    (hincomparable : incomparable comparable registry r = true) :
    ∃ receipts, cert.receipts.Perm receipts ∧
      MeetsIncomparable comparable mac registry nodeParams requiredStationIds
        { cert with receipts } := by
  obtain ⟨pre, post, hsplit⟩ := List.append_of_mem hr
  have hperm : cert.receipts.Perm (r :: (pre ++ post)) := hsplit ▸ List.perm_middle
  exact ⟨_, hperm, hproper.perm hperm, [], r, pre ++ post, rfl, by simp, hincomparable⟩

end Raise

/-! ## The verdict of a dictionary -/

/-- The verdict on a certificate dictionary that can be read, where all MACs can be compared. -/
def dictVerdict [DecidableEq Hash] (mac : Key → ReceiptBody Id Hash → Tag)
    (registry : Registry Id Key) (nodeParams : Id → Option NodeParams)
    (requiredStationIds : Option (List Id)) (cert : CertificateDict Id Hash Tag) :
    Option (Except (NoNodeParams Id) MeasuredVerdict) :=
  (readCertificate cert).map fun cert =>
    (verifyMeasuredCertificate mac registry nodeParams requiredStationIds cert).map
      MeasuredResult.verdict

/-- The verdict on a certificate dictionary that can be read, or what is raised. -/
def dictOutcome [DecidableEq Hash] (comparable : Tag → Bool)
    (mac : Key → ReceiptBody Id Hash → Tag) (registry : Registry Id Key)
    (nodeParams : Id → Option NodeParams) (requiredStationIds : Option (List Id))
    (cert : CertificateDict Id Hash Tag) : Option (Except (MeasuredError Id) MeasuredVerdict) :=
  (readCertificate cert).map fun cert =>
    (verifyMeasuredRaising comparable mac registry nodeParams requiredStationIds cert).map
      MeasuredResult.verdict

section Outcome

variable [DecidableEq Hash] {comparable : Tag → Bool}

/-- The dictionary gets the verdict that is declared for what is read of it. -/
def GetsDeclared (comparable : Tag → Bool) (mac : Key → ReceiptBody Id Hash → Tag)
    (registry : Registry Id Key) (nodeParams : Id → Option NodeParams)
    (requiredStationIds : Option (List Id)) (dict : CertificateDict Id Hash Tag)
    (read : MeasuredCertificate Id Hash Tag) : Prop :=
  ∃ verdict, dictOutcome comparable mac registry nodeParams requiredStationIds dict =
      some (.ok verdict) ∧
    Declared mac registry nodeParams requiredStationIds read verdict

theorem getsDeclared_iff (hcovers : Covers nodeParams registry)
    {dict : CertificateDict Id Hash Tag} (hread : readCertificate dict = some cert) :
    GetsDeclared comparable mac registry nodeParams requiredStationIds dict cert ↔
      ¬ MeetsIncomparable comparable mac registry nodeParams requiredStationIds cert := by
  rw [← verifyMeasuredRaising_declared_iff hcovers, GetsDeclared, dictOutcome, hread,
    Option.map_some]
  cases verifyMeasuredRaising comparable mac registry nodeParams requiredStationIds cert with
  | error e => simp [Except.map]
  | ok result => simp [Except.map]

/-- With the receipts in another order, the dictionary gets what is declared for the first one unless
this order meets a MAC that cannot be compared: what is declared is the same for all orders. -/
theorem getsDeclared_perm_iff (hcovers : Covers nodeParams registry)
    {dict dict' : CertificateDict Id Hash Tag} (hread : readCertificate dict = some cert)
    {receipts : List (Receipt Id Hash Tag)} (hperm : cert.receipts.Perm receipts)
    (hevent : Dict.get? dict' "event" = some (.event cert.event))
    (hreceipts : Dict.get? dict' "receipts" = some (.receipts receipts))
    (hsame : Dict.get? dict' "fixture_origin" = Dict.get? dict "fixture_origin") :
    GetsDeclared comparable mac registry nodeParams requiredStationIds dict' cert ↔
      ¬ MeetsIncomparable comparable mac registry nodeParams requiredStationIds
        { cert with receipts } := by
  have hread' : readCertificate dict' = some { cert with receipts } := by
    simp only [readCertificate, hevent, hreceipts, (event_of_readCertificate hread).2, readOrigin,
      hsame]
  rw [← getsDeclared_iff hcovers hread']
  apply exists_congr
  intro verdict
  apply and_congr_right
  intro _
  constructor
  · exact Declared.perm rfl rfl hperm.symm
  · exact Declared.perm rfl rfl hperm

omit [DecidableEq Tag] [LinearOrder Id] [DecidableEq Hash] in
/-- The same certificate with other receipts. -/
theorem exists_dict_of_receipts {dict : CertificateDict Id Hash Tag}
    (hread : readCertificate dict = some cert) (receipts : List (Receipt Id Hash Tag)) :
    ∃ dict', Dict.get? dict' "event" = some (.event cert.event) ∧
      Dict.get? dict' "receipts" = some (.receipts receipts) ∧
      Dict.get? dict' "fixture_origin" = Dict.get? dict "fixture_origin" := by
  have hset : ∀ key, Dict.get? (Dict.set dict "receipts" (.receipts receipts)) key =
      if key = "receipts" then some (.receipts receipts) else Dict.get? dict key :=
    fun key => Dict.get?_set
  refine ⟨Dict.set dict "receipts" (.receipts receipts), ?_, ?_, ?_⟩
  · rw [hset, if_neg (by decide), (event_of_readCertificate hread).1]
  · rw [hset, if_pos rfl]
  · rw [hset, if_neg (by decide)]

/-- **When the verifier computes its declared verdict and nothing else.** A readable certificate gets
the verdict declared for it unless the loop comes to a MAC that it cannot compare. It gets it in
every order of its receipts just when there is no such MAC of a known station, or a gate before the
loop refuses the certificate. Fields other than the three that are read have no influence. -/
theorem measured_verdict_iff (hcovers : Covers nodeParams registry)
    {dict : CertificateDict Id Hash Tag} (hread : readCertificate dict = some cert) :
    (GetsDeclared comparable mac registry nodeParams requiredStationIds dict cert ↔
      ¬ MeetsIncomparable comparable mac registry nodeParams requiredStationIds cert) ∧
    ((∀ receipts dict', cert.receipts.Perm receipts →
        Dict.get? dict' "event" = some (.event cert.event) →
        Dict.get? dict' "receipts" = some (.receipts receipts) →
        Dict.get? dict' "fixture_origin" = Dict.get? dict "fixture_origin" →
        GetsDeclared comparable mac registry nodeParams requiredStationIds dict' cert) ↔
      (ProperSources requiredStationIds cert.receipts →
        ∀ r ∈ cert.receipts, incomparable comparable registry r = false)) ∧
    ∀ dict', Dict.get? dict' "event" = Dict.get? dict "event" →
      Dict.get? dict' "receipts" = Dict.get? dict "receipts" →
      Dict.get? dict' "fixture_origin" = Dict.get? dict "fixture_origin" →
      dictOutcome comparable mac registry nodeParams requiredStationIds dict' =
        dictOutcome comparable mac registry nodeParams requiredStationIds dict := by
  refine ⟨getsDeclared_iff hcovers hread, ⟨fun hall hproper r hr => ?_, ?_⟩, ?_⟩
  -- the order in which the loop comes to it first
  · by_contra hincomparable
    rw [Bool.not_eq_false] at hincomparable
    obtain ⟨receipts, hperm, hmeets⟩ := exists_perm_meets hproper hr hincomparable
    obtain ⟨dict', hevent, hreceipts, hsame⟩ := exists_dict_of_receipts hread receipts
    exact (getsDeclared_perm_iff hcovers hread hperm hevent hreceipts hsame).mp
      (hall receipts dict' hperm hevent hreceipts hsame) hmeets
  · intro hnone receipts dict' hperm hevent hreceipts hsame
    rw [getsDeclared_perm_iff hcovers hread hperm hevent hreceipts hsame]
    rintro ⟨hproper, pre, r, post, hsplit, -, hincomparable⟩
    have hr : r ∈ cert.receipts := by
      rw [hperm.mem_iff, show receipts = pre ++ r :: post from hsplit]
      simp
    rw [hnone (hproper.perm hperm.symm) r hr] at hincomparable
    cases hincomparable
  · intro dict' hevent hreceipts hsame
    rw [dictOutcome, dictOutcome, readCertificate_congr hevent hreceipts hsame]

end Outcome

end Declared

def moon : Station Nat Nat where
  stationId := 2
  posNm := ⟨1000, 0, 0⟩
  key := 9

def pairRegistry : Registry Nat Nat := fun sid =>
  if sid = 1 then some earth else if sid = 2 then some moon else none

/-- Signed by a clock that runs behind: 1 ns before the emission. -/
def moonReceipt : Receipt Nat Nat (Nat × ReceiptBody Nat Nat) :=
  moon.signReceipt transparentMac 5 1999

def liveDict (receipts : List (Receipt Nat Nat (Nat × ReceiptBody Nat Nat))) :
    CertificateDict Nat Nat (Nat × ReceiptBody Nat Nat) :=
  [("type", .text "measured_cone_certificate"), ("event", .event hereEvent),
    ("receipts", .receipts receipts), ("fixture_origin", .text "LIVE_CAPTURE")]

def liveCertificate : MeasuredCertificate Nat Nat (Nat × ReceiptBody Nat Nat) where
  event := hereEvent
  receipts := [earthReceipt, moonReceipt]
  fixtureOrigin := .liveCapture

/-- In either order the two receipts get the verdict that is declared for them. -/
theorem measured_verdict_iff_live :
    GetsDeclared (fun _ => true) transparentMac pairRegistry (fun _ => some { uNs := 10 })
      (some [1, 2]) (liveDict [earthReceipt, moonReceipt]) liveCertificate ∧
    GetsDeclared (fun _ => true) transparentMac pairRegistry (fun _ => some { uNs := 10 })
      (some [1, 2]) (liveDict [moonReceipt, earthReceipt]) liveCertificate := by
  have hcovers : Covers (fun _ => some { uNs := 10 }) pairRegistry :=
    fun _ _ _ => ⟨_, rfl⟩
  have hread : readCertificate (liveDict [earthReceipt, moonReceipt]) = some liveCertificate := rfl
  have hall : ∀ receipts, [earthReceipt, moonReceipt].Perm receipts →
      GetsDeclared (fun _ => true) transparentMac pairRegistry (fun _ => some { uNs := 10 })
        (some [1, 2]) (liveDict receipts) liveCertificate := by
    intro receipts hperm
    refine (measured_verdict_iff hcovers hread).2.1.mpr ?_ receipts _ hperm rfl rfl rfl
    intro _ r _
    simp [incomparable]
  exact ⟨hall _ (List.Perm.refl _), hall _ (List.Perm.swap _ _ _)⟩

/-! ### A MAC with an accent -/

/-- `hmac.compare_digest` compares text in ASCII. -/
def isAscii (text : List Char) : Bool := text.all fun c => decide (c.toNat < 128)

/-- A MAC in hexadecimal. -/
def hexMac (key : Nat) (body : ReceiptBody Nat Nat) : List Char :=
  Nat.toDigits 16 (key + 256 * body.recvTimeNs.toNat)

/-- The receipt of a known station, but for its MAC. -/
def accentedReceipt : Receipt Nat Nat (List Char) :=
  { earth.signReceipt hexMac 5 2000 with mac := ['é'] }

def strangerReceipt : Receipt Nat Nat (List Char) := moon.signReceipt hexMac 5 2000

def accentedDict (receipts : List (Receipt Nat Nat (List Char))) :
    CertificateDict Nat Nat (List Char) :=
  [("event", .event hereEvent), ("receipts", .receipts receipts)]

def accentedCertificate : MeasuredCertificate Nat Nat (List Char) where
  event := hereEvent
  receipts := [accentedReceipt, strangerReceipt]

/-- The certificate can be read and is to be rejected. The verifier raises on it, and rejects it when
the receipt of the unknown station comes first. -/
theorem accented_mac_raises :
    Covers (fun _ => some { uNs := 10 }) earthRegistry ∧
    readCertificate (accentedDict [accentedReceipt, strangerReceipt]) = some accentedCertificate ∧
    Rejectable hexMac earthRegistry (fun _ => some { uNs := 10 }) none accentedCertificate ∧
    dictOutcome isAscii hexMac earthRegistry (fun _ => some { uNs := 10 }) none
      (accentedDict [accentedReceipt, strangerReceipt]) = some (.error .compareDigest) ∧
    dictOutcome isAscii hexMac earthRegistry (fun _ => some { uNs := 10 }) none
      (accentedDict [strangerReceipt, accentedReceipt]) = some (.ok .rejected) := by
  refine ⟨fun _ _ _ => ⟨_, rfl⟩, rfl, Or.inr ⟨accentedReceipt, List.mem_cons_self, ?_⟩,
    by decide +kernel, by decide +kernel⟩
  have hknown : earthRegistry accentedReceipt.body.stationId = some earth := rfl
  exact .receiptMac hknown (by decide +kernel)

end HorizonProtocol.Attestation
