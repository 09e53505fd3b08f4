import HorizonProtocol.Beacon.HonestBeacon
import HorizonProtocol.Preimages

/-!
# Digests of texts

The MACs and hashes of the program as it computes them, over the texts of its records: `event_hash`
of `horizon/events.py`, `bound_event_hash` of `horizon/capture_verify.py`, and the MACs of
`horizon/stations.py` and `horizon/signed_capture.py`. What is left as a parameter is SHA-256 and
HMAC on texts. Where these do not collide, the digests determine the records.
-/

namespace HorizonProtocol.Digests

open Preimages Attestation
open Json (Value)

/-- A MAC of texts. Its digests have bytes. -/
structure Mac (Key : Type) where
  digest : Key → List Char → List UInt8
  digest_ne : ∀ key text, digest key text ≠ []

variable {Key : Type}

/-- `hmac.new(key, canonical(obj), hashlib.sha256).hexdigest()`. -/
def Mac.hexdigest (mac : Mac Key) (key : Key) (obj : Value) : String :=
  Beacon.toHex (mac.digest key (canonicalText obj))

/-- The MAC of a station receipt. -/
def receiptMac (mac : Mac Key) (key : Key) (body : Attestation.ReceiptBody String String) : String :=
  mac.hexdigest key (receiptBody body)

/-- The MAC of a signed capture. -/
def captureMac (mac : Mac Key) (key : Key) (body : Capture.Body String String String) : String :=
  mac.hexdigest key (captureBody body)

/-- `event_hash`. -/
def eventHash (sha256 : List Char → String) (payload : Value) : String :=
  sha256 (canonicalText payload)

def boundEventHash (sha256 : List Char → String) (claim : Capture.BoundClaim String) : String :=
  sha256 (canonicalText (boundClaim claim))

/-! ## Digests that do not collide -/

/-- No two texts have the same digest, of whatever keys. -/
def Mac.CollisionFree (mac : Mac Key) : Prop :=
  ∀ key key' text text', mac.digest key text = mac.digest key' text' → text = text'

theorem toHex_injective : Function.Injective Beacon.toHex := by
  intro bytes bytes' h
  have hread := congrArg Beacon.fromHex h
  rw [Beacon.fromHex_toHex, Beacon.fromHex_toHex] at hread
  exact Option.some.inj hread

variable {mac : Mac Key} (hmac : mac.CollisionFree)
include hmac

theorem hexdigest_inj {key key' : Key} {x y : Value}
    (h : mac.hexdigest key x = mac.hexdigest key' y) : Json.canonical x = Json.canonical y :=
  canonicalText_eq_iff.mp (hmac _ _ _ _ (toHex_injective h))

theorem receiptMac_inj {key key' : Key} {body body' : Attestation.ReceiptBody String String}
    (h : receiptMac mac key body = receiptMac mac key' body') : body = body' :=
  receiptBody_inj (hexdigest_inj hmac h)

theorem captureMac_inj {key key' : Key} {body body' : Capture.Body String String String}
    (h : captureMac mac key body = captureMac mac key' body') : body = body' :=
  captureBody_inj (hexdigest_inj hmac h)

omit hmac in
theorem boundEventHash_injective {sha256 : List Char → String} (h : Function.Injective sha256) :
    Function.Injective (boundEventHash sha256) :=
  fun _ _ heq => boundClaim_inj (canonicalText_eq_iff.mp (h heq))

end HorizonProtocol.Digests
