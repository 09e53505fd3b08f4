import Mathlib.Data.List.Basic
import Mathlib.Data.UInt

/-!
# Entropy blocks

The byte strings of `horizon/beacon.py`: read from hexadecimal as `bytes.fromhex` reads it, written
as `bytes.hex` writes it, and combined by exclusive or.

* `xorBlocks_spec` — the combination is the exclusive or of all blocks, place by place.
-/

namespace HorizonProtocol.Beacon

/-! ## Hexadecimal -/

/-- The whitespace that may stand before a byte. -/
def isSpace (c : Char) : Bool :=
  c = ' ' || c = '\t' || c = '\n' || c = '\r' || c.toNat = 11 || c.toNat = 12

def hexDigit? (c : Char) : Option Nat :=
  if '0' ≤ c ∧ c ≤ '9' then some (c.toNat - 48)
  else if 'a' ≤ c ∧ c ≤ 'f' then some (c.toNat - 87)
  else if 'A' ≤ c ∧ c ≤ 'F' then some (c.toNat - 55)
  else none

def fromHexChars : List Char → Option (List UInt8)
  | [] => some []
  | [c] => if isSpace c then some [] else none
  | c :: d :: rest =>
      if isSpace c then fromHexChars (d :: rest)
      else
        match hexDigit? c, hexDigit? d with
        | some x, some y => (fromHexChars rest).map fun bytes => UInt8.ofNat (16 * x + y) :: bytes
        | _, _ => none

/-- `bytes.fromhex`; `none` is its `ValueError`. -/
def fromHex (s : String) : Option (List UInt8) := fromHexChars s.toList

def hexDigit (n : Nat) : Char := if n < 10 then Char.ofNat (48 + n) else Char.ofNat (87 + n)

/-- `bytes.hex`. -/
def toHex (bytes : List UInt8) : String :=
  String.ofList (bytes.flatMap fun b => [hexDigit (b.toNat / 16), hexDigit (b.toNat % 16)])

/-! ## Combination -/

/-- What `xor_blocks` raises. -/
inductive XorError where
  /-- `ValueError`, "no blocks to combine". -/
  | noBlocks
  /-- `ValueError`, "block length mismatch". -/
  | lengthMismatch
  deriving DecidableEq

def xorLoop (n : Nat) : List (List UInt8) → List UInt8 → Except XorError (List UInt8)
  | [], out => .ok out
  | blk :: blocks, out =>
      if blk.length ≠ n then .error .lengthMismatch
      else xorLoop n blocks (List.zipWith (fun x y => x ^^^ y) out blk)

def xorBlocks : List (List UInt8) → Except XorError (List UInt8)
  | [] => .error .noBlocks
  | blk :: blocks => xorLoop blk.length (blk :: blocks) (List.replicate blk.length 0)

/-- The exclusive or of the bytes that the blocks have at place `i`. -/
def xorAt (blocks : List (List UInt8)) (i : Nat) : UInt8 :=
  blocks.foldl (fun acc blk => acc ^^^ blk.getD i 0) 0

theorem xorLoop_spec {n : Nat} {blocks : List (List UInt8)} {out v : List UInt8}
    (h : xorLoop n blocks out = .ok v) (hout : out.length = n) :
    v.length = n ∧ (∀ blk ∈ blocks, blk.length = n) ∧
      ∀ i < n, v.getD i 0 = blocks.foldl (fun acc blk => acc ^^^ blk.getD i 0) (out.getD i 0) := by
  induction blocks generalizing out with
  | nil =>
      cases h
      exact ⟨hout, by simp, fun _ _ => rfl⟩
  | cons blk blocks ih =>
      rw [xorLoop] at h
      split at h
      · cases h
      · next hlen =>
          rw [not_not] at hlen
          obtain ⟨hv, hblocks, hat⟩ := ih h (by simp [hout, hlen])
          refine ⟨hv, List.forall_mem_cons.mpr ⟨hlen, hblocks⟩, fun i hi => ?_⟩
          have hstep : (List.zipWith (fun x y => x ^^^ y) out blk).getD i 0 =
              out.getD i 0 ^^^ blk.getD i 0 := by
            simp [List.getD_eq_getElem?_getD, hout, hlen, hi]
          rw [hat i hi, hstep]
          rfl

/-- **The combination is the exclusive or of all blocks, place by place.** -/
theorem xorBlocks_spec {blocks : List (List UInt8)} {v : List UInt8} (h : xorBlocks blocks = .ok v) :
    (∀ blk ∈ blocks, blk.length = v.length) ∧ ∀ i < v.length, v.getD i 0 = xorAt blocks i := by
  cases blocks with
  | nil => cases h
  | cons blk blocks =>
      obtain ⟨hv, hblocks, hat⟩ := xorLoop_spec h List.length_replicate
      rw [hv]
      refine ⟨hblocks, fun i hi => ?_⟩
      have hzero : (List.replicate blk.length (0 : UInt8)).getD i 0 = 0 := by
        simp [List.getD_eq_getElem?_getD, hi]
      rw [hat i hi, hzero]
      rfl

theorem xorLoop_ok_iff {n : Nat} {blocks : List (List UInt8)} (out : List UInt8) :
    (∃ v, xorLoop n blocks out = .ok v) ↔ ∀ blk ∈ blocks, blk.length = n := by
  induction blocks generalizing out with
  | nil => simp [xorLoop]
  | cons blk blocks ih =>
      rw [xorLoop, List.forall_mem_cons]
      split
      · next hlen => exact iff_of_false (by simp) fun h => hlen h.1
      · next hlen => rw [ih, and_iff_right (not_not.mp hlen)]

/-- **Blocks are combined exactly when they are of one length.** -/
theorem xorBlocks_ok_iff {blocks : List (List UInt8)} (hne : blocks ≠ []) :
    (∃ v, xorBlocks blocks = .ok v) ↔ ∃ n, ∀ blk ∈ blocks, blk.length = n := by
  cases blocks with
  | nil => exact absurd rfl hne
  | cons blk blocks =>
      rw [xorBlocks, xorLoop_ok_iff]
      constructor
      · intro h
        exact ⟨blk.length, h⟩
      · rintro ⟨n, hn⟩
        rw [hn blk List.mem_cons_self]
        exact hn

end HorizonProtocol.Beacon
