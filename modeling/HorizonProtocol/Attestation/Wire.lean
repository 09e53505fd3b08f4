import HorizonProtocol.Json

/-!
# Lines between the nodes

`scripts/live_orchestrate.py`, `_send_json_line` and `_recv_json_line`: a message is a JSON text and a
newline, and its reader collects chunks until there is a newline. The network cuts the stream where it
likes, and may lose its end.

* `recvJsonLine_sent` — what the reader makes of a stream that was sent, however it is cut.
-/

namespace HorizonProtocol.Attestation.Wire

open Json (Value canonical dumps)

def newline : UInt8 := 10

/-- Why there is no line. -/
inductive LineFault where
  | closed
  | oversized
  deriving DecidableEq

def maxMessage : Nat := 8000000

/-- The loop of `_recv_json_line`, with what each `recv` returns. When there is no more, the peer has
closed or the time is over. -/
def recvLoop (buf : List UInt8) : List (List UInt8) → Except LineFault (List UInt8)
  | [] => if newline ∈ buf then .ok (buf.takeWhile (· ≠ newline)) else .error .closed
  | chunk :: chunks =>
      if newline ∈ buf then .ok (buf.takeWhile (· ≠ newline))
      else if chunk = [] then .error .closed
      else if maxMessage < (buf ++ chunk).length then .error .oversized
      else recvLoop (buf ++ chunk) chunks

/-- The line that `_recv_json_line` gives to `json.loads`. -/
def recvJsonLine (chunks : List (List UInt8)) : Except LineFault (List UInt8) := recvLoop [] chunks

/-- `.encode("utf-8")`. -/
def encode (t : List Char) : List UInt8 := t.flatMap String.utf8EncodeChar

/-- `_send_json_line`. -/
def sendJsonLine (x : Value) : List UInt8 := encode (dumps .compact x) ++ [newline]

/-! ## One line -/

section Line

variable {l buf rest : List UInt8} {chunks : List (List UInt8)}

/-- The newline comes with the last byte. -/
theorem newline_mem_iff (hl : newline ∉ l) (h : buf ++ rest = l ++ [newline]) :
    newline ∈ buf ↔ rest = [] := by
  constructor
  · intro hmem
    rcases List.append_eq_append_iff.mp h with ⟨a, ha, -⟩ | ⟨b, rfl, hb⟩
    · exact absurd (ha ▸ List.mem_append_left a hmem) hl
    · cases b with
      | nil => exact absurd (by simpa using hmem) hl
      | cons y b =>
          rw [List.cons_append] at hb
          have hnil : b ++ rest = [] := (List.cons.inj hb).2.symm
          exact (List.append_eq_nil_iff.mp hnil).2
  · rintro rfl
    rw [List.append_nil] at h
    simp [h]

theorem takeWhile_line (hl : newline ∉ l) : (l ++ [newline]).takeWhile (· ≠ newline) = l := by
  rw [List.takeWhile_append_of_pos]
  · simp
  · intro y hy
    exact decide_eq_true (ne_of_mem_of_not_mem hy hl)

/-- What has been read is the beginning of the line, and short enough. -/
theorem recvLoop_eq (hl : newline ∉ l) (hne : [] ∉ chunks) (hbuf : buf.length ≤ maxMessage)
    (h : buf ++ chunks.flatten ++ rest = l ++ [newline]) :
    recvLoop buf chunks =
      if maxMessage < (buf ++ chunks.flatten).length then .error .oversized
      else if rest = [] then .ok l
      else .error .closed := by
  induction chunks generalizing buf with
  | nil =>
      rw [List.flatten_nil, List.append_nil] at h ⊢
      rw [recvLoop, if_neg (not_lt.mpr hbuf)]
      by_cases hrest : rest = []
      · rw [if_pos ((newline_mem_iff hl h).mpr hrest), if_pos hrest]
        rw [hrest, List.append_nil] at h
        rw [h, takeWhile_line hl]
      · rw [if_neg fun hmem => hrest ((newline_mem_iff hl h).mp hmem), if_neg hrest]
  | cons chunk chunks ih =>
      rw [List.mem_cons, not_or] at hne
      have hchunk : chunk ≠ [] := fun heq => hne.1 heq.symm
      have hnot : newline ∉ buf := by
        intro hmem
        rw [List.append_assoc] at h
        have hnil := (newline_mem_iff hl h).mp hmem
        simp [hchunk] at hnil
      rw [List.flatten_cons, ← List.append_assoc] at h ⊢
      rw [recvLoop, if_neg hnot, if_neg hchunk]
      by_cases hlong : maxMessage < (buf ++ chunk).length
      · rw [if_pos hlong, if_pos]
        exact hlong.trans_le ((buf ++ chunk).prefix_append chunks.flatten).length_le
      · rw [if_neg hlong, ih hne.2 (not_lt.mp hlong) h]

end Line

/-! ## JSON lines -/

theorem encode_injective : Function.Injective encode := by
  intro t t' heq
  have hbytes : t.utf8Encode = t'.utf8Encode := congrArg List.toByteArray heq
  have hread := congrArg ByteArray.utf8Decode? hbytes
  rw [List.utf8Decode?_utf8Encode, List.utf8Decode?_utf8Encode] at hread
  exact List.toArray_inj (Option.some.inj hread)

theorem newline_notMem_encode {t : List Char} (h : Json.Printable t) : newline ∉ encode t := by
  intro hmem
  obtain ⟨c, hc, hbyte⟩ := List.mem_flatMap.mp hmem
  obtain ⟨hlow, hhigh⟩ := h c hc
  have hlow' : 32 ≤ c.val.toNat := UInt32.le_iff_toNat_le.mp hlow
  have hhigh' : c.val.toNat ≤ 126 := UInt32.le_iff_toNat_le.mp hhigh
  have hsize : c.utf8Size = 1 := by
    rw [Char.utf8Size_eq_one_iff, UInt32.le_iff_toNat_le]
    exact hhigh'.trans (by decide)
  rw [String.utf8EncodeChar_eq_singleton hsize, List.mem_singleton] at hbyte
  have hnat := congrArg UInt8.toNat hbyte
  rw [UInt32.toNat_toUInt8] at hnat
  have hten : newline.toNat = 10 := rfl
  omega

/-- **A line is read whole or not at all**, wherever the network cuts the stream and wherever it
ends. -/
theorem recvJsonLine_sent (x : Value) {chunks : List (List UInt8)} {rest : List UInt8}
    (hne : [] ∉ chunks) (h : chunks.flatten ++ rest = sendJsonLine x) :
    recvJsonLine chunks =
      if maxMessage < chunks.flatten.length then .error .oversized
      else if rest = [] then .ok (encode (dumps .compact x))
      else .error .closed :=
  recvLoop_eq (newline_notMem_encode (Json.printable_dumps .compact x)) hne (Nat.zero_le _) h

/-- The line says what was sent. -/
theorem line_eq_iff {x y : Value} :
    encode (dumps .compact x) = encode (dumps .compact y) ↔ canonical x = canonical y :=
  encode_injective.eq_iff.trans (Json.dumps_eq_iff .compact x y)

end HorizonProtocol.Attestation.Wire
