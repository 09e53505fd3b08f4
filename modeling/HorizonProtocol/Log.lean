import Mathlib.Data.List.Basic

/-!
# Logs

A log grows at its end. Each of its entries splits it into what came before and what came after.

* `concat_eq_split_iff` — the entries of a log with one more: the new one, after all the others, and
  the old ones, with the new one after them.
* `getElem?_concat_eq_some_iff` — the same, by position.
* `reaches_iff` — what a loop over a log comes to, which goes on only after what is good.
-/

namespace Log

variable {α : Type*} {log pre post : List α} {new e : α}

theorem concat_eq_split_iff :
    log ++ [new] = pre ++ e :: post ↔
      (pre = log ∧ e = new ∧ post = []) ∨
        ∃ post', log = pre ++ e :: post' ∧ post = post' ++ [new] := by
  constructor
  · intro h
    rcases List.eq_nil_or_concat post with rfl | ⟨post', last, rfl⟩
    · obtain ⟨rfl, rfl⟩ := List.append_singleton_inj.mp h
      exact Or.inl ⟨rfl, rfl, rfl⟩
    · rw [List.concat_eq_append, ← List.cons_append, ← List.append_assoc] at h
      obtain ⟨rfl, rfl⟩ := List.append_singleton_inj.mp h
      exact Or.inr ⟨post', rfl, List.concat_eq_append⟩
  · rintro (⟨rfl, rfl, rfl⟩ | ⟨post', rfl, rfl⟩)
    · rfl
    · rw [List.append_assoc, List.cons_append]

theorem getElem?_concat_eq_some_iff {i : Nat} :
    (log ++ [new])[i]? = some e ↔ log[i]? = some e ∨ (i = log.length ∧ e = new) := by
  rcases Nat.lt_trichotomy i log.length with hlt | rfl | hgt
  · rw [List.getElem?_append_left hlt, or_iff_left]
    exact fun h => Nat.ne_of_lt hlt h.1
  · rw [List.getElem?_concat_length, List.getElem?_eq_none (Nat.le_refl _), Option.some.injEq]
    simp [eq_comm]
  · rw [List.getElem?_eq_none (by simpa using Nat.succ_le_of_lt hgt),
      List.getElem?_eq_none (Nat.le_of_lt hgt), or_iff_right nofun]
    simp [Nat.ne_of_gt hgt]

/-- What is in a log is at a position before its end. -/
theorem lt_length_of_getElem? {i : Nat} (h : log[i]? = some e) : i < log.length :=
  (List.getElem?_eq_some_iff.mp h).1

/-! ## Loops that stop -/

/-- A loop that goes on after what is good comes to something bad. -/
def reaches (bad good : α → Bool) : List α → Bool
  | [] => false
  | x :: xs => bad x || (good x && reaches bad good xs)

theorem reaches_iff {bad good : α → Bool} :
    reaches bad good log = true ↔
      ∃ pre x post, log = pre ++ x :: post ∧ (∀ y ∈ pre, good y = true) ∧ bad x = true := by
  induction log with
  | nil => simp [reaches]
  | cons z zs ih =>
      rw [reaches, Bool.or_eq_true, Bool.and_eq_true, ih]
      constructor
      · rintro (hbad | ⟨hgood, pre, x, post, rfl, hpre, hbad⟩)
        · exact ⟨[], z, zs, rfl, by simp, hbad⟩
        · exact ⟨z :: pre, x, post, rfl, List.forall_mem_cons.mpr ⟨hgood, hpre⟩, hbad⟩
      · rintro ⟨pre, x, post, heq, hpre, hbad⟩
        cases pre with
        | nil =>
            cases heq
            exact Or.inl hbad
        | cons y pre =>
            cases heq
            rw [List.forall_mem_cons] at hpre
            exact Or.inr ⟨hpre.1, pre, x, post, rfl, hpre.2, hbad⟩

end Log
