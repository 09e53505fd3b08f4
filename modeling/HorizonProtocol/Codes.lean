import Mathlib.Data.List.Basic
import Mathlib.Logic.Function.Basic

/-!
# Readable codes

A code writes things as texts. It is readable when a text that goes on after a thing still says
where the thing ends, provided that what comes next is allowed to come next (`Stop`): numbers are
readable where no digit follows them. Codes that are readable are put together into codes that are.

* `Readable.injective` — a readable code is injective.
* `readableAt_join` — lists of readable things, with separators and an end, are readable.
-/

namespace Codes

variable {α β C : Type*} {Stop Stop' : List C → Prop}

/-- `f a`, followed by what may follow it, is followed by it only. -/
def ReadableAt (f : α → List C) (Stop : List C → Prop) (a : α) : Prop :=
  ∀ b r s, Stop r → Stop s → f a ++ r = f b ++ s → a = b ∧ r = s

def Readable (f : α → List C) (Stop : List C → Prop) : Prop := ∀ a, ReadableAt f Stop a

/-- Anything may follow. -/
def Always (_ : List C) : Prop := True

variable {f : α → List C}

theorem Readable.injective (h : Readable f Stop) (hnil : Stop []) : Function.Injective f := by
  intro a b hab
  apply (h a b [] [] hnil hnil _).1
  rw [hab]

/-- What a reader can take off a text is readable. -/
theorem Readable.of_reader (read : List C → Option (α × List C))
    (h : ∀ a r, Stop r → read (f a ++ r) = some (a, r)) : Readable f Stop := by
  intro a b r s hr hs heq
  have hread := h a r hr
  rw [heq, h b s hs] at hread
  cases hread
  exact ⟨rfl, rfl⟩

/-- One thing after another. -/
theorem ReadableAt.pair {g : β → List C} {a : α} {b : β} (hf : ReadableAt f Stop' a)
    (hg : ReadableAt g Stop b) (hnext : ∀ b r, Stop r → Stop' (g b ++ r)) :
    ReadableAt (fun p : α × β => f p.1 ++ g p.2) Stop (a, b) := by
  rintro ⟨a', b'⟩ r s hr hs heq
  simp only [List.append_assoc] at heq
  obtain ⟨rfl, hrest⟩ := hf a' _ _ (hnext b r hr) (hnext b' s hs) heq
  obtain ⟨rfl, hrs⟩ := hg b' r s hr hs hrest
  exact ⟨rfl, hrs⟩

/-- Texts one after another, which say where each of them ends. -/
theorem Readable.flatMap_injective (h : Readable f Always) (hne : ∀ a, f a ≠ []) :
    Function.Injective fun l : List α => l.flatMap f := by
  intro l
  induction l with
  | nil =>
      intro m heq
      cases m with
      | nil => rfl
      | cons b m => exact absurd (List.append_eq_nil_iff.mp heq.symm).1 (hne b)
  | cons a l ih =>
      intro m heq
      cases m with
      | nil => exact absurd (List.append_eq_nil_iff.mp heq).1 (hne a)
      | cons b m =>
          obtain ⟨rfl, hrest⟩ := h a b (l.flatMap f) (m.flatMap f) trivial trivial heq
          rw [ih hrest]

/-- Reads things to the end of a text, `n` of them at most. -/
def readAll (read : List C → Option (α × List C)) : Nat → List C → Option (List α)
  | _, [] => some []
  | 0, _ :: _ => none
  | n + 1, c :: t => (read (c :: t)).bind fun p => (readAll read n p.2).map (p.1 :: ·)

theorem readAll_flatMap {read : List C → Option (α × List C)}
    (h : ∀ a r, read (f a ++ r) = some (a, r)) (hne : ∀ a, f a ≠ []) {l : List α} {n : Nat}
    (hn : l.length ≤ n) : readAll read n (l.flatMap f) = some l := by
  induction l generalizing n with
  | nil => rw [List.flatMap_nil, readAll]
  | cons a l ih =>
      obtain ⟨c, t, hc⟩ := List.exists_cons_of_ne_nil (hne a)
      cases n with
      | zero => exact absurd hn (Nat.not_succ_le_zero _)
      | succ n =>
          have hread := h a (l.flatMap f)
          rw [hc, List.cons_append] at hread
          rw [List.flatMap_cons, hc, List.cons_append, readAll, hread]
          simp [ih (Nat.le_of_succ_le_succ hn)]

theorem length_le_flatMap (hne : ∀ a, f a ≠ []) (l : List α) :
    l.length ≤ (l.flatMap f).length := by
  induction l with
  | nil => exact Nat.zero_le _
  | cons a l ih =>
      have hpos : 0 < (f a).length := List.length_pos_of_ne_nil (hne a)
      rw [List.length_cons, List.flatMap_cons, List.length_append]
      omega

/-! ## Lists -/

/-- Texts, each after a separator, and an end. -/
def after (sep close : List C) : List (List C) → List C
  | [] => close
  | x :: xs => sep ++ x ++ after sep close xs

/-- Texts with separators between them, and an end. -/
def join (sep close : List C) : List (List C) → List C
  | [] => close
  | x :: xs => x ++ after sep close xs

variable {sep close : List C} {l : List α}

theorem stop_after (hclose : ∀ r, Stop (close ++ r)) (hsep : ∀ r, Stop (sep ++ r))
    (xs : List (List C)) (r : List C) : Stop (after sep close xs ++ r) := by
  cases xs with
  | nil => exact hclose r
  | cons x xs =>
      rw [after, List.append_assoc, List.append_assoc]
      exact hsep _

/-- Things of which each is after a separator. -/
theorem readableAt_after (hf : ∀ a ∈ l, ReadableAt f Stop a) (hclose : ∀ r, Stop (close ++ r))
    (hsep : ∀ r, Stop (sep ++ r)) (hend : ∀ a r s, sep ++ f a ++ r ≠ close ++ s) :
    ReadableAt (fun l => after sep close (l.map f)) Always l := by
  induction l with
  | nil =>
      intro m r s _ _ heq
      cases m with
      | nil => exact ⟨rfl, List.append_cancel_left heq⟩
      | cons b m =>
          simp only [List.map_nil, List.map_cons, after] at heq
          rw [List.append_assoc _ _ s] at heq
          exact absurd heq.symm (hend b _ _)
  | cons a l ih =>
      intro m r s _ _ heq
      cases m with
      | nil =>
          simp only [List.map_nil, List.map_cons, after] at heq
          rw [List.append_assoc _ _ r] at heq
          exact absurd heq (hend a _ _)
      | cons b m =>
          simp only [List.map_cons, after, List.append_assoc] at heq
          obtain ⟨rfl, hrest⟩ := hf a List.mem_cons_self b _ _ (stop_after hclose hsep _ _)
            (stop_after hclose hsep _ _) (List.append_cancel_left heq)
          obtain ⟨rfl, hrs⟩ :=
            ih (fun a ha => hf a (List.mem_cons_of_mem _ ha)) m r s trivial trivial hrest
          exact ⟨rfl, hrs⟩

/-- **Lists of readable things are readable**, when neither a thing nor a separator can be taken for
the end. -/
theorem readableAt_join (hf : ∀ a ∈ l, ReadableAt f Stop a) (hclose : ∀ r, Stop (close ++ r))
    (hsep : ∀ r, Stop (sep ++ r)) (hend : ∀ a r s, sep ++ f a ++ r ≠ close ++ s)
    (hfirst : ∀ a r s, f a ++ r ≠ close ++ s) :
    ReadableAt (fun l => join sep close (l.map f)) Always l := by
  intro m r s _ _ heq
  cases l with
  | nil =>
      cases m with
      | nil => exact ⟨rfl, List.append_cancel_left heq⟩
      | cons b m =>
          simp only [List.map_nil, List.map_cons, join] at heq
          rw [List.append_assoc _ _ s] at heq
          exact absurd heq.symm (hfirst b _ _)
  | cons a l =>
      cases m with
      | nil =>
          simp only [List.map_nil, List.map_cons, join] at heq
          rw [List.append_assoc _ _ r] at heq
          exact absurd heq (hfirst a _ _)
      | cons b m =>
          simp only [List.map_cons, join, List.append_assoc] at heq
          obtain ⟨rfl, hrest⟩ := hf a List.mem_cons_self b _ _ (stop_after hclose hsep _ _)
            (stop_after hclose hsep _ _) heq
          obtain ⟨rfl, hrs⟩ := readableAt_after (fun a ha => hf a (List.mem_cons_of_mem _ ha))
            hclose hsep hend m r s trivial trivial hrest
          exact ⟨rfl, hrs⟩

/-! ## Decimal numbers -/

/-- No digit comes next. -/
def NoDigit (r : List Char) : Prop := ∀ c s, r = c :: s → c.isDigit = false

theorem readable_digits : Readable (Nat.toDigits 10) NoDigit := by
  apply Readable.of_reader fun t =>
    some (Nat.ofDigitChars 10 (t.takeWhile Char.isDigit) 0, t.dropWhile Char.isDigit)
  intro n r hr
  have hdigits : ∀ c ∈ Nat.toDigits 10 n, c.isDigit = true :=
    fun c hc => Nat.isDigit_of_mem_toDigits (by decide) (by decide) hc
  have hrest : r.takeWhile Char.isDigit = [] ∧ r.dropWhile Char.isDigit = r := by
    cases r with
    | nil => exact ⟨rfl, rfl⟩
    | cons c s =>
        have hc := hr c s rfl
        exact ⟨List.takeWhile_cons_of_neg (by simp [hc]), List.dropWhile_cons_of_neg (by simp [hc])⟩
  rw [List.takeWhile_append_of_pos hdigits, List.dropWhile_append_of_pos hdigits, hrest.1, hrest.2,
    List.append_nil, Nat.ofDigitChars_ten_toDigits]

theorem head_digits (n : Nat) : ∃ c s, Nat.toDigits 10 n = c :: s ∧ c.isDigit = true := by
  cases h : Nat.toDigits 10 n with
  | nil => exact absurd h Nat.toDigits_ne_nil
  | cons c s =>
      refine ⟨c, s, rfl, Nat.isDigit_of_mem_toDigits (b := 10) (n := n) (by decide) (by decide) ?_⟩
      rw [h]
      exact List.mem_cons_self

/-- A whole number in decimal notation. -/
def decimal : Int → List Char
  | .ofNat n => Nat.toDigits 10 n
  | .negSucc n => '-' :: Nat.toDigits 10 (n + 1)

theorem readable_decimal : Readable decimal NoDigit := by
  rintro (m | m) (n | n) r s hr hs heq
  · obtain ⟨rfl, hrs⟩ := readable_digits m n r s hr hs heq
    exact ⟨rfl, hrs⟩
  · obtain ⟨c, t, hc, hdigit⟩ := head_digits m
    rw [decimal, decimal, hc] at heq
    rw [(List.cons.inj heq).1] at hdigit
    cases hdigit
  · obtain ⟨c, t, hc, hdigit⟩ := head_digits n
    rw [decimal, decimal, hc] at heq
    rw [← (List.cons.inj heq).1] at hdigit
    cases hdigit
  · obtain ⟨heq, hrs⟩ := readable_digits (m + 1) (n + 1) r s hr hs (List.cons.inj heq).2
    exact ⟨by rw [Nat.succ.inj heq], hrs⟩

theorem head_decimal (i : Int) : ∃ c s, decimal i = c :: s ∧ (c = '-' ∨ c.isDigit = true) := by
  cases i with
  | ofNat n =>
      obtain ⟨c, s, h, hc⟩ := head_digits n
      exact ⟨c, s, h, Or.inr hc⟩
  | negSucc n => exact ⟨'-', _, rfl, Or.inl rfl⟩

end Codes
