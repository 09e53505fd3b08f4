import HorizonProtocol.Codes
import HorizonProtocol.Dict
import Mathlib.Data.List.Sort
import Mathlib.Data.List.Lex

/-!
# JSON texts

`json.dumps` of Python with `sort_keys=True`, with or without blanks after its separators. Strings
are sequences of code points, surrogates included, and all that is not printable ASCII is escaped by
UTF-16 units. A floating-point number is the text that `float.__repr__` gives of it, which has a point
or an exponent; `NaN` and the infinities are left out.

The argument goes in two halves. What a text leaves of a value is its `canonical` form, and a text of it
is read back from left to right: the first character says of what kind the value is, and its end is
known without looking at what follows, but for numbers, which end where no character of a number
comes (`readableAt_text`).

* `dumps_eq_iff` — a text determines the value, up to the order of the entries of its dictionaries
  and to surrogates that stand for one code point.
* `field?_record` — and so all entries of a dictionary.
* `printable_dumps` — a text is one line.
-/

namespace Json

open Codes

/-! ## Strings -/

abbrev CodePoint := Fin 0x110000

/-- A unit of UTF-16. -/
abbrev CodeUnit := Fin 0x10000

abbrev Str := List CodePoint

/-- A code point above the sixteen bits is a pair of surrogates. -/
def units (c : CodePoint) : List CodeUnit :=
  if h : c.val < 0x10000 then [⟨c, h⟩]
  else
    let n := c.val - 0x10000
    [Fin.ofNat _ (0xd800 + n / 0x400), Fin.ofNat _ (0xdc00 + n % 0x400)]

def utf16 (s : Str) : List CodeUnit := s.flatMap units

/-- `'\\u{0:04x}'.format(n)`. -/
def hex4 (n : Nat) : List Char :=
  ['\\', 'u', Nat.digitChar (n / 0x1000 % 16), Nat.digitChar (n / 0x100 % 16),
    Nat.digitChar (n / 0x10 % 16), Nat.digitChar (n % 16)]

/-- The escape of a character, or of half of one. -/
def escapeUnit (u : CodeUnit) : List Char :=
  if u.val = 0x22 then ['\\', '"']
  else if u.val = 0x5c then ['\\', '\\']
  else if u.val = 0x08 then ['\\', 'b']
  else if u.val = 0x0c then ['\\', 'f']
  else if u.val = 0x0a then ['\\', 'n']
  else if u.val = 0x0d then ['\\', 'r']
  else if u.val = 0x09 then ['\\', 't']
  else if 0x20 ≤ u.val ∧ u.val ≤ 0x7e then [Char.ofNat u]
  else hex4 u

/-- `py_encode_basestring_ascii`. -/
def escape (s : Str) : List Char := '"' :: s.flatMap (fun c => (units c).flatMap escapeUnit) ++ ['"']

/-! ## Values -/

/-- The characters of numbers. -/
def isNumberChar (c : Char) : Bool := c.isDigit || c == '-' || c == '+' || c == '.' || c == 'e'

/-- The texts of floating-point numbers, and of no whole number. -/
def isFloatText (t : List Char) : Bool :=
  t.all isNumberChar && t.any (fun c => c == '.' || c == 'e') &&
    match t with
    | [] => false
    | c :: _ => c == '-' || c.isDigit

abbrev FloatText := { t : List Char // isFloatText t = true }

inductive Value where
  | null
  | bool (b : Bool)
  | int (i : Int)
  | float (t : FloatText)
  | str (s : Str)
  | arr (xs : List Value)
  /-- A dictionary, in the order of insertion. -/
  | obj (ms : List (Str × Value))

/-- The separators: `(",", ":")`, or the default `(", ", ": ")`. -/
inductive Layout where
  | compact
  | spaced

namespace Layout

def item : Layout → List Char
  | compact => [',']
  | spaced => [',', ' ']

def key : Layout → List Char
  | compact => [':']
  | spaced => [':', ' ']

end Layout

/-- `sorted(dct.items())`. -/
def sortKeys {β : Type*} (ms : List (Str × β)) : List (Str × β) :=
  ms.insertionSort fun m m' => m.1 ≤ m'.1

/-- `true` or `false`. -/
def literal : Bool → List Char
  | true => ['t', 'r', 'u', 'e']
  | false => ['f', 'a', 'l', 's', 'e']

mutual

def dumps (w : Layout) : Value → List Char
  | .null => ['n', 'u', 'l', 'l']
  | .bool b => literal b
  | .int i => decimal i
  | .float t => t.val
  | .str s => escape s
  | .arr xs => '[' :: join w.item [']'] (dumpsItems w xs)
  | .obj ms =>
      '{' :: join w.item ['}']
        ((sortKeys (dumpsMembers w ms)).map fun m => escape m.1 ++ w.key ++ m.2)

def dumpsItems (w : Layout) : List Value → List (List Char)
  | [] => []
  | x :: xs => dumps w x :: dumpsItems w xs

def dumpsMembers (w : Layout) : List (Str × Value) → List (Str × List Char)
  | [] => []
  | (k, v) :: ms => (k, dumps w v) :: dumpsMembers w ms

end

/-! ## What a text says -/

/-- A value as a text has it: the entries of dictionaries in order, and strings in UTF-16. -/
inductive Canonical where
  | null
  | bool (b : Bool)
  | int (i : Int)
  | float (t : FloatText)
  | str (s : List CodeUnit)
  | arr (xs : List Canonical)
  | obj (ms : List (List CodeUnit × Canonical))

mutual

def canonical : Value → Canonical
  | .null => .null
  | .bool b => .bool b
  | .int i => .int i
  | .float t => .float t
  | .str s => .str (utf16 s)
  | .arr xs => .arr (canonicalItems xs)
  | .obj ms => .obj ((sortKeys (canonicalMembers ms)).map fun m => (utf16 m.1, m.2))

def canonicalItems : List Value → List Canonical
  | [] => []
  | x :: xs => canonical x :: canonicalItems xs

def canonicalMembers : List (Str × Value) → List (Str × Canonical)
  | [] => []
  | (k, v) :: ms => (k, canonical v) :: canonicalMembers ms

end

def quote (s : List CodeUnit) : List Char := '"' :: after [] ['"'] (s.map escapeUnit)

mutual

def text (w : Layout) : Canonical → List Char
  | .null => ['n', 'u', 'l', 'l']
  | .bool b => literal b
  | .int i => decimal i
  | .float t => t.val
  | .str s => quote s
  | .arr xs => '[' :: join w.item [']'] (textItems w xs)
  | .obj ms => '{' :: join w.item ['}'] (textMembers w ms)

def textItems (w : Layout) : List Canonical → List (List Char)
  | [] => []
  | x :: xs => text w x :: textItems w xs

def textMembers (w : Layout) : List (List CodeUnit × Canonical) → List (List Char)
  | [] => []
  | (k, v) :: ms => (quote k ++ w.key ++ text w v) :: textMembers w ms

end

theorem textItems_eq (w : Layout) (xs : List Canonical) : textItems w xs = xs.map (text w) := by
  induction xs with
  | nil => rfl
  | cons x xs ih => rw [textItems, ih, List.map_cons]

/-- The text of an entry. -/
def member (w : Layout) (m : List CodeUnit × Canonical) : List Char :=
  quote m.1 ++ w.key ++ text w m.2

theorem textMembers_eq (w : Layout) (ms : List (List CodeUnit × Canonical)) :
    textMembers w ms = ms.map (member w) := by
  induction ms with
  | nil => rfl
  | cons m ms ih =>
      rw [textMembers, ih, List.map_cons]
      rfl

/-! ## Strings are readable -/

def hexValue (c : Char) : Nat := if c.isDigit then c.toNat - 48 else c.toNat - 87

/-- A digit is read as it was written. -/
theorem hexValue_digitChar : ∀ d < 16, hexValue (Nat.digitChar d) = d := by decide

/-- No surrogate is among these. -/
theorem toNat_ofNat {n : Nat} (h : n < 0xd800) : (Char.ofNat n).toNat = n := by
  have hvalid : n.isValidChar := Or.inl h
  rw [Char.ofNat, dif_pos hvalid]
  rfl

/-- Reads on after a backslash. -/
def readEscape : List Char → Option (CodeUnit × List Char)
  | 'u' :: a :: b :: c :: d :: r =>
      some (Fin.ofNat _ (((hexValue a * 16 + hexValue b) * 16 + hexValue c) * 16 + hexValue d), r)
  | '"' :: r => some (0x22, r)
  | '\\' :: r => some (0x5c, r)
  | 'b' :: r => some (0x08, r)
  | 'f' :: r => some (0x0c, r)
  | 'n' :: r => some (0x0a, r)
  | 'r' :: r => some (0x0d, r)
  | 't' :: r => some (0x09, r)
  | _ => none

/-- Reads the escape of a unit. -/
def readUnit : List Char → Option (CodeUnit × List Char)
  | [] => none
  | c :: r => if c = '\\' then readEscape r else some (Fin.ofNat _ c.toNat, r)

/-- Four digits are sixteen bits, and no bit is lost. -/
theorem readEscape_hex4 (u : CodeUnit) (r : List Char) :
    readUnit (hex4 u.val ++ r) = some (u, r) := by
  have hu := u.isLt
  simp only [hex4, List.cons_append, List.nil_append, readUnit, if_true, readEscape]
  rw [hexValue_digitChar _ (by omega), hexValue_digitChar _ (by omega),
    hexValue_digitChar _ (by omega), hexValue_digitChar _ (by omega)]
  congr 2
  apply Fin.ext
  rw [Fin.val_ofNat]
  omega

/-- An escape is read as the unit it stands for, whatever follows it. One case for each branch of
`escapeUnit`; a printable unit is no backslash, so it is not taken for an escape. -/
theorem readUnit_escapeUnit (u : CodeUnit) (r : List Char) :
    readUnit (escapeUnit u ++ r) = some (u, r) := by
  have hconst : ∀ n : CodeUnit, u.val = n.val → n = u := fun n h => Fin.ext h.symm
  unfold escapeUnit
  split
  · next h => rw [← hconst 0x22 h]; rfl
  split
  · next h => rw [← hconst 0x5c h]; rfl
  split
  · next h => rw [← hconst 0x08 h]; rfl
  split
  · next h => rw [← hconst 0x0c h]; rfl
  split
  · next h => rw [← hconst 0x0a h]; rfl
  split
  · next h => rw [← hconst 0x0d h]; rfl
  split
  · next h => rw [← hconst 0x09 h]; rfl
  split
  · next hslash _ _ _ _ _ h =>
      have hchar : (Char.ofNat u.val).toNat = u.val := toNat_ofNat (by omega)
      have hne : Char.ofNat u.val ≠ '\\' := by
        intro heq
        rw [heq] at hchar
        exact hslash hchar.symm
      simp only [List.cons_append, List.nil_append, readUnit, if_neg hne, hchar]
      congr 2
      exact Fin.ext (Nat.mod_eq_of_lt u.isLt)
  · exact readEscape_hex4 u r

theorem readable_escapeUnit : Readable escapeUnit Always :=
  .of_reader readUnit fun u r _ => readUnit_escapeUnit u r

/-- No escape begins with a quotation mark. -/
theorem head_escapeUnit (u : CodeUnit) : ∃ c r, escapeUnit u = c :: r ∧ c ≠ '"' := by
  unfold escapeUnit hex4
  split_ifs with _ _ _ _ _ _ _ h
  all_goals try exact ⟨'\\', _, rfl, by decide⟩
  refine ⟨Char.ofNat u.val, [], rfl, fun heq => ?_⟩
  have hchar : (Char.ofNat u.val).toNat = u.val := toNat_ofNat (by omega)
  rw [heq] at hchar
  have hquote : '"'.toNat = 0x22 := rfl
  omega

/-- A string ends at its quotation mark, since none is within. -/
theorem readable_quote : Readable quote Always := by
  intro s t r r' _ _ heq
  refine readableAt_after (fun u _ => readable_escapeUnit u) (fun _ => trivial) (fun _ => trivial)
    (fun u r r' => ?_) t r r' trivial trivial (List.cons.inj heq).2
  obtain ⟨c, x, hc, hne⟩ := head_escapeUnit u
  rw [hc]
  exact fun heq => hne (List.cons.inj heq).1

/-- The text of a string is that of its units. -/
theorem escape_eq (s : Str) : escape s = quote (utf16 s) := by
  have hafter : ∀ us : List CodeUnit,
      after [] ['"'] (us.map escapeUnit) = us.flatMap escapeUnit ++ ['"'] := by
    intro us
    induction us with
    | nil => rfl
    | cons u us ih =>
        rw [List.map_cons, after, ih, List.flatMap_cons, List.nil_append, List.append_assoc]
  rw [quote, hafter, utf16, List.flatMap_assoc]
  rfl

/-! ## Numbers are readable -/

/-- No character of a number comes next. -/
def NoNumber (r : List Char) : Prop := ∀ c s, r = c :: s → isNumberChar c = false

theorem noNumber_nil : NoNumber [] := fun _ _ h => by cases h

theorem noNumber_cons {c : Char} (h : isNumberChar c = false) (r : List Char) :
    NoNumber (c :: r) := by
  intro c' s heq
  cases heq
  exact h

theorem NoNumber.noDigit {r : List Char} (h : NoNumber r) : NoDigit r := by
  intro c s heq
  have hc := h c s heq
  simp only [isNumberChar, Bool.or_eq_false_iff] at hc
  exact hc.1.1.1.1

/-- A text of such characters ends where they end. -/
theorem number_split {t t' r r' : List Char} (ht : ∀ c ∈ t, isNumberChar c = true)
    (ht' : ∀ c ∈ t', isNumberChar c = true) (hr : NoNumber r) (hr' : NoNumber r')
    (h : t ++ r = t' ++ r') : t = t' ∧ r = r' := by
  have htake : ∀ {t r : List Char}, (∀ c ∈ t, isNumberChar c = true) → NoNumber r →
      (t ++ r).takeWhile isNumberChar = t := by
    intro t r ht hr
    rw [List.takeWhile_append_of_pos ht]
    cases r with
    | nil => exact List.append_nil t
    | cons c s => rw [List.takeWhile_cons_of_neg (by simp [hr c s rfl]), List.append_nil]
  have heq : t = t' := by rw [← htake ht hr, h, htake ht' hr']
  subst heq
  exact ⟨rfl, List.append_cancel_left h⟩

theorem isNumberChar_of_mem (t : FloatText) : ∀ c ∈ t.val, isNumberChar c = true := by
  have h := t.property
  simp only [isFloatText, Bool.and_eq_true, List.all_eq_true] at h
  exact h.1.1

/-- A whole number has digits, and a sign at most. -/
theorem decimal_digits (i : Int) : ∀ c ∈ decimal i, c = '-' ∨ c.isDigit = true := by
  have hdigits : ∀ n, ∀ c ∈ Nat.toDigits 10 n, c.isDigit = true :=
    fun n c hc => Nat.isDigit_of_mem_toDigits (by decide) (by decide) hc
  cases i with
  | ofNat n => exact fun c hc => Or.inr (hdigits n c hc)
  | negSucc n =>
      intro c hc
      rcases List.mem_cons.mp hc with rfl | hc
      · exact Or.inl rfl
      · exact Or.inr (hdigits _ c hc)

theorem isNumberChar_of_mem_decimal (i : Int) : ∀ c ∈ decimal i, isNumberChar c = true := by
  intro c hc
  rcases decimal_digits i c hc with rfl | hdigit
  · rfl
  · simp [isNumberChar, hdigit]

/-- No whole number has the text of a floating-point number. -/
theorem decimal_ne_float (i : Int) (t : FloatText) : decimal i ≠ t.val := by
  intro heq
  have h := t.property
  simp only [isFloatText, Bool.and_eq_true, List.any_eq_true, Bool.or_eq_true, beq_iff_eq] at h
  obtain ⟨c, hc, hmark⟩ := h.1.2
  rw [← heq] at hc
  rcases hmark with rfl | rfl
  · simpa using decimal_digits i _ hc
  · simpa using decimal_digits i _ hc

theorem head_float (t : FloatText) : ∃ c s, t.val = c :: s ∧ (c = '-' ∨ c.isDigit = true) := by
  have h := t.property
  obtain ⟨chars, hchars⟩ := t
  cases chars with
  | nil => cases hchars
  | cons c s =>
      simp only [isFloatText, Bool.and_eq_true, Bool.or_eq_true, beq_iff_eq] at h
      exact ⟨c, s, rfl, h.2⟩

/-! ## Values are readable -/

/-- What a first character tells of a value. -/
inductive Kind where
  | null
  | bool (b : Bool)
  | number
  | str
  | arr
  | obj
  deriving DecidableEq

def kindOf (c : Char) : Option Kind :=
  if c = 'n' then some .null
  else if c = 't' then some (.bool true)
  else if c = 'f' then some (.bool false)
  else if c = '"' then some .str
  else if c = '[' then some .arr
  else if c = '{' then some .obj
  else if c = '-' ∨ c.isDigit then some .number
  else none

def Canonical.kind : Canonical → Kind
  | .null => .null
  | .bool b => .bool b
  | .int _ => .number
  | .float _ => .number
  | .str _ => .str
  | .arr _ => .arr
  | .obj _ => .obj

theorem kindOf_number {c : Char} (h : c = '-' ∨ c.isDigit = true) : kindOf c = some .number := by
  have hne : ∀ d : Char, d ≠ '-' → d.isDigit = false → c ≠ d := by
    rintro d hd hdigit rfl
    rcases h with h | h
    · exact hd h
    · rw [h] at hdigit
      cases hdigit
  rw [kindOf, if_neg (hne 'n' (by decide) (by decide)), if_neg (hne 't' (by decide) (by decide)),
    if_neg (hne 'f' (by decide) (by decide)), if_neg (hne '"' (by decide) (by decide)),
    if_neg (hne '[' (by decide) (by decide)), if_neg (hne '{' (by decide) (by decide)), if_pos h]

/-- The first character of a text tells its kind. -/
theorem head_text (w : Layout) (x : Canonical) :
    ∃ c r, text w x = c :: r ∧ kindOf c = some x.kind := by
  cases x with
  | null => exact ⟨'n', _, by rw [text], rfl⟩
  | bool b => cases b <;> exact ⟨_, _, by rw [text]; rfl, rfl⟩
  | int i =>
      obtain ⟨c, r, hc, hdigit⟩ := head_decimal i
      exact ⟨c, r, by rw [text, hc], kindOf_number hdigit⟩
  | float t =>
      obtain ⟨c, r, hc, hdigit⟩ := head_float t
      exact ⟨c, r, by rw [text, hc], kindOf_number hdigit⟩
  | str s => exact ⟨'"', _, by rw [text]; rfl, rfl⟩
  | arr xs => exact ⟨'[', _, by rw [text], rfl⟩
  | obj ms => exact ⟨'\x7b', _, by rw [text], rfl⟩

section Readable

variable {w : Layout}

theorem noNumber_item (w : Layout) (r : List Char) : NoNumber (w.item ++ r) := by
  cases w <;> exact noNumber_cons rfl _

/-- A value does not begin as an end or a separator does. -/
theorem text_ne {c : Char} (hc : kindOf c = none) (x : Canonical) (r r' : List Char) :
    text w x ++ r ≠ c :: r' := by
  obtain ⟨d, t, hd, hkind⟩ := head_text w x
  rw [hd]
  intro heq
  rw [(List.cons.inj heq).1, hc] at hkind
  cases hkind

theorem item_ne {c : Char} (hc : c ≠ ',') (t r r' : List Char) : w.item ++ t ++ r ≠ c :: r' := by
  cases w <;> exact fun heq => hc (List.cons.inj heq).1.symm

theorem readableAt_arr {xs : List Canonical} (h : ∀ x ∈ xs, ReadableAt (text w) NoNumber x) :
    ReadableAt (fun xs => join w.item [']'] (textItems w xs)) Always xs := by
  simp only [textItems_eq]
  exact readableAt_join h (noNumber_cons rfl) (noNumber_item w)
    (fun x r r' => item_ne (by decide) _ r r') (fun x r r' => text_ne rfl x r r')

theorem readableAt_member {m : List CodeUnit × Canonical} (h : ReadableAt (text w) NoNumber m.2) :
    ReadableAt (member w) NoNumber m := by
  have hkey : Readable (fun k => quote k ++ w.key) Always := by
    intro k k' r r' _ _ heq
    simp only [List.append_assoc] at heq
    obtain ⟨rfl, hrest⟩ := readable_quote k k' _ _ trivial trivial heq
    exact ⟨rfl, List.append_cancel_left hrest⟩
  exact (hkey m.1).pair h fun _ _ _ => trivial

theorem member_ne (m : List CodeUnit × Canonical) (r r' : List Char) :
    member w m ++ r ≠ '}' :: r' := by
  intro heq
  cases (List.cons.inj heq).1

theorem readableAt_obj {ms : List (List CodeUnit × Canonical)}
    (h : ∀ m ∈ ms, ReadableAt (text w) NoNumber m.2) :
    ReadableAt (fun ms => join w.item ['}'] (textMembers w ms)) Always ms := by
  simp only [textMembers_eq]
  exact readableAt_join (fun m hm => readableAt_member (h m hm)) (noNumber_cons rfl)
    (noNumber_item w) (fun m r r' => item_ne (by decide) _ r r') member_ne

/-- A value is readable when, among the values that begin as it does, it is. -/
theorem readableAt_of_kind {x : Canonical}
    (h : ∀ y r r', y.kind = x.kind → NoNumber r → NoNumber r' → text w x ++ r = text w y ++ r' →
      x = y ∧ r = r') : ReadableAt (text w) NoNumber x := by
  intro y r r' hr hr' heq
  obtain ⟨c, t, hc, hkind⟩ := head_text w x
  obtain ⟨d, t', hd, hkind'⟩ := head_text w y
  have hcd : c = d := by
    rw [hc, hd] at heq
    exact (List.cons.inj heq).1
  rw [hcd, hkind', Option.some.injEq] at hkind
  exact h y r r' hkind hr hr' heq

mutual

/-- By induction on the value. Of two texts that agree, the kinds agree; numbers and strings are
readable, and lists and dictionaries are when their items are. -/
theorem readableAt_text (w : Layout) : ∀ x, ReadableAt (text w) NoNumber x
  | .null => readableAt_of_kind fun y r r' hkind _ _ heq => by
      cases y <;> cases hkind
      exact ⟨rfl, List.append_cancel_left heq⟩
  | .bool b => readableAt_of_kind fun y r r' hkind _ _ heq => by
      cases y <;> cases hkind
      exact ⟨rfl, List.append_cancel_left heq⟩
  | .int i => readableAt_of_kind fun y r r' hkind hr hr' heq => by
      cases y <;> cases hkind
      next j =>
        simp only [text] at heq
        obtain ⟨rfl, hrest⟩ := readable_decimal i j r r' hr.noDigit hr'.noDigit heq
        exact ⟨rfl, hrest⟩
      next t =>
        simp only [text] at heq
        exact absurd (number_split (isNumberChar_of_mem_decimal i) (isNumberChar_of_mem t) hr hr'
          heq).1 (decimal_ne_float i t)
  | .float t => readableAt_of_kind fun y r r' hkind hr hr' heq => by
      cases y <;> cases hkind
      next j =>
        simp only [text] at heq
        exact absurd (number_split (isNumberChar_of_mem t) (isNumberChar_of_mem_decimal j) hr hr'
          heq).1.symm (decimal_ne_float j t)
      next t' =>
        simp only [text] at heq
        obtain ⟨ht, hrest⟩ := number_split (isNumberChar_of_mem t) (isNumberChar_of_mem t') hr hr' heq
        exact ⟨congrArg _ (Subtype.ext ht), hrest⟩
  | .str s => readableAt_of_kind fun y r r' hkind _ _ heq => by
      cases y <;> cases hkind
      next t =>
        simp only [text] at heq
        obtain ⟨rfl, hrest⟩ := readable_quote s t r r' trivial trivial heq
        exact ⟨rfl, hrest⟩
  | .arr xs => readableAt_of_kind fun y r r' hkind _ _ heq => by
      cases y <;> cases hkind
      next ys =>
        simp only [text] at heq
        obtain ⟨rfl, hrest⟩ := readableAt_arr (readableAt_items w xs) ys r r' trivial trivial
          (List.cons.inj heq).2
        exact ⟨rfl, hrest⟩
  | .obj ms => readableAt_of_kind fun y r r' hkind _ _ heq => by
      cases y <;> cases hkind
      next ns =>
        simp only [text] at heq
        obtain ⟨rfl, hrest⟩ := readableAt_obj (readableAt_members w ms) ns r r' trivial trivial
          (List.cons.inj heq).2
        exact ⟨rfl, hrest⟩

theorem readableAt_items (w : Layout) :
    ∀ (xs : List Canonical), ∀ x ∈ xs, ReadableAt (text w) NoNumber x
  | [] => List.forall_mem_nil _
  | x :: xs => List.forall_mem_cons.mpr ⟨readableAt_text w x, readableAt_items w xs⟩

theorem readableAt_members (w : Layout) :
    ∀ (ms : List (List CodeUnit × Canonical)), ∀ m ∈ ms, ReadableAt (text w) NoNumber m.2
  | [] => List.forall_mem_nil _
  | (_, x) :: ms => List.forall_mem_cons.mpr ⟨readableAt_text w x, readableAt_members w ms⟩

end

/-- Nothing follows the text of a whole value. -/
theorem text_injective (w : Layout) : Function.Injective (text w) :=
  Readable.injective (readableAt_text w) noNumber_nil

end Readable

/-! ## Texts of values -/

/-- Sorting looks at the keys alone. -/
theorem sortKeys_map {β γ : Type*} (f : β → γ) (ms : List (Str × β)) :
    sortKeys (ms.map fun m => (m.1, f m.2)) = (sortKeys ms).map fun m => (m.1, f m.2) := by
  unfold sortKeys
  rw [List.map_insertionSort _ (fun m m' : Str × γ => m.1 ≤ m'.1)]
  exact fun _ _ _ _ => Iff.rfl

mutual

/-- The text of a value is that of its canonical form. -/
theorem dumps_eq_text (w : Layout) : ∀ x, dumps w x = text w (canonical x)
  | .null => rfl
  | .bool _ => rfl
  | .int _ => rfl
  | .float _ => rfl
  | .str s => by rw [dumps, canonical, text, escape_eq]
  | .arr xs => by rw [dumps, canonical, text, textItems_eq, dumpsItems_eq w xs]
  | .obj ms => by
      rw [dumps, canonical, text, textMembers_eq, dumpsMembers_eq w ms, sortKeys_map, List.map_map,
        List.map_map]
      simp only [Function.comp_def, member, escape_eq]

theorem dumpsItems_eq (w : Layout) : ∀ xs, dumpsItems w xs = (canonicalItems xs).map (text w)
  | [] => rfl
  | x :: xs => by
      rw [dumpsItems, canonicalItems, List.map_cons, dumps_eq_text w x, dumpsItems_eq w xs]

theorem dumpsMembers_eq (w : Layout) :
    ∀ ms, dumpsMembers w ms = (canonicalMembers ms).map fun m => (m.1, text w m.2)
  | [] => rfl
  | (k, x) :: ms => by
      rw [dumpsMembers, canonicalMembers, List.map_cons, dumps_eq_text w x, dumpsMembers_eq w ms]

end

/-- **A text determines the value**, as far as `canonical` tells values apart. -/
theorem dumps_eq_iff (w : Layout) (x y : Value) : dumps w x = dumps w y ↔ canonical x = canonical y := by
  rw [dumps_eq_text, dumps_eq_text]
  exact (text_injective w).eq_iff

/-! ## Strings without surrogates -/

/-- A Lean string, which has no surrogates. -/
def codePoint (c : Char) : CodePoint :=
  ⟨c.toNat, by
    rcases c.valid with h | h
    · exact h.trans (by decide)
    · exact h.2⟩

def lit (s : String) : Str := s.toList.map codePoint

/-- Reads a character. A surrogate without the other half is none. -/
def readChar : List CodeUnit → Option (Char × List CodeUnit)
  | [] => none
  | u :: r =>
      if 0xd800 ≤ u.val ∧ u.val < 0xdc00 then
        match r with
        | [] => none
        | v :: r =>
            if 0xdc00 ≤ v.val ∧ v.val < 0xe000 then
              some (Char.ofNat (0x10000 + (u.val - 0xd800) * 0x400 + (v.val - 0xdc00)), r)
            else none
      else if 0xdc00 ≤ u.val ∧ u.val < 0xe000 then none
      else some (Char.ofNat u.val, r)

/-- A character is read from its units, of which a second is the lower half. -/
theorem readChar_units (c : Char) (r : List CodeUnit) :
    readChar (units (codePoint c) ++ r) = some (c, r) := by
  have hvalid : c.toNat < 0xd800 ∨ 0xdfff < c.toNat ∧ c.toNat < 0x110000 := c.valid
  have hval : (codePoint c).val = c.toNat := rfl
  unfold units
  split
  · have hnot : ¬ (0xd800 ≤ c.toNat ∧ c.toNat < 0xdc00) := by omega
    have hnot' : ¬ (0xdc00 ≤ c.toNat ∧ c.toNat < 0xe000) := by omega
    simp only [List.cons_append, List.nil_append, readChar, hval, if_neg hnot, if_neg hnot',
      Char.ofNat_toNat]
  · next hbig =>
      rw [hval] at hbig ⊢
      have hhigh : (Fin.ofNat 0x10000 (0xd800 + (c.toNat - 0x10000) / 0x400)).val =
          0xd800 + (c.toNat - 0x10000) / 0x400 := Nat.mod_eq_of_lt (by omega)
      have hlow : (Fin.ofNat 0x10000 (0xdc00 + (c.toNat - 0x10000) % 0x400)).val =
          0xdc00 + (c.toNat - 0x10000) % 0x400 := Nat.mod_eq_of_lt (by omega)
      have hsurrogate : 0xd800 ≤ 0xd800 + (c.toNat - 0x10000) / 0x400 ∧
          0xd800 + (c.toNat - 0x10000) / 0x400 < 0xdc00 := by omega
      have hother : 0xdc00 ≤ 0xdc00 + (c.toNat - 0x10000) % 0x400 ∧
          0xdc00 + (c.toNat - 0x10000) % 0x400 < 0xe000 := by omega
      have hsum : 0x10000 + (0xd800 + (c.toNat - 0x10000) / 0x400 - 0xd800) * 0x400 +
          (0xdc00 + (c.toNat - 0x10000) % 0x400 - 0xdc00) = c.toNat := by omega
      simp only [List.cons_append, List.nil_append, readChar, hhigh, hlow, if_pos hsurrogate,
        if_pos hother, hsum, Char.ofNat_toNat]

theorem units_ne_nil (c : CodePoint) : units c ≠ [] := by
  unfold units
  split <;> exact List.cons_ne_nil _ _

/-- So strings without surrogates are told apart by their units. -/
theorem utf16_lit_injective : Function.Injective fun s => utf16 (lit s) := by
  have hread : Readable (fun c => units (codePoint c)) Always :=
    .of_reader readChar fun c r _ => readChar_units c r
  intro s t heq
  apply String.toList_injective
  apply hread.flatMap_injective fun c => units_ne_nil (codePoint c)
  simpa [utf16, lit, List.flatMap_map] using heq

/-! ## Dictionaries -/

theorem canonicalMembers_eq (ms : List (Str × Value)) :
    canonicalMembers ms = ms.map fun m => (m.1, canonical m.2) := by
  induction ms with
  | nil => rfl
  | cons m ms ih =>
      rw [List.map_cons, ← ih]
      rfl

/-- The entries of a dictionary as they are, but for their order. -/
theorem canonical_obj (ms : List (Str × Value)) :
    ∃ ns, canonical (.obj ms) = .obj ns ∧ ns.Perm (ms.map fun m => (utf16 m.1, canonical m.2)) := by
  refine ⟨_, by rw [canonical], ?_⟩
  rw [canonicalMembers_eq, sortKeys_map, List.map_map]
  exact (List.perm_insertionSort _ ms).map _

/-- A dictionary whose keys are literals. -/
def record (ms : List (String × Value)) : Value := .obj (ms.map fun m => (lit m.1, m.2))

/-- What is left of a dictionary depends on what is left of its entries. -/
theorem canonical_record_eq {ms ns : List (String × Value)}
    (h : ms.map (fun m => (m.1, canonical m.2)) = ns.map fun m => (m.1, canonical m.2)) :
    canonical (record ms) = canonical (record ns) := by
  have hmembers : ∀ ms : List (String × Value),
      canonicalMembers (ms.map fun m => (lit m.1, m.2)) =
        (ms.map fun m => (m.1, canonical m.2)).map fun m => (lit m.1, m.2) := by
    intro ms
    rw [canonicalMembers_eq, List.map_map, List.map_map]
    rfl
  rw [record, record, canonical, canonical, hmembers, hmembers, h]

/-- `d.get(k)`, of what is left of a dictionary. -/
def field? (k : String) : Canonical → Option Canonical
  | .obj ms => Dict.get? ms (utf16 (lit k))
  | _ => none

/-- **What is left of a dictionary has its entries.** -/
theorem field?_record {ms : List (String × Value)} (h : (ms.map Prod.fst).Nodup) (k : String) :
    field? k (canonical (record ms)) = (Dict.get? ms k).map canonical := by
  obtain ⟨ns, hns, hperm⟩ := canonical_obj (ms.map fun m => (lit m.1, m.2))
  have hmap : (ms.map fun m => (lit m.1, m.2)).map (fun m => (utf16 m.1, canonical m.2)) =
      (ms.map fun m => (m.1, canonical m.2)).map fun m => (utf16 (lit m.1), m.2) := by
    rw [List.map_map, List.map_map]
    rfl
  rw [hmap] at hperm
  have hnodup : (ns.map Prod.fst).Nodup := by
    have hkeys : ((ms.map fun m => (m.1, canonical m.2)).map fun m => (utf16 (lit m.1), m.2)).map
        Prod.fst = (ms.map Prod.fst).map fun k => utf16 (lit k) := by
      rw [List.map_map, List.map_map, List.map_map]
      rfl
    rw [(hperm.map Prod.fst).nodup_iff, hkeys]
    exact h.map utf16_lit_injective
  rw [record, hns, field?, Dict.get?_perm hperm hnodup, Dict.get?_map_fst utf16_lit_injective,
    Dict.get?_map_snd]

/-! ## What is read of a value -/

namespace Canonical

def int? : Canonical → Option Int
  | .int i => some i
  | _ => none

/-- A string without lone surrogates. -/
def string? : Canonical → Option String
  | .str us => (readAll readChar us.length us).map String.ofList
  | _ => none

/-- `bool(x)`. -/
def truthy : Canonical → Bool
  | .null => false
  | .bool b => b
  | .int i => i != 0
  | .float t => t.val.any fun c => c.isDigit && c != '0'
  | .str us => !us.isEmpty
  | .arr xs => !xs.isEmpty
  | .obj ms => !ms.isEmpty

@[simp] theorem int?_canonical (i : Int) : (canonical (.int i)).int? = some i := by
  rw [canonical, int?]

@[simp] theorem string?_canonical (s : String) : (canonical (.str (lit s))).string? = some s := by
  have hunits : utf16 (lit s) = s.toList.flatMap fun c => units (codePoint c) := by
    rw [utf16, lit, List.flatMap_map]
  have hne : ∀ c, units (codePoint c) ≠ [] := fun c => units_ne_nil (codePoint c)
  rw [canonical, string?, hunits, readAll_flatMap readChar_units hne (length_le_flatMap hne _)]
  simp

end Canonical

/-! ## Lines -/

/-- All characters are printable ASCII. -/
def Printable (t : List Char) : Prop := ∀ c ∈ t, ' ' ≤ c ∧ c ≤ '~'

theorem Printable.append {t t' : List Char} (h : Printable t) (h' : Printable t') :
    Printable (t ++ t') := by
  intro c hc
  rcases List.mem_append.mp hc with hc | hc
  · exact h c hc
  · exact h' c hc

theorem printable_after {sep close : List Char} (hsep : Printable sep) (hclose : Printable close)
    {ts : List (List Char)} (h : ∀ t ∈ ts, Printable t) : Printable (after sep close ts) := by
  induction ts with
  | nil => exact hclose
  | cons t ts ih =>
      rw [List.forall_mem_cons] at h
      exact (hsep.append h.1).append (ih h.2)

theorem printable_join {sep close : List Char} (hsep : Printable sep) (hclose : Printable close)
    {ts : List (List Char)} (h : ∀ t ∈ ts, Printable t) : Printable (join sep close ts) := by
  cases ts with
  | nil => exact hclose
  | cons t ts =>
      rw [List.forall_mem_cons] at h
      exact h.1.append (printable_after hsep hclose h.2)

theorem printable_item (w : Layout) : Printable w.item := by cases w <;> simp [Printable, Layout.item]

theorem printable_key (w : Layout) : Printable w.key := by cases w <;> simp [Printable, Layout.key]

theorem printable_digitChar : ∀ d < 16, ' ' ≤ Nat.digitChar d ∧ Nat.digitChar d ≤ '~' := by decide

theorem printable_hex4 (n : Nat) : Printable (hex4 n) := by
  intro c hc
  have hdigit : ∀ d, ' ' ≤ Nat.digitChar (d % 16) ∧ Nat.digitChar (d % 16) ≤ '~' :=
    fun d => printable_digitChar _ (Nat.mod_lt _ (by decide))
  simp only [hex4, List.mem_cons, List.not_mem_nil, or_false] at hc
  rcases hc with rfl | rfl | rfl | rfl | rfl | rfl
  · decide
  · decide
  all_goals exact hdigit _

theorem printable_escapeUnit (u : CodeUnit) : Printable (escapeUnit u) := by
  unfold escapeUnit
  split_ifs with _ _ _ _ _ _ _ h
  all_goals try simp [Printable]
  · have hchar : (Char.ofNat u.val).toNat = u.val := toNat_ofNat (by omega)
    exact ⟨Nat.le_trans h.1 hchar.ge, Nat.le_trans hchar.le h.2⟩
  · exact printable_hex4 u.val

theorem printable_quote (s : List CodeUnit) : Printable (quote s) := by
  have hbody : Printable (after [] ['"'] (s.map escapeUnit)) :=
    printable_after (by simp [Printable]) (by simp [Printable])
      (List.forall_mem_map.mpr fun u _ => printable_escapeUnit u)
  exact Printable.append (t := ['"']) (by simp [Printable]) hbody

/-- The characters of numbers are printable. -/
theorem printable_number {t : List Char} (h : ∀ c ∈ t, isNumberChar c = true) : Printable t := by
  intro c hc
  have hnumber := h c hc
  simp only [isNumberChar, Bool.or_eq_true, beq_iff_eq] at hnumber
  rcases hnumber with (((hdigit | rfl) | rfl) | rfl) | rfl
  · rw [Char.isDigit, Bool.and_eq_true, decide_eq_true_iff, decide_eq_true_iff] at hdigit
    exact ⟨Char.le_trans (by decide : ' ' ≤ '0') hdigit.1,
      Char.le_trans hdigit.2 (by decide : '9' ≤ '~')⟩
  all_goals decide

mutual

/-- By induction on the value, as it was read. -/
theorem printable_text (w : Layout) : ∀ x, Printable (text w x)
  | .null => by rw [text]; simp [Printable]
  | .bool b => by rw [text]; cases b <;> simp [Printable, literal]
  | .int i => by rw [text]; exact printable_number (isNumberChar_of_mem_decimal i)
  | .float t => by rw [text]; exact printable_number (isNumberChar_of_mem t)
  | .str s => by rw [text]; exact printable_quote s
  | .arr xs => by
      rw [text, textItems_eq]
      exact Printable.append (t := ['[']) (by simp [Printable]) (printable_join (printable_item w)
        (by simp [Printable]) (List.forall_mem_map.mpr (printable_items w xs)))
  | .obj ms => by
      rw [text, textMembers_eq]
      refine Printable.append (t := ['{']) (by simp [Printable]) (printable_join (printable_item w)
        (by simp [Printable]) (List.forall_mem_map.mpr fun m hm => ?_))
      exact ((printable_quote m.1).append (printable_key w)).append (printable_members w ms m hm)

theorem printable_items (w : Layout) : ∀ (xs : List Canonical), ∀ x ∈ xs, Printable (text w x)
  | [] => List.forall_mem_nil _
  | x :: xs => List.forall_mem_cons.mpr ⟨printable_text w x, printable_items w xs⟩

theorem printable_members (w : Layout) :
    ∀ (ms : List (List CodeUnit × Canonical)), ∀ m ∈ ms, Printable (text w m.2)
  | [] => List.forall_mem_nil _
  | (_, x) :: ms => List.forall_mem_cons.mpr ⟨printable_text w x, printable_members w ms⟩

end

/-- **A text is one line.** -/
theorem printable_dumps (w : Layout) (x : Value) : Printable (dumps w x) := by
  rw [dumps_eq_text]
  exact printable_text w _

end Json
