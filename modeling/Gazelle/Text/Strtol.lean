import Mathlib.Algebra.Order.Ring.Int
import Mathlib.Data.Int.Notation
import Mathlib.Data.Nat.Notation
import Mathlib.Data.List.TakeWhile
import Mathlib.Tactic.Common

/-!
# `strtol` with its end pointer

`strtol` in base 10 and 16 with a 64-bit `long`, in the C locale. A pointer into a text is what is
left of the text.

* `CText.strtolEnd`: the value, whether `errno` is set to `ERANGE`, and the end pointer;
* `CText.strtolEnd_suffix`: the end pointer stays in the text;
* `CText.strtolEnd_signed`, `CText.strtolEnd_cases`: what is read in base 10, with white space and
  a sign;
* `CText.strtolEnd_decimal`, `CText.strtolEnd_hex`: a number that is followed by something else.
-/

namespace CText

/-- `isblank`. -/
def isBlank (c : Char) : Bool := c == ' ' || c == '\t'

/-- `isspace`: a space, or one of tab, newline, vertical tab, form feed and carriage return. -/
def isSpace (c : Char) : Bool := c == ' ' || 9 ≤ c.toNat && c.toNat ≤ 13

/-- The value of a digit in a base up to 16, or 16 if it is not one. -/
def digitVal (c : Char) : ℕ :=
  if 48 ≤ c.toNat ∧ c.toNat ≤ 57 then c.toNat - 48
  else if 97 ≤ c.toNat ∧ c.toNat ≤ 102 then c.toNat - 87
  else if 65 ≤ c.toNat ∧ c.toNat ≤ 70 then c.toNat - 55
  else 16

/-- A digit of the base. -/
def isDigitIn (base : ℕ) (c : Char) : Bool := digitVal c < base

/-- The number that some digits are. -/
def numeral (base : ℕ) (digits : List Char) : ℕ :=
  digits.foldl (fun n c => base * n + digitVal c) 0

/-- What `strtol` returns and stores. -/
structure Strtol where
  /-- The value. -/
  value : ℤ
  /-- `errno` is `ERANGE`. -/
  erange : Bool
  /-- The end pointer. -/
  endptr : List Char

/-- A number with its sign. -/
def signed (neg : Bool) (n : ℕ) : ℤ := if neg then -n else n

/-- A number with its sign: it is clamped to the range of a `long`. -/
def clamped (neg : Bool) (n : ℕ) (endptr : List Char) : Strtol :=
  if neg then
    if n ≤ 2 ^ 63 then ⟨-n, false, endptr⟩ else ⟨-2 ^ 63, true, endptr⟩
  else if n < 2 ^ 63 then ⟨n, false, endptr⟩ else ⟨2 ^ 63 - 1, true, endptr⟩

/-- The optional sign: whether it is a minus, and what is after it. -/
def readSign (s : List Char) : Bool × List Char :=
  match s with
  | '-' :: rest => (true, rest)
  | '+' :: rest => (false, rest)
  | _ => (false, s)

/-- The optional prefix `0x` or `0X` in base 16 counts only before a digit. -/
def dropHexPrefix (base : ℕ) (s : List Char) : List Char :=
  match s with
  | '0' :: x :: d :: rest =>
    if base = 16 ∧ (x = 'x' ∨ x = 'X') ∧ isDigitIn 16 d then d :: rest else s
  | _ => s

/-- `strtol`: without digits the value is 0, and the end pointer is the text. -/
def strtolEnd (base : ℕ) (nptr : List Char) : Strtol :=
  let signed := readSign (nptr.dropWhile isSpace)
  let s := dropHexPrefix base signed.2
  if s.takeWhile (isDigitIn base) = [] then ⟨0, false, nptr⟩
  else
    clamped signed.1 (numeral base (s.takeWhile (isDigitIn base))) (s.dropWhile (isDigitIn base))

/-! ## The end pointer -/

theorem clamped_endptr (neg : Bool) (n : ℕ) (endptr : List Char) :
    (clamped neg n endptr).endptr = endptr := by
  unfold clamped
  split <;> split <;> rfl

theorem readSign_suffix (s : List Char) : (readSign s).2 <:+ s := by
  unfold readSign
  split
  · exact List.suffix_cons _ _
  · exact List.suffix_cons _ _
  · exact List.suffix_rfl

theorem dropHexPrefix_suffix (base : ℕ) (s : List Char) : dropHexPrefix base s <:+ s := by
  unfold dropHexPrefix
  split
  · rename_i x d rest
    split
    · exact List.suffix_append ['0', x] (d :: rest)
    · exact List.suffix_rfl
  · exact List.suffix_rfl

/-- A number that is not clamped. -/
theorem clamped_of_lt {n : ℕ} (hlt : n < 2 ^ 63) (endptr : List Char) :
    clamped false n endptr = ⟨n, false, endptr⟩ := by
  rw [clamped, if_neg (by decide), if_pos hlt]

/-- A number is clamped unless it is in the range of a `long`. -/
theorem clamped_erange (neg : Bool) (n : ℕ) (endptr : List Char) :
    (clamped neg n endptr).erange = false ↔ -2 ^ 63 ≤ signed neg n ∧ signed neg n < 2 ^ 63 := by
  unfold clamped signed
  cases neg with
  | true =>
    simp only [if_true]
    split
    · simp only [true_iff]
      omega
    · simp only [Bool.true_eq_false, false_iff]
      omega
  | false =>
    simp only [Bool.false_eq_true, if_false]
    split
    · simp only [true_iff]
      omega
    · simp only [Bool.true_eq_false, false_iff]
      omega

theorem clamped_value {neg : Bool} {n : ℕ} {endptr : List Char}
    (h : (clamped neg n endptr).erange = false) :
    (clamped neg n endptr).value = signed neg n := by
  unfold clamped signed at *
  cases neg with
  | true =>
    simp only [if_true] at h ⊢
    split at h
    · next hle => rw [if_pos hle]
    · exact absurd h (by simp)
  | false =>
    simp only [Bool.false_eq_true, if_false] at h ⊢
    split at h
    · next hlt => rw [if_pos hlt]
    · exact absurd h (by simp)

/-- The end pointer points into the text. -/
theorem strtolEnd_suffix (base : ℕ) (nptr : List Char) : (strtolEnd base nptr).endptr <:+ nptr := by
  unfold strtolEnd
  dsimp only
  split
  · exact List.suffix_rfl
  · rw [clamped_endptr]
    have hsign := readSign_suffix (nptr.dropWhile isSpace)
    have hdrop := dropHexPrefix_suffix base (readSign (nptr.dropWhile isSpace)).2
    exact (List.dropWhile_suffix _).trans (hdrop.trans (hsign.trans (List.dropWhile_suffix _)))

/-! ## A number -/

section Number

variable {base : ℕ} {digits rest : List Char}

/-- A digit is no white space and no sign. -/
theorem isSpace_of_isDigitIn {c : Char} (hbase : base ≤ 16) (h : isDigitIn base c = true) :
    isSpace c = false ∧ c ≠ '-' ∧ c ≠ '+' := by
  have hval : digitVal c < base := of_decide_eq_true h
  have hrange : 48 ≤ c.toNat := by
    by_contra hlow
    have : digitVal c = 16 := by
      unfold digitVal
      rw [if_neg (by omega), if_neg (by omega), if_neg (by omega)]
    omega
  refine ⟨?_, ?_, ?_⟩
  · simp only [isSpace, Bool.or_eq_false_iff, Bool.and_eq_false_iff, beq_eq_false_iff_ne,
      decide_eq_false_iff_not]
    refine ⟨?_, .inr (by omega)⟩
    rintro rfl
    exact absurd hrange (by decide)
  · rintro rfl
    exact absurd hrange (by decide)
  · rintro rfl
    exact absurd hrange (by decide)

/-- The digits at the start of a text that goes on with something else. -/
theorem takeWhile_digits (hdigits : ∀ c ∈ digits, isDigitIn base c = true)
    (hrest : ∀ c ∈ rest.head?, isDigitIn base c = false) :
    (digits ++ rest).takeWhile (isDigitIn base) = digits ∧
      (digits ++ rest).dropWhile (isDigitIn base) = rest := by
  rw [List.takeWhile_append_of_pos hdigits, List.dropWhile_append_of_pos hdigits]
  cases rest with
  | nil => simp
  | cons c rest =>
    have hc : isDigitIn base c = false := hrest c rfl
    rw [List.takeWhile_cons_of_neg (by simp [hc]), List.dropWhile_cons_of_neg (by simp [hc])]
    exact ⟨List.append_nil _, rfl⟩

/-- An optional sign, and whether it is a minus. -/
inductive Sign : List Char → Bool → Prop
  | none : Sign [] false
  | plus : Sign ['+'] false
  | minus : Sign ['-'] true

/-- A number starts here: white space, an optional sign and a digit. -/
def StartsNumber (nptr : List Char) : Prop :=
  ∃ space sign neg digit rest, nptr = space ++ (sign ++ digit :: rest) ∧
    (∀ c ∈ space, isSpace c = true) ∧ Sign sign neg ∧ isDigitIn 10 digit = true

/-- White space and a sign before a digit. -/
theorem readSign_sign (hbase : base ≤ 16) {space sign : List Char} {neg : Bool} {digit : Char}
    (hspace : ∀ c ∈ space, isSpace c = true) (hsign : Sign sign neg)
    (hdigit : isDigitIn base digit = true) (rest : List Char) :
    readSign ((space ++ (sign ++ digit :: rest)).dropWhile isSpace) = (neg, digit :: rest) := by
  rw [List.dropWhile_append_of_pos hspace]
  cases hsign with
  | none =>
    obtain ⟨hnot, hminus, hplus⟩ := isSpace_of_isDigitIn hbase hdigit
    rw [List.nil_append, List.dropWhile_cons_of_neg (by simp [hnot])]
    unfold readSign
    split
    · next heq => exact absurd (List.cons.inj heq).1 hminus
    · next heq => exact absurd (List.cons.inj heq).1 hplus
    · rfl
  | plus => rfl
  | minus => rfl

/-- White space and a sign are not read before a digit. -/
theorem readSign_digits (hbase : base ≤ 16) (hne : digits ≠ [])
    (hdigits : ∀ c ∈ digits, isDigitIn base c = true) (rest : List Char) :
    readSign ((digits ++ rest).dropWhile isSpace) = (false, digits ++ rest) := by
  obtain ⟨digit, more, rfl⟩ := List.exists_cons_of_ne_nil hne
  have hnone : ∀ c ∈ ([] : List Char), isSpace c = true := fun c hc => absurd hc (by simp)
  exact readSign_sign hbase hnone .none (hdigits digit List.mem_cons_self) _

/-- There is no prefix in base 10. -/
theorem dropHexPrefix_decimal (s : List Char) : dropHexPrefix 10 s = s := by
  unfold dropHexPrefix
  split
  · exact if_neg (by simp)
  · rfl

/-- `strtol` reads decimal digits that are followed by something else. -/
theorem strtolEnd_signed {space sign : List Char} {neg : Bool}
    (hspace : ∀ c ∈ space, isSpace c = true) (hsign : Sign sign neg) (hne : digits ≠ [])
    (hdigits : ∀ c ∈ digits, isDigitIn 10 c = true)
    (hrest : ∀ c ∈ rest.head?, isDigitIn 10 c = false) :
    strtolEnd 10 (space ++ (sign ++ (digits ++ rest))) = clamped neg (numeral 10 digits) rest := by
  obtain ⟨htake, hdrop⟩ := takeWhile_digits hdigits hrest
  have hread : readSign ((space ++ (sign ++ (digits ++ rest))).dropWhile isSpace) =
      (neg, digits ++ rest) := by
    obtain ⟨digit, more, rfl⟩ := List.exists_cons_of_ne_nil hne
    exact readSign_sign (by decide) hspace hsign (hdigits digit List.mem_cons_self) _
  unfold strtolEnd
  simp only [hread, dropHexPrefix_decimal, htake, hdrop, if_neg hne]

/-- `strtol` reads decimal digits, or there are none and nothing is read. -/
theorem strtolEnd_cases (nptr : List Char) :
    (∃ space sign neg digits rest, nptr = space ++ (sign ++ (digits ++ rest)) ∧
      (∀ c ∈ space, isSpace c = true) ∧ Sign sign neg ∧ digits ≠ [] ∧
      (∀ c ∈ digits, isDigitIn 10 c = true) ∧
      strtolEnd 10 nptr = clamped neg (numeral 10 digits) rest) ∨
      ¬ StartsNumber nptr ∧ strtolEnd 10 nptr = ⟨0, false, nptr⟩ := by
  have hspace : ∀ c ∈ nptr.takeWhile isSpace, isSpace c = true :=
    fun c hc => List.mem_takeWhile_imp hc
  obtain ⟨sign, neg, hsign, hread, htext⟩ : ∃ sign neg, Sign sign neg ∧
      (readSign (nptr.dropWhile isSpace)).1 = neg ∧
      nptr.dropWhile isSpace = sign ++ (readSign (nptr.dropWhile isSpace)).2 := by
    unfold readSign
    split
    · next rest heq => exact ⟨['-'], true, .minus, rfl, heq⟩
    · next rest heq => exact ⟨['+'], false, .plus, rfl, heq⟩
    · exact ⟨[], false, .none, rfl, rfl⟩
  by_cases hne : (readSign (nptr.dropWhile isSpace)).2.takeWhile (isDigitIn 10) = []
  · refine .inr ⟨?_, ?_⟩
    · rintro ⟨space', sign', neg', digit, rest, rfl, hspace', hsign', hdigit⟩
      rw [readSign_sign (by decide) hspace' hsign' hdigit,
        List.takeWhile_cons_of_pos hdigit] at hne
      exact absurd hne (List.cons_ne_nil _ _)
    · unfold strtolEnd
      simp only [dropHexPrefix_decimal, if_pos hne]
  · refine .inl ⟨_, sign, neg, _, (readSign (nptr.dropWhile isSpace)).2.dropWhile (isDigitIn 10),
      ?_, hspace, hsign, hne, fun c hc => List.mem_takeWhile_imp hc, ?_⟩
    · rw [List.takeWhile_append_dropWhile, ← htext, List.takeWhile_append_dropWhile]
    · unfold strtolEnd
      simp only [dropHexPrefix_decimal, if_neg hne, hread]

/-- `strtol` reads a decimal number that is followed by something else. -/
theorem strtolEnd_decimal (hne : digits ≠ []) (hdigits : ∀ c ∈ digits, isDigitIn 10 c = true)
    (hrest : ∀ c ∈ rest.head?, isDigitIn 10 c = false) (hlt : numeral 10 digits < 2 ^ 63) :
    strtolEnd 10 (digits ++ rest) = ⟨numeral 10 digits, false, rest⟩ := by
  have hnone : ∀ c ∈ ([] : List Char), isSpace c = true := fun c hc => absurd hc (by simp)
  have hread := strtolEnd_signed hnone .none hne hdigits hrest
  rw [List.nil_append, List.nil_append] at hread
  rw [hread, clamped_of_lt hlt]

/-- `strtol` reads hexadecimal digits after their prefix that are followed by something else. -/
theorem strtolEnd_hex {x : Char} (hx : x = 'x' ∨ x = 'X') (hne : digits ≠ [])
    (hdigits : ∀ c ∈ digits, isDigitIn 16 c = true)
    (hrest : ∀ c ∈ rest.head?, isDigitIn 16 c = false) :
    strtolEnd 16 ('0' :: x :: (digits ++ rest)) = clamped false (numeral 16 digits) rest := by
  obtain ⟨htake, hdrop⟩ := takeWhile_digits hdigits hrest
  have hzero : ∀ c ∈ ['0'], isDigitIn 16 c = true := by simp [isDigitIn, digitVal]
  have hsign : readSign (('0' :: x :: (digits ++ rest)).dropWhile isSpace) =
      (false, '0' :: x :: (digits ++ rest)) :=
    readSign_digits (Nat.le_refl 16) (List.cons_ne_nil _ _) hzero _
  have hhex : dropHexPrefix 16 ('0' :: x :: (digits ++ rest)) = digits ++ rest := by
    obtain ⟨d, more, rfl⟩ := List.exists_cons_of_ne_nil hne
    exact if_pos ⟨rfl, hx, hdigits d List.mem_cons_self⟩
  unfold strtolEnd
  simp only [hsign, hhex, htake, hdrop, if_neg hne]

/-- The digits at the start of a text, and what is after them. -/
theorem split_digits (base : ℕ) (s : List Char) :
    s = s.takeWhile (isDigitIn base) ++ s.dropWhile (isDigitIn base) ∧
      (∀ c ∈ s.takeWhile (isDigitIn base), isDigitIn base c = true) ∧
      ∀ c ∈ (s.dropWhile (isDigitIn base)).head?, isDigitIn base c = false := by
  refine ⟨List.takeWhile_append_dropWhile.symm, fun c hc => List.mem_takeWhile_imp hc, ?_⟩
  intro c hc
  have hnot := List.head?_dropWhile_not (isDigitIn base) s
  rw [Option.mem_def.1 hc] at hnot
  exact hnot

/-- Without a digit after the prefix, only its 0 is read. -/
theorem strtolEnd_hex_none {x : Char} {more : List Char} (hx : x = 'x' ∨ x = 'X')
    (hmore : ∀ c ∈ more.head?, isDigitIn 16 c = false) :
    (strtolEnd 16 ('0' :: x :: more)).endptr = x :: more := by
  have hhex : dropHexPrefix 16 ('0' :: x :: more) = '0' :: x :: more := by
    cases more with
    | nil => rfl
    | cons d more =>
      have hd := hmore d rfl
      exact if_neg (by simp [hd])
  have hzero : ∀ c ∈ ['0'], isDigitIn 16 c = true := by simp [isDigitIn, digitVal]
  have hsign : readSign (('0' :: x :: more).dropWhile isSpace) = (false, '0' :: x :: more) :=
    readSign_digits (Nat.le_refl 16) (List.cons_ne_nil _ _) hzero _
  have hrest : ∀ c ∈ (x :: more).head?, isDigitIn 16 c = false := by
    intro c hc
    obtain rfl : x = c := Option.some.inj hc
    rcases hx with rfl | rfl <;> rfl
  obtain ⟨htake, hdrop⟩ := takeWhile_digits hzero hrest
  have htake' : ('0' :: x :: more).takeWhile (isDigitIn 16) = ['0'] := htake
  have hdrop' : ('0' :: x :: more).dropWhile (isDigitIn 16) = x :: more := hdrop
  unfold strtolEnd
  simp only [hsign, hhex, htake', hdrop', if_neg (List.cons_ne_nil _ _), clamped_endptr]

end Number

end CText
