import Mathlib.Data.Int.Notation
import Mathlib.Data.List.TakeWhile
import Mathlib.Data.List.Basic
import Mathlib.Algebra.Order.Ring.Int
import Mathlib.Data.Nat.Notation
import Mathlib.Tactic.Common

/-!
# Numbers as text

Lists of numbers are printed with `%u` and a delimiter between them, and read with `strtok` and
`atoi`.

* `CText.strtok_joined`: the tokens are the numbers again;
* `CText.atoi_decimal`: `atoi` returns the low 32 bits of a number, as a signed one;
* `CText.atoll_decimal`: `atoll` returns the number;
* `CText.length_joined_cons_le`: how long the text gets.
-/

namespace CText

/-- `%u`. -/
def decimal (n : ℕ) : List Char := Nat.toDigits 10 n

/-- Several numbers with a delimiter between them. -/
def joined (delim : Char) (ns : List ℕ) : List Char := [delim].intercalate (ns.map decimal)

/-- The tokens that repeated calls of `strtok` return. -/
def strtok (delim : Char) (s : List Char) : List (List Char) :=
  (s.splitOn delim).filter (· ≠ [])

/-- The number that the digits at the start of a text are. -/
def leadingDigits (s : List Char) : ℕ := Nat.ofDigitChars 10 (s.takeWhile Char.isDigit) 0

/-- `strtol` in base 10 with a 64-bit `long`: blanks, a sign and digits; the result is clamped. -/
def strtol (s : List Char) : ℤ :=
  match s.dropWhile Char.isWhitespace with
  | '-' :: rest => max (-2 ^ 63) (-leadingDigits rest)
  | '+' :: rest => min (2 ^ 63 - 1) (leadingDigits rest)
  | rest => min (2 ^ 63 - 1) (leadingDigits rest)

/-- `atoi`: the result of `strtol` as an `int`. -/
def atoi (s : List Char) : BitVec 32 := BitVec.ofInt 32 (strtol s)

/-- `atoll`: the result of `strtol` as a 64-bit word. -/
def atoll (s : List Char) : BitVec 64 := BitVec.ofInt 64 (strtol s)

/-- `sprintf_s` of a text into a buffer: it needs room for the terminator. -/
def sprintfS (size : ℕ) (text : List Char) : Option (List Char) :=
  if text.length < size then some text else none

/-! ## Printing -/

theorem isDigit_of_mem_decimal {n : ℕ} {c : Char} (h : c ∈ decimal n) : c.isDigit :=
  Nat.isDigit_of_mem_toDigits (by decide) (by decide) h

theorem decimal_ne_nil (n : ℕ) : decimal n ≠ [] := Nat.toDigits_ne_nil

/-- The digits of a number are the number. -/
theorem ofDigitChars_decimal (n : ℕ) : Nat.ofDigitChars 10 (decimal n) 0 = n :=
  Nat.ofDigitChars_ten_toDigits

theorem length_decimal_le {n k : ℕ} (hk : 0 < k) (h : n < 10 ^ k) : (decimal n).length ≤ k :=
  (Nat.length_toDigits_le_iff (by decide) hk).2 h

/-- A delimiter that is not a digit is in no number. -/
theorem notMem_decimal {delim : Char} (hdelim : ¬ delim.isDigit) (n : ℕ) : delim ∉ decimal n :=
  fun h => hdelim (isDigit_of_mem_decimal h)

/-- A single number needs room for its digits. -/
theorem length_joined_singleton_le (delim : Char) {n k : ℕ} (hk : 0 < k) (hn : n < 10 ^ k) :
    (joined delim [n]).length ≤ k := by
  rw [joined, List.map_cons, List.map_nil, List.intercalate_singleton]
  exact length_decimal_le hk hn

/-- One more number needs room for its digits and the delimiter. -/
theorem length_joined_cons_le (delim : Char) {n k m : ℕ} {ns : List ℕ} (hk : 0 < k)
    (hn : n < 10 ^ k) (hns : (joined delim ns).length ≤ m) :
    (joined delim (n :: ns)).length ≤ k + 1 + m := by
  have hlen := length_decimal_le hk hn
  cases ns with
  | nil =>
    have hsingle := length_joined_singleton_le delim hk hn
    omega
  | cons n' ns =>
    simp only [joined, List.map_cons, List.intercalate_cons_cons, List.length_append,
      List.length_singleton] at hns ⊢
    omega

/-! ## Reading -/

/-- The tokens of printed numbers are the numbers. -/
theorem strtok_joined {delim : Char} (hdelim : ¬ delim.isDigit) (ns : List ℕ) :
    strtok delim (joined delim ns) = ns.map decimal := by
  by_cases hns : ns = []
  · subst hns
    rfl
  have hsplit : (joined delim ns).splitOn delim = ns.map decimal := by
    refine List.splitOn_intercalate delim (fun l hl => ?_) (by simpa using hns)
    obtain ⟨n, -, rfl⟩ := List.mem_map.1 hl
    exact notMem_decimal hdelim n
  rw [strtok, hsplit, List.filter_eq_self]
  intro l hl
  obtain ⟨n, -, rfl⟩ := List.mem_map.1 hl
  simpa using decimal_ne_nil n

/-- A text of digits is read as their number, up to the largest `long`. -/
theorem strtol_decimal (n : ℕ) : strtol (decimal n) = min (2 ^ 63 - 1) (n : ℤ) := by
  obtain ⟨c, rest, hcons⟩ := List.exists_cons_of_ne_nil (decimal_ne_nil n)
  have hc : c.isDigit := isDigit_of_mem_decimal (hcons ▸ List.mem_cons_self)
  have hdigits : leadingDigits (decimal n) = n := by
    rw [leadingDigits, List.takeWhile_eq_self_iff.2 fun c hc => isDigit_of_mem_decimal hc,
      ofDigitChars_decimal]
  have hspace : ¬ c.isWhitespace := by
    intro hspace
    simp only [Char.isWhitespace, Bool.or_eq_true, decide_eq_true_eq] at hspace
    rcases hspace with ((rfl | rfl) | rfl) | rfl <;> exact absurd hc (by decide)
  have hdrop : (decimal n).dropWhile Char.isWhitespace = decimal n := by
    rw [hcons, List.dropWhile_cons_of_neg hspace]
  rw [strtol, hdrop]
  split
  · rename_i heq
    have hmem := isDigit_of_mem_decimal (n := n) (heq ▸ List.mem_cons_self)
    exact absurd hmem (by decide)
  · rename_i heq
    have hmem := isDigit_of_mem_decimal (n := n) (heq ▸ List.mem_cons_self)
    exact absurd hmem (by decide)
  · rw [hdigits]

/-- A `long` that is not negative is read as its low 32 bits. -/
theorem atoi_decimal {n : ℕ} (h : n < 2 ^ 63) : atoi (decimal n) = BitVec.ofNat 32 n := by
  have hmin : min (2 ^ 63 - 1 : ℤ) n = n := min_eq_right (by omega)
  rw [atoi, strtol_decimal, hmin, BitVec.ofInt_natCast]

/-- A `long` that is not negative is read as it is. -/
theorem atoll_decimal {n : ℕ} (h : n < 2 ^ 63) : atoll (decimal n) = BitVec.ofNat 64 n := by
  have hmin : min (2 ^ 63 - 1 : ℤ) n = n := min_eq_right (by omega)
  rw [atoll, strtol_decimal, hmin, BitVec.ofInt_natCast]

/-- A text that fits is printed as it is. -/
theorem sprintfS_eq_some {size : ℕ} {text : List Char} (h : text.length < size) :
    sprintfS size text = some text := if_pos h

end CText
