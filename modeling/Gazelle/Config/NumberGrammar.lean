import Gazelle.Config.NumberList

/-!
# The grammar of the lists of numbers

The lists that `separate_str_to_array` is for, and the texts that it takes for one. Both are
grammars on the characters.

* `NumList`: the grammar of a list;
* `Taken`: what is taken for a list; its items may be `Malformed`;
* `taken_iff`, `numList_iff`: both grammars in terms of what is read;
* `readsGrammar_iff`: the texts on which the function follows the grammar.
-/

open CText

namespace Gazelle

namespace NumberList

/-! ## The grammar -/

/-- A decimal number, or a hexadecimal one with its prefix. -/
inductive Numeral : List Char → ℕ → Prop
  | decimal {digits : List Char} (hne : digits ≠ [])
      (hdigits : ∀ c ∈ digits, isDigitIn 10 c = true) : Numeral digits (numeral 10 digits)
  | hex {x : Char} {digits : List Char} (hx : x = 'x' ∨ x = 'X') (hne : digits ≠ [])
      (hdigits : ∀ c ∈ digits, isDigitIn 16 c = true) :
      Numeral ('0' :: x :: digits) (numeral 16 digits)

/-- A number below `max_value`, with blanks around it. -/
def Padded (maxValue : ℕ) (s : List Char) (value : ℕ) : Prop :=
  value < maxValue ∧ ∃ before num after, s = before ++ (num ++ after) ∧
    (∀ c ∈ before, isBlank c = true) ∧ (∀ c ∈ after, isBlank c = true) ∧ Numeral num value

/-- An item of a list, with its values: a number, or a range of two numbers. -/
inductive ListItem (maxValue : ℕ) : List Char → List ℕ → Prop
  | number {s : List Char} {value : ℕ} (h : Padded maxValue s value) :
      ListItem maxValue s [value]
  | range {s t : List Char} {a b : ℕ} (hs : Padded maxValue s a) (ht : Padded maxValue t b)
      (hle : a ≤ b) : ListItem maxValue (s ++ '-' :: t) (span a b)

/-- A list of items that are separated by commas, with its values. -/
inductive NumList (maxValue : ℕ) : List Char → List ℕ → Prop
  | last {s : List Char} {values : List ℕ} (h : ListItem maxValue s values) :
      NumList maxValue s values
  | cons {s t : List Char} {values others : List ℕ} (h : ListItem maxValue s values)
      (ht : NumList maxValue t others) : NumList maxValue (s ++ ',' :: t) (values ++ others)

/-- A text up to its first terminator or newline. -/
def line (args : List Char) : List Char := args.takeWhile fun c => c != '\x00' && c != '\n'

/-- The values of an item that is a number or a range. -/
def expand (ns : List Reading) : List ℕ :=
  match ns with
  | [n] => [n.value]
  | [a, b] => span a.value b.value
  | _ => []

/-- What is read as an item is a number, or a range of two numbers, as the grammar has them. -/
def Proper (maxValue : ℕ) (ns : List Reading) : Prop :=
  (∀ n ∈ ns, Padded maxValue n.raw n.value) ∧
    ((∃ n, ns = [n]) ∨ ∃ a b, ns = [a, b] ∧ a.value ≤ b.value)

/-! ## The characters of a number -/

section Numbers

/-- A character that ends a number. -/
def EndsNumber (c : Char) : Prop :=
  (c = ' ' ∨ c = '\t') ∨ c = '\x00' ∨ c = '\n' ∨ c = ',' ∨ c = '-'

/-- It is no digit and no part of a prefix. -/
theorem EndsNumber.not_digit {c : Char} (h : EndsNumber c) :
    isDigitIn 10 c = false ∧ isDigitIn 16 c = false ∧ c ≠ 'x' ∧ c ≠ 'X' := by
  rcases h with (rfl | rfl) | rfl | rfl | rfl | rfl <;> decide

/-- A character after a number that ends it and is no blank. -/
def Separator (c : Char) : Prop := c = '\x00' ∨ c = '\n' ∨ c = ',' ∨ c = '-'

/-- Whether a character is a separator is decidable. -/
instance (c : Char) : Decidable (Separator c) := by
  unfold Separator
  infer_instance

theorem eq_of_isBlank {c : Char} (h : isBlank c = true) : c = ' ' ∨ c = '\t' := by
  simpa [isBlank] using h

theorem Separator.not_blank {c : Char} (h : Separator c) : isBlank c = false := by
  rcases h with rfl | rfl | rfl | rfl <;> rfl

/-- Blanks are skipped up to a character that is none. -/
theorem skipBlank_append {blanks rest : List Char} (hblanks : ∀ c ∈ blanks, isBlank c = true)
    (hrest : ∀ c ∈ rest.head?, isBlank c = false) : skipBlank (blanks ++ rest) = rest := by
  rw [skipBlank, List.dropWhile_append_of_pos hblanks]
  cases rest with
  | nil => rfl
  | cons c rest => exact List.dropWhile_cons_of_neg (by simp [hrest c rfl])

/-- Blanks are skipped up to a separator. -/
theorem skipBlank_separator {blanks rest : List Char} (hblanks : ∀ c ∈ blanks, isBlank c = true)
    (hrest : Separator (charAt rest)) : skipBlank (blanks ++ rest) = rest := by
  refine skipBlank_append hblanks fun c hc => ?_
  cases rest with
  | nil => exact absurd hc (by simp)
  | cons d rest =>
    obtain rfl : d = c := Option.some.inj hc
    exact hrest.not_blank

/-- The character after a number and some blanks. -/
theorem endsNumber_head {after rest : List Char} (hafter : ∀ c ∈ after, isBlank c = true)
    (hrest : Separator (charAt rest)) : ∀ c ∈ (after ++ rest).head?, EndsNumber c := by
  intro c hc
  cases after with
  | nil =>
    cases rest with
    | nil => exact absurd hc (by simp)
    | cons d rest =>
      obtain rfl : d = c := Option.some.inj hc
      exact .inr hrest
  | cons d after =>
    obtain rfl : d = c := Option.some.inj hc
    exact .inl (eq_of_isBlank (hafter d List.mem_cons_self))

/-- No prefix is seen at a decimal number. -/
theorem isHexPrefix_decimal {digits rest : List Char} (hne : digits ≠ [])
    (hdigits : ∀ c ∈ digits, isDigitIn 10 c = true) (hrest : ∀ c ∈ rest.head?, EndsNumber c) :
    isHexPrefix (digits ++ rest) = false := by
  have hx : ∀ c ∈ (digits ++ rest).tail.head?, c ≠ 'x' ∧ c ≠ 'X' := by
    intro c hc
    obtain ⟨d, more, rfl⟩ := List.exists_cons_of_ne_nil hne
    rw [List.cons_append, List.tail_cons] at hc
    cases more with
    | nil => exact (hrest c hc).not_digit.2.2
    | cons m more =>
      obtain rfl : m = c := Option.some.inj hc
      have hm := hdigits m (by simp)
      constructor <;> (rintro rfl; exact absurd hm (by decide))
  obtain ⟨d, more, hcons⟩ := List.exists_cons_of_ne_nil hne
  rw [hcons, List.cons_append] at hx ⊢
  cases htail : more ++ rest with
  | nil => simp [isHexPrefix]
  | cons c others =>
    rw [htail] at hx
    have hc := hx c rfl
    simp [isHexPrefix, hc.1, hc.2]

/-- A number starts with a digit. -/
theorem Numeral.head {num : List Char} {value : ℕ} (h : Numeral num value) :
    ∃ c rest, num = c :: rest ∧ isDigitIn 16 c = true := by
  cases h with
  | decimal hne hdigits =>
    obtain ⟨c, rest, rfl⟩ := List.exists_cons_of_ne_nil hne
    have hc : digitVal c < 10 := of_decide_eq_true (hdigits c List.mem_cons_self)
    exact ⟨c, rest, rfl, decide_eq_true (by omega)⟩
  | hex hx hne hdigits => exact ⟨'0', _, rfl, by decide⟩

/-- The characters of a number of the grammar. -/
theorem Padded.mem {maxValue : ℕ} {s : List Char} {value : ℕ} (h : Padded maxValue s value)
    {c : Char} (hc : c ∈ s) :
    isBlank c = true ∨ isDigitIn 16 c = true ∨ c = 'x' ∨ c = 'X' := by
  obtain ⟨-, before, num, after, rfl, hbefore, hafter, hnum⟩ := h
  rw [List.mem_append, List.mem_append] at hc
  rcases hc with hc | hc | hc
  · exact .inl (hbefore c hc)
  · refine .inr ?_
    cases hnum with
    | decimal hne hdigits =>
      have hval : digitVal c < 10 := of_decide_eq_true (hdigits c hc)
      exact .inl (decide_eq_true (by omega))
    | hex hx hne hdigits =>
      rcases List.mem_cons.1 hc with rfl | hc
      · exact .inl rfl
      rcases List.mem_cons.1 hc with rfl | hc
      · exact .inr hx
      · exact .inl (hdigits c hc)
  · exact .inl (hafter c hc)

/-- They are neither terminator nor newline. -/
theorem Padded.notMem_line {maxValue : ℕ} {s : List Char} {value : ℕ}
    (h : Padded maxValue s value) : ∀ c ∈ s, (c != '\x00' && c != '\n') = true := by
  intro c hc
  rw [Bool.and_eq_true, bne_iff_ne, bne_iff_ne]
  rcases h.mem hc with hblank | hdigit | rfl | rfl
  · rcases eq_of_isBlank hblank with rfl | rfl <;> decide
  · constructor <;> (rintro rfl; exact absurd hdigit (by decide))
  · decide
  · decide

end Numbers

/-! ## What is taken for a list -/

/-- A number that `strtol` reads after the blanks before it: decimal digits after white space and a
sign, or a hexadecimal number. -/
inductive Written : List Char → ℤ → Prop
  | decimal {space sign digits : List Char} {neg : Bool} (hspace : ∀ c ∈ space, isSpace c = true)
      (hsign : Sign sign neg) (hne : digits ≠ []) (hdigits : ∀ c ∈ digits, isDigitIn 10 c = true) :
      Written (space ++ (sign ++ digits)) (signed neg (numeral 10 digits))
  | hex {before digits : List Char} {x : Char} (hbefore : ∀ c ∈ before, isBlank c = true)
      (hx : x = 'x' ∨ x = 'X') (hne : digits ≠ [])
      (hdigits : ∀ c ∈ digits, isDigitIn 16 c = true) :
      Written (before ++ '0' :: x :: digits) (signed false (numeral 16 digits))

/-- What is taken for a number before `rest`: a number in the range of a `long` whose last 32 bits
are below `max_value`, or nothing at all, which counts as 0. -/
inductive TakenNumber (maxValue : ℕ) : List Char → List Char → ℕ → Prop
  | written {num after rest : List Char} {v : ℤ} {value : ℕ} (hnum : Written num v)
      (hafter : ∀ c ∈ after, isBlank c = true) (hlong : -2 ^ 63 ≤ v ∧ v < 2 ^ 63)
      (hcut : (value : ℤ) = v % 2 ^ 32) (hlt : value < maxValue) :
      TakenNumber maxValue (num ++ after) rest value
  | missing {s rest : List Char} (hblank : ∀ c ∈ s, isBlank c = true) (hrest : charAt rest ≠ '\x00')
      (hno : ¬ StartsNumber rest) : TakenNumber maxValue s rest 0

/-- A text that is no number of the grammar, although it may be taken for one. -/
inductive Slip (s : List Char) : Prop
  /-- There is no number. -/
  | missing (hblank : ∀ c ∈ s, isBlank c = true)
  /-- It has a sign. -/
  | sign {c : Char} (hmem : c ∈ s) (hsign : c = '+' ∨ c = '-')
  /-- It has white space that is not blank. -/
  | space {c : Char} (hmem : c ∈ s) (hspace : isSpace c = true) (hblank : isBlank c = false)
  /-- The number does not fit into an `int32_t`. -/
  | large {before num after : List Char} {n : ℕ} (htext : s = before ++ (num ++ after))
      (hbefore : ∀ c ∈ before, isBlank c = true) (hafter : ∀ c ∈ after, isBlank c = true)
      (hnum : Numeral num n) (hlarge : 2 ^ 31 ≤ n)

/-- What is taken for a list: whatever is taken for a number, separated by `-` and `,`, up to the
end of the line. -/
inductive Taken (maxValue : ℕ) : List Char → List (List Reading) → Prop
  | ends {s rest : List Char} {value : ℕ} (h : TakenNumber maxValue s rest value)
      (hends : Ends rest) : Taken maxValue (s ++ rest) [[⟨s, value⟩]]
  | comma {s rest : List Char} {value : ℕ} {items : List (List Reading)}
      (h : TakenNumber maxValue s (',' :: rest) value) (ht : Taken maxValue rest items) :
      Taken maxValue (s ++ ',' :: rest) ([⟨s, value⟩] :: items)
  | dash {s rest : List Char} {value : ℕ} {ns : List Reading} {items : List (List Reading)}
      (h : TakenNumber maxValue s ('-' :: rest) value) (ht : Taken maxValue rest (ns :: items)) :
      Taken maxValue (s ++ '-' :: rest) ((⟨s, value⟩ :: ns) :: items)

/-- An item that is no item of the grammar, although it is taken for one: some number is none, or
there are three numbers or more, or a range is decreasing. -/
def Malformed (ns : List Reading) : Prop :=
  (∃ n ∈ ns, Slip n.raw) ∨ 3 ≤ ns.length ∨ ∃ a b, ns = [a, b] ∧ b.value < a.value

/-- The values that an item has in the array: those of the range of its last two numbers, or its
last number alone. A number `array_size` before the last one is not seen. -/
def lastRange (arraySize : ℕ) (ns : List Reading) : List ℕ :=
  match ns.reverse with
  | [] => []
  | [n] => [n.value]
  | b :: a :: _ => if a.value = arraySize then [b.value] else span a.value b.value

section Taken

variable {maxValue : ℕ} {args e s : List Char} {value : ℕ}

/-- A number is read exactly if `strtol` reads one whose last 32 bits are below `max_value`. -/
theorem readNumber_eq_some (hmax : maxValue ≤ 2 ^ 31) :
    readNumber maxValue args = some (value, e) ↔ charAt (skipBlank args) ≠ '\x00' ∧
      (strtolPrefixed (skipBlank args)).erange = false ∧
      (value : ℤ) = (strtolPrefixed (skipBlank args)).value % 2 ^ 32 ∧ value < maxValue ∧
      e = skipBlank (strtolPrefixed (skipBlank args)).endptr := by
  unfold readNumber
  dsimp only
  generalize strtolPrefixed (skipBlank args) = num
  -- the last 32 bits, as a number between `-2 ^ 31` and `2 ^ 31`
  have hcast : ((BitVec.ofInt 32 num.value).toInt = num.value % 2 ^ 32 ∧
      num.value % 2 ^ 32 < 2 ^ 31) ∨ (BitVec.ofInt 32 num.value).toInt < 0 ∧
      2 ^ 31 ≤ num.value % 2 ^ 32 := by
    rw [BitVec.toInt_ofInt, Int.bmod_def]
    split <;> omega
  generalize (BitVec.ofInt 32 num.value).toInt = idx at hcast ⊢
  split
  · next hnul => simp [hnul]
  split
  · next herange => simp [herange]
  split
  · next hrange =>
    refine ⟨fun h => absurd h (by simp), ?_⟩
    rintro ⟨-, -, hcut, hlt, -⟩
    omega
  · next hnul herange hrange =>
    simp only [Option.some.injEq, Prod.mk.injEq]
    constructor
    · rintro ⟨rfl, rfl⟩
      exact ⟨hnul, Bool.not_eq_true _ ▸ herange, by omega, by omega, rfl⟩
    · rintro ⟨-, -, hcut, hlt, rfl⟩
      exact ⟨by omega, rfl⟩

/-- No prefix is seen at white space or a sign. -/
theorem isHexPrefix_of_head {c : Char} (hc : c ≠ '0') (rest : List Char) :
    isHexPrefix (c :: rest) = false := by
  cases rest with
  | nil => simp [isHexPrefix]
  | cons d rest => simp [isHexPrefix, hc]

/-- White space in front of a number, without the blanks at its start. -/
theorem skipBlank_space {space rest : List Char} (hrest : ∀ c ∈ rest.head?, isBlank c = false) :
    skipBlank (space ++ rest) = skipBlank space ++ rest := by
  rw [skipBlank, List.dropWhile_append]
  split
  · next hnil =>
    have hskip : skipBlank space = [] := List.isEmpty_iff.1 hnil
    rw [hskip, List.nil_append]
    cases rest with
    | nil => rfl
    | cons c rest => exact List.dropWhile_cons_of_neg (by simp [hrest c rfl])
  · rfl

/-- The first character of a number with its sign. -/
theorem head_signed {sign digits : List Char} {neg : Bool} (hsign : Sign sign neg)
    (hne : digits ≠ []) (hdigits : ∀ c ∈ digits, isDigitIn 10 c = true) (rest : List Char) :
    ∃ c more, sign ++ (digits ++ rest) = c :: more ∧ isBlank c = false ∧ c ≠ '\x00' := by
  obtain ⟨d, more, rfl⟩ := List.exists_cons_of_ne_nil hne
  cases hsign with
  | none =>
    have hd := hdigits d List.mem_cons_self
    refine ⟨d, more ++ rest, rfl, ?_, ?_⟩
    · by_contra hnot
      rcases eq_of_isBlank (Bool.not_eq_false _ ▸ hnot) with rfl | rfl <;>
        exact absurd hd (by decide)
    · rintro rfl
      exact absurd hd (by decide)
  | plus => exact ⟨'+', _, rfl, rfl, by decide⟩
  | minus => exact ⟨'-', _, rfl, rfl, by decide⟩

/-- What `strtol` makes of a number and something else after it. -/
theorem strtolPrefixed_written {num rest : List Char} {v : ℤ} (h : Written num v)
    (hrest : ∀ c ∈ rest.head?, EndsNumber c) :
    charAt (skipBlank (num ++ rest)) ≠ '\x00' ∧
      ∃ neg n, v = signed neg n ∧
        strtolPrefixed (skipBlank (num ++ rest)) = clamped neg n rest := by
  cases h with
  | @decimal space sign digits neg hspace hsign hne hdigits =>
    -- the first character behind the white space is a sign or a digit
    obtain ⟨c, more, hcons, hblank, hnul⟩ := head_signed hsign hne hdigits rest
    have hskip : skipBlank (space ++ (sign ++ digits) ++ rest) =
        skipBlank space ++ (sign ++ (digits ++ rest)) := by
      rw [List.append_assoc, List.append_assoc]
      refine skipBlank_space fun d hd => ?_
      rw [hcons] at hd
      obtain rfl : c = d := Option.some.inj hd
      exact hblank
    have hskipped : ∀ c ∈ skipBlank space, isSpace c = true :=
      fun c hc => hspace c ((List.dropWhile_suffix _).mem hc)
    rw [hskip]
    -- a decimal number does not look like one with a prefix
    have hprefix : isHexPrefix (skipBlank space ++ (sign ++ (digits ++ rest))) = false := by
      cases hcase : skipBlank space with
      | cons d more =>
        refine isHexPrefix_of_head ?_ _
        rintro rfl
        exact absurd (hskipped '0' (by rw [hcase]; exact List.mem_cons_self)) (by decide)
      | nil =>
        cases hsign with
        | none =>
          show isHexPrefix (digits ++ rest) = false
          exact isHexPrefix_decimal hne hdigits hrest
        | plus => exact isHexPrefix_of_head (by decide) _
        | minus => exact isHexPrefix_of_head (by decide) _
    refine ⟨?_, neg, numeral 10 digits, rfl, ?_⟩
    · cases hcase : skipBlank space with
      | cons d more =>
        -- white space that is no blank is left, which `strtol` passes over
        rintro (rfl : d = '\x00')
        exact absurd (hskipped '\x00' (by rw [hcase]; exact List.mem_cons_self)) (by decide)
      | nil =>
        rw [List.nil_append, hcons]
        exact hnul
    · rw [strtolPrefixed, hprefix, if_neg (by decide)]
      exact strtolEnd_signed hskipped hsign hne hdigits fun c hc => (hrest c hc).not_digit.1
  | @hex before digits x hbefore hx hne hdigits =>
    -- what is before a prefix are blanks, since white space would end in the decimal case
    have hskip : skipBlank (before ++ '0' :: x :: digits ++ rest) =
        '0' :: x :: (digits ++ rest) := by
      rw [List.append_assoc]
      refine skipBlank_append hbefore fun c hc => ?_
      obtain rfl : '0' = c := Option.some.inj hc
      rfl
    have hprefix : isHexPrefix ('0' :: x :: (digits ++ rest)) = true := by
      rcases hx with rfl | rfl <;> rfl
    rw [hskip]
    refine ⟨by show '0' ≠ '\x00'; decide, false, numeral 16 digits, rfl, ?_⟩
    rw [strtolPrefixed, hprefix, if_pos rfl]
    exact strtolEnd_hex hx hne hdigits fun c hc => (hrest c hc).not_digit.2.1

/-- What `strtol` makes of a text that starts with no blank, when a separator is left: it reads a
number, or nothing. -/
theorem strtolPrefixed_cases (hskip : skipBlank args = args)
    (hend : Separator (charAt (skipBlank (strtolPrefixed args).endptr))) :
    (∃ num neg n rest, args = num ++ rest ∧ Written num (signed neg n) ∧
      strtolPrefixed args = clamped neg n rest) ∨
      ¬ StartsNumber args ∧ strtolPrefixed args = ⟨0, false, args⟩ := by
  by_cases hhex : isHexPrefix args = true
  · -- the prefix, and hexadecimal digits after it
    obtain ⟨x, more, hx, rfl⟩ : ∃ x more, (x = 'x' ∨ x = 'X') ∧ args = '0' :: x :: more := by
      simp only [isHexPrefix, Bool.or_eq_true, beq_iff_eq] at hhex
      rcases hhex with htake | htake
      · refine ⟨'x', args.drop 2, .inl rfl, ?_⟩
        rw [← List.take_append_drop 2 args, htake]
        rfl
      · refine ⟨'X', args.drop 2, .inr rfl, ?_⟩
        rw [← List.take_append_drop 2 args, htake]
        rfl
    rw [strtolPrefixed, hhex, if_pos rfl] at hend ⊢
    obtain ⟨hsplit, hdigits, hrest⟩ := split_digits 16 more
    by_cases hne : more.takeWhile (isDigitIn 16) = []
    · rw [hne] at hsplit
      rw [strtolEnd_hex_none hx (by rw [hsplit]; exact hrest)] at hend
      rcases hx with rfl | rfl
      · exact absurd (show Separator 'x' from hend) (by decide)
      · exact absurd (show Separator 'X' from hend) (by decide)
    · have hread := strtolEnd_hex hx hne hdigits hrest
      have hnone : ∀ c ∈ ([] : List Char), isBlank c = true := fun c hc => absurd hc (by simp)
      rw [← hsplit] at hread
      refine .inl ⟨'0' :: x :: more.takeWhile (isDigitIn 16), false,
        numeral 16 (more.takeWhile (isDigitIn 16)), more.dropWhile (isDigitIn 16), ?_,
        .hex hnone hx hne hdigits, hread⟩
      rw [List.cons_append, List.cons_append, ← hsplit]
  · rw [strtolPrefixed, if_neg hhex]
    rcases strtolEnd_cases args with
      ⟨space, sign, neg, digits, rest, hargs, hspace, hsign, hne, hdigits, hread⟩ | hnone
    · refine .inl ⟨space ++ (sign ++ digits), neg, numeral 10 digits, rest, ?_,
        .decimal hspace hsign hne hdigits, hread⟩
      rw [hargs, List.append_assoc, List.append_assoc]
    · exact .inr hnone

/-- Blanks before a number. -/
theorem Written.blanks {before num : List Char} {v : ℤ} (hbefore : ∀ c ∈ before, isBlank c = true)
    (h : Written num v) : Written (before ++ num) v := by
  have hspace : ∀ c ∈ before, isSpace c = true := by
    intro c hc
    rcases eq_of_isBlank (hbefore c hc) with rfl | rfl <;> rfl
  cases h with
  | decimal hs hsign hne hdigits =>
    rw [← List.append_assoc]
    exact .decimal (List.forall_mem_append.2 ⟨hspace, hs⟩) hsign hne hdigits
  | hex hb hx hne hdigits =>
    rw [← List.append_assoc]
    exact .hex (List.forall_mem_append.2 ⟨hbefore, hb⟩) hx hne hdigits

/-- What is read as a number, up to a separator, is what is taken for one. -/
theorem readNumber_iff (hmax : maxValue ≤ 2 ^ 31) (hpos : 0 < maxValue)
    (hsep : Separator (charAt e)) : readNumber maxValue args = some (value, e) ↔
      ∃ s, args = s ++ e ∧ TakenNumber maxValue s e value := by
  -- blanks are passed over once
  have hidem : ∀ p, skipBlank (skipBlank p) = skipBlank p := fun p =>
    List.dropWhile_idempotent _ _
  have hblanks : ∀ p, ∃ blanks, p = blanks ++ skipBlank p ∧ ∀ c ∈ blanks, isBlank c = true :=
    fun p => ⟨_, (List.takeWhile_append_dropWhile).symm, fun c hc => List.mem_takeWhile_imp hc⟩
  rw [readNumber_eq_some hmax]
  constructor
  · rintro ⟨hnul, herange, hcut, hlt, rfl⟩
    obtain ⟨before, hargs, hbefore⟩ := hblanks args
    -- the text begins with a number, or with none
    rcases strtolPrefixed_cases (hidem args) hsep with
      ⟨num, neg, n, rest, hnum, hwritten, hread⟩ | ⟨hno, hread⟩
    · rw [hread, clamped_endptr]
      rw [hread] at herange hcut
      obtain ⟨after, hafter, hblank⟩ := hblanks rest
      refine ⟨before ++ num ++ after, ?_, .written (hwritten.blanks hbefore) hblank
        ((clamped_erange neg n rest).1 herange) ?_ hlt⟩
      · rw [List.append_assoc, ← hafter, List.append_assoc, ← hnum, ← hargs]
      · -- the value of the function is the number cut to 32 bits
        rw [hcut, clamped_value herange]
    · rw [hread, hidem]
      rw [hread] at hcut
      -- without a number `strtol` gives zero
      obtain rfl : value = 0 := by
        have hzero : (value : ℤ) = 0 := hcut
        omega
      exact ⟨before, hargs, .missing hbefore hnul hno⟩
  · rintro ⟨s, rfl, htaken⟩
    cases htaken with
    | @written num after _ v _ hnum hafter hlong hcut hlt =>
      -- a number is written there, and the blanks behind it are passed over
      obtain ⟨hnul, neg, n, rfl, hread⟩ :=
        strtolPrefixed_written hnum (endsNumber_head hafter hsep)
      have herange := (clamped_erange neg n (after ++ e)).2 hlong
      rw [List.append_assoc, hread, clamped_endptr, clamped_value herange]
      refine ⟨hnul, herange, hcut, hlt, ?_⟩
      exact (skipBlank_separator hafter hsep).symm
    | missing hblank hrest hno =>
      -- no number is written there, and the text is left at the separator
      have hskip : skipBlank (s ++ e) = e := skipBlank_separator hblank hsep
      have hnone : ∀ c ∈ ([] : List Char), isBlank c = true := fun c hc => absurd hc (by simp)
      have hend : skipBlank e = e := skipBlank_separator hnone hsep
      -- `strtol` reads nothing of it
      have hread : strtolPrefixed e = ⟨0, false, e⟩ := by
        have hhex : isHexPrefix e = false := by
          cases e with
          | nil => exact absurd rfl hrest
          | cons c rest =>
            refine isHexPrefix_of_head ?_ rest
            rintro rfl
            exact absurd (show Separator '0' from hsep) (by decide)
        rw [strtolPrefixed, hhex, if_neg (by decide)]
        rcases strtolEnd_cases e with
          ⟨space, sign, neg, digits, rest, hargs, hspace, hsign, hne, hdigits, -⟩ | hnone
        · -- what it would have read is a number
          obtain ⟨d, more, rfl⟩ := List.exists_cons_of_ne_nil hne
          exact absurd ⟨space, sign, neg, d, more ++ rest, hargs, hspace, hsign,
            hdigits d List.mem_cons_self⟩ hno
        · exact hnone.2
      rw [hskip, hread]
      exact ⟨hrest, rfl, rfl, hpos, hend.symm⟩

/-- A character that is not the terminator is the first one of the text. -/
theorem eq_cons_of_charAt {c : Char} (hc : c ≠ '\x00') (h : charAt e = c) : e = c :: e.tail := by
  cases e with
  | nil => exact absurd h.symm hc
  | cons d rest =>
    obtain rfl : d = c := h
    rfl

/-- One round of the loop, after what is taken for a number. -/
theorem scanLoop_taken (hmax : maxValue ≤ 2 ^ 31) (hpos : 0 < maxValue)
    (h : TakenNumber maxValue s e value) (hsep : Separator (charAt e)) (fuel : ℕ) :
    scanLoop maxValue (fuel + 1) (s ++ e) =
      if charAt e = '-' then (scanLoop maxValue fuel e.tail).dash ⟨s, value⟩
      else if charAt e = ',' then (scanLoop maxValue fuel e.tail).comma ⟨s, value⟩
      else if Ends e then ⟨[[⟨s, value⟩]], true⟩
      else ⟨[], false⟩ := by
  have hraw : (s ++ e).take ((s ++ e).length - e.length) = s := by
    rw [List.length_append, Nat.add_sub_cancel, List.take_left]
  rw [scanLoop, (readNumber_iff hmax hpos hsep).2 ⟨s, rfl, h⟩]
  dsimp only
  rw [hraw]

/-- What is taken for a list is read to its end. -/
theorem scanLoop_of_taken (hmax : maxValue ≤ 2 ^ 31) (hpos : 0 < maxValue)
    {items : List (List Reading)} (h : Taken maxValue args items) {fuel : ℕ}
    (hfuel : args.length < fuel) : scanLoop maxValue fuel args = ⟨items, true⟩ := by
  induction h generalizing fuel with
  | @ends s rest value h hends =>
    obtain ⟨fuel, rfl⟩ := Nat.exists_eq_add_one_of_ne_zero (Nat.ne_zero_of_lt hfuel)
    have hsep : Separator (charAt rest) := by
      rcases hends with h | h
      · exact .inl h
      · exact .inr (.inl h)
    have hdash : charAt rest ≠ '-' := by rcases hends with h | h <;> rw [h] <;> decide
    have hcomma : charAt rest ≠ ',' := by rcases hends with h | h <;> rw [h] <;> decide
    rw [scanLoop_taken hmax hpos h hsep, if_neg hdash, if_neg hcomma, if_pos hends]
  | @comma s rest value items h ht ih =>
    obtain ⟨fuel, rfl⟩ := Nat.exists_eq_add_one_of_ne_zero (Nat.ne_zero_of_lt hfuel)
    have hdash : charAt (',' :: rest) ≠ '-' := by
      show ',' ≠ '-'
      decide
    rw [List.length_append, List.length_cons] at hfuel
    rw [scanLoop_taken hmax hpos h (.inr (.inr (.inl rfl))), if_neg hdash, if_pos (by rfl),
      List.tail_cons, ih (by omega), Items.comma]
  | @dash s rest value ns items h ht ih =>
    obtain ⟨fuel, rfl⟩ := Nat.exists_eq_add_one_of_ne_zero (Nat.ne_zero_of_lt hfuel)
    rw [List.length_append, List.length_cons] at hfuel
    rw [scanLoop_taken hmax hpos h (.inr (.inr (.inr rfl))), if_pos (by rfl), List.tail_cons,
      ih (by omega), Items.dash]

/-- A text that is read to its end is taken for a list. -/
theorem taken_of_scanLoop (hmax : maxValue ≤ 2 ^ 31) (hpos : 0 < maxValue) (fuel : ℕ)
    (args : List Char) (hcomplete : (scanLoop maxValue fuel args).complete = true) :
    (scanLoop maxValue fuel args).list ≠ [] ∧
      Taken maxValue args (scanLoop maxValue fuel args).list := by
  induction fuel generalizing args with
  | zero => exact absurd hcomplete (by simp [scanLoop])
  | succ fuel ih =>
    cases hread : readNumber maxValue args with
    | none => exact absurd hcomplete (by simp [scanLoop, hread])
    | some pair =>
      obtain ⟨value, e⟩ := pair
      by_cases hsep : Separator (charAt e)
      · obtain ⟨s, rfl, htaken⟩ := (readNumber_iff hmax hpos hsep).1 hread
        rw [scanLoop_taken hmax hpos htaken hsep] at hcomplete ⊢
        by_cases hdash : charAt e = '-'
        · rw [if_pos hdash] at hcomplete ⊢
          have hcons := eq_cons_of_charAt (by decide) hdash
          have hrest := ih e.tail
          unfold Items.dash at hcomplete ⊢
          cases hlist : (scanLoop maxValue fuel e.tail).list with
          | nil =>
            simp only [hlist] at hcomplete hrest
            exact absurd rfl (hrest hcomplete).1
          | cons ns rest =>
            simp only [hlist] at hcomplete hrest ⊢
            rw [hcons] at htaken ⊢
            exact ⟨List.cons_ne_nil _ _, .dash htaken (hrest hcomplete).2⟩
        rw [if_neg hdash] at hcomplete ⊢
        by_cases hcomma : charAt e = ','
        · rw [if_pos hcomma] at hcomplete ⊢
          have hcons := eq_cons_of_charAt (by decide) hcomma
          have hrest := ih e.tail hcomplete
          rw [hcons] at htaken ⊢
          exact ⟨List.cons_ne_nil _ _, .comma htaken hrest.2⟩
        rw [if_neg hcomma] at hcomplete ⊢
        by_cases hends : Ends e
        · rw [if_pos hends]
          exact ⟨List.cons_ne_nil _ _, .ends htaken hends⟩
        · rw [if_neg hends] at hcomplete
          exact absurd hcomplete (by simp)
      · -- after anything else the loop gives up
        have hdash : charAt e ≠ '-' := fun h => hsep (.inr (.inr (.inr h)))
        have hcomma : charAt e ≠ ',' := fun h => hsep (.inr (.inr (.inl h)))
        have hends : ¬ Ends e := by
          rintro (h | h)
          · exact hsep (.inl h)
          · exact hsep (.inr (.inl h))
        exact absurd hcomplete (by simp [scanLoop, hread, hdash, hcomma, hends])

/-- What is taken for a list is what is read to its end. -/
theorem taken_iff (hmax : maxValue ≤ 2 ^ 31) (hpos : 0 < maxValue) (args : List Char)
    (items : List (List Reading)) :
    Taken maxValue args items ↔ scan maxValue args = ⟨items, true⟩ := by
  constructor
  · exact fun h => scanLoop_of_taken hmax hpos h (Nat.lt_succ_self _)
  · intro h
    have hscan := taken_of_scanLoop hmax hpos (args.length + 1) args
    unfold scan at h
    rw [h] at hscan
    exact (hscan rfl).2

/-- The value of a number and blanks after it is determined by the text. -/
theorem Written.value_eq {num num' after after' : List Char} {v v' : ℤ} (h : Written num v)
    (h' : Written num' v') (hafter : ∀ c ∈ after, isBlank c = true)
    (hafter' : ∀ c ∈ after', isBlank c = true) (htext : num ++ after = num' ++ after')
    (hlong : -2 ^ 63 ≤ v ∧ v < 2 ^ 63) : v' = v := by
  have hends : ∀ blanks : List Char, (∀ c ∈ blanks, isBlank c = true) →
      ∀ c ∈ blanks.head?, EndsNumber c :=
    fun blanks hblanks c hc => .inl (eq_of_isBlank (hblanks c (List.mem_of_mem_head? hc)))
  obtain ⟨-, neg, n, rfl, hread⟩ := strtolPrefixed_written h (hends after hafter)
  obtain ⟨-, neg', n', rfl, hread'⟩ := strtolPrefixed_written h' (hends after' hafter')
  rw [← htext, hread] at hread'
  have herange := (clamped_erange neg n after).2 hlong
  have herange' : (clamped neg' n' after').erange = false := by rw [← hread', herange]
  rw [← clamped_value herange, hread', clamped_value herange']

/-- A number of the grammar is one that `strtol` reads. -/
theorem Numeral.written {num : List Char} {n : ℕ} (h : Numeral num n) : Written num n := by
  have hnone : ∀ c ∈ ([] : List Char), isSpace c = true := fun c hc => absurd hc (by simp)
  have hnone' : ∀ c ∈ ([] : List Char), isBlank c = true := fun c hc => absurd hc (by simp)
  cases h with
  | decimal hne hdigits => exact .decimal hnone .none hne hdigits
  | hex hx hne hdigits => exact .hex hnone' hx hne hdigits

/-- A number of the grammar is taken for one. -/
theorem Padded.taken (hmax : maxValue ≤ 2 ^ 31) (h : Padded maxValue s value) (rest : List Char) :
    TakenNumber maxValue s rest value := by
  obtain ⟨hlt, before, num, after, rfl, hbefore, hafter, hnum⟩ := h
  rw [← List.append_assoc]
  exact .written (hnum.written.blanks hbefore) hafter (by omega) (by omega) hlt

/-- A number of the grammar is no slip. -/
theorem Padded.not_slip (hmax : maxValue ≤ 2 ^ 31) (h : Padded maxValue s value) : ¬ Slip s := by
  intro hslip
  cases hslip with
  | missing hblank =>
    obtain ⟨-, before, num, after, rfl, -, -, hnum⟩ := h
    obtain ⟨c, rest, rfl, hc⟩ := hnum.head
    rcases eq_of_isBlank (hblank c (by simp)) with rfl | rfl <;> exact absurd hc (by decide)
  | @sign c hmem hsign =>
    have hc := h.mem hmem
    rcases hsign with rfl | rfl <;> exact absurd hc (by decide)
  | @space c hmem hspace hblank =>
    rcases h.mem hmem with hc | hc | rfl | rfl
    · rw [hblank] at hc
      exact absurd hc (by decide)
    · rw [(isSpace_of_isDigitIn (Nat.le_refl 16) hc).1] at hspace
      exact absurd hspace (by decide)
    · exact absurd hspace (by decide)
    · exact absurd hspace (by decide)
  | @large before num after n htext hbefore hafter hnum hlarge =>
    obtain ⟨hlt, before', num', after', htext', hbefore', hafter', hnum'⟩ := h
    have hvalue := (hnum'.written.blanks hbefore').value_eq (hnum.written.blanks hbefore) hafter'
      hafter (by rw [List.append_assoc, List.append_assoc, ← htext, ← htext']) (by omega)
    omega

/-- A number of the grammar that is cut to its last 32 bits is a number below `max_value`, or a
slip. -/
theorem padded_or_slip {before num after : List Char} {n : ℕ} (hnum : Numeral num n)
    (hbefore : ∀ c ∈ before, isBlank c = true) (hafter : ∀ c ∈ after, isBlank c = true)
    (hcut : (value : ℤ) = (n : ℤ) % 2 ^ 32) (hlt : value < maxValue) :
    Padded maxValue (before ++ (num ++ after)) value ∨ Slip (before ++ (num ++ after)) := by
  by_cases hlarge : 2 ^ 31 ≤ n
  · exact .inr (.large rfl hbefore hafter hnum hlarge)
  · obtain rfl : value = n := by omega
    exact .inl ⟨hlt, before, num, after, rfl, hbefore, hafter, hnum⟩

/-- What is taken for a number is one exactly if it is no slip. -/
theorem TakenNumber.padded_iff (hmax : maxValue ≤ 2 ^ 31) {rest : List Char}
    (h : TakenNumber maxValue s rest value) : Padded maxValue s value ↔ ¬ Slip s := by
  refine ⟨Padded.not_slip hmax, fun hno => ?_⟩
  cases h with
  | missing hblank => exact absurd (.missing hblank) hno
  | @written num after _ v _ hnum hafter hlong hcut hlt =>
    cases hnum with
    | @decimal space sign digits neg hspace hsign hne hdigits =>
      have hbefore : ∀ c ∈ space, isBlank c = true := by
        intro c hc
        by_contra hblank
        exact hno (.space (by simp [hc]) (hspace c hc) (Bool.not_eq_true _ ▸ hblank))
      cases hsign with
      | none =>
        have hor := padded_or_slip (.decimal hne hdigits) hbefore hafter hcut hlt
        rw [← List.append_assoc] at hor
        exact hor.resolve_right hno
      | plus =>
        have hmem : '+' ∈ space ++ (['+'] ++ digits) ++ after := by simp
        exact absurd (.sign hmem (.inl rfl)) hno
      | minus =>
        have hmem : '-' ∈ space ++ (['-'] ++ digits) ++ after := by simp
        exact absurd (.sign hmem (.inr rfl)) hno
    | @hex before digits x hbefore hx hne hdigits =>
      have hor := padded_or_slip (.hex hx hne hdigits) hbefore hafter hcut hlt
      rw [← List.append_assoc] at hor
      exact hor.resolve_right hno

/-- There is an item. -/
theorem Taken.ne_nil {items : List (List Reading)} (h : Taken maxValue args items) :
    items ≠ [] := by
  cases h <;> exact List.cons_ne_nil _ _

/-- The items that are taken have numbers that are taken. -/
theorem Taken.mem {items : List (List Reading)} (h : Taken maxValue args items) :
    ∀ ns ∈ items, ns ≠ [] ∧ ∀ n ∈ ns, ∃ rest, TakenNumber maxValue n.raw rest n.value := by
  induction h with
  | ends h hends =>
    intro ns hns
    rw [List.mem_singleton.1 hns]
    refine ⟨List.cons_ne_nil _ _, fun n hn => ?_⟩
    rw [List.mem_singleton.1 hn]
    exact ⟨_, h⟩
  | comma h ht ih =>
    rw [List.forall_mem_cons]
    refine ⟨⟨List.cons_ne_nil _ _, fun n hn => ?_⟩, ih⟩
    rw [List.mem_singleton.1 hn]
    exact ⟨_, h⟩
  | dash h ht ih =>
    rw [List.forall_mem_cons] at ih ⊢
    refine ⟨⟨List.cons_ne_nil _ _, ?_⟩, ih.2⟩
    rw [List.forall_mem_cons]
    exact ⟨⟨_, h⟩, ih.1.2⟩

/-- An item that is taken is an item of the grammar, or malformed. -/
theorem Taken.proper_iff (hmax : maxValue ≤ 2 ^ 31) {items : List (List Reading)}
    (h : Taken maxValue args items) {ns : List Reading} (hns : ns ∈ items) :
    Proper maxValue ns ↔ ¬ Malformed ns := by
  obtain ⟨hne, hnum⟩ := h.mem ns hns
  have hpadded : (∀ n ∈ ns, Padded maxValue n.raw n.value) ↔ ¬ ∃ n ∈ ns, Slip n.raw := by
    constructor
    · rintro hall ⟨n, hn, hslip⟩
      exact (hall n hn).not_slip hmax hslip
    · intro hno n hn
      obtain ⟨rest, htaken⟩ := hnum n hn
      exact (htaken.padded_iff hmax).2 fun hslip => hno ⟨n, hn, hslip⟩
  have hshape : ((∃ n, ns = [n]) ∨ ∃ a b, ns = [a, b] ∧ a.value ≤ b.value) ↔
      ¬ (3 ≤ ns.length ∨ ∃ a b, ns = [a, b] ∧ b.value < a.value) := by
    rcases ns with - | ⟨a, - | ⟨b, - | ⟨c, more⟩⟩⟩
    · exact absurd rfl hne
    · simp
    · simp
    · simp
  unfold Proper Malformed
  rw [hpadded, hshape, ← not_or]

theorem span_self (n : ℕ) : span n n = [n] := by
  rw [span, Nat.add_sub_cancel_left, List.range'_one]

/-- The values that are stored for an item are those of its last range. -/
theorem storedItem_eq (arraySize : ℕ) (ns : List Reading) :
    storedItem arraySize arraySize ns = lastRange arraySize ns := by
  have hlast : ∀ (first : List Reading) (a b : Reading) (min : ℕ),
      storedItem arraySize min (first ++ [a, b]) =
        if a.value = arraySize then [b.value] else span a.value b.value := by
    intro first a b
    induction first with
    | nil =>
      intro min
      rw [List.nil_append, storedItem, if_neg (List.cons_ne_nil _ _), storedItem, if_pos rfl]
      split
      · exact span_self _
      · rfl
    | cons n first ih =>
      intro min
      rw [List.cons_append, storedItem, if_neg (by simp), ih]
  unfold lastRange
  cases hrev : ns.reverse with
  | nil => rw [List.reverse_eq_nil_iff.1 hrev, storedItem]
  | cons b more =>
    have hns : ns = more.reverse ++ [b] := by
      rw [← List.reverse_reverse ns, hrev, List.reverse_cons]
    cases more with
    | nil =>
      rw [hns, List.reverse_nil, List.nil_append, storedItem, if_pos rfl, if_pos rfl, span_self]
    | cons a first =>
      rw [hns, List.reverse_cons, List.append_assoc, List.singleton_append, hlast]

/-- The values that are stored for what is taken for a list. -/
theorem Taken.storedValues {l : Limits} {items : List (List Reading)}
    (h : Taken l.maxValue args items) :
    storedValues l args = items.flatMap (lastRange l.arraySize) := by
  have hstored : ∀ items : List (List Reading),
      stored l.arraySize l.arraySize items = items.flatMap (lastRange l.arraySize) := by
    intro items
    induction items with
    | nil => rfl
    | cons ns rest ih => rw [stored, ih, storedItem_eq, List.flatMap_cons]
  rw [NumberList.storedValues, (taken_iff (Nat.le_of_lt l.maxValue_lt) l.maxValue_pos _ _).1 h,
    hstored]

end Taken

/-! ## The grammar and what is read -/

section Grammar

variable {maxValue : ℕ}

/-- The text of an item. -/
def itemText : List Reading → List Char
  | [] => []
  | n :: ns => if ns = [] then n.raw else n.raw ++ '-' :: itemText ns

/-- The text of several items. -/
def listText : List (List Reading) → List Char
  | [] => []
  | ns :: rest => if rest = [] then itemText ns else itemText ns ++ ',' :: listText rest

/-- A number that starts an item is written before the others. -/
theorem listText_dash (n : Reading) {ns : List Reading} (hns : ns ≠ [])
    (rest : List (List Reading)) :
    listText ((n :: ns) :: rest) = n.raw ++ '-' :: listText (ns :: rest) := by
  rw [listText, listText, itemText, if_neg hns]
  split
  · rfl
  · rw [List.append_assoc, List.cons_append]

/-- The line starts with the characters that do not end it. -/
theorem line_append {raw : List Char} (h : ∀ c ∈ raw, (c != '\x00' && c != '\n') = true)
    (e : List Char) : line (raw ++ e) = raw ++ line e :=
  List.takeWhile_append_of_pos h

theorem line_of_ends {e : List Char} (h : Ends e) : line e = [] := by
  cases e with
  | nil => rfl
  | cons c rest =>
    refine List.takeWhile_cons_of_neg ?_
    rcases h with h | h <;>
    · obtain rfl : c = _ := h
      decide

/-- A text that is taken for a list is the text of its items, when these have no characters that end
a line. -/
theorem Taken.line_eq {args : List Char} {items : List (List Reading)}
    (h : Taken maxValue args items)
    (hraw : ∀ ns ∈ items, ∀ n ∈ ns, ∀ c ∈ n.raw, (c != '\x00' && c != '\n') = true) :
    line args = listText items := by
  induction h with
  | ends h hends =>
    simp only [List.forall_mem_singleton] at hraw
    rw [listText, if_pos rfl, itemText, if_pos rfl, line_append hraw, line_of_ends hends,
      List.append_nil]
  | comma h ht ih =>
    rw [List.forall_mem_cons, List.forall_mem_singleton] at hraw
    have hline := ih hraw.2
    rw [listText, if_neg ht.ne_nil, itemText, if_pos rfl, ← hline, line_append hraw.1]
    rfl
  | @dash s rest value ns items h ht ih =>
    rw [List.forall_mem_cons, List.forall_mem_cons] at hraw
    have hline := ih (List.forall_mem_cons.2 ⟨hraw.1.2, hraw.2⟩)
    have hns := (ht.mem ns List.mem_cons_self).1
    rw [listText_dash _ hns, ← hline, line_append hraw.1.1]
    rfl

/-- An item of the grammar. -/
theorem Proper.listItem {ns : List Reading} (h : Proper maxValue ns) :
    ListItem maxValue (itemText ns) (expand ns) := by
  obtain ⟨hpadded, ⟨n, rfl⟩ | ⟨a, b, rfl, hle⟩⟩ := h
  · exact .number (hpadded n List.mem_cons_self)
  · exact .range (hpadded a List.mem_cons_self) (hpadded b (by simp)) hle

/-- Items of the grammar are a list of the grammar. -/
theorem numList_of_proper (items : List (List Reading)) (hne : items ≠ [])
    (hproper : ∀ ns ∈ items, Proper maxValue ns) :
    NumList maxValue (listText items) (items.flatMap expand) := by
  induction items with
  | nil => exact absurd rfl hne
  | cons ns rest ih =>
    rw [List.forall_mem_cons] at hproper
    have hitem := hproper.1.listItem
    rw [listText, List.flatMap_cons]
    by_cases hrest : rest = []
    · rw [if_pos hrest, hrest, List.flatMap_nil, List.append_nil]
      exact .last hitem
    · rw [if_neg hrest]
      exact .cons hitem (ih hrest hproper.2)

/-- A list of the grammar is taken for one, with the items of the grammar. -/
theorem taken_of_numList (hmax : maxValue ≤ 2 ^ 31) {s : List Char} {values : List ℕ}
    (h : NumList maxValue s values) (rest : List Char) (hrest : Ends rest) :
    ∃ items, Taken maxValue (s ++ rest) items ∧ (∀ ns ∈ items, Proper maxValue ns) ∧
      items.flatMap expand = values := by
  -- an item of the grammar is one number, or two that are in order
  have hone : ∀ (s : List Char) (value : ℕ), Padded maxValue s value →
      Proper maxValue [⟨s, value⟩] := by
    intro s value h
    exact ⟨List.forall_mem_singleton.2 h, .inl ⟨_, rfl⟩⟩
  have htwo : ∀ (s t : List Char) (a b : ℕ), Padded maxValue s a → Padded maxValue t b → a ≤ b →
      Proper maxValue [⟨s, a⟩, ⟨t, b⟩] := by
    intro s t a b hs ht hle
    exact ⟨List.forall_mem_cons.2 ⟨hs, List.forall_mem_singleton.2 ht⟩, .inr ⟨_, _, rfl, hle⟩⟩
  -- the induction is on the list, whose first item stands before a comma
  induction h with
  | last hitem =>
    cases hitem with
    | number h =>
      exact ⟨_, .ends (h.taken hmax _) hrest, List.forall_mem_singleton.2 (hone _ _ h),
        by simp [expand]⟩
    | @range s t a b hs ht hle =>
      rw [List.append_assoc, List.cons_append]
      exact ⟨_, .dash (hs.taken hmax _) (.ends (ht.taken hmax _) hrest),
        List.forall_mem_singleton.2 (htwo _ _ _ _ hs ht hle), by simp [expand]⟩
  | cons hitem ht ih =>
    obtain ⟨items, htaken, hproper, hvalues⟩ := ih
    rw [List.append_assoc, List.cons_append]
    cases hitem with
    | number h =>
      refine ⟨_, .comma (h.taken hmax _) htaken, List.forall_mem_cons.2 ⟨hone _ _ h, hproper⟩, ?_⟩
      rw [List.flatMap_cons, hvalues, expand]
    | @range s t a b hs ht hle =>
      rw [List.append_assoc, List.cons_append]
      refine ⟨_, .dash (hs.taken hmax _) (.comma (ht.taken hmax _) htaken),
        List.forall_mem_cons.2 ⟨htwo _ _ _ _ hs ht hle, hproper⟩, ?_⟩
      rw [List.flatMap_cons, hvalues, expand]

/-- What is left after the line. -/
theorem exists_line_append (args : List Char) : ∃ rest, args = line args ++ rest ∧ Ends rest := by
  refine ⟨args.dropWhile fun c => c != '\x00' && c != '\n', ?_, ?_⟩
  · exact (List.takeWhile_append_dropWhile).symm
  · cases hdrop : args.dropWhile fun c => c != '\x00' && c != '\n' with
    | nil => exact .inl rfl
    | cons c rest =>
      have hc := List.head?_dropWhile_not (p := fun c => c != '\x00' && c != '\n') args
      rw [hdrop] at hc
      simp only [List.head?_cons, Bool.and_eq_false_iff, bne_eq_false_iff_eq] at hc
      exact hc

/-- A line follows the grammar exactly if it is read to its end, as items of the grammar, and the
values are those of the items. -/
theorem numList_iff (hmax : maxValue ≤ 2 ^ 31) (hpos : 0 < maxValue) (args : List Char)
    (values : List ℕ) : NumList maxValue (line args) values ↔
      (scan maxValue args).complete = true ∧
        (∀ ns ∈ (scan maxValue args).list, Proper maxValue ns) ∧
        (scan maxValue args).list.flatMap expand = values := by
  constructor
  · intro h
    obtain ⟨rest, hargs, hends⟩ := exists_line_append args
    obtain ⟨items, htaken, hread⟩ := taken_of_numList hmax h rest hends
    rw [← hargs, taken_iff hmax hpos] at htaken
    rw [htaken]
    exact ⟨rfl, hread⟩
  · rintro ⟨hcomplete, hproper, rfl⟩
    have htaken : Taken maxValue args (scan maxValue args).list :=
      (taken_iff hmax hpos _ _).2 (by rw [← hcomplete])
    have hraw : ∀ ns ∈ (scan maxValue args).list, ∀ n ∈ ns,
        ∀ c ∈ n.raw, (c != '\x00' && c != '\n') = true :=
      fun ns hns n hn => ((hproper ns hns).1 n hn).notMem_line
    rw [htaken.line_eq hraw]
    exact numList_of_proper _ htaken.ne_nil hproper

end Grammar

/-! ## Where the function follows the grammar -/

/-- The function reads exactly the lists of the grammar, as far as their values fit. -/
structure ReadsGrammar (l : Limits) (args : List Char) : Prop where
  /-- The values of a list are stored in order, the other entries are 0, and the number of values is
  returned. -/
  list : ∀ values, NumList l.maxValue (line args) values → values.length ≤ l.arraySize →
    0 < values.length ∧ (separateStrToArray l args).1 = .returns values.length ∧
      (separateStrToArray l args).2.array =
        values ++ List.replicate (l.arraySize - values.length) 0
  /-- For any other text, -1 is returned. -/
  other : (∀ values, ¬ NumList l.maxValue (line args) values) → StaysInside l args →
    (separateStrToArray l args).1 = .returns (-1)

/-- A range does not start at `array_size`, unless it is a single number. -/
def NoSentinel (arraySize : ℕ) (ns : List Reading) : Prop :=
  ∀ a b, ns = [a, b] → a.value = arraySize → b.value = arraySize

/-- When the function follows the grammar, for a text that is taken for a list. If no item is
malformed and the values fit, no range starts at `array_size`. If some item is malformed and the
values that it has in the array fit, there are none: every item ends with a decreasing range. -/
def Clean (l : Limits) (args : List Char) : Prop :=
  ∀ items, Taken l.maxValue args items →
    ((∀ ns ∈ items, ¬ Malformed ns) → (items.flatMap expand).length ≤ l.arraySize →
      ∀ ns ∈ items, NoSentinel l.arraySize ns) ∧
    ((∃ ns ∈ items, Malformed ns) →
      (items.flatMap (lastRange l.arraySize)).length ≤ l.arraySize →
      items.flatMap (lastRange l.arraySize) = [])

section ReadsGrammar

variable {l : Limits} {args : List Char}

/-- The first values that are stored. -/
theorem storeAll_zeroed (l : Limits) (values : List ℕ) (h : values.length ≤ l.arraySize) :
    ((zeroed l).storeAll values).array =
      values ++ List.replicate (l.arraySize - values.length) 0 := by
  induction values using List.reverseRecOn with
  | nil => rfl
  | append_singleton values v ih =>
    rw [List.length_append, List.length_singleton] at h
    have hsize := l.arraySize_lt
    have hcount : ((zeroed l).storeAll values).count.toNat = values.length := by
      rw [(storeAll_writes _ _).1]
      show (0#32 + BitVec.ofNat 32 values.length).toNat = _
      rw [BitVec.zero_add, BitVec.toNat_ofNat]
      exact Nat.mod_eq_of_lt (by omega)
    have hrest : l.arraySize - values.length = l.arraySize - (values.length + 1) + 1 := by omega
    rw [storeAll_append]
    show (((zeroed l).storeAll values).array.set ((zeroed l).storeAll values).count.toNat v) = _
    rw [ih (by omega), hcount, List.set_append_right _ _ (Nat.le_refl _), Nat.sub_self, hrest,
      List.replicate_succ, List.set_cons_zero, List.length_append, List.length_singleton,
      List.append_assoc, List.singleton_append]

/-- A text that is read to its end, with values that fit. -/
theorem separateStrToArray_fits (hcomplete : (scan l.maxValue args).complete = true)
    (hne : storedValues l args ≠ []) (hle : (storedValues l args).length ≤ l.arraySize) :
    (separateStrToArray l args).1 = .returns (storedValues l args).length ∧
      (separateStrToArray l args).2.array = storedValues l args ++
        List.replicate (l.arraySize - (storedValues l args).length) 0 := by
  have hsize := l.arraySize_lt
  have hpos := List.length_pos_iff.2 hne
  have hcount := toInt_count (n := (storedValues l args).length) (by omega)
  have hnot : ¬ BitVec.ofNat 32 (storedValues l args).length = 0 := by
    intro hzero
    rw [hzero] at hcount
    have : (0 : BitVec 32).toInt = 0 := rfl
    omega
  constructor
  · rw [separateStrToArray_ret, if_pos hcomplete, if_neg hnot, hcount]
  · rw [separateStrToArray_eq]
    exact storeAll_zeroed l _ hle

theorem length_span (a b : ℕ) : (span a b).length = b + 1 - a := List.length_range'

/-- The values that are stored for an item of the grammar are as many as it has only if no range
starts at `array_size`, and then they are these. -/
theorem storedItem_proper (arraySize : ℕ) {maxValue : ℕ} {ns : List Reading}
    (h : Proper maxValue ns) :
    1 ≤ (storedItem arraySize arraySize ns).length ∧
      (storedItem arraySize arraySize ns).length ≤ (expand ns).length ∧
      ((expand ns).length ≤ (storedItem arraySize arraySize ns).length →
        NoSentinel arraySize ns) ∧
      (NoSentinel arraySize ns → storedItem arraySize arraySize ns = expand ns) := by
  obtain ⟨-, ⟨n, rfl⟩ | ⟨a, b, rfl, hle⟩⟩ := h
  · -- one number is stored once
    have hstored : storedItem arraySize arraySize [n] = [n.value] := by
      rw [storedItem, if_pos rfl, if_pos rfl, span_self]
    rw [hstored]
    refine ⟨Nat.le_refl 1, Nat.le_refl 1, fun _ c d heq => ?_, fun _ => rfl⟩
    exact absurd heq (by simp)
  · have hstored : storedItem arraySize arraySize [a, b] =
        span (if a.value = arraySize then b.value else a.value) b.value := by
      rw [storedItem, if_neg (List.cons_ne_nil _ _), storedItem, if_pos rfl]
    rw [hstored]
    show _ ∧ _ ≤ (span a.value b.value).length ∧ ((span a.value b.value).length ≤ _ → _) ∧
      (_ → _ = span a.value b.value)
    rw [length_span, length_span]
    -- the loop fills an entry only while the first value is not `array_size`
    by_cases hsentinel : a.value = arraySize
    · rw [if_pos hsentinel]
      -- so a range from there on is stored as its last value alone
      refine ⟨by omega, by omega, ?_, ?_⟩
      · rintro hlen c d heq -
        obtain ⟨rfl, htail⟩ := List.cons.inj heq
        obtain ⟨rfl, -⟩ := List.cons.inj htail
        omega
      · intro hno
        rw [hno a b rfl hsentinel, hsentinel]
    · rw [if_neg hsentinel]
      refine ⟨by omega, Nat.le_refl _, ?_, fun _ => rfl⟩
      rintro - c d heq hc
      obtain ⟨rfl, -⟩ := List.cons.inj heq
      exact absurd hc hsentinel

/-- The same for several items. -/
theorem stored_proper (arraySize : ℕ) {maxValue : ℕ} (items : List (List Reading))
    (h : ∀ ns ∈ items, Proper maxValue ns) :
    (stored arraySize arraySize items).length ≤ (items.flatMap expand).length ∧
      ((items.flatMap expand).length ≤ (stored arraySize arraySize items).length →
        ∀ ns ∈ items, NoSentinel arraySize ns) ∧
      ((∀ ns ∈ items, NoSentinel arraySize ns) →
        stored arraySize arraySize items = items.flatMap expand) := by
  induction items with
  | nil => exact ⟨Nat.le_refl _, fun _ ns hns => absurd hns (by simp), fun _ => rfl⟩
  | cons ns rest ih =>
    rw [List.forall_mem_cons] at h
    obtain ⟨-, hle, hlen, heq⟩ := storedItem_proper arraySize h.1
    obtain ⟨hrestLe, hrestLen, hrestEq⟩ := ih h.2
    simp only [stored, List.flatMap_cons, List.length_append, List.forall_mem_cons]
    refine ⟨by omega, fun htotal => ⟨hlen (by omega), hrestLen (by omega)⟩, ?_⟩
    rintro ⟨hns, hrest⟩
    rw [heq hns, hrestEq hrest]

/-- Items of the grammar store something. -/
theorem stored_ne_nil {arraySize maxValue : ℕ} {items : List (List Reading)} (hne : items ≠ [])
    (h : ∀ ns ∈ items, Proper maxValue ns) : stored arraySize arraySize items ≠ [] := by
  obtain ⟨ns, rest, rfl⟩ := List.exists_cons_of_ne_nil hne
  have hpos := (storedItem_proper arraySize (h ns List.mem_cons_self)).1
  rw [stored, ← List.length_pos_iff, List.length_append]
  omega

/-- A text that is taken for a list is none of the grammar if one of its items is malformed. -/
theorem not_numList_of_malformed {items : List (List Reading)}
    (htaken : Taken l.maxValue args items) {ns : List Reading} (hns : ns ∈ items)
    (hmalformed : Malformed ns) (values : List ℕ) : ¬ NumList l.maxValue (line args) values := by
  have hmax := Nat.le_of_lt l.maxValue_lt
  have hscan := (taken_iff hmax l.maxValue_pos args items).1 htaken
  intro hnumList
  have hproper := ((numList_iff hmax l.maxValue_pos args values).1 hnumList).2.1
  rw [hscan] at hproper
  exact (htaken.proper_iff hmax hns).1 (hproper ns hns) hmalformed

/-- If its values fit all the same, none are stored. -/
theorem ReadsGrammar.eq_nil_of_malformed (h : ReadsGrammar l args) {items : List (List Reading)}
    (htaken : Taken l.maxValue args items) {ns : List Reading} (hns : ns ∈ items)
    (hmalformed : Malformed ns)
    (hle : (items.flatMap (lastRange l.arraySize)).length ≤ l.arraySize) :
    items.flatMap (lastRange l.arraySize) = [] := by
  have hscan := (taken_iff (Nat.le_of_lt l.maxValue_lt) l.maxValue_pos args items).1 htaken
  have hcomplete : (scan l.maxValue args).complete = true := by rw [hscan]
  rw [← htaken.storedValues] at hle ⊢
  by_contra hne
  -- the function would return their number, and not -1
  have hother := h.other (not_numList_of_malformed htaken hns hmalformed)
    (staysInside_of_length hle)
  rw [(separateStrToArray_fits hcomplete hne hle).1] at hother
  exact absurd (Outcome.returns.inj hother) (by omega)

/-- The function follows the grammar exactly on the texts that are `Clean`. -/
theorem readsGrammar_iff (l : Limits) (args : List Char) :
    ReadsGrammar l args ↔ Clean l args := by
  have hmax := Nat.le_of_lt l.maxValue_lt
  have hiff := taken_iff hmax l.maxValue_pos args
  constructor
  · intro h items htaken
    have hscan := (hiff items).1 htaken
    have hcomplete : (scan l.maxValue args).complete = true := by rw [hscan]
    have hlist : (scan l.maxValue args).list = items := by rw [hscan]
    constructor
    · intro hwell hfits
      have hproper : ∀ ns ∈ (scan l.maxValue args).list, Proper l.maxValue ns := by
        rw [hlist]
        exact fun ns hns => (htaken.proper_iff hmax hns).2 (hwell ns hns)
      rw [← hlist] at hfits ⊢
      have hnumList := (numList_iff hmax l.maxValue_pos args _).2 ⟨hcomplete, hproper, rfl⟩
      obtain ⟨hle, hlen, -⟩ := stored_proper l.arraySize _ hproper
      have hne : storedValues l args ≠ [] :=
        stored_ne_nil (by rw [hlist]; exact htaken.ne_nil) hproper
      have hstored := separateStrToArray_fits hcomplete hne (hle.trans hfits)
      have hret := (h.list _ hnumList hfits).2.1
      rw [hstored.1] at hret
      have hcount := Int.ofNat_inj.1 (Outcome.returns.inj hret)
      exact hlen (Nat.le_of_eq hcount.symm)
    · rintro ⟨ns, hns, hmalformed⟩ hle
      exact h.eq_nil_of_malformed htaken hns hmalformed hle
  · intro h
    have htaken : (scan l.maxValue args).complete = true →
        Taken l.maxValue args (scan l.maxValue args).list := fun hcomplete =>
      (hiff _).2 (by rw [← hcomplete])
    constructor
    · intro values hlist hfits
      obtain ⟨hcomplete, hproper, rfl⟩ := (numList_iff hmax l.maxValue_pos args values).1 hlist
      have hwell : ∀ ns ∈ (scan l.maxValue args).list, ¬ Malformed ns := fun ns hns =>
        ((htaken hcomplete).proper_iff hmax hns).1 (hproper ns hns)
      have hno := (h _ (htaken hcomplete)).1 hwell hfits
      have hstored : storedValues l args = (scan l.maxValue args).list.flatMap expand :=
        (stored_proper l.arraySize _ hproper).2.2 hno
      have hne : storedValues l args ≠ [] := stored_ne_nil (htaken hcomplete).ne_nil hproper
      rw [← hstored] at hfits ⊢
      exact ⟨List.length_pos_iff.2 hne, separateStrToArray_fits hcomplete hne hfits⟩
    · intro hother hinside
      have hle := hinside.length_storedValues
      rw [separateStrToArray_ret]
      by_cases hcomplete : (scan l.maxValue args).complete = true
      · have hmalformed : ∃ ns ∈ (scan l.maxValue args).list, Malformed ns := by
          by_contra hnone
          simp only [not_exists, not_and] at hnone
          have hproper : ∀ ns ∈ (scan l.maxValue args).list, Proper l.maxValue ns := fun ns hns =>
            ((htaken hcomplete).proper_iff hmax hns).2 (hnone ns hns)
          exact hother _ ((numList_iff hmax l.maxValue_pos args _).2 ⟨hcomplete, hproper, rfl⟩)
        have hnil : storedValues l args = [] := by
          rw [(htaken hcomplete).storedValues] at hle ⊢
          exact (h _ (htaken hcomplete)).2 hmalformed hle
        rw [if_pos hcomplete, hnil]
        rfl
      · rw [if_neg hcomplete]

/-- `GAZELLE_MAX_NUMA_NODES` and `INT32_MAX`. -/
def socketMem : Limits where
  arraySize := 8
  maxValue := 0x7fffffff
  arraySize_pos := Nat.le_of_ble_eq_true rfl
  maxValue_pos := Nat.le_of_ble_eq_true rfl
  arraySize_lt := Nat.le_of_ble_eq_true rfl
  maxValue_lt := Nat.le_of_ble_eq_true rfl

/-- A number that is missing is read as 0. -/
theorem not_readsGrammar_missing : ¬ ReadsGrammar socketMem "1024,,1024".toList := by
  intro h
  have hscan : scan socketMem.maxValue "1024,,1024".toList =
      ⟨[[⟨"1024".toList, 1024⟩], [⟨[], 0⟩], [⟨"1024".toList, 1024⟩]], true⟩ := by rfl
  have htaken := (taken_iff (by decide) socketMem.maxValue_pos _ _).2 hscan
  have hslip : Slip [] := .missing fun c hc => absurd hc (by simp)
  have hmalformed : Malformed [⟨[], 0⟩] := .inl ⟨⟨[], 0⟩, List.mem_cons_self, hslip⟩
  have hnil := h.eq_nil_of_malformed htaken (by simp) hmalformed (by decide)
  exact absurd hnil (by decide)

end ReadsGrammar

end NumberList

end Gazelle
