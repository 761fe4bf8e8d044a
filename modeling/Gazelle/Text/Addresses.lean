import Gazelle.Text.Decimal
import Gazelle.Text.Strtol

/-!
# Tokens and addresses as text

What a configuration file says in a string: words with a delimiter between them, `strtoul` in base
8, 10 and 16 with a 64-bit `unsigned long`, and `inet_aton`.

* `CText.strtok_intercalate`: words that are joined by a delimiter are the tokens again;
* `CText.hexByte`: `%02x` of a byte;
* `CText.strtoulEnd_hexByte`, `CText.strtoulEnd_prefixed`: it is read as the byte;
* `CText.inetAton_dotted`: an address with four parts is read as it is.
-/

namespace CText

/-! ## Tokens -/

section Tokens

variable {delim : Char}

/-- No part of a text that is split contains the delimiter. -/
theorem notMem_of_mem_splitOn {s t : List Char} (h : t ∈ s.splitOn delim) : delim ∉ t := by
  induction s generalizing t with
  | nil =>
    rw [List.splitOn_nil, List.mem_singleton] at h
    rw [h]
    exact List.not_mem_nil
  | cons c s ih =>
    rw [List.splitOn_cons_eq_if_modifyHead] at h
    split at h
    · rcases List.mem_cons.1 h with rfl | h
      · exact List.not_mem_nil
      · exact ih h
    · next hc =>
      obtain ⟨u, us, hsplit⟩ := List.exists_cons_of_ne_nil (List.splitOn_ne_nil delim s)
      rw [hsplit, List.modifyHead_cons] at h
      rcases List.mem_cons.1 h with rfl | h
      · rw [List.mem_cons, not_or]
        refine ⟨fun heq => hc (by simp [heq]), ih ?_⟩
        rw [hsplit]
        exact List.mem_cons_self
      · refine ih ?_
        rw [hsplit]
        exact List.mem_cons_of_mem _ h

/-- A token is not empty and does not contain the delimiter. -/
theorem of_mem_strtok {s t : List Char} (h : t ∈ strtok delim s) : t ≠ [] ∧ delim ∉ t := by
  rw [strtok, List.mem_filter] at h
  exact ⟨by simpa using h.2, notMem_of_mem_splitOn h.1⟩

/-- The tokens of words with delimiters between them are the words. -/
theorem strtok_intercalate {ts : List (List Char)} (h : ∀ t ∈ ts, t ≠ [] ∧ delim ∉ t) :
    strtok delim ([delim].intercalate ts) = ts := by
  by_cases hts : ts = []
  · subst hts
    rfl
  rw [strtok, List.splitOn_intercalate delim (fun t ht => (h t ht).2) hts, List.filter_eq_self]
  intro t ht
  simpa using (h t ht).1

/-- A character of words that are joined is the delimiter or in one of them. -/
theorem mem_intercalate {ts : List (List Char)} {c : Char} (h : c ∈ [delim].intercalate ts) :
    c = delim ∨ ∃ t ∈ ts, c ∈ t := by
  induction ts with
  | nil => cases h
  | cons t ts ih =>
    cases ts with
    | nil => exact .inr ⟨t, List.mem_cons_self, by rwa [List.intercalate_singleton] at h⟩
    | cons u us =>
      rw [List.intercalate_cons_cons, List.mem_append, List.mem_append, List.mem_singleton] at h
      rcases h with (h | h) | h
      · exact .inr ⟨t, List.mem_cons_self, h⟩
      · exact .inl h
      · obtain hc | ⟨v, hv, hc⟩ := ih h
        · exact .inl hc
        · exact .inr ⟨v, List.mem_cons_of_mem _ hv, hc⟩

end Tokens

/-! ## `strtoul` -/

/-- `strtoul` with its end pointer: a minus negates the value as an `unsigned long`, and a value
that is too big becomes `ULONG_MAX`. -/
def strtoulEnd (base : ℕ) (nptr : List Char) : ℕ × List Char :=
  let signed := readSign (nptr.dropWhile isSpace)
  let s := dropHexPrefix base signed.2
  if s.takeWhile (isDigitIn base) = [] then (0, nptr)
  else
    let n := numeral base (s.takeWhile (isDigitIn base))
    (if 2 ^ 64 ≤ n then 2 ^ 64 - 1 else if signed.1 then (2 ^ 64 - n) % 2 ^ 64 else n,
      s.dropWhile (isDigitIn base))

/-- The base that `strtoul` takes for base 0. -/
def autoBase (s : List Char) : ℕ :=
  match s with
  | '0' :: x :: _ => if x = 'x' ∨ x = 'X' then 16 else 8
  | '0' :: _ => 8
  | _ => 10

/-- A digit of `%x`. -/
def hexDigit (n : Fin 16) : Char := "0123456789abcdef".toList.get ⟨n.val, n.isLt⟩

/-- `%02x` of a byte. -/
def hexByte (b : BitVec 8) : List Char :=
  [hexDigit ⟨b.toNat / 16, by omega⟩, hexDigit ⟨b.toNat % 16, by omega⟩]

/-- The prefix `0x` and `%02x`. -/
def prefixedByte (b : BitVec 8) : List Char := '0' :: 'x' :: hexByte b

theorem digitVal_hexDigit (n : Fin 16) : digitVal (hexDigit n) = n := by
  decide +revert

theorem isDigitIn_hexByte (b : BitVec 8) : ∀ c ∈ hexByte b, isDigitIn 16 c = true := by
  intro c hc
  rw [hexByte, List.mem_pair] at hc
  rcases hc with rfl | rfl <;>
    exact decide_eq_true (by rw [digitVal_hexDigit]; exact Fin.isLt _)

/-- The digits of a byte are the byte. -/
theorem numeral_hexByte (b : BitVec 8) : numeral 16 (hexByte b) = b.toNat := by
  simp only [numeral, hexByte, List.foldl_cons, List.foldl_nil, digitVal_hexDigit]
  omega

/-- A character that is not a digit of `%x` is in no byte. -/
theorem notMem_hexByte {c : Char} (h : isDigitIn 16 c = false) (b : BitVec 8) : c ∉ hexByte b :=
  fun hc => Bool.noConfusion ((isDigitIn_hexByte b c hc).symm.trans h)

theorem hexByte_ne_nil (b : BitVec 8) : hexByte b ≠ [] := List.cons_ne_nil _ _

/-- `strtoul` reads a byte. -/
theorem strtoulEnd_hexByte (b : BitVec 8) : strtoulEnd 16 (hexByte b) = (b.toNat, []) := by
  have hsign := readSign_digits (Nat.le_refl 16) (hexByte_ne_nil b) (isDigitIn_hexByte b) []
  have htake : (hexByte b).takeWhile (isDigitIn 16) = hexByte b :=
    List.takeWhile_eq_self_iff.2 (isDigitIn_hexByte b)
  have hdrop : (hexByte b).dropWhile (isDigitIn 16) = [] :=
    List.dropWhile_eq_nil_iff.2 (isDigitIn_hexByte b)
  have hprefix : dropHexPrefix 16 (hexByte b) = hexByte b := by
    unfold dropHexPrefix hexByte
    split
    · next heq => exact absurd (congrArg List.length heq) (by simp)
    · rfl
  have hlt : b.toNat < 2 ^ 64 := by omega
  rw [List.append_nil] at hsign
  unfold strtoulEnd
  simp only [hsign, hprefix, htake, hdrop, if_neg (hexByte_ne_nil b), numeral_hexByte]
  rw [if_neg (by omega), if_neg Bool.false_ne_true]

/-- `strtoul` reads a byte after its prefix, and stops at what is no digit. -/
theorem strtoulEnd_prefixed (b : BitVec 8) {rest : List Char}
    (hrest : ∀ c ∈ rest.head?, isDigitIn 16 c = false) :
    strtoulEnd 16 (prefixedByte b ++ rest) = (b.toNat, rest) := by
  obtain ⟨htake, hdrop⟩ := takeWhile_digits (isDigitIn_hexByte b) hrest
  have hsign : readSign ((prefixedByte b ++ rest).dropWhile isSpace) =
      (false, prefixedByte b ++ rest) := by
    have hzero : ∀ c ∈ ['0'], isDigitIn 16 c = true := by
      intro c hc
      rw [List.mem_singleton.1 hc]
      rfl
    exact readSign_digits (Nat.le_refl 16) (List.cons_ne_nil _ _) hzero _
  have hprefix : dropHexPrefix 16 (prefixedByte b ++ rest) = hexByte b ++ rest :=
    if_pos ⟨rfl, .inl rfl, isDigitIn_hexByte b _ List.mem_cons_self⟩
  unfold strtoulEnd
  simp only [hsign, hprefix, htake, hdrop, if_neg (hexByte_ne_nil b), numeral_hexByte]
  rw [if_neg (by omega), if_neg Bool.false_ne_true]

/-! ## `inet_aton` -/

/-- What the last part of an address may be after some others. -/
def lastPartMax : ℕ → ℕ
  | 0 => 0xffffffff
  | 1 => 0xffffff
  | 2 => 0xffff
  | _ => 0xff

/-- The address of some bytes and the last part. -/
def addressOf (parts : List ℕ) (last : ℕ) : ℕ :=
  parts.getD 0 0 * 2 ^ 24 + parts.getD 1 0 * 2 ^ 16 + parts.getD 2 0 * 2 ^ 8 + last

/-- The loop of `inet_aton` after some parts. -/
def inetAtonLoop : ℕ → List Char → List ℕ → Option (BitVec 32)
  | 0, _, _ => none
  | fuel + 1, s, parts =>
    if !s.head?.any Char.isDigit then none
    else
      let (val, e) := strtoulEnd (autoBase s) s
      if 2 ^ 32 ≤ val then none
      else
        match e with
        | '.' :: rest =>
          if 3 ≤ parts.length ∨ 255 < val then none else inetAtonLoop fuel rest (parts ++ [val])
        | _ =>
          if e.head?.any (fun c => !isSpace c) then none
          else if lastPartMax parts.length < val then none
          else some (BitVec.ofNat 32 (addressOf parts val))

/-- `inet_aton`: the address, in host byte order. There are at most four parts. -/
def inetAton (s : List Char) : Option (BitVec 32) := inetAtonLoop 4 s []

/-- An address with its four parts, each as `0x%02x`. -/
def dotted (a : BitVec 32) : List Char :=
  ['.'].intercalate [prefixedByte (a.extractLsb' 24 8), prefixedByte (a.extractLsb' 16 8),
    prefixedByte (a.extractLsb' 8 8), prefixedByte (a.extractLsb' 0 8)]

theorem autoBase_prefixed (b : BitVec 8) (rest : List Char) :
    autoBase (prefixedByte b ++ rest) = 16 := by
  simp [autoBase, prefixedByte]

/-- A part with a dot after it is read. -/
theorem inetAtonLoop_dot (fuel : ℕ) (b : BitVec 8) (rest : List Char) {parts : List ℕ}
    (hparts : parts.length < 3) :
    inetAtonLoop (fuel + 1) (prefixedByte b ++ '.' :: rest) parts =
      inetAtonLoop fuel rest (parts ++ [b.toNat]) := by
  have hread : strtoulEnd 16 (prefixedByte b ++ '.' :: rest) = (b.toNat, '.' :: rest) :=
    strtoulEnd_prefixed b fun c hc => by
      rw [List.head?_cons, Option.mem_some_iff] at hc
      exact hc ▸ rfl
  have hbound : ¬ (3 ≤ parts.length ∨ 255 < b.toNat) := by omega
  have hdigit : (!(prefixedByte b ++ '.' :: rest).head?.any Char.isDigit) = false := rfl
  rw [inetAtonLoop, hdigit, if_neg Bool.false_ne_true, autoBase_prefixed, hread]
  dsimp only
  rw [if_neg (by omega)]
  exact if_neg hbound

/-- The last part is read. -/
theorem inetAtonLoop_end (fuel : ℕ) (b : BitVec 8) (parts : List ℕ) :
    inetAtonLoop (fuel + 1) (prefixedByte b) parts =
      some (BitVec.ofNat 32 (addressOf parts b.toNat)) := by
  have hread : strtoulEnd 16 (prefixedByte b ++ []) = (b.toNat, []) :=
    strtoulEnd_prefixed b (by simp)
  have hbase := autoBase_prefixed b []
  rw [List.append_nil] at hread hbase
  have hdigit : (!(prefixedByte b).head?.any Char.isDigit) = false := rfl
  have hmax : 255 ≤ lastPartMax parts.length := by
    unfold lastPartMax
    split <;> decide
  rw [inetAtonLoop, hdigit, if_neg Bool.false_ne_true, hbase, hread]
  dsimp only
  rw [if_neg (by omega), List.head?_nil, Option.any_none, if_neg Bool.false_ne_true,
    if_neg (by omega)]

/-- `inet_aton` reads an address with four parts. -/
theorem inetAton_dotted (a : BitVec 32) : inetAton (dotted a) = some a := by
  have haddr : BitVec.ofNat 32 (addressOf [(a.extractLsb' 24 8).toNat, (a.extractLsb' 16 8).toNat,
      (a.extractLsb' 8 8).toNat] (a.extractLsb' 0 8).toNat) = a := by
    apply BitVec.eq_of_toNat_eq
    simp only [addressOf, List.getD_cons_zero, List.getD_cons_succ, BitVec.toNat_ofNat,
      BitVec.extractLsb'_toNat, Nat.shiftRight_eq_div_pow]
    omega
  simp only [inetAton, dotted, List.intercalate_cons_cons, List.intercalate_singleton,
    List.append_assoc, List.singleton_append]
  rw [inetAtonLoop_dot _ _ _ (by simp), inetAtonLoop_dot _ _ _ (by simp),
    inetAtonLoop_dot _ _ _ (by simp), inetAtonLoop_end]
  exact congrArg some haddr

end CText
