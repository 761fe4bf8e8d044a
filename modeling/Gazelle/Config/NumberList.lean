import Gazelle.Text.Strtol
import Mathlib.Data.BitVec
import Mathlib.Data.List.DropRight
import Mathlib.Algebra.Group.Nat.Defs

/-!
# Lists of numbers in the configuration

`separate_str_to_array` reads a list of numbers and ranges, such as `0-3,0x8`, into an array. A
pointer into the text is what is left of the text, and `none` is the pointer after the terminator.

* `separateStrToArray`: the function, with the indexes that it writes;
* `scan`: the numbers and items that it reads, without the array;
* `separateStrToArray_eq`: the call in terms of what it reads;
* `staysInside_iff`: the texts for which it stays inside the array.
-/

open CText

namespace Gazelle

namespace NumberList

/-- `array_size` and `max_value`, as the callers pass them. -/
structure Limits where
  /-- `array_size`. -/
  arraySize : ℕ
  /-- `max_value`. -/
  maxValue : ℕ
  /-- The array is not empty. -/
  arraySize_pos : 0 < arraySize
  /-- Some number is allowed. -/
  maxValue_pos : 0 < maxValue
  /-- `array_size` is an `int32_t`. -/
  arraySize_lt : arraySize < 2 ^ 31
  /-- `max_value` is an `int32_t`. -/
  maxValue_lt : maxValue < 2 ^ 31

/-! ## The function -/

/-- The array while it is filled. -/
structure ArrayState where
  /-- `array`. -/
  array : List ℕ
  /-- `count`. -/
  count : BitVec 32
  /-- The indexes that have been written. -/
  writes : List ℕ

/-- `array[count] = idx; count++;`. -/
def ArrayState.store (st : ArrayState) (idx : ℕ) : ArrayState where
  array := st.array.set st.count.toNat idx
  count := st.count + 1
  writes := st.writes ++ [st.count.toNat]

/-- The numbers from `min` to `max`. -/
def span (min max : ℕ) : List ℕ := List.range' min (max + 1 - min)

/-- Several numbers are stored one after another. -/
def ArrayState.storeAll (st : ArrayState) (values : List ℕ) : ArrayState :=
  values.foldl ArrayState.store st

/-- What a call does. -/
inductive Outcome
  /-- It returns. -/
  | returns (ret : ℤ)
  /-- It reads a character after the terminator. -/
  | pastEnd
  /-- It has not come to an end. -/
  | running
  deriving DecidableEq

/-- `*p`: at the end of the text is the terminator. -/
def charAt (p : List Char) : Char := p.headD '\x00'

/-- `p + 1`. -/
def next (p : List Char) : Option (List Char) :=
  match p with
  | [] => none
  | _ :: rest => some rest

/-- `while (isblank(*p)) p++;`. -/
def skipBlank (p : List Char) : List Char := p.dropWhile isBlank

/-- `strncmp(args, "0x", 2) == 0 || strncmp(args, "0X", 2) == 0`. -/
def isHexPrefix (args : List Char) : Bool := args.take 2 == ['0', 'x'] || args.take 2 == ['0', 'X']

/-- The call of `strtol`: in base 16 after a prefix, else in base 10. -/
def strtolPrefixed (args : List Char) : Strtol :=
  if isHexPrefix args then strtolEnd 16 args else strtolEnd 10 args

/-- A number is read: `idx`, which is not negative when the checks are passed, and `end` after the
blanks; `none` if the function returns -1. -/
def readNumber (maxValue : ℕ) (args : List Char) : Option (ℕ × List Char) :=
  let args := skipBlank args
  if charAt args = '\x00' then none
  else
    let num := strtolPrefixed args
    let idx := (BitVec.ofInt 32 num.value).toInt
    if num.erange then none
    else if idx < 0 ∨ idx ≥ maxValue then none
    else some (idx.toNat, skipBlank num.endptr)

/-- The `do` loop, from `args`, `min` and the array on. -/
def separateLoop (l : Limits) :
    ℕ → Option (List Char) → ℕ → ArrayState → Outcome × ArrayState
  | 0, _, _, st => (.running, st)
  | _ + 1, none, _, st => (.pastEnd, st)
  | fuel + 1, some args, min, st =>
    match readNumber l.maxValue args with
    | none => (.returns (-1), st)
    | some (idx, e) =>
      if charAt e = '-' then separateLoop l fuel (next e) idx st
      else if charAt e = ',' ∨ charAt e = '\x00' ∨ charAt e = '\n' then
        let st := st.storeAll (span (if min = l.arraySize then idx else min) idx)
        if charAt e ≠ '\x00' ∧ charAt e ≠ '\n' then separateLoop l fuel (next e) l.arraySize st
        else (.returns (if st.count = 0 then -1 else st.count.toInt), st)
      else (.returns (-1), st)

/-- The array after the first loop, which sets it to 0. -/
def zeroed (l : Limits) : ArrayState :=
  ⟨List.replicate l.arraySize 0, 0#32, List.range l.arraySize⟩

/-- `separate_str_to_array`. The loop goes on after a character of the text, so there are no more
rounds than characters and one. -/
def separateStrToArray (l : Limits) (args : List Char) : Outcome × ArrayState :=
  separateLoop l (args.length + 1) (some (skipBlank args)) l.arraySize (zeroed l)

/-! ## What is read -/

/-- A number as it is read. -/
structure Reading where
  /-- The characters, with the blanks around them. -/
  raw : List Char
  /-- The value. -/
  value : ℕ
  deriving DecidableEq

/-- The leading items of a text, each with the numbers that are separated by `-` in it. -/
structure Items where
  /-- The items. -/
  list : List (List Reading)
  /-- The text ends after them. -/
  complete : Bool

/-- A number and `-` before the first item. -/
def Items.dash (n : Reading) (items : Items) : Items :=
  match items.list with
  | [] => items
  | ns :: rest => ⟨(n :: ns) :: rest, items.complete⟩

/-- An item and `,` before the others. -/
def Items.comma (n : Reading) (items : Items) : Items := ⟨[n] :: items.list, items.complete⟩

/-- The end of the list: a newline, or the end of the text. -/
def Ends (p : List Char) : Prop := charAt p = '\x00' ∨ charAt p = '\n'

/-- Whether the list ends here is decidable. -/
instance (p : List Char) : Decidable (Ends p) := by
  unfold Ends
  infer_instance

/-- The leading items of a text that the loop reads. -/
def scanLoop (maxValue : ℕ) : ℕ → List Char → Items
  | 0, _ => ⟨[], false⟩
  | fuel + 1, args =>
    match readNumber maxValue args with
    | none => ⟨[], false⟩
    | some (value, e) =>
      let n : Reading := ⟨args.take (args.length - e.length), value⟩
      if charAt e = '-' then (scanLoop maxValue fuel e.tail).dash n
      else if charAt e = ',' then (scanLoop maxValue fuel e.tail).comma n
      else if Ends e then ⟨[[n]], true⟩
      else ⟨[], false⟩

/-- The leading items of a text. -/
def scan (maxValue : ℕ) (args : List Char) : Items := scanLoop maxValue (args.length + 1) args

/-- The values that are stored for an item, when `min` is pending: those from the last number but
one to the last number, or the last number alone. A pending number that is `array_size` counts as
none. -/
def storedItem (arraySize : ℕ) : ℕ → List Reading → List ℕ
  | _, [] => []
  | min, n :: ns =>
    if ns = [] then span (if min = arraySize then n.value else min) n.value
    else storedItem arraySize n.value ns

/-- The values that are stored for some items, when `min` is pending. -/
def stored (arraySize min : ℕ) : List (List Reading) → List ℕ
  | [] => []
  | ns :: rest => storedItem arraySize min ns ++ stored arraySize arraySize rest

/-- All values that are stored for a text. -/
def storedValues (l : Limits) (args : List Char) : List ℕ :=
  stored l.arraySize l.arraySize (scan l.maxValue args).list

/-! ## The loop and what it reads -/

section Loop

variable {maxValue : ℕ} {args e : List Char} {value : ℕ}

theorem strtolPrefixed_suffix (args : List Char) : (strtolPrefixed args).endptr <:+ args := by
  unfold strtolPrefixed
  split
  · exact strtolEnd_suffix 16 args
  · exact strtolEnd_suffix 10 args

/-- What is left after a number is the end of the text, without blanks at its start. -/
theorem readNumber_suffix (h : readNumber maxValue args = some (value, e)) :
    e <:+ args ∧ value < maxValue := by
  unfold readNumber at h
  dsimp only at h
  split at h
  · exact absurd h (by simp)
  split at h
  · exact absurd h (by simp)
  split at h
  · exact absurd h (by simp)
  · next hrange =>
    obtain ⟨rfl, rfl⟩ := Prod.mk.inj (Option.some.inj h)
    have hnum := strtolPrefixed_suffix (skipBlank args)
    exact ⟨(List.dropWhile_suffix _).trans (hnum.trans (List.dropWhile_suffix _)), by omega⟩

/-- Blanks at the start do not matter. -/
theorem readNumber_skipBlank (maxValue : ℕ) (args : List Char) :
    readNumber maxValue (skipBlank args) = readNumber maxValue args := by
  have hidem : skipBlank (skipBlank args) = skipBlank args := List.dropWhile_idempotent _ _
  unfold readNumber
  rw [hidem]

/-- A character that is not the terminator has a rest of the text after it. -/
theorem next_of_charAt {c : Char} (hc : c ≠ '\x00') (h : charAt e = c) :
    next e = some e.tail ∧ e.tail.length < e.length := by
  cases e with
  | nil => exact absurd h.symm hc
  | cons d rest => exact ⟨rfl, Nat.lt_succ_self _⟩

/-- Every item has a number. -/
theorem ne_nil_of_mem_scanLoop (fuel : ℕ) (args : List Char) :
    ∀ ns ∈ (scanLoop maxValue fuel args).list, ns ≠ [] := by
  induction fuel generalizing args with
  | zero => simp [scanLoop]
  | succ fuel ih =>
    rw [scanLoop]
    split
    · simp
    · rename_i value e _
      split
      · have hrest := ih e.tail
        unfold Items.dash
        split
        · exact hrest
        · rename_i ns rest heq
          rw [heq] at hrest
          intro ns' hmem
          rcases List.mem_cons.1 hmem with rfl | hmem
          · exact List.cons_ne_nil _ _
          · exact hrest ns' (List.mem_cons_of_mem _ hmem)
      · split
        · intro ns' hmem
          rcases List.mem_cons.1 hmem with rfl | hmem
          · exact List.cons_ne_nil _ _
          · exact ih e.tail ns' hmem
        · split
          · simp
          · simp

/-- The state when the loop ends. -/
def finish (complete : Bool) (st : ArrayState) : Outcome × ArrayState :=
  (.returns (if complete then if st.count = 0 then -1 else st.count.toInt else -1), st)

theorem storeAll_append (st : ArrayState) (vs ws : List ℕ) :
    st.storeAll (vs ++ ws) = (st.storeAll vs).storeAll ws := List.foldl_append

/-- The loop stores the values of the leading items. -/
theorem separateLoop_eq (l : Limits) (fuel : ℕ) (args : List Char) (min : ℕ) (st : ArrayState)
    (hfuel : args.length < fuel) :
    separateLoop l fuel (some args) min st =
      finish (scanLoop l.maxValue fuel args).complete
        (st.storeAll (stored l.arraySize min (scanLoop l.maxValue fuel args).list)) := by
  induction fuel generalizing args min st with
  | zero => exact absurd hfuel (Nat.not_lt_zero _)
  | succ fuel ih =>
    rw [separateLoop, scanLoop]
    cases hread : readNumber l.maxValue args with
    | none => rfl
    | some pair =>
      obtain ⟨value, e⟩ := pair
      have hlen := (readNumber_suffix hread).1.length_le
      dsimp only
      -- a `-` keeps the number as the start of a range
      by_cases hdash : charAt e = '-'
      · obtain ⟨hnext, hlt⟩ := next_of_charAt (by decide) hdash
        rw [if_pos hdash, if_pos hdash, hnext, ih e.tail value st (by omega)]
        have hitems : ∀ ns ∈ (scanLoop l.maxValue fuel e.tail).list, ns ≠ [] :=
          ne_nil_of_mem_scanLoop fuel e.tail
        unfold Items.dash
        split
        · -- nothing was read behind it, so nothing is stored
          next heq => rw [heq]; rfl
        · next ns rest heq =>
          rw [heq] at hitems ⊢
          have hns : ns ≠ [] := hitems ns List.mem_cons_self
          rw [stored, stored, storedItem, if_neg hns]
      rw [if_neg hdash, if_neg hdash]
      -- a comma ends the item
      by_cases hcomma : charAt e = ','
      · obtain ⟨hnext, hlt⟩ := next_of_charAt (by decide) hcomma
        rw [if_pos (.inl hcomma), if_pos hcomma, if_pos (by rw [hcomma]; decide), hnext,
          ih e.tail l.arraySize _ (by omega), Items.comma, stored, storeAll_append]
        rfl
      · rw [if_neg hcomma]
        -- the end of the text ends the list, and what follows is not read
        by_cases hends : Ends e
        · have hend : ¬ (charAt e ≠ '\x00' ∧ charAt e ≠ '\n') := by
            unfold Ends at hends
            tauto
          rw [if_pos (.inr hends), if_pos hends, if_neg hend, stored, stored, List.append_nil]
          rfl
        · -- anything else is an error, behind what is already stored
          rw [if_neg hends, if_neg (by unfold Ends at hends; tauto)]
          rfl

end Loop

/-! ## The bounds of the array -/

section Bounds

/-- The call is finished with the leading items of its text. -/
theorem separateStrToArray_eq (l : Limits) (args : List Char) :
    separateStrToArray l args = finish (scan l.maxValue args).complete
      ((zeroed l).storeAll (storedValues l args)) := by
  have hskip : separateLoop l (args.length + 1) (some (skipBlank args)) l.arraySize (zeroed l) =
      separateLoop l (args.length + 1) (some args) l.arraySize (zeroed l) := by
    rw [separateLoop, separateLoop, readNumber_skipBlank]
  rw [separateStrToArray, hskip, separateLoop_eq l _ args _ _ (Nat.lt_succ_self _)]
  rfl

/-- Where values are stored from `count` on: `count` is a 32-bit number. -/
theorem storeAll_writes (st : ArrayState) (values : List ℕ) :
    (st.storeAll values).count = st.count + BitVec.ofNat 32 values.length ∧
      (st.storeAll values).writes = st.writes ++
        (List.range values.length).map fun k => (st.count + BitVec.ofNat 32 k).toNat := by
  induction values using List.reverseRecOn with
  | nil => simp [ArrayState.storeAll]
  | append_singleton values v ih =>
    have hlast : st.storeAll (values ++ [v]) = (st.storeAll values).store v :=
      storeAll_append st values [v]
    rw [hlast, List.length_append, List.length_singleton, List.range_succ, List.map_append,
      ← List.append_assoc, ← ih.2, ArrayState.store, ih.1]
    refine ⟨?_, rfl⟩
    rw [BitVec.ofNat_add, ← BitVec.add_assoc]
    rfl

/-- The indexes that a call writes: those that are set to 0, and those of the values. -/
theorem separateStrToArray_writes (l : Limits) (args : List Char) :
    (separateStrToArray l args).2.writes = List.range l.arraySize ++
      (List.range (storedValues l args).length).map (· % 2 ^ 32) := by
  rw [separateStrToArray_eq]
  show ((zeroed l).storeAll (storedValues l args)).writes = _
  rw [(storeAll_writes _ _).2]
  show List.range l.arraySize ++ _ = _
  congr 1
  refine List.map_congr_left fun k _ => ?_
  show (0#32 + BitVec.ofNat 32 k).toNat = _
  rw [BitVec.zero_add, BitVec.toNat_ofNat]

/-- The value that a call returns. -/
theorem separateStrToArray_ret (l : Limits) (args : List Char) :
    (separateStrToArray l args).1 = .returns
      (if (scan l.maxValue args).complete then
        if BitVec.ofNat 32 (storedValues l args).length = 0 then -1
        else (BitVec.ofNat 32 (storedValues l args).length).toInt
      else -1) := by
  rw [separateStrToArray_eq]
  show Outcome.returns (if _ then if ((zeroed l).storeAll _).count = 0 then -1 else
    ((zeroed l).storeAll _).count.toInt else -1) = _
  rw [(storeAll_writes _ _).1]
  show Outcome.returns (if _ then if 0#32 + _ = 0 then -1 else (0#32 + _).toInt else -1) = _
  rw [BitVec.zero_add]

/-- The `count` of fewer than `2 ^ 31` values. -/
theorem toInt_count {n : ℕ} (h : n < 2 ^ 31) : (BitVec.ofNat 32 n).toInt = n := by
  rw [BitVec.toInt_eq_toNat_cond, BitVec.toNat_ofNat, Nat.mod_eq_of_lt (by omega)]
  exact if_pos (by omega)

/-- The call stays inside the array and the text. -/
structure StaysInside (l : Limits) (args : List Char) : Prop where
  /-- It returns, and reads no character after the terminator. -/
  reads : ∃ ret, (separateStrToArray l args).1 = .returns ret
  /-- Every write is inside the array. -/
  writes : ∀ i ∈ (separateStrToArray l args).2.writes, i < l.arraySize
  /-- The number that it returns is not more than the array has entries. -/
  count : ∀ ret, (separateStrToArray l args).1 = .returns ret → ret ≤ l.arraySize

/-- If there are more values than entries, the one after the last entry is written behind the
array. -/
theorem StaysInside.length_storedValues {l : Limits} {args : List Char} (h : StaysInside l args) :
    (storedValues l args).length ≤ l.arraySize := by
  have hsize := l.arraySize_lt
  by_contra hlt
  have hmem : l.arraySize ∈ (separateStrToArray l args).2.writes := by
    rw [separateStrToArray_writes, List.mem_append]
    refine .inr (List.mem_map.2 ⟨l.arraySize, List.mem_range.2 (by omega), ?_⟩)
    exact Nat.mod_eq_of_lt (by omega)
  exact absurd (h.writes _ hmem) (Nat.lt_irrefl _)

/-- The values that fit are written one after the other. -/
theorem staysInside_of_length {l : Limits} {args : List Char}
    (hle : (storedValues l args).length ≤ l.arraySize) : StaysInside l args := by
  have hsize := l.arraySize_lt
  have hret := separateStrToArray_ret l args
  refine ⟨⟨_, hret⟩, ?_, ?_⟩
  · intro i hi
    rw [separateStrToArray_writes, List.mem_append] at hi
    rcases hi with hi | hi
    · exact List.mem_range.1 hi
    · obtain ⟨k, hk, rfl⟩ := List.mem_map.1 hi
      have hlt := List.mem_range.1 hk
      exact Nat.lt_of_le_of_lt (Nat.mod_le _ _) (by omega)
  · rintro ret heq
    rw [hret] at heq
    obtain rfl := Outcome.returns.inj heq
    -- the count is returned as an `int`, in which it fits
    rw [toInt_count (by omega)]
    split
    · split <;> omega
    · omega

/-- A call stays inside exactly if the leading items of the text have no more values than the array
has entries. -/
theorem staysInside_iff (l : Limits) (args : List Char) :
    StaysInside l args ↔ (storedValues l args).length ≤ l.arraySize :=
  ⟨StaysInside.length_storedValues, staysInside_of_length⟩

/-- `GAZELLE_MAX_BOND_NUM` and `UINT16_MAX`. -/
def bondPorts : Limits where
  arraySize := 2
  maxValue := 65535
  arraySize_pos := Nat.zero_lt_two
  maxValue_pos := Nat.le_of_ble_eq_true rfl
  arraySize_lt := Nat.le_of_ble_eq_true rfl
  maxValue_lt := Nat.le_of_ble_eq_true rfl

/-- Three bond ports are written into an array of two. -/
theorem not_staysInside_three_ports : ¬ StaysInside bondPorts "0x1,0x2,0x4".toList := by
  intro h
  have hmem : 2 ∈ (separateStrToArray bondPorts "0x1,0x2,0x4".toList).2.writes := by decide
  exact absurd (h.writes 2 hmem) (Nat.lt_irrefl 2)

end Bounds

end NumberList

end Gazelle
