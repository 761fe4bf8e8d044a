import Mathlib.Data.Nat.ModEq
import Mathlib.Data.Nat.Bitwise
import Mathlib.Tactic.Common

/-!
# Wrapping counters

A free-running `w`-bit counter that only ever advances is the image of an unbounded count:
`Shows base c n` says that `c` is what the counter reads after `n` increments from `base`. The
lemmas recover the unbounded arithmetic from the machine arithmetic, as long as the counts
compared are less than `2 ^ w` apart, whatever `base` is:

* `Shows.toNat_sub` and `Shows.toNat_room`: the differences a ring computes from its counters;
* `Shows.and_mask`, `Shows.slot_eq` and `Shows.slot_ne`: the array index obtained by masking
  with `2 ^ k - 1` depends only on the count modulo `2 ^ k`.
-/

namespace WrapCounter

variable {w : ℕ} {base c d : BitVec w} {m n : ℕ}

/-- The counter `c` reads `n` increments after `base`. -/
def Shows (base c : BitVec w) (n : ℕ) : Prop :=
  c = base + BitVec.ofNat w n

/-- A counter that has not advanced. -/
@[simp]
theorem shows_zero (base : BitVec w) : Shows base base 0 := by
  simp [Shows]

/-- Advancing the counter advances the count. -/
theorem Shows.add (h : Shows base c n) (m : ℕ) :
    Shows base (c + BitVec.ofNat w m) (n + m) := by
  rw [Shows, h, BitVec.ofNat_add, BitVec.add_assoc]

/-- Advancing by the value of a machine word. -/
theorem Shows.add_word (h : Shows base c n) (x : BitVec w) :
    Shows base (c + x) (n + x.toNat) := by
  simpa using h.add x.toNat

/-- Two counters that show the same count are equal. -/
theorem Shows.unique (h : Shows base c n) (h' : Shows base d n) : c = d :=
  Eq.trans h (Eq.symm h')

/-- The machine difference of two counters is the difference of their counts. -/
theorem Shows.toNat_sub (h : Shows base c n) (h' : Shows base d m) (hle : n ≤ m)
    (hlt : m - n < 2 ^ w) : (d - c).toNat = m - n := by
  have hd : Shows base d (n + (m - n)) := by rwa [Nat.add_sub_cancel' hle]
  have hcd : d = c + BitVec.ofNat w (m - n) := hd.unique (h.add (m - n))
  rw [hcd, BitVec.add_comm, BitVec.add_sub_cancel, BitVec.toNat_ofNat, Nat.mod_eq_of_lt hlt]

/-- The machine computation `cap + c - d` of the room left between two counters. -/
theorem Shows.toNat_room {cap : BitVec w} (h : Shows base c n) (h' : Shows base d m)
    (hle : n ≤ m) (hcap : m - n ≤ cap.toNat) : (cap + c - d).toNat = cap.toNat - (m - n) := by
  have hlt : m - n < 2 ^ w := lt_of_le_of_lt hcap cap.isLt
  have hdiff : (d - c).toNat = m - n := h.toNat_sub h' hle hlt
  have hroom : cap + c - d = cap - (d - c) := by
    rw [BitVec.sub_eq_add_neg, BitVec.sub_eq_add_neg cap, BitVec.neg_sub, BitVec.add_comm (-d),
      ← BitVec.sub_eq_add_neg c, BitVec.sub_eq_add_neg c, BitVec.add_assoc]
  rw [hroom, BitVec.toNat_sub_of_le (by rw [BitVec.le_def, hdiff]; exact hcap), hdiff]

section Mask

variable {k : ℕ}

/-- Masking with `2 ^ k - 1` is reduction modulo `2 ^ k`. -/
theorem toNat_and_mask (hk : k ≤ w) (x : BitVec w) :
    (x &&& BitVec.ofNat w (2 ^ k - 1)).toNat = x.toNat % 2 ^ k := by
  have hlt : 2 ^ k - 1 < 2 ^ w :=
    lt_of_lt_of_le (Nat.sub_lt (Nat.two_pow_pos k) Nat.one_pos)
      (Nat.pow_le_pow_right Nat.two_pos hk)
  rw [BitVec.toNat_and, BitVec.toNat_ofNat, Nat.mod_eq_of_lt hlt, Nat.and_two_pow_sub_one_eq_mod]

/-- The masked counter is the count, shifted by the base, modulo `2 ^ k`. -/
theorem Shows.and_mask (hk : k ≤ w) (h : Shows base c n) :
    (c &&& BitVec.ofNat w (2 ^ k - 1)).toNat = (base.toNat + n) % 2 ^ k := by
  have hdvd : 2 ^ k ∣ 2 ^ w := pow_dvd_pow 2 hk
  rw [toNat_and_mask hk, h, BitVec.toNat_add, BitVec.toNat_ofNat, Nat.mod_mod_of_dvd _ hdvd,
    Nat.add_mod, Nat.mod_mod_of_dvd _ hdvd, ← Nat.add_mod]

/-- Counts that agree modulo `2 ^ k` share their slot, and only those. -/
theorem Shows.slot_eq_iff (hk : k ≤ w) (h : Shows base c n) (h' : Shows base d m) :
    c &&& BitVec.ofNat w (2 ^ k - 1) = d &&& BitVec.ofNat w (2 ^ k - 1) ↔
      n ≡ m [MOD 2 ^ k] := by
  rw [← BitVec.toNat_inj, h.and_mask hk, h'.and_mask hk]
  exact ⟨fun hmod => Nat.ModEq.add_left_cancel' _ hmod, fun hmod => hmod.add_left _⟩

/-- Different counts less than `2 ^ k` apart have different slots. -/
theorem Shows.slot_ne (hk : k ≤ w) (h : Shows base c n) (h' : Shows base d m) (hlt : n < m)
    (hnear : m - n < 2 ^ k) :
    c &&& BitVec.ofNat w (2 ^ k - 1) ≠ d &&& BitVec.ofNat w (2 ^ k - 1) := by
  rw [Ne, h.slot_eq_iff hk h']
  intro hmod
  have hdvd : 2 ^ k ∣ m - n := (Nat.modEq_iff_dvd' hlt.le).1 hmod
  exact absurd (Nat.le_of_dvd (by omega) hdvd) (by omega)

end Mask

end WrapCounter
