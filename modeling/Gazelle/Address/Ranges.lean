import Mathlib.Algebra.Order.Ring.Nat
import Mathlib.Tactic.Common

/-!
# Ranges of addresses

Ranges, when they overlap, and alignment.

* `Range.Free`: a range overlaps none of a list of ranges;
* `alignUp`: the next multiple of a number;
* `exists_grid`: a grid that starts before the end of a gap has a point in the gap.
-/

namespace Address

/-- The addresses from `addr` on, `size` many. -/
structure Range where
  /-- The first address. -/
  addr : ℕ
  /-- How many there are. -/
  size : ℕ
  deriving DecidableEq

namespace Range

variable {r t r' : Range} {l : List Range}

/-- The two ranges have an address in common. -/
def Overlaps (r t : Range) : Prop := max r.addr t.addr < min (r.addr + r.size) (t.addr + t.size)

/-- Whether two ranges overlap is decidable. -/
instance (r t : Range) : Decidable (r.Overlaps t) := inferInstanceAs (Decidable (_ < _))

theorem overlaps_iff : r.Overlaps t ↔
    ∃ x, (r.addr ≤ x ∧ x < r.addr + r.size) ∧ t.addr ≤ x ∧ x < t.addr + t.size := by
  unfold Overlaps
  constructor
  · intro h
    exact ⟨max r.addr t.addr, by omega⟩
  · rintro ⟨x, hr, ht⟩
    omega

/-- The range overlaps none of the ranges. -/
def Free (l : List Range) (r : Range) : Prop := ∀ t ∈ l, ¬ r.Overlaps t

/-- So is whether a range is free. -/
instance (l : List Range) (r : Range) : Decidable (Free l r) :=
  inferInstanceAs (Decidable (∀ t ∈ l, ¬ r.Overlaps t))

/-- A part of a free range is free. -/
theorem Free.mono (h : Free l r) (hstart : r.addr ≤ r'.addr)
    (hend : r'.addr + r'.size ≤ r.addr + r.size) : Free l r' := by
  intro t ht hover
  obtain ⟨x, hr, hx⟩ := overlaps_iff.1 hover
  exact h t ht (overlaps_iff.2 ⟨x, by omega, hx⟩)

end Range

/-! ## Alignment -/

section Align

variable {d x y : ℕ}

/-- The first multiple of `d` that is at least `x`. -/
def alignUp (d x : ℕ) : ℕ := (x + (d - 1)) / d * d

theorem le_alignUp (hd : 0 < d) (x : ℕ) : x ≤ alignUp d x := by
  have hdiv := Nat.div_add_mod' (x + (d - 1)) d
  have hmod := Nat.mod_lt (x + (d - 1)) hd
  unfold alignUp
  omega

theorem alignUp_lt (hd : 0 < d) (x : ℕ) : alignUp d x < x + d := by
  have hdiv := Nat.div_mul_le_self (x + (d - 1)) d
  unfold alignUp
  omega

/-- A multiple is added. -/
theorem alignUp_add (hd : 0 < d) (x : ℕ) (hy : d ∣ y) : alignUp d (x + y) = alignUp d x + y := by
  obtain ⟨k, rfl⟩ := hy
  unfold alignUp
  rw [show x + d * k + (d - 1) = x + (d - 1) + d * k by omega, Nat.add_mul_div_left _ _ hd,
    Nat.add_mul, Nat.mul_comm k d]

/-- A multiple is aligned. -/
theorem alignUp_of_dvd (hd : 0 < d) (hx : d ∣ x) : alignUp d x = x := by
  have hzero : alignUp d 0 = 0 := by
    unfold alignUp
    rw [Nat.zero_add, Nat.div_eq_of_lt (Nat.sub_lt hd Nat.one_pos), Nat.zero_mul]
  have hadd := alignUp_add hd 0 hx
  rwa [Nat.zero_add, hzero, Nat.zero_add] at hadd

/-- The points from `x` on, with distance `step`, have one in the range from `a` to `a + step`. -/
theorem exists_grid {step a : ℕ} (hstep : 0 < step) (h : x ≤ a + step) :
    ∃ k, a ≤ x + k * step ∧ x + k * step ≤ a + step := by
  by_cases hle : a ≤ x
  · exact ⟨0, by omega, by omega⟩
  · refine ⟨(a - x + (step - 1)) / step, ?_, ?_⟩
    · have hpoint := le_alignUp hstep (a - x)
      unfold alignUp at hpoint
      omega
    · have hpoint := alignUp_lt hstep (a - x)
      unfold alignUp at hpoint
      omega

end Align

end Address
