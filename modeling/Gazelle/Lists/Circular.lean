import Mathlib.Data.List.Basic
import Mathlib.Data.Nat.ModEq
import Mathlib.Logic.Function.Basic

/-!
# Lists held by circular buffers

`Circular.Holds size buf start l`: the array `buf` of `size` places holds the list `l` from the
place `start` on, wrapping at the end. Appending writes the place after the list and dropping moves
the start.
-/

namespace Circular

variable {α : Type*} {size start n : ℕ} {buf : ℕ → Option α} {l : List α} {x : α}

/-- The array holds the list from `start` on. -/
def Holds (size : ℕ) (buf : ℕ → Option α) (start : ℕ) (l : List α) : Prop :=
  ∀ i x, l[i]? = some x → buf ((start + i) % size) = some x

theorem Holds.nil : Holds size buf start [] := by
  intro i x hx
  cases hx

/-- The object at an index of the list. -/
theorem Holds.get (h : Holds size buf start l) {i : ℕ} (hi : i < l.length) :
    buf ((start + i) % size) = some l[i] :=
  h i l[i] (List.getElem?_eq_getElem hi)

/-- Two places of a list that fits the array are different. -/
theorem index_injective {i j : ℕ} (hi : i < size) (hj : j < size)
    (h : (start + i) % size = (start + j) % size) : i = j := by
  have hmod : i ≡ j [MOD size] := Nat.ModEq.add_left_cancel' start h
  rwa [Nat.ModEq, Nat.mod_eq_of_lt hi, Nat.mod_eq_of_lt hj] at hmod

/-- An object is stored after the last one. -/
theorem Holds.snoc (h : Holds size buf start l) (hroom : l.length < size) :
    Holds size (Function.update buf ((start + l.length) % size) (some x)) start (l ++ [x]) := by
  intro i y hy
  by_cases hi : i < l.length
  · rw [List.getElem?_append_left hi] at hy
    have hne : (start + i) % size ≠ (start + l.length) % size := fun heq =>
      absurd (index_injective (Nat.lt_trans hi hroom) hroom heq) (Nat.ne_of_lt hi)
    rw [Function.update_of_ne hne]
    exact h i y hy
  · obtain ⟨rfl, rfl⟩ : i = l.length ∧ x = y := by
      rw [List.getElem?_append_right (Nat.not_lt.1 hi), List.getElem?_singleton] at hy
      split at hy
      · exact ⟨by omega, Option.some.inj hy⟩
      · cases hy
    rw [Function.update_self]

/-- The first objects are taken out. -/
theorem Holds.drop (h : Holds size buf start l) (n : ℕ) :
    Holds size buf ((start + n) % size) (l.drop n) := by
  intro i x hx
  rw [List.getElem?_drop] at hx
  rw [Nat.mod_add_mod, Nat.add_assoc]
  exact h (n + i) x hx

end Circular
