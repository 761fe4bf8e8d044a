import Mathlib.Data.List.Nodup

/-!
# Erasing by key

A list is emptied by going through its elements in the opposite order and erasing for each one that
is still there the first element with its key. An element whose key stands further ahead takes that
other one away instead of itself, and then stays for good: the list is empty in the end exactly when
the keys are distinct.

* `List.eraseByKey`: one round;
* `List.foldl_eraseByKey_eq_nil`: when nothing is left.
-/

namespace List

variable {α κ : Type*} [DecidableEq α] [DecidableEq κ] (key : α → κ)

/-- The round for `x`: while it is in the list, the first element with its key goes. -/
def eraseByKey (l : List α) (x : α) : List α :=
  if x ∈ l then l.eraseP fun y => key y = key x else l

/-- An element that is not there changes nothing. -/
theorem eraseByKey_of_not_mem {l : List α} {x : α} (h : x ∉ l) : l.eraseByKey key x = l :=
  if_neg h

/-- A round takes one element away. -/
theorem length_eraseByKey {l : List α} {x : α} (h : x ∈ l) :
    (l.eraseByKey key x).length = l.length - 1 := by
  rw [eraseByKey, if_pos h, length_eraseP_of_mem h (by simp)]

/-- No round adds anything. -/
theorem eraseByKey_subset {l : List α} {x y : α} (h : y ∈ l.eraseByKey key x) : y ∈ l := by
  unfold eraseByKey at h
  split at h
  · exact mem_of_mem_eraseP h
  · exact h

theorem foldl_eraseByKey_subset {l xs : List α} {y : α} (h : y ∈ xs.foldl (eraseByKey key) l) :
    y ∈ l := by
  induction xs generalizing l with
  | nil => exact h
  | cons x xs ih => exact eraseByKey_subset key (ih h)

/-- The last element stays in the rounds for the others. -/
theorem eraseByKey_concat {l : List α} {x y : α} (h : x ≠ y) :
    (l ++ [y]).eraseByKey key x = l.eraseByKey key x ++ [y] := by
  unfold eraseByKey
  by_cases hx : x ∈ l
  · rw [if_pos hx, if_pos (mem_append_left _ hx), eraseP_append_left (by simp) _ hx]
  · rw [if_neg hx, if_neg]
    simp [hx, h]

/-- It stays in all of them. -/
theorem foldl_eraseByKey_concat {l xs : List α} {y : α} (h : y ∉ xs) :
    xs.foldl (eraseByKey key) (l ++ [y]) = xs.foldl (eraseByKey key) l ++ [y] := by
  induction xs generalizing l with
  | nil => rfl
  | cons x xs ih =>
    rw [mem_cons, not_or] at h
    rw [foldl_cons, eraseByKey_concat key (Ne.symm h.1), ih h.2, foldl_cons]

/-- Nothing is left of the list exactly when its keys are distinct. -/
theorem foldl_eraseByKey_eq_nil {xs : List α} (h : xs.Nodup) :
    xs.foldl (eraseByKey key) xs.reverse = [] ↔ (xs.map key).Nodup := by
  induction xs with
  | nil => simp
  | cons x xs ih =>
    rw [nodup_cons] at h
    have hmem : x ∈ xs.reverse ++ [x] := by simp
    rw [foldl_cons, reverse_cons, map_cons, nodup_cons, eraseByKey, if_pos hmem]
    by_cases hkey : key x ∈ xs.map key
    · -- another element goes, and this one stays
      obtain ⟨y, hy, hyx⟩ := mem_map.1 hkey
      rw [eraseP_append_left (by simpa using hyx) _ (mem_reverse.2 hy),
        foldl_eraseByKey_concat key h.1]
      simp [hkey]
    · have hnone : ∀ y ∈ xs.reverse, ¬ decide (key y = key x) = true := by
        intro y hy
        rw [decide_eq_true_eq]
        intro heq
        exact hkey (mem_map.2 ⟨y, mem_reverse.1 hy, heq⟩)
      rw [eraseP_append_right _ hnone, eraseP_cons_of_pos (by simp), append_nil, ih h.2]
      simp [hkey]

end List
