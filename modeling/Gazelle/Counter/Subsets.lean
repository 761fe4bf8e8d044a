import Mathlib.Data.Finset.Card
import Mathlib.Data.Fintype.Basic
import Mathlib.Tactic.TypeStar

/-!
# Counting the elements of a finite type

How many elements have a property, when the property changes on a few of them.

* `card_filter_change`: a property changes on the elements of a set only;
* `card_filter_update`: a function changes at one place only.
-/

namespace Counting

variable {σ : Type*} [DecidableEq σ]

/-- Two predicates that differ on some elements only are counted with these. -/
theorem card_filter_change [Fintype σ] {p q : σ → Prop} [DecidablePred p] [DecidablePred q]
    (l : Finset σ) (h : ∀ x ∉ l, p x ↔ q x) :
    (Finset.univ.filter p).card + (l.filter q).card =
      (Finset.univ.filter q).card + (l.filter p).card := by
  have hp := Finset.card_filter_add_card_filter_not (s := Finset.univ.filter p) (· ∈ l)
  have hq := Finset.card_filter_add_card_filter_not (s := Finset.univ.filter q) (· ∈ l)
  have hin : ∀ (r : σ → Prop) [DecidablePred r],
      (Finset.univ.filter r).filter (· ∈ l) = l.filter r := by
    intro r _
    ext x
    simp [and_comm]
  have hout : (Finset.univ.filter p).filter (¬ · ∈ l) =
      (Finset.univ.filter q).filter (¬ · ∈ l) := by
    ext x
    simp only [Finset.mem_filter, Finset.mem_univ, true_and]
    exact and_congr_left fun hx => h x hx
  rw [hin p, hout] at hp
  rw [hin q] at hq
  omega

/-- A list without repetitions is counted as a set. -/
theorem countP_eq_card {p : σ → Prop} [DecidablePred p] {l : List σ} (h : l.Nodup) :
    l.countP p = (l.toFinset.filter p).card := by
  have hset : l.toFinset.filter p = (l.filter fun x => decide (p x)).toFinset := by
    ext x
    simp
  rw [hset, List.toFinset_card_of_nodup (h.filter _), List.countP_eq_length_filter]

/-- A function changes at one place. -/
theorem card_filter_update [Fintype σ] {α : Type*} (f : σ → α) (x : σ) (v : α) (p : α → Prop)
    [DecidablePred p] :
    (Finset.univ.filter fun y => p (Function.update f x v y)).card + (if p (f x) then 1 else 0) =
      (Finset.univ.filter fun y => p (f y)).card + (if p v then 1 else 0) := by
  have hchange := card_filter_change (p := fun y => p (Function.update f x v y))
    (q := fun y => p (f y)) {x} fun y hy => by
      rw [Function.update_of_ne (Finset.notMem_singleton.1 hy)]
  rw [Finset.filter_singleton, Finset.filter_singleton, Function.update_self] at hchange
  split_ifs at hchange ⊢ <;> simpa using hchange

end Counting
