import Mathlib.Data.List.Basic
import Mathlib.Tactic.TypeStar

/-!
# Linked lists in a memory

Cells of type `P` are linked by a function `next`, as the nodes of a heap are by a pointer.
`Linked next o l` says that `l` is the list of the cells reached from `o`.

* `Linked.unique`: the list is determined by its first cell;
* `Linked.nodup`: it has no cell twice;
* `Linked.congr`: it depends on the links of its own cells only;
* `Linked.append`: linking a list behind the last cell;
* `Linked.Chained` and `Linked.cells`: several lists, each given by its first cell and the others.
-/

variable {P : Type*} {next next' : P → Option P} {o : Option P} {l m : List P} {p z : P}

/-- The cells reached from `o` are those of the list, the last one having no successor. -/
def Linked (next : P → Option P) : Option P → List P → Prop
  | o, [] => o = none
  | o, p :: l => o = some p ∧ Linked next (next p) l

namespace Linked

@[simp]
theorem nil_iff : Linked next o [] ↔ o = none := Iff.rfl

@[simp]
theorem cons_iff : Linked next o (p :: l) ↔ o = some p ∧ Linked next (next p) l := Iff.rfl

/-- From nowhere nothing is reached. -/
theorem eq_nil (h : Linked next none l) : l = [] := by
  cases l with
  | nil => rfl
  | cons p l => exact absurd h.1 (by simp)

/-- The list starts with the first cell. -/
theorem eq_cons (h : Linked next (some p) l) : ∃ m, l = p :: m ∧ Linked next (next p) m := by
  cases l with
  | nil => exact absurd h (by simp)
  | cons q m =>
    obtain ⟨hq, hm⟩ := h
    obtain rfl : p = q := Option.some.inj hq
    exact ⟨m, rfl, hm⟩

/-- The cells reached are determined by the first one. -/
theorem unique (h : Linked next o l) (h' : Linked next o m) : l = m := by
  induction l generalizing o m with
  | nil =>
    obtain rfl : o = none := h
    exact h'.eq_nil.symm
  | cons p l ih =>
    obtain ⟨rfl, hl⟩ := h
    obtain ⟨m', rfl, hm⟩ := h'.eq_cons
    rw [ih hl hm]

/-- From a cell of the list the rest of it is reached. -/
theorem suffix (h : Linked next o (l ++ p :: m)) : Linked next (some p) (p :: m) := by
  induction l generalizing o with
  | nil => exact ⟨rfl, h.2⟩
  | cons q l ih => exact ih h.2

/-- A list that ends has no cell twice. -/
theorem nodup (h : Linked next o l) : l.Nodup := by
  induction l generalizing o with
  | nil => exact List.nodup_nil
  | cons p l ih =>
    refine List.nodup_cons.2 ⟨fun hp => ?_, ih h.2⟩
    obtain ⟨l₁, l₂, rfl⟩ := List.append_of_mem hp
    -- the rest behind the second occurrence would be the rest behind the first one
    have hlen := congrArg List.length (h.2.suffix.2.unique h.2)
    simp at hlen
    omega

/-- Only the links of the cells in the list matter. -/
theorem congr (h : Linked next o l) (hsame : ∀ p ∈ l, next' p = next p) : Linked next' o l := by
  induction l generalizing o with
  | nil => exact h
  | cons p l ih =>
    refine ⟨h.1, ?_⟩
    rw [hsame p List.mem_cons_self]
    exact ih h.2 fun q hq => hsame q (List.mem_cons_of_mem p hq)

/-- Linking the cells of `m` behind the last cell. -/
theorem append (h : Linked next o (l ++ [z])) (hz : z ∉ l) (hsame : ∀ p ≠ z, next' p = next p)
    (hm : Linked next' (next' z) m) : Linked next' o (l ++ z :: m) := by
  induction l generalizing o with
  | nil => exact ⟨h.1, hm⟩
  | cons p l ih =>
    have hne : p ≠ z := fun he => hz (he ▸ List.mem_cons_self)
    refine ⟨h.1, ?_⟩
    rw [hsame p hne]
    exact ih h.2 fun hmem => hz (List.mem_cons_of_mem p hmem)

/-- Whether a list is linked can be tested. -/
instance decidable [DecidableEq P] (next : P → Option P) :
    ∀ (o : Option P) (l : List P), Decidable (Linked next o l)
  | o, [] => inferInstanceAs (Decidable (o = none))
  | o, p :: l =>
    have := decidable next (next p) l
    inferInstanceAs (Decidable (o = some p ∧ Linked next (next p) l))

/-! ## Several lists -/

/-- The cells behind the first one are those of the list. -/
def Chained (next : P → Option P) (c : P × List P) : Prop := Linked next (next c.1) c.2

/-- Whether a list is chained is decidable. -/
instance [DecidableEq P] (next : P → Option P) (c : P × List P) : Decidable (Chained next c) :=
  decidable next (next c.1) c.2

/-- All cells of several lists. -/
def cells (cs : List (P × List P)) : List P := cs.flatMap fun c => c.1 :: c.2

variable {c : P × List P} {cs ds : List (P × List P)}

@[simp] theorem cells_nil : cells ([] : List (P × List P)) = [] := rfl

@[simp]
theorem cells_cons : cells (c :: cs) = c.1 :: c.2 ++ cells cs := rfl

@[simp]
theorem cells_append : cells (cs ++ ds) = cells cs ++ cells ds := List.flatMap_append

/-- Cells that are lists of their own. -/
theorem cells_map_single : cells (l.map fun p => (p, [])) = l := by
  induction l with
  | nil => rfl
  | cons p l ih =>
    rw [List.map_cons, cells_cons, ih]
    rfl

/-- The first cell of a list is a cell. -/
theorem mem_cells_of_mem (hc : c ∈ cs) (hp : p ∈ c.1 :: c.2) : p ∈ cells cs :=
  List.mem_flatMap.2 ⟨c, hc, hp⟩

/-- Only the links of the cells matter. -/
theorem Chained.congr (h : Chained next c) (hsame : ∀ p ∈ c.1 :: c.2, next' p = next p) :
    Chained next' c := by
  unfold Chained
  rw [hsame c.1 List.mem_cons_self]
  exact Linked.congr h fun p hp => hsame p (List.mem_cons_of_mem c.1 hp)

/-- The list starts with its first cell. -/
theorem Chained.linked (h : Chained next c) : Linked next (some c.1) (c.1 :: c.2) := ⟨rfl, h⟩

end Linked
