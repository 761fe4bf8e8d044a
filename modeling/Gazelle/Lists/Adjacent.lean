import Mathlib.Data.List.Basic
import Mathlib.Data.List.Nodup

/-!
# Adjacent elements of a list

`Adjacent l a b` says that `b` comes right after `a` somewhere in `l`. In a list without
duplicates this is a partial injection: it relates every element but the last to one successor.
-/

namespace List

variable {α : Type*} {l : List α} {a b c x : α}

/-- `b` comes right after `a` in `l`. -/
def Adjacent (l : List α) (a b : α) : Prop := ∃ pre post, l = pre ++ a :: b :: post

/-- The left of two adjacent elements is an element. -/
theorem Adjacent.mem_left (h : Adjacent l a b) : a ∈ l := by
  obtain ⟨pre, post, rfl⟩ := h
  simp

/-- The right of two adjacent elements is an element. -/
theorem Adjacent.mem_right (h : Adjacent l a b) : b ∈ l := by
  obtain ⟨pre, post, rfl⟩ := h
  simp

/-- No elements are adjacent in the empty list. -/
@[simp]
theorem not_adjacent_nil : ¬ Adjacent [] a b := by
  rintro ⟨pre, post, h⟩
  simp at h

/-- No elements are adjacent in a singleton. -/
@[simp]
theorem not_adjacent_singleton : ¬ Adjacent [x] a b := by
  rintro ⟨pre, post, h⟩
  have hlen := congrArg length h
  simp at hlen
  omega

/-- The adjacent elements of a list with a first element in front. -/
theorem adjacent_cons :
    Adjacent (x :: l) a b ↔ (a = x ∧ l.head? = some b) ∨ Adjacent l a b := by
  constructor
  · rintro ⟨pre, post, h⟩
    cases pre with
    | nil =>
      simp only [nil_append, cons.injEq] at h
      exact .inl ⟨h.1.symm, by simp [h.2]⟩
    | cons y pre =>
      simp only [cons_append, cons.injEq] at h
      exact .inr ⟨pre, post, h.2⟩
  · rintro (⟨rfl, h⟩ | ⟨pre, post, rfl⟩)
    · obtain ⟨rest, rfl⟩ := head?_eq_some_iff.1 h
      exact ⟨[], rest, rfl⟩
    · exact ⟨x :: pre, post, rfl⟩

/-- Adjacent elements of the rest of a list are adjacent in it. -/
theorem adjacent_of_tail (h : Adjacent l.tail a b) : Adjacent l a b := by
  cases l with
  | nil => exact h
  | cons x l => exact adjacent_cons.2 (.inr h)

/-- The adjacent elements of a list with an element appended. -/
theorem adjacent_concat :
    Adjacent (l ++ [x]) a b ↔ Adjacent l a b ∨ (l.getLast? = some a ∧ b = x) := by
  induction l with
  | nil => simp
  | cons y l ih =>
    rw [cons_append, adjacent_cons, ih, adjacent_cons]
    cases l with
    | nil =>
      simp only [nil_append, head?_cons, head?_nil, getLast?_nil, getLast?_singleton,
        Option.some.injEq]
      tauto
    | cons z l =>
      simp only [cons_append, head?_cons, getLast?_cons_cons]
      tauto

/-- Without duplicates an element has at most one successor. -/
theorem Adjacent.right_unique (hl : l.Nodup) (h : Adjacent l a b) (h' : Adjacent l a c) :
    b = c := by
  induction l with
  | nil => exact absurd h.mem_left not_mem_nil
  | cons y l ih =>
    rw [nodup_cons] at hl
    rw [adjacent_cons] at h h'
    rcases h with ⟨rfl, hb⟩ | h <;> rcases h' with ⟨hy, hc⟩ | h'
    · exact Option.some.inj (hb.symm.trans hc)
    · exact absurd h'.mem_left hl.1
    · exact absurd h.mem_left (hy ▸ hl.1)
    · exact ih hl.2 h h'

/-- Without duplicates the last element has no successor. -/
theorem Adjacent.getLast?_ne (hl : l.Nodup) (h : Adjacent l a b) : l.getLast? ≠ some a := by
  obtain ⟨pre, post, rfl⟩ := h
  intro hlast
  have hmem : a ∈ b :: post := by
    rw [getLast?_append_of_ne_nil _ (cons_ne_nil _ _), getLast?_cons_cons] at hlast
    exact mem_of_getLast? hlast
  rw [nodup_append, nodup_cons] at hl
  exact hl.2.1.1 hmem

/-- Without duplicates the first element is no successor. -/
theorem Adjacent.right_ne_head (hl : l.Nodup) (h : Adjacent l a b) : l.head? ≠ some b := by
  obtain ⟨pre, post, rfl⟩ := h
  intro hhead
  have hmem : b ∈ pre ++ [a] := by
    rw [append_cons, head?_append_of_ne_nil _ (by simp)] at hhead
    exact mem_of_head? hhead
  rw [append_cons, nodup_append] at hl
  exact hl.2.2 b hmem b mem_cons_self rfl

/-- The first element of a list is the last one or has a successor. -/
theorem head_eq_singleton_or_adjacent (h : l.head? = some a) :
    l = [a] ∨ ∃ b, Adjacent l a b := by
  obtain ⟨rest, rfl⟩ := head?_eq_some_iff.1 h
  cases rest with
  | nil => exact .inl rfl
  | cons b rest => exact .inr ⟨b, [], rest, rfl⟩

/-- The successor of the first element is the first element of the rest. -/
theorem Adjacent.eq_cons_cons (hl : l.Nodup) (h : Adjacent l a b) (ha : l.head? = some a) :
    ∃ rest, l = a :: b :: rest := by
  rcases head_eq_singleton_or_adjacent ha with rfl | ⟨c, -⟩
  · exact absurd h not_adjacent_singleton
  · obtain ⟨rest, rfl⟩ := head?_eq_some_iff.1 ha
    rw [adjacent_cons] at h
    rcases h with ⟨-, hb⟩ | h
    · obtain ⟨rest', rfl⟩ := head?_eq_some_iff.1 hb
      exact ⟨rest', rfl⟩
    · exact absurd h.mem_left (nodup_cons.1 hl).1

end List
