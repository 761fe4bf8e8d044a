import Gazelle.Lists.Adjacent
import Mathlib.Logic.Function.Basic

/-!
# Circular doubly linked lists

The links of nodes in memory, and the list that they form: `Ring m l` says that the nodes of `l` are
linked to a circle in this order. Any node of the circle may be taken as its first one, so that
unlinking a node and inserting one need only be understood at the beginning.

* `Ring.rotate`: the circle from another node on;
* `Ring.remove`, `Ring.insertBefore`: what the two operations do to a circle;
* `Ring.remove_of_notMem`, `Ring.insertBefore_of_notMem`: the other nodes are left alone.
-/

namespace DoublyLinked

open List

/-- The links of the nodes. A node may be linked to nothing. -/
structure Links (ν : Type*) where
  /-- The next node. -/
  next : ν → Option ν
  /-- The previous node. -/
  prev : ν → Option ν

variable {ν : Type*}

/-- `b` comes right after `a` in the circle. -/
def After (l : List ν) (a b : ν) : Prop :=
  Adjacent l a b ∨ l.getLast? = some a ∧ l.head? = some b

/-- The nodes are linked to a circle. -/
structure Ring (m : Links ν) (l : List ν) : Prop where
  /-- No node occurs twice. -/
  nodup : l.Nodup
  /-- The links lead forwards. -/
  next : ∀ a b, After l a b → m.next a = some b
  /-- The links lead backwards. -/
  prev : ∀ a b, After l a b → m.prev b = some a

section After

variable {l l₁ l₂ : List ν} {a b : ν}

/-- The adjacent elements of two lists, one after the other. -/
theorem adjacent_append :
    Adjacent (l₁ ++ l₂) a b ↔
      Adjacent l₁ a b ∨ (l₁.getLast? = some a ∧ l₂.head? = some b) ∨ Adjacent l₂ a b := by
  induction l₂ generalizing l₁ with
  | nil => simp
  | cons x l₂ ih =>
    have hhead : (x :: l₂).head? = some b ↔ b = x := by
      rw [head?_cons, Option.some.injEq, eq_comm]
    rw [append_cons, ih, adjacent_concat, adjacent_cons, getLast?_concat, hhead, Option.some.injEq,
      eq_comm (b := a)]
    tauto

/-- The circle is the same from any of its nodes on. -/
theorem after_rotate (h₁ : l₁ ≠ []) (h₂ : l₂ ≠ []) :
    After (l₁ ++ l₂) a b ↔ After (l₂ ++ l₁) a b := by
  rw [After, After, adjacent_append, adjacent_append, getLast?_append_of_ne_nil _ h₁,
    getLast?_append_of_ne_nil _ h₂, head?_append_of_ne_nil _ h₁, head?_append_of_ne_nil _ h₂]
  tauto

/-- Every node has a next one. -/
theorem exists_after (h : a ∈ l) : ∃ b, After l a b := by
  obtain ⟨pre, post, rfl⟩ := append_of_mem h
  cases post with
  | nil =>
    obtain ⟨b, hb⟩ : ∃ b, (pre ++ [a]).head? = some b := by
      cases pre <;> exact ⟨_, rfl⟩
    exact ⟨b, .inr ⟨getLast?_concat .., hb⟩⟩
  | cons b post => exact ⟨b, .inl ⟨pre, post, rfl⟩⟩

end After

namespace Ring

variable {m : Links ν} {l l₁ l₂ : List ν} {n h : ν}

/-- The circle from another node on. -/
theorem rotate (hm : Ring m (l₁ ++ l₂)) : Ring m (l₂ ++ l₁) := by
  by_cases h₁ : l₁ = []
  · rw [h₁] at hm ⊢
    rwa [nil_append, append_nil] at *
  by_cases h₂ : l₂ = []
  · rw [h₂] at hm ⊢
    rwa [nil_append, append_nil] at *
  exact ⟨nodup_append_comm.1 hm.nodup, fun a b hab => hm.next a b ((after_rotate h₁ h₂).2 hab),
    fun a b hab => hm.prev a b ((after_rotate h₁ h₂).2 hab)⟩

/-- The last node of a circle is in front of the first one. -/
theorem exists_last (hm : Ring m (h :: l)) :
    ∃ last, (h :: l).getLast? = some last ∧ last ∈ h :: l ∧ m.prev h = some last := by
  have hlast := getLast?_eq_some_getLast (cons_ne_nil h l)
  exact ⟨_, hlast, getLast_mem _, hm.prev _ h (.inr ⟨hlast, rfl⟩)⟩

/-- A node that is linked to nothing is not in a circle. -/
theorem notMem_of_null (hm : Ring m l) (hnull : m.next n = none) : n ∉ l := by
  intro hmem
  obtain ⟨b, hb⟩ := exists_after hmem
  rw [hm.next n b hb] at hnull
  cases hnull

end Ring

/-! ## Unlinking and inserting -/

namespace Links

variable [DecidableEq ν] (m : Links ν)

/-- `prev->next = next; next->prev = prev;` for the neighbours of a node. -/
def remove (n : ν) : Links ν where
  next := match m.prev n with
    | some prev => Function.update m.next prev (m.next n)
    | none => m.next
  prev := match m.next n with
    | some next => Function.update m.prev next (m.prev n)
    | none => m.prev

/-- The links of a node are cleared. -/
def clear (n : ν) : Links ν where
  next := Function.update m.next n none
  prev := Function.update m.prev n none

/-- A node is inserted before another one. -/
def insertBefore (h n : ν) : Links ν where
  next := match m.prev h with
    | some last => Function.update (Function.update m.next n (some h)) last (some n)
    | none => Function.update m.next n (some h)
  prev := Function.update (Function.update m.prev n (m.prev h)) h (some n)

end Links

namespace Ring

variable [DecidableEq ν] {m : Links ν} {l : List ν} {n h : ν}

/-- What unlinking the first node writes. -/
theorem remove_eq (hm : Ring m (n :: l)) (hne : l ≠ []) :
    ∃ first last, l.head? = some first ∧ l.getLast? = some last ∧
      m.remove n = ⟨Function.update m.next last (some first),
        Function.update m.prev first (some last)⟩ := by
  obtain ⟨first, rest, rfl⟩ := exists_cons_of_ne_nil hne
  obtain ⟨last, hlast, -, hprev⟩ := hm.exists_last
  have hnext : m.next n = some first := hm.next n first (.inl (adjacent_cons.2 (.inl ⟨rfl, rfl⟩)))
  rw [getLast?_cons_cons] at hlast
  refine ⟨first, last, rfl, hlast, ?_⟩
  simp only [Links.remove, hnext, hprev]

/-- Unlinking the first node leaves the circle of the others. -/
theorem remove (hm : Ring m (n :: l)) (hne : l ≠ []) : Ring (m.remove n) l := by
  have hnodup := (nodup_cons.1 hm.nodup).2
  obtain ⟨first, last, hfirst, hlast, hlinks⟩ := hm.remove_eq hne
  rw [hlinks]
  refine ⟨hnodup, fun a b hab => ?_, fun a b hab => ?_⟩
  · rcases hab with hadj | ⟨ha, hb⟩
    · have hab : m.next a = some b := hm.next a b (.inl (adjacent_cons.2 (.inr hadj)))
      have hne' : a ≠ last := fun heq => hadj.getLast?_ne hnodup (by rw [heq, hlast])
      exact (Function.update_of_ne hne' _ _).trans hab
    · obtain rfl := Option.some.inj (hlast.symm.trans ha)
      obtain rfl := Option.some.inj (hfirst.symm.trans hb)
      exact Function.update_self _ _ _
  · rcases hab with hadj | ⟨ha, hb⟩
    · have hab : m.prev b = some a := hm.prev a b (.inl (adjacent_cons.2 (.inr hadj)))
      have hne' : b ≠ first := fun heq => hadj.right_ne_head hnodup (by rw [heq, hfirst])
      exact (Function.update_of_ne hne' _ _).trans hab
    · obtain rfl := Option.some.inj (hlast.symm.trans ha)
      obtain rfl := Option.some.inj (hfirst.symm.trans hb)
      exact Function.update_self _ _ _

/-- Unlinking the first node leaves the nodes outside of the circle alone. -/
theorem remove_of_notMem (hm : Ring m (n :: l)) (hne : l ≠ []) {a : ν} (ha : a ∉ l) :
    (m.remove n).next a = m.next a ∧ (m.remove n).prev a = m.prev a := by
  obtain ⟨first, last, hfirst, hlast, hlinks⟩ := hm.remove_eq hne
  have hout : ∀ {b}, b ∈ l → a ≠ b := fun hb heq => ha (heq ▸ hb)
  rw [hlinks]
  exact ⟨Function.update_of_ne (hout (mem_of_getLast? hlast)) _ _,
    Function.update_of_ne (hout (mem_of_head? hfirst)) _ _⟩

/-- Clearing the links of a node outside leaves the circle alone. -/
theorem clear (hm : Ring m l) (hn : n ∉ l) : Ring (m.clear n) l := by
  refine ⟨hm.nodup, fun a b hab => ?_, fun a b hab => ?_⟩
  · have hne : a ≠ n := by
      rintro rfl
      exact hn (hab.elim Adjacent.mem_left fun hwrap => mem_of_getLast? hwrap.1)
    exact (Function.update_of_ne hne _ _).trans (hm.next a b hab)
  · have hne : b ≠ n := by
      rintro rfl
      exact hn (hab.elim Adjacent.mem_right fun hwrap => mem_of_head? hwrap.2)
    exact (Function.update_of_ne hne _ _).trans (hm.prev a b hab)

/-- What inserting a node before the first one writes. -/
theorem insertBefore_eq (hm : Ring m (h :: l)) :
    ∃ last, (h :: l).getLast? = some last ∧ last ∈ h :: l ∧ m.insertBefore h n =
      ⟨Function.update (Function.update m.next n (some h)) last (some n),
        Function.update (Function.update m.prev n (some last)) h (some n)⟩ := by
  obtain ⟨last, hlast, hmem, hprev⟩ := hm.exists_last
  refine ⟨last, hlast, hmem, ?_⟩
  simp only [Links.insertBefore, hprev]

/-- A node that is not in the circle is inserted before the first one. -/
theorem insertBefore (hm : Ring m (h :: l)) (hn : n ∉ h :: l) :
    Ring (m.insertBefore h n) (n :: h :: l) := by
  obtain ⟨last, hlast, hmem, hlinks⟩ := hm.insertBefore_eq (n := n)
  have hn' : ∀ {a}, a ∈ h :: l → a ≠ n := fun ha heq => hn (heq ▸ ha)
  rw [hlinks]
  refine ⟨nodup_cons.2 ⟨hn, hm.nodup⟩, fun a b hab => ?_, fun a b hab => ?_⟩
  · rw [After, adjacent_cons, getLast?_cons_cons] at hab
    show Function.update (Function.update m.next n (some h)) last (some n) a = some b
    rcases hab with (⟨rfl, hb⟩ | hadj) | ⟨ha, hb⟩
    · rw [Function.update_of_ne (hn' hmem).symm, Function.update_self]
      exact hb
    · have hne : a ≠ last := fun heq => hadj.getLast?_ne hm.nodup (by rw [heq, hlast])
      rw [Function.update_of_ne hne, Function.update_of_ne (hn' hadj.mem_left)]
      exact hm.next a b (.inl hadj)
    · obtain rfl := Option.some.inj (hlast.symm.trans ha)
      rw [Function.update_self]
      exact hb
  · rw [After, adjacent_cons, getLast?_cons_cons] at hab
    show Function.update (Function.update m.prev n (some last)) h (some n) b = some a
    rcases hab with (⟨rfl, hb⟩ | hadj) | ⟨ha, hb⟩
    · obtain rfl := Option.some.inj hb
      exact Function.update_self _ _ _
    · have hne : b ≠ h := fun heq => hadj.right_ne_head hm.nodup (by rw [heq]; rfl)
      rw [Function.update_of_ne hne, Function.update_of_ne (hn' hadj.mem_right)]
      exact hm.prev a b (.inl hadj)
    · obtain rfl := Option.some.inj hb
      rw [Function.update_of_ne (hn' mem_cons_self).symm, Function.update_self, ← hlast]
      exact ha

/-- Inserting a node leaves the other nodes outside of the circle alone. -/
theorem insertBefore_of_notMem (hm : Ring m (h :: l)) {a : ν} (ha : a ∉ n :: h :: l) :
    (m.insertBefore h n).next a = m.next a ∧ (m.insertBefore h n).prev a = m.prev a := by
  obtain ⟨last, -, hmem, hlinks⟩ := hm.insertBefore_eq (n := n)
  rw [mem_cons, not_or] at ha
  have hout : ∀ {b}, b ∈ h :: l → a ≠ b := fun hb heq => ha.2 (heq ▸ hb)
  rw [hlinks]
  constructor
  · show Function.update (Function.update m.next n (some h)) last (some n) a = m.next a
    rw [Function.update_of_ne (hout hmem), Function.update_of_ne ha.1]
  · show Function.update (Function.update m.prev n (some last)) h (some n) a = m.prev a
    rw [Function.update_of_ne (hout mem_cons_self), Function.update_of_ne ha.1]

end Ring

end DoublyLinked
