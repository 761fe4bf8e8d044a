import Gazelle.Ring.Refinement

/-!
# The slot of the object confirmed last

The reader of a gazelle ring may look again at the slot before `prod.tail`, where it found the
object that it confirmed last. The object may have been dequeued since; the slot still holds it,
because the owner always leaves one slot free.

* `RingSys.HoldsBehind`: the slot before `cons.tail` still holds its object;
* `RingSys.RingInv.get_last`: what is found in the slot before `prod.tail`.
-/

namespace Gazelle

open WrapCounter

namespace RingSys

variable {α : Type*} {k : ℕ} {start : U32} {s s' : RingSys α}

/-- The objects in the ring are in their slots, and so is the one dequeued last. -/
def HoldsBehind (start : U32) (s : RingSys α) : Prop :=
  ∀ i (h : i < s.accepted.length), s.dequeued.length ≤ i + 1 →
    s.ring.get (start + BitVec.ofNat 32 i) = s.accepted[i]

theorem HoldsBehind.create (k : ℕ) (start : U32) (slots : U32 → α) :
    HoldsBehind start (RingSys.create k start slots) := fun _ h => absurd h (Nat.not_lt_zero _)

/-- No step overwrites the slot of the object dequeued last. -/
theorem RingInv.keeps_slot_behind (hk : k ≤ 31) (h : RingInv k start s) {a : RingAct α}
    (hs : s.step a = some s') {i : ℕ} (hdeq : s.dequeued.length ≤ i + 1)
    (hacc : i < s.accepted.length) :
    s'.ring.get (start + BitVec.ofNat 32 i) = s.ring.get (start + BitVec.ofNat 32 i) := by
  rcases get_of_step hs with hsame | ⟨objTable, head, j, x, hpc, hx, hring⟩
  · exact hsame _
  · have howner := h.owner
    rw [hpc] at howner
    obtain ⟨hhead, -, hroom, -⟩ := howner
    have hjlt : j < objTable.length := (List.getElem?_eq_some_iff.1 hx).1
    have hpos : head + BitVec.ofNat 32 j = start + BitVec.ofNat 32 (s.accepted.length + j) := by
      rw [hhead]
      exact (h.consHead.add j).unique rfl
    rw [hring, hpos, get_set_of_near hk h.mask x (by omega) (by omega)]

/-- What is accepted and what is dequeued only grow. -/
theorem grows_of_step {a : RingAct α} (hs : s.step a = some s') :
    s.accepted <+: s'.accepted ∧ s.dequeued <+: s'.dequeued := by
  rcases historyStep_of_step hs with ⟨ha, -, -, hd⟩ | ⟨xs, ha, -, -, hd⟩ | ⟨xs, ha, -, -, hd⟩ |
    ⟨ha, -, -, hd⟩ | ⟨xs, ha, -, -, hd⟩
  all_goals
    rw [ha, hd]
    exact ⟨by simp, by simp⟩

/-- What is confirmed only grows. -/
theorem RingInv.confirmed_grows (h : RingInv k start s) {a : RingAct α}
    (hs : s.step a = some s') : s.confirmed <+: s'.confirmed := by
  rcases historyStep_of_step hs with ⟨-, -, hc, -⟩ | ⟨xs, -, -, hc, -⟩ | ⟨xs, -, -, hc, -⟩ |
    ⟨-, -, hc, -⟩ | ⟨xs, -, -, hc, -⟩
  case confirm => exact hc ▸ h.confirmed_prefix
  all_goals exact hc ▸ List.prefix_rfl

/-- One step. -/
theorem HoldsBehind.step (hk : k ≤ 31) (h : RingInv k start s) (hb : HoldsBehind start s)
    {a : RingAct α} (hs : s.step a = some s') : HoldsBehind start s' := by
  obtain ⟨hacc, hdeq⟩ := grows_of_step hs
  intro i hi hle
  have hle' := hdeq.length_le.trans hle
  by_cases hold : i < s.accepted.length
  · rw [h.keeps_slot_behind hk hs hle' hold, hb i hold hle']
    exact hacc.getElem hold
  · -- what is accepted now was not dequeued yet
    have hcases : s'.accepted = s.accepted ∨ s'.dequeued = s.dequeued := by
      rcases historyStep_of_step hs with ⟨ha, -, -, -⟩ | ⟨xs, -, -, -, hd⟩ | ⟨xs, ha, -, -, -⟩ |
        ⟨ha, -, -, -⟩ | ⟨xs, ha, -, -, -⟩
      · exact .inl ha
      · exact .inr hd
      all_goals exact .inl ha
    rcases hcases with ha | hd
    · rw [ha] at hi
      exact absurd hi hold
    · have hold' := h.dequeued_le.trans (h.confirmed_le.trans h.readOut_le)
      refine (h.step hk hs).holds i hi ?_
      rw [hd]
      omega

/-- The slot before `prod.tail` holds the object that was confirmed last. -/
theorem RingInv.get_last (h : RingInv k start s) (hb : HoldsBehind start s) {x : α}
    (hx : s.confirmed.getLast? = some x) : s.ring.get (s.ring.prod.tail - 1) = x := by
  have hne : s.confirmed ≠ [] := by
    rintro hnil
    rw [hnil] at hx
    cases hx
  have hpos := List.length_pos_iff.2 hne
  have hlt : s.confirmed.length - 1 < s.accepted.length := by
    have hconf := h.confirmed_le
    have hread := h.readOut_le
    omega
  have htail : s.ring.prod.tail - 1 = start + BitVec.ofNat 32 (s.confirmed.length - 1) := by
    have hone : BitVec.ofNat 32 s.confirmed.length =
        BitVec.ofNat 32 (s.confirmed.length - 1) + BitVec.ofNat 32 1 := by
      rw [← BitVec.ofNat_add, Nat.sub_add_cancel hpos]
    rw [h.prodTail, hone, ← BitVec.add_assoc]
    exact BitVec.add_sub_cancel _ _
  rw [htail, hb _ hlt (by have := h.dequeued_le; omega)]
  obtain ⟨rest, hrest⟩ := h.confirmed_prefix.trans h.readOut_prefix
  rw [List.getLast?_eq_getElem?, List.getElem?_eq_getElem (by omega), Option.some.injEq] at hx
  rw [← hx]
  simp only [← hrest]
  exact List.getElem_append_left (by omega)

end RingSys

end Gazelle
