import Mathlib.Logic.Function.Basic
import Mathlib.Data.List.Basic

/-!
# Registers that are written through queues

Several processes write to registers. A write goes into the queue of its process, and one writer
carries the writes out, in any order that keeps each queue in its own. The registers are on their
way to a target when for each register one process alone has writes to it in its queue, and these
end with the value of the target.

* `Pending.Settles.send`, `Pending.Settles.handle`, `Pending.Settles.write`: what may happen;
* `Pending.Settles.eq_of_forall_nil`: when the queues are empty, the registers are the target.
-/

namespace Pending

variable {P K V : Type*} [DecidableEq K]

/-- The registers after the writes. -/
def apply (regs : K → V) (ws : List (K × V)) : K → V :=
  ws.foldl (fun regs w => Function.update regs w.1 w.2) regs

/-- The registers become `target`. -/
def Settles (regs : K → V) (writes : P → List (K × V)) (target : K → V) : Prop :=
  ∀ k, ∃ i, (∀ j, j ≠ i → ∀ w ∈ writes j, w.1 ≠ k) ∧ apply regs (writes i) k = target k

variable {regs regs' target : K → V} {ws : List (K × V)} {k : K} {v : V}

@[simp]
theorem apply_nil : apply regs [] = regs := rfl

@[simp]
theorem apply_cons {w : K × V} : apply regs (w :: ws) = apply (Function.update regs w.1 w.2) ws :=
  rfl

/-- The last write counts. -/
theorem apply_append_singleton :
    apply regs (ws ++ [(k, v)]) = Function.update (apply regs ws) k v := by
  rw [apply, List.foldl_append]
  rfl

/-- The writes leave a register in the same state from the same value. -/
theorem apply_congr (h : regs k = regs' k) : apply regs ws k = apply regs' ws k := by
  induction ws generalizing regs regs' with
  | nil => exact h
  | cons w ws ih =>
    have hnext : Function.update regs w.1 w.2 k = Function.update regs' w.1 w.2 k := by
      by_cases hw : k = w.1
      · rw [hw, Function.update_self, Function.update_self]
      · rw [Function.update_of_ne hw, Function.update_of_ne hw, h]
    exact ih hnext

/-- Writes of the value that a register has do not change it. -/
theorem apply_of_forall (hregs : regs k = v) (h : ∀ w ∈ ws, w.1 = k → w.2 = v) :
    apply regs ws k = v := by
  induction ws generalizing regs with
  | nil => exact hregs
  | cons w ws ih =>
    obtain ⟨hw, hws⟩ := List.forall_mem_cons.1 h
    have hnext : Function.update regs w.1 w.2 k = v := by
      by_cases hk : k = w.1
      · rw [hk, Function.update_self, hw hk.symm]
      · rw [Function.update_of_ne hk, hregs]
    exact ih hnext hws

namespace Settles

variable {writes : P → List (K × V)}

/-- A process sends a write to a register that no other one is about to write. -/
theorem send [DecidableEq P] (h : Settles regs writes target) (i : P)
    (hk : ∀ j, j ≠ i → ∀ w ∈ writes j, w.1 ≠ k) (v : V) :
    Settles regs (Function.update writes i (writes i ++ [(k, v)]))
      (Function.update target k v) := by
  intro k'
  by_cases hkk : k' = k
  · subst hkk
    refine ⟨i, fun j hj => ?_, ?_⟩
    · rw [Function.update_of_ne hj]
      exact hk j hj
    · rw [Function.update_self, apply_append_singleton, Function.update_self, Function.update_self]
  · obtain ⟨i₀, halone, happly⟩ := h k'
    refine ⟨i₀, fun j hj w hw => ?_, ?_⟩
    · by_cases hji : j = i
      · subst hji
        rw [Function.update_self, List.mem_append, List.mem_singleton] at hw
        rcases hw with hw | rfl
        · exact halone j hj w hw
        · exact Ne.symm hkk
      · rw [Function.update_of_ne hji] at hw
        exact halone j hj w hw
    · rw [Function.update_of_ne hkk, ← happly]
      by_cases hi : i₀ = i
      · rw [hi, Function.update_self, apply_append_singleton, Function.update_of_ne hkk]
      · rw [Function.update_of_ne hi]

/-- The first write of a queue is carried out. -/
theorem handle [DecidableEq P] (h : Settles regs writes target) {i : P} {rest : List (K × V)}
    (hi : writes i = (k, v) :: rest) :
    Settles (Function.update regs k v) (Function.update writes i rest) target := by
  intro k'
  obtain ⟨i₀, halone, happly⟩ := h k'
  refine ⟨i₀, fun j hj w hw => ?_, ?_⟩
  · by_cases hji : j = i
    · subst hji
      rw [Function.update_self] at hw
      exact halone j hj w (hi ▸ List.mem_cons_of_mem _ hw)
    · rw [Function.update_of_ne hji] at hw
      exact halone j hj w hw
  · by_cases hii : i₀ = i
    · rw [hii, Function.update_self, ← happly, hii, hi, apply_cons]
    · have hne : k ≠ k' := halone i (Ne.symm hii) _ (hi ▸ List.mem_cons_self)
      rw [Function.update_of_ne hii, ← happly]
      exact apply_congr (Function.update_of_ne hne.symm _ _)

/-- A register is written at once, while all writes that are on their way have the same value. -/
theorem write (h : Settles regs writes target) (hk : ∀ j, ∀ w ∈ writes j, w.1 = k → w.2 = v) :
    Settles (Function.update regs k v) writes (Function.update target k v) := by
  intro k'
  obtain ⟨i₀, halone, happly⟩ := h k'
  refine ⟨i₀, halone, ?_⟩
  by_cases hkk : k' = k
  · subst hkk
    rw [Function.update_self]
    exact apply_of_forall (Function.update_self _ _ _) (hk i₀)
  · rw [Function.update_of_ne hkk, ← happly]
    exact apply_congr (Function.update_of_ne hkk _ _)

/-- With empty queues the registers are the target. -/
theorem eq_of_forall_nil (h : Settles regs writes target) (hnil : ∀ i, writes i = []) :
    regs = target := by
  funext k
  obtain ⟨i, -, happly⟩ := h k
  rwa [hnil i, apply_nil] at happly

end Settles

end Pending
