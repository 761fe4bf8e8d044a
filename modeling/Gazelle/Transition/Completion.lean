import Gazelle.Transition.System

/-!
# Completion

A program of several threads completes when its steps cannot go on for ever and no state before the
end is stuck. Both are shown of single steps: a measure goes down, and some thread can go on.

* `System.CompletesIn`: all runs that meet a condition are short, and those that cannot be
  continued are at the end;
* `System.CompletesIn.of_measure`: the rule.
-/

namespace Transition.System

variable {S A : Type*} (M : System S A)

/-- Runs from `s` whose steps all meet `C` have at most `n` steps, and one that no step that meets
`C` continues is in a final state. -/
structure CompletesIn (C : S → A → Prop) (F : S → Prop) (n : ℕ) (s : S) : Prop where
  /-- The runs are short. -/
  length_le : ∀ as s', M.run s as = some s' → M.stepsMeet C s as → as.length ≤ n
  /-- They are stuck at the end only. -/
  final : ∀ as s', M.run s as = some s' → M.stepsMeet C s as →
    (∀ a, C s' a → M.step s' a = none) → F s'

variable {M} {C : S → A → Prop} {I F : S → Prop} {μ : S → ℕ}

/-- An invariant that the steps keep holds at the end of a run, and the measure has gone down by the
number of the steps. -/
theorem measure_run (hkeep : ∀ s a s', I s → C s a → M.step s a = some s' → I s')
    (hdec : ∀ s a s', I s → M.step s a = some s' → μ s' < μ s) {s s' : S} {as : List A}
    (hs : I s) (hrun : M.run s as = some s') (hmeet : M.stepsMeet C s as) :
    I s' ∧ as.length + μ s' ≤ μ s := by
  induction as generalizing s with
  | nil =>
    simp only [run_nil, Option.some.injEq] at hrun
    subst hrun
    exact ⟨hs, Nat.le_of_eq (Nat.zero_add _)⟩
  | cons a as ih =>
    simp only [run_cons, Option.bind_eq_some_iff] at hrun
    obtain ⟨t, hstep, hrest⟩ := hrun
    obtain ⟨hc, hmeet⟩ := hmeet t hstep
    obtain ⟨hs', hle⟩ := ih (hkeep s a t hs hc hstep) hrest hmeet
    have hlt := hdec s a t hs hstep
    rw [List.length_cons]
    exact ⟨hs', by omega⟩

/-- The steps keep `I` and decrease the measure, and before the end there is a step. -/
theorem CompletesIn.of_measure
    (hkeep : ∀ s a s', I s → C s a → M.step s a = some s' → I s')
    (hdec : ∀ s a s', I s → M.step s a = some s' → μ s' < μ s)
    (hlive : ∀ s, I s → ¬ F s → ∃ a, C s a ∧ M.step s a ≠ none) {s : S} (hs : I s) :
    M.CompletesIn C F (μ s) s where
  length_le as s' hrun hmeet := by
    have hle := (measure_run hkeep hdec hs hrun hmeet).2
    omega
  final as s' hrun hmeet hstuck := by
    by_contra hfinal
    obtain ⟨a, hc, hstep⟩ := hlive s' (measure_run hkeep hdec hs hrun hmeet).1 hfinal
    exact hstep (hstuck a hc)

end Transition.System
