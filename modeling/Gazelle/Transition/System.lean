import Mathlib.Data.List.Basic
import Mathlib.Tactic.TypeStar

/-!
# Transition systems

A transition system is a predicate on initial states and a partial step function: `step s a`
is the successor of `s` under the action `a`, or `none` when `a` is not enabled at `s`.
Concurrent programs are given in this form with one action per atomic step of one thread, so
that the reachable states are those of all interleavings.

The module provides:

* `System.Reachable` and `System.ReachableUnder C`: the states reached by arbitrary steps, and
  by steps that all meet the condition `C` on the state before the step and the action;
* `System.invariant` and `System.invariant_under`: the induction rules for the two;
* `System.run`: execution of a given list of actions, with `System.reachable_of_run` and
  `System.reachableUnder_of_run`;
* `System.runUnder`: the same as long as the actions meet a condition;
* `System.statesHold_iff_stepsMeet`: if the steps that keep a run good are those that meet `C`,
  then all states of a run are good exactly when all its steps meet `C`;
* `Simulation`: a forward simulation with stuttering, and `Simulation.reachable`.
-/

namespace Transition

/-- A transition system with states `S` and actions `A`. -/
structure System (S A : Type*) where
  /-- The initial states. -/
  Init : S → Prop
  /-- The successor of a state under an action, `none` when the action is not enabled. -/
  step : S → A → Option S

namespace System

variable {S A : Type*} (M : System S A)

/-- The states reached from an initial state by any sequence of enabled actions. -/
inductive Reachable : S → Prop
  | init {s : S} : M.Init s → Reachable s
  | step {s s' : S} {a : A} : Reachable s → M.step s a = some s' → Reachable s'

/-- The states reached from an initial state by steps that all meet `C`. -/
inductive ReachableUnder (C : S → A → Prop) : S → Prop
  | init {s : S} : M.Init s → ReachableUnder C s
  | step {s s' : S} {a : A} :
      ReachableUnder C s → C s a → M.step s a = some s' → ReachableUnder C s'

variable {M}

/-- A predicate that holds initially and is preserved by every step from a reachable state holds
of every reachable state. -/
theorem invariant {I : S → Prop} (hinit : ∀ s, M.Init s → I s)
    (hstep : ∀ s a s', M.Reachable s → I s → M.step s a = some s' → I s') {s : S}
    (hs : M.Reachable s) : I s := by
  induction hs with
  | init h => exact hinit _ h
  | step hr h ih => exact hstep _ _ _ hr ih h

/-- The invariant rule for runs whose steps all meet `C`. -/
theorem invariant_under {C : S → A → Prop} {I : S → Prop} (hinit : ∀ s, M.Init s → I s)
    (hstep : ∀ s a s', I s → C s a → M.step s a = some s' → I s') {s : S}
    (hs : M.ReachableUnder C s) : I s := by
  induction hs with
  | init h => exact hinit _ h
  | step _ hc h ih => exact hstep _ _ _ ih hc h

/-- A state reached under a condition is reachable. -/
theorem ReachableUnder.reachable {C : S → A → Prop} {s : S} (hs : M.ReachableUnder C s) :
    M.Reachable s := by
  induction hs with
  | init h => exact .init h
  | step _ _ h ih => exact .step ih h

/-- A state reached under a condition is reached under any weaker one. -/
theorem ReachableUnder.mono {C D : S → A → Prop} (h : ∀ s a, C s a → D s a) {s : S}
    (hs : M.ReachableUnder C s) : M.ReachableUnder D s := by
  induction hs with
  | init hi => exact .init hi
  | step _ hc hstep ih => exact .step ih (h _ _ hc) hstep

variable (M)

/-- Execute a list of actions, `none` as soon as one of them is not enabled. -/
def run (s : S) : List A → Option S
  | [] => some s
  | a :: as => (M.step s a).bind fun s' => run s' as

@[simp]
theorem run_nil (s : S) : M.run s [] = some s := rfl

@[simp]
theorem run_cons (s : S) (a : A) (as : List A) :
    M.run s (a :: as) = (M.step s a).bind fun s' => M.run s' as := rfl

variable {M}

/-- Two lists of actions are executed one after the other. -/
theorem run_append (s : S) (l₁ l₂ : List A) :
    M.run s (l₁ ++ l₂) = (M.run s l₁).bind fun t => M.run t l₂ := by
  induction l₁ generalizing s with
  | nil => rfl
  | cons a l₁ ih =>
    rw [List.cons_append, run_cons, run_cons, Option.bind_assoc]
    exact congrArg _ (funext ih)

/-- The final state of an executed list of actions is reachable. -/
theorem reachable_of_run {s s' : S} {l : List A} (hs : M.Reachable s)
    (hrun : M.run s l = some s') : M.Reachable s' := by
  induction l generalizing s with
  | nil =>
    simp only [run_nil, Option.some.injEq] at hrun
    exact hrun ▸ hs
  | cons a as ih =>
    simp only [run_cons, Option.bind_eq_some_iff] at hrun
    obtain ⟨t, hstep, hrest⟩ := hrun
    exact ih (.step hs hstep) hrest

variable (M)

/-- `P` holds of every state visited while executing the actions from `s`. -/
def statesHold (P : S → Prop) (s : S) : List A → Prop
  | [] => P s
  | a :: as => P s ∧ ∀ s', M.step s a = some s' → statesHold P s' as

/-- Every step taken while executing the actions from `s` meets `C`. -/
def stepsMeet (C : S → A → Prop) (s : S) : List A → Prop
  | [] => True
  | a :: as => ∀ s', M.step s a = some s' → C s a ∧ stepsMeet C s' as

variable {M}

/-- The final state of an executed list of actions whose steps all meet `C` is reachable by such
steps. -/
theorem reachableUnder_of_run {C : S → A → Prop} {s s' : S} {l : List A}
    (hs : M.ReachableUnder C s) (hrun : M.run s l = some s') (hmeet : M.stepsMeet C s l) :
    M.ReachableUnder C s' := by
  induction l generalizing s with
  | nil =>
    simp only [run_nil, Option.some.injEq] at hrun
    exact hrun ▸ hs
  | cons a as ih =>
    simp only [run_cons, Option.bind_eq_some_iff] at hrun
    obtain ⟨t, hstep, hrest⟩ := hrun
    obtain ⟨hc, hmeet⟩ := hmeet t hstep
    exact ih (.step hs hc hstep) hrest hmeet

/-- Actions that meet the condition in every state. -/
theorem stepsMeet_of_forall {C : S → A → Prop} {as : List A} (h : ∀ a ∈ as, ∀ s, C s a) (s : S) :
    M.stepsMeet C s as := by
  induction as generalizing s with
  | nil => trivial
  | cons a as ih =>
    exact fun s' _ =>
      ⟨h a List.mem_cons_self s, ih (fun b hb => h b (List.mem_cons_of_mem a hb)) s'⟩

variable (M) in
/-- Execute a list of actions, `none` as soon as one of them is not enabled or does not meet `C`. -/
def runUnder (C : S → A → Prop) [∀ s a, Decidable (C s a)] (s : S) : List A → Option S
  | [] => some s
  | a :: as => if C s a then (M.step s a).bind fun s' => runUnder C s' as else none

/-- The final state of an executed list of actions is reachable under the condition they meet. -/
theorem reachableUnder_of_runUnder {C : S → A → Prop} [∀ s a, Decidable (C s a)] {s s' : S}
    {l : List A} (hs : M.ReachableUnder C s) (hrun : M.runUnder C s l = some s') :
    M.ReachableUnder C s' := by
  induction l generalizing s with
  | nil => exact Option.some.inj hrun ▸ hs
  | cons a as ih =>
    rw [runUnder, Option.ite_none_right_eq_some] at hrun
    obtain ⟨hc, hrest⟩ := hrun
    obtain ⟨t, hstep, hrest⟩ := Option.bind_eq_some_iff.1 hrest
    exact ih (.step hs hc hstep) hrest

/-- Whether all steps meet a condition is found by executing them. -/
instance decidableStepsMeet {C : S → A → Prop} [∀ s a, Decidable (C s a)] :
    ∀ (s : S) (as : List A), Decidable (M.stepsMeet C s as)
  | _, [] => isTrue trivial
  | s, a :: as =>
    match hstep : M.step s a with
    | none => isTrue fun s' h => by rw [hstep] at h; cases h
    | some t =>
      haveI := decidableStepsMeet (C := C) t as
      decidable_of_iff (C s a ∧ M.stepsMeet C t as)
        ⟨fun h s' h' => by rw [hstep] at h'; exact Option.some.inj h' ▸ h, fun h => h t hstep⟩

/-- The first state of a run is one of its states. -/
theorem statesHold.head {P : S → Prop} {s : S} {as : List A} (h : M.statesHold P s as) : P s := by
  cases as with
  | nil => exact h
  | cons a as => exact h.1

/-- Suppose that a step that meets `C` keeps the invariant `J`, that `J` entails `P`, and that a
step from `J` to a state with `P` meets `C`. Then along a run that starts in `J`, all states have
`P` exactly when all steps meet `C`. -/
theorem statesHold_iff_stepsMeet {J P : S → Prop} {C : S → A → Prop}
    (hJP : ∀ s, J s → P s)
    (hkeep : ∀ s a s', J s → C s a → M.step s a = some s' → J s')
    (hmeet : ∀ s a s', J s → P s' → M.step s a = some s' → C s a) {s : S} {as : List A}
    (hs : J s) : M.statesHold P s as ↔ M.stepsMeet C s as := by
  induction as generalizing s with
  | nil => simp [statesHold, stepsMeet, hJP s hs]
  | cons a as ih =>
    simp only [statesHold, stepsMeet]
    constructor
    · rintro ⟨-, hrest⟩ s' h
      have hc : C s a := hmeet s a s' hs (hrest s' h).head h
      exact ⟨hc, (ih (hkeep s a s' hs hc h)).1 (hrest s' h)⟩
    · intro hC
      refine ⟨hJP s hs, fun s' h => ?_⟩
      obtain ⟨hc, hrest⟩ := hC s' h
      exact (ih (hkeep s a s' hs hc h)).2 hrest

end System

/-- `R` is a forward simulation of `M` by `N`: initial states are related to initial states, and
a step of `M` is matched by one step of `N` or by none. -/
structure Simulation {S A T B : Type*} (M : System S A) (N : System T B)
    (R : S → T → Prop) : Prop where
  /-- Every initial state of `M` is related to an initial state of `N`. -/
  init : ∀ s, M.Init s → ∃ t, N.Init t ∧ R s t
  /-- Every step of `M` from related states is matched. -/
  step : ∀ s a s' t, M.Reachable s → R s t → M.step s a = some s' →
    R s' t ∨ ∃ b t', N.step t b = some t' ∧ R s' t'

/-- Every reachable state of a simulated system is related to a reachable state of the
simulating one. -/
theorem Simulation.reachable {S A T B : Type*} {M : System S A} {N : System T B}
    {R : S → T → Prop} (sim : Simulation M N R) {s : S} (hs : M.Reachable s) :
    ∃ t, N.Reachable t ∧ R s t := by
  induction hs with
  | init h =>
    obtain ⟨t, ht, hR⟩ := sim.init _ h
    exact ⟨t, .init ht, hR⟩
  | step hr h ih =>
    obtain ⟨t, ht, hR⟩ := ih
    rcases sim.step _ _ _ _ hr hR h with hR' | ⟨b, t', hb, hR'⟩
    · exact ⟨t, ht, hR'⟩
    · exact ⟨t', .step ht hb, hR'⟩

end Transition
