import Gazelle.Transition.System
import Mathlib.Data.List.Nodup
import Mathlib.Tactic.Common

/-!
# Round robin

A queue that is served in turn: the first element is served and then either goes to the end or
leaves. Elements that are not in the queue may be added at its end.

* `RoundRobin.run_serve`: several elements are served one after the other;
* `RoundRobin.served_between`: an element is not served again before all those that wait behind it.
-/

namespace RoundRobin

variable {ν : Type*} [DecidableEq ν]

/-- What happens to the queue. -/
inductive Event (ν : Type*)
  /-- An element is added. -/
  | add (x : ν)
  /-- The first element is served, and stays in the queue or not. -/
  | serve (x : ν) (stays : Bool)
  deriving DecidableEq

/-- The queue after an event. -/
def step (q : List ν) : Event ν → Option (List ν)
  | .add x => if x ∈ q then none else some (q ++ [x])
  | .serve x stays =>
    match q with
    | [] => none
    | y :: rest => if y = x then some (if stays then rest ++ [x] else rest) else none

/-- The runs of a queue. -/
def system (q₀ : List ν) : Transition.System (List ν) (Event ν) where
  Init q := q = q₀
  step := step

variable {q₀ q q' : List ν} {x y : ν}

/-- Every event keeps the queue free of duplicates. -/
theorem nodup_step {e : Event ν} (hq : q.Nodup) (h : step q e = some q') : q'.Nodup := by
  cases e with
  | add x =>
    rw [step] at h
    split at h
    · cases h
    · rename_i hx
      obtain rfl := Option.some.inj h
      exact List.nodup_append.2 ⟨hq, List.nodup_singleton x, fun a ha b hb heq =>
        hx (by rw [← List.mem_singleton.1 hb, ← heq]; exact ha)⟩
  | serve x stays =>
    cases q with
    | nil => cases h
    | cons z rest =>
      rw [step] at h
      split at h
      · rename_i hz
        obtain rfl := Option.some.inj h
        rw [List.nodup_cons] at hq
        cases stays with
        | false => exact hq.2
        | true =>
          refine List.nodup_append.2 ⟨hq.2, List.nodup_singleton x, fun a ha b hb heq => hq.1 ?_⟩
          rw [hz, ← List.mem_singleton.1 hb, ← heq]
          exact ha
      · cases h

/-- A run keeps the queue free of duplicates. -/
theorem nodup_run {events : List (Event ν)} (hq : q.Nodup)
    (h : (system q₀).run q events = some q') : q'.Nodup := by
  induction events generalizing q with
  | nil => exact Option.some.inj h ▸ hq
  | cons e events ih =>
    obtain ⟨q₁, hstep, hrest⟩ := Option.bind_eq_some_iff.1 h
    exact ih (nodup_step hq hstep) hrest

/-- The elements at the beginning are served, each once, and those that stay are at the end in their
old order. -/
theorem run_serve {stays : ν → Bool} (l : List ν) (q : List ν) :
    (system q₀).run (l ++ q) (l.map fun x => .serve x (stays x)) = some (q ++ l.filter stays) := by
  induction l generalizing q with
  | nil => exact congrArg some (List.append_nil q).symm
  | cons x l ih =>
    have hstep : step (x :: (l ++ q)) (.serve x (stays x)) =
        some (l ++ (q ++ if stays x then [x] else [])) := by
      rw [step, if_pos rfl]
      cases stays x with
      | false => exact congrArg (some <| l ++ ·) (List.append_nil q).symm
      | true => exact congrArg some (List.append_assoc l q [x])
    rw [List.cons_append, List.map_cons, Transition.System.run_cons]
    refine (congrArg (Option.bind · _) hstep).trans ?_
    rw [Option.bind_some, ih, List.append_assoc, List.filter_cons]
    split <;> rfl

/-- As long as `y` is not served, an element behind it stays behind it. -/
theorem run_behind {events : List (Event ν)} {u v : List ν} (hu : x ∉ u)
    (hnot : ∀ stays, .serve y stays ∉ events)
    (h : (system q₀).run (u ++ y :: v) events = some q') :
    ∃ u' v', q' = u' ++ y :: v' ∧ x ∉ u' := by
  induction events generalizing u v with
  | nil => exact ⟨u, v, (Option.some.inj h).symm, hu⟩
  | cons e events ih =>
    obtain ⟨q₁, hstep, hrest⟩ := Option.bind_eq_some_iff.1 h
    have hnot' : ∀ stays, .serve y stays ∉ events := fun stays hmem =>
      hnot stays (List.mem_cons_of_mem e hmem)
    cases e with
    | add z =>
      replace hstep : step (u ++ y :: v) (.add z) = some q₁ := hstep
      rw [step] at hstep
      split at hstep
      · cases hstep
      · obtain rfl := Option.some.inj hstep
        rw [List.append_assoc, List.cons_append] at hrest
        exact ih hu hnot' hrest
    | serve z stays =>
      cases u with
      | nil =>
        -- it would be `y` that is served
        replace hstep : step (y :: v) (.serve z stays) = some q₁ := hstep
        rw [step] at hstep
        split at hstep
        · rename_i hz
          exact absurd List.mem_cons_self (hz ▸ hnot stays)
        · cases hstep
      | cons w u =>
        replace hstep : step (w :: (u ++ y :: v)) (.serve z stays) = some q₁ := hstep
        rw [step] at hstep
        split at hstep
        · obtain rfl := Option.some.inj hstep
          have hu' : x ∉ u := fun hmem => hu (List.mem_cons_of_mem w hmem)
          cases stays with
          | false => exact ih hu' hnot' hrest
          | true =>
            simp only [if_true, List.append_assoc, List.cons_append] at hrest
            exact ih hu' hnot' hrest
        · cases hstep

/-- Between two times that an element is served, every other element that was in the queue at the
first time is served, too. -/
theorem served_between {between : List (Event ν)} {stays stays' : Bool} (hq : q.Nodup)
    (hy : y ∈ q) (hxy : y ≠ x)
    (h : (system q₀).run q (.serve x stays :: between ++ [.serve x stays']) = some q') :
    ∃ stays, .serve y stays ∈ between := by
  by_contra hnot
  rw [not_exists] at hnot
  rw [List.cons_append, Transition.System.run_cons, Option.bind_eq_some_iff] at h
  obtain ⟨q₁, hfirst, hrest⟩ := h
  rw [Transition.System.run_append, Option.bind_eq_some_iff] at hrest
  obtain ⟨q₂, hbetween, hlast⟩ := hrest
  -- after the first time, `y` is in front of `x`
  obtain ⟨u, v, rfl, hu⟩ : ∃ u v, q₁ = u ++ y :: v ∧ x ∉ u := by
    replace hfirst : step q (.serve x stays) = some q₁ := hfirst
    cases q with
    | nil => exact absurd hy List.not_mem_nil
    | cons z rest =>
      rw [step] at hfirst
      split at hfirst
      · rename_i hz
        subst hz
        obtain rfl := Option.some.inj hfirst
        obtain ⟨u, v, rfl⟩ := List.append_of_mem ((List.mem_cons.1 hy).resolve_left hxy)
        have hu : z ∉ u := fun hmem =>
          (List.nodup_cons.1 hq).1 (List.mem_append_left (y :: v) hmem)
        cases stays with
        | false => exact ⟨u, v, rfl, hu⟩
        | true => exact ⟨u, v ++ [z], List.append_assoc u (y :: v) [z], hu⟩
      · cases hfirst
  obtain ⟨u', v', rfl, hu'⟩ := run_behind hu hnot hbetween
  rw [Transition.System.run_cons, Option.bind_eq_some_iff] at hlast
  obtain ⟨q₃, hstep, -⟩ := hlast
  replace hstep : step (u' ++ y :: v') (.serve x stays') = some q₃ := hstep
  cases u' with
  | nil =>
    rw [List.nil_append, step, if_neg hxy] at hstep
    cases hstep
  | cons w u' =>
    have hw : w ≠ x := fun heq => hu' (heq ▸ List.mem_cons_self)
    rw [List.cons_append, step, if_neg hw] at hstep
    cases hstep

end RoundRobin
