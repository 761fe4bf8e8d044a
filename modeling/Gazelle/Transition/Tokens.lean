import Mathlib.Logic.Function.Basic
import Mathlib.Data.Nat.Notation
import Mathlib.Tactic.TypeStar

/-!
# Things that are passed on

Things are allocated one after the other. A holder has at most one of them, and hands it to an end.
A thing is lost when its holder drops it, and has two ends when it is handed over twice.

* `Tokens.Linear`: each thing has one holder or one end;
* `Tokens.Linear.alloc`, `Tokens.Linear.finish`: the two moves that keep this.
-/

/-- Who holds which thing, and what has become of each. -/
structure Tokens (H E : Type*) where
  /-- What a holder has. -/
  hold : H → Option ℕ
  /-- The ends of a thing. -/
  ends : ℕ → List E
  /-- The number of things allocated. -/
  allocs : ℕ

namespace Tokens

variable {H E : Type*}

/-- Each thing allocated has one holder or one end. -/
structure Linear (t : Tokens H E) : Prop where
  /-- What is held was allocated. -/
  lt : ∀ x c, t.hold x = some c → c < t.allocs
  /-- It has one holder. -/
  inj : ∀ x y c, t.hold x = some c → t.hold y = some c → x = y
  /-- It has no end. -/
  held : ∀ x c, t.hold x = some c → t.ends c = []
  /-- What is not held has one end. -/
  ended : ∀ c, c < t.allocs → (∀ x, t.hold x ≠ some c) → (t.ends c).length = 1
  /-- What is not allocated has no end. -/
  fresh : ∀ c, t.allocs ≤ c → t.ends c = []

variable [DecidableEq H] {t : Tokens H E} {x : H} {c : ℕ}

/-- A holder gets a new thing. -/
def alloc (t : Tokens H E) (x : H) : Tokens H E where
  hold := Function.update t.hold x (some t.allocs)
  ends := t.ends
  allocs := t.allocs + 1

/-- A holder hands over what it has. -/
def finish (t : Tokens H E) (x : H) (c : ℕ) (e : E) : Tokens H E where
  hold := Function.update t.hold x none
  ends := Function.update t.ends c (t.ends c ++ [e])
  allocs := t.allocs

@[simp]
theorem alloc_hold_self : (t.alloc x).hold x = some t.allocs := Function.update_self ..

theorem alloc_hold_of_ne {y : H} (hy : y ≠ x) : (t.alloc x).hold y = t.hold y :=
  Function.update_of_ne hy ..

@[simp]
theorem finish_hold_self {e : E} : (t.finish x c e).hold x = none := Function.update_self ..

theorem finish_hold_of_ne {e : E} {y : H} (hy : y ≠ x) : (t.finish x c e).hold y = t.hold y :=
  Function.update_of_ne hy ..

@[simp]
theorem finish_ends_self {e : E} : (t.finish x c e).ends c = t.ends c ++ [e] :=
  Function.update_self ..

theorem finish_ends_of_ne {e : E} {d : ℕ} (hd : d ≠ c) : (t.finish x c e).ends d = t.ends d :=
  Function.update_of_ne hd ..

/-- An allocation by a holder that has nothing. -/
theorem Linear.alloc (h : t.Linear) (hx : t.hold x = none) : (t.alloc x).Linear := by
  -- `x` has the new token, the others have what they had
  have hother : ∀ y d, (t.alloc x).hold y = some d → (y = x ∧ d = t.allocs) ∨
      (y ≠ x ∧ t.hold y = some d) := by
    intro y d hy
    by_cases heq : y = x
    · subst heq
      rw [alloc_hold_self] at hy
      exact .inl ⟨rfl, (Option.some.inj hy).symm⟩
    · rw [alloc_hold_of_ne heq] at hy
      exact .inr ⟨heq, hy⟩
  refine ⟨fun y d hy => ?_, fun y z d hy hz => ?_, fun y d hy => ?_, fun d hd hnot => ?_,
    fun d hd => h.fresh d (Nat.le_of_succ_le hd)⟩
  · rcases hother y d hy with ⟨-, rfl⟩ | ⟨-, hy⟩
    · exact Nat.lt_succ_self _
    · exact Nat.lt_succ_of_lt (h.lt y d hy)
  · -- two holders of the new token are both `x`, as it is not among the old ones
    rcases hother y d hy with ⟨rfl, rfl⟩ | ⟨-, hy⟩
    · rcases hother z _ hz with ⟨rfl, -⟩ | ⟨-, hz⟩
      · rfl
      · exact absurd (h.lt z _ hz) (Nat.lt_irrefl _)
    · rcases hother z d hz with ⟨-, rfl⟩ | ⟨-, hz⟩
      · exact absurd (h.lt y _ hy) (Nat.lt_irrefl _)
      · exact h.inj y z d hy hz
  · rcases hother y d hy with ⟨-, rfl⟩ | ⟨-, hy⟩
    · exact h.fresh _ (Nat.le_refl _)
    · exact h.held y d hy
  · -- the new token has a holder
    have hne : d ≠ t.allocs := by
      rintro rfl
      exact hnot x alloc_hold_self
    refine h.ended d (Nat.lt_of_le_of_ne (Nat.le_of_lt_succ hd) hne) fun y hy => hnot y ?_
    have hyx : y ≠ x := by
      rintro rfl
      cases hx.symm.trans hy
    exact (alloc_hold_of_ne hyx).trans hy

/-- A holder hands over what it has. -/
theorem Linear.finish (h : t.Linear) (hx : t.hold x = some c) (e : E) :
    (t.finish x c e).Linear := by
  -- `x` has nothing after it, the others have what they had
  have hother : ∀ y d, (t.finish x c e).hold y = some d → y ≠ x ∧ t.hold y = some d := by
    intro y d hy
    by_cases heq : y = x
    · subst heq
      rw [finish_hold_self] at hy
      cases hy
    · rw [finish_hold_of_ne heq] at hy
      exact ⟨heq, hy⟩
  refine ⟨fun y d hy => h.lt y d (hother y d hy).2,
    fun y z d hy hz => h.inj y z d (hother y d hy).2 (hother z d hz).2, fun y d hy => ?_,
    fun d hd hnot => ?_, fun d hd => ?_⟩
  · obtain ⟨hne, hheld⟩ := hother y d hy
    -- no other holder has the token that ended
    have hdc : d ≠ c := by
      rintro rfl
      exact hne (h.inj y x d hheld hx)
    rw [finish_ends_of_ne hdc]
    exact h.held y d hheld
  · by_cases hdc : d = c
    · subst hdc
      rw [finish_ends_self, h.held x d hx]
      rfl
    · rw [finish_ends_of_ne hdc]
      refine h.ended d hd fun y hy => hnot y ?_
      -- the holders of the other tokens are not `x`
      have hyx : y ≠ x := by
        rintro rfl
        exact hdc (Option.some.inj (hy.symm.trans hx))
      exact (finish_hold_of_ne hyx).trans hy
  · have hdc : d ≠ c := by
      rintro rfl
      exact absurd (h.lt x d hx) (Nat.not_lt.2 hd)
    rw [finish_ends_of_ne hdc]
    exact h.fresh d hd

end Tokens
