import Mathlib.Data.Nat.Notation
import Mathlib.Tactic.TypeStar

/-!
# Grace periods

A reader runs a loop. During an iteration it collects pointers; at its end it drops them all and
counts the iteration. Whoever has made sure that a reader without pointers to an object does not
come upon one, and then sees the count change, may free the object.

* `LoopReader.ClearSince`: the reader has no such pointers, or is in the iteration it was in;
* `LoopReader.ClearSince.hold`, `LoopReader.clear_finish`: what the reader does keeps this;
* `LoopReader.ClearSince.clear`: the end of the wait.
-/

/-- A reader. -/
structure LoopReader (P : Type*) where
  /-- The iterations that have ended, a counter that wraps. -/
  count : BitVec 64
  /-- The pointers collected in this iteration. -/
  held : List P

namespace LoopReader

variable {P : Type*} (r : LoopReader P)

/-- The reader collects a pointer. -/
def hold (p : P) : LoopReader P := { r with held := p :: r.held }

/-- The reader ends an iteration. -/
def finish : LoopReader P := ⟨r.count + 1, []⟩

/-- The reader has no pointer in `S`. -/
def Clear (S : P → Prop) : Prop := ∀ p ∈ r.held, ¬ S p

/-- The reader has no pointer in `S`, unless its count is still the one that was read. -/
def ClearSince (n : Option (BitVec 64)) (S : P → Prop) : Prop := some r.count = n ∨ r.Clear S

variable {r} {S : P → Prop} {n : Option (BitVec 64)} {p : P}

@[simp]
theorem mem_hold {q : P} : q ∈ (r.hold p).held ↔ q = p ∨ q ∈ r.held := List.mem_cons

/-- A pointer is collected that leads to `S` only through another one that does. -/
theorem Clear.hold (h : r.Clear S) (hp : S p → ∃ q ∈ r.held, S q) : (r.hold p).Clear S := by
  intro q hq hS
  rcases mem_hold.1 hq with rfl | hq
  · obtain ⟨q, hq, hS⟩ := hp hS
    exact h q hq hS
  · exact h q hq hS

/-- The same while the reader may be in its old iteration. -/
theorem ClearSince.hold (h : r.ClearSince n S) (hp : S p → ∃ q ∈ r.held, S q) :
    (r.hold p).ClearSince n S :=
  h.imp id fun hclear => hclear.hold hp

/-- After an iteration there are no pointers. -/
theorem clear_finish : r.finish.Clear S := fun _ hq => absurd hq List.not_mem_nil

/-- The count is read. -/
theorem clearSince_count : r.ClearSince (some r.count) S := .inl rfl

/-- The count has changed. -/
theorem ClearSince.clear (h : r.ClearSince n S) (hn : n ≠ some r.count) : r.Clear S :=
  h.resolve_left hn.symm

end LoopReader
