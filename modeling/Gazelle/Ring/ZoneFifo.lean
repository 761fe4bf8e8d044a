import Gazelle.Transition.System
import Mathlib.Data.List.Infix
import Mathlib.Data.List.TakeDrop

/-!
# A FIFO with three zones

A bounded FIFO whose objects pass through three stages after they are put in: waiting, handed
out and confirmed. A confirmed object can be taken, which frees its place. The state is the
history of all objects ever put in, cut at three positions; the orders of the positions and the
bound are fields, so that every value of the type is a possible state.
-/

/-- A FIFO of at most `cap` objects, cut into the objects taken, confirmed, handed out and
waiting. -/
@[ext]
structure ZoneFifo (α : Type*) (cap : ℕ) where
  /-- All objects put in so far. -/
  log : List α
  /-- The number of objects taken. -/
  taken : ℕ
  /-- The number of objects confirmed. -/
  confirmed : ℕ
  /-- The number of objects handed out. -/
  handed : ℕ
  /-- Only confirmed objects are taken. -/
  taken_le : taken ≤ confirmed
  /-- Only objects handed out are confirmed. -/
  confirmed_le : confirmed ≤ handed
  /-- Only objects put in are handed out. -/
  handed_le : handed ≤ log.length
  /-- At most `cap` objects are in the FIFO. -/
  fits : log.length ≤ taken + cap

namespace ZoneFifo

variable {α : Type*} {cap : ℕ}

/-- The empty FIFO. -/
def empty : ZoneFifo α cap :=
  ⟨[], 0, 0, 0, le_rfl, le_rfl, le_rfl, Nat.zero_le _⟩

/-- Put objects in. -/
def put (f : ZoneFifo α cap) (xs : List α) (h : f.log.length + xs.length ≤ f.taken + cap) :
    ZoneFifo α cap where
  log := f.log ++ xs
  taken := f.taken
  confirmed := f.confirmed
  handed := f.handed
  taken_le := f.taken_le
  confirmed_le := f.confirmed_le
  handed_le := by have := f.handed_le; simp only [List.length_append]; omega
  fits := by simpa only [List.length_append] using h

/-- Hand out the next `n` waiting objects. -/
def hand (f : ZoneFifo α cap) (n : ℕ) (h : f.handed + n ≤ f.log.length) : ZoneFifo α cap where
  log := f.log
  taken := f.taken
  confirmed := f.confirmed
  handed := f.handed + n
  taken_le := f.taken_le
  confirmed_le := f.confirmed_le.trans (Nat.le_add_right _ _)
  handed_le := h
  fits := f.fits

/-- Confirm all objects handed out. -/
def confirm (f : ZoneFifo α cap) : ZoneFifo α cap where
  log := f.log
  taken := f.taken
  confirmed := f.handed
  handed := f.handed
  taken_le := f.taken_le.trans f.confirmed_le
  confirmed_le := le_rfl
  handed_le := f.handed_le
  fits := f.fits

/-- Take the next `n` confirmed objects. -/
def take (f : ZoneFifo α cap) (n : ℕ) (h : f.taken + n ≤ f.confirmed) : ZoneFifo α cap where
  log := f.log
  taken := f.taken + n
  confirmed := f.confirmed
  handed := f.handed
  taken_le := h
  confirmed_le := f.confirmed_le
  handed_le := f.handed_le
  fits := by have := f.fits; omega

/-- The operations. -/
inductive Op (α : Type*)
  | put (xs : List α)
  | hand (n : ℕ)
  | confirm
  | take (n : ℕ)

/-- An operation is enabled when there is room, or there are objects, for all of it. -/
def step (f : ZoneFifo α cap) : Op α → Option (ZoneFifo α cap)
  | .put xs =>
    if h : f.log.length + xs.length ≤ f.taken + cap then some (f.put xs h) else none
  | .hand n => if h : f.handed + n ≤ f.log.length then some (f.hand n h) else none
  | .confirm => some f.confirm
  | .take n => if h : f.taken + n ≤ f.confirmed then some (f.take n h) else none

/-- The FIFO as a transition system. -/
def system (α : Type*) (cap : ℕ) : Transition.System (ZoneFifo α cap) (Op α) where
  Init f := f = empty
  step := step

end ZoneFifo
