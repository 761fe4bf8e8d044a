import Mathlib.Logic.Function.Basic
import Mathlib.Tactic.Common

/-!
# The handshake between a waiter and its wakers

The flag `in_wait`, the `wait` mutex used as a binary semaphore, and the wake-ups linked in the
`wakeup_list` of every stack: what `lstack_epoll_wait` and the stack threads share, whatever the
events are that the waiter waits for. The steps of `wakeup_stack_epoll` and of linking a wake-up
are here; the modules that add the events say when they are taken.

* `Handshake.Inv`: under an armed waiter, who cleared `in_wait` unlocks the mutex;
* `Handshake.Alerted`: the waiter is being woken up, or some stack has that still before it.
  Every step but the arming of the waiter keeps this (`Alerted.wakerStep` and the like);
* `Handshake.Inv.waker_of_alerted`: an alerted waiter does not sleep on alone.
-/

namespace Gazelle

/-- Where a stack thread stands in linking a wake-up or in `wakeup_stack_epoll`. -/
inductive WakerPc
  /-- Outside both. -/
  | outside
  /-- Before linking `wakeup_list[stack_idx]`. -/
  | linkWakeup
  /-- Before the load of `in_wait`. -/
  | loadInWait
  /-- Before the store of `false` to `in_wait`. -/
  | storeInWait
  /-- Before the unlock of the `wait` mutex. -/
  | unlockWait
  /-- Before unlinking `wakeup_list[stack_idx]`. -/
  | unlinkWakeup
  deriving DecidableEq

/-- What a waiter shares with the stacks `ι`. -/
structure Handshake (ι : Type*) where
  /-- `wakeup->in_wait`. -/
  inWait : Bool
  /-- `wakeup->wait` is locked. -/
  waitLocked : Bool
  /-- `wakeup->wakeup_list[i]` is linked in the `wakeup_list` of stack `i`. -/
  wakeupLinked : ι → Bool
  /-- The stack threads. -/
  waker : ι → WakerPc
  /-- The waiter has stored `true` to `in_wait` and has neither locked the mutex nor given up
  since. Nothing reads this. -/
  armed : Bool

namespace Handshake

variable {ι : Type*} [DecidableEq ι]

/-- The handshake of a new epoll instance: `lstack_do_epoll_create` locks the mutex. -/
def create : Handshake ι where
  inWait := false
  waitLocked := true
  wakeupLinked := fun _ => false
  waker := fun _ => .outside
  armed := false

/-- The waiter stores `true` to `in_wait`. -/
def arm (h : Handshake ι) : Handshake ι := { h with inWait := true, armed := true }

/-- The waiter locks the mutex, which blocks while it is locked. -/
def lockWait (h : Handshake ι) : Option (Handshake ι) :=
  if h.waitLocked then none else some { h with waitLocked := true, armed := false }

/-- The waiter has events to report, or times out. -/
def leave (h : Handshake ι) : Handshake ι := { h with armed := false }

/-- The waiter stores `false` to `in_wait`. -/
def disarm (h : Handshake ι) : Handshake ι := { h with inWait := false, armed := false }

/-- Stack `i` comes to the linking of its wake-up. -/
def startLink (h : Handshake ι) (i : ι) : Option (Handshake ι) :=
  match h.waker i with
  | .outside => some { h with waker := Function.update h.waker i .linkWakeup }
  | _ => none

/-- Stack `i` comes to this instance in the loop of `wakeup_stack_epoll`. -/
def startWake (h : Handshake ι) (i : ι) : Option (Handshake ι) :=
  match h.waker i with
  | .outside =>
    if h.wakeupLinked i then some { h with waker := Function.update h.waker i .loadInWait }
    else none
  | _ => none

/-- The next step of stack `i`. -/
def wakerStep (h : Handshake ι) (i : ι) : Option (Handshake ι) :=
  match h.waker i with
  | .outside => none
  | .linkWakeup =>
    some { h with
      wakeupLinked := Function.update h.wakeupLinked i true
      waker := Function.update h.waker i .outside }
  | .loadInWait =>
    some { h with
      waker := Function.update h.waker i (if h.inWait then .storeInWait else .unlinkWakeup) }
  | .storeInWait =>
    some { h with inWait := false, waker := Function.update h.waker i .unlockWait }
  | .unlockWait =>
    some { h with waitLocked := false, waker := Function.update h.waker i .unlinkWakeup }
  | .unlinkWakeup =>
    some { h with
      wakeupLinked := Function.update h.wakeupLinked i false
      waker := Function.update h.waker i .outside }

/-- Stack `i` is in the part of `wakeup_stack_epoll` that deals with this instance. -/
def Waking (h : Handshake ι) (i : ι) : Prop :=
  h.waker i ≠ .outside ∧ h.waker i ≠ .linkWakeup

/-- Stack `i` has the clearing of `in_wait` still before it: it is about to link its wake-up, or
has it linked and has not yet decided. -/
def WillWake (h : Handshake ι) (i : ι) : Prop :=
  h.waker i = .linkWakeup ∨
    (h.wakeupLinked i = true ∧ h.waker i ≠ .unlockWait ∧ h.waker i ≠ .unlinkWakeup)

/-- `in_wait` is cleared, or some stack will clear it. -/
def Alerted (h : Handshake ι) : Prop := h.inWait = false ∨ ∃ i, h.WillWake i

/-- Some stack will unlock the mutex: it is about to link its wake-up, or has it linked and is not
past the unlock. -/
def StackWillUnlock (h : Handshake ι) : Prop :=
  ∃ i, h.waker i = .linkWakeup ∨ (h.wakeupLinked i = true ∧ h.waker i ≠ .unlinkWakeup)

/-- The mutex is unlocked or will be. -/
def WillUnlock (h : Handshake ι) : Prop := h.waitLocked = false ∨ h.StackWillUnlock

/-- The invariant of the handshake. -/
structure Inv (h : Handshake ι) : Prop where
  /-- Who cleared `in_wait` under an armed waiter has unlocked the mutex or will. -/
  cleared : h.armed = true → h.inWait = false →
    h.waitLocked = false ∨ ∃ i, h.waker i = .unlockWait
  /-- A stack in `wakeup_stack_epoll` has the wake-up linked. -/
  linked : ∀ i, h.Waking i → h.wakeupLinked i = true

/-! ## The steps of the waiter -/

section Waiter

omit [DecidableEq ι]

variable {h h' : Handshake ι}

/-- The invariant holds of a new instance. -/
theorem Inv.create : (create : Handshake ι).Inv where
  cleared harmed := by simp [Handshake.create] at harmed
  linked i hi := by simp [Handshake.create, Waking] at hi

/-- Arming the waiter keeps the invariant. -/
theorem Inv.arm (hinv : h.Inv) : h.arm.Inv where
  cleared _ hfalse := by simp [Handshake.arm] at hfalse
  linked := hinv.linked

/-- Locking the mutex keeps the invariant. -/
theorem Inv.lockWait (hinv : h.Inv) (hstep : h.lockWait = some h') : h'.Inv := by
  unfold Handshake.lockWait at hstep
  split at hstep
  · cases hstep
  · cases hstep
    exact ⟨fun harmed => by simp at harmed, hinv.linked⟩

/-- Leaving the wait keeps the invariant. -/
theorem Inv.leave (hinv : h.Inv) : h.leave.Inv where
  cleared harmed := by simp [Handshake.leave] at harmed
  linked := hinv.linked

/-- Disarming the waiter keeps the invariant. -/
theorem Inv.disarm (hinv : h.Inv) : h.disarm.Inv where
  cleared harmed := by simp [Handshake.disarm] at harmed
  linked := hinv.linked

end Waiter

/-! ## The steps of the stacks -/

section Wakers

variable {h h' : Handshake ι} {i : ι}

omit [DecidableEq ι] in
/-- What stack `j` will do is not changed by another stack. -/
private theorem WillWake.congr {j : ι} (hwill : h.WillWake j) (hwaker : h'.waker j = h.waker j)
    (hlinked : h'.wakeupLinked j = h.wakeupLinked j) : h'.WillWake j := by
  unfold WillWake
  rw [hwaker, hlinked]
  exact hwill

omit [DecidableEq ι] in
/-- A step of stack `i` keeps the waiter alerted when it leaves the other stacks alone and `i`
itself still has the clearing of `in_wait` before it, or finds it done. -/
private theorem Alerted.of_waker (halert : h.Alerted)
    (hinWait : h.inWait = false → h'.inWait = false)
    (hother : ∀ j, j ≠ i → h'.waker j = h.waker j ∧ h'.wakeupLinked j = h.wakeupLinked j)
    (hi : h.WillWake i → h'.inWait = false ∨ h'.WillWake i) : h'.Alerted := by
  rcases halert with hfalse | ⟨j, hj⟩
  · exact .inl (hinWait hfalse)
  · by_cases hji : j = i
    · subst hji
      exact (hi hj).imp_right fun hwill => ⟨j, hwill⟩
    · exact .inr ⟨j, hj.congr (hother j hji).1 (hother j hji).2⟩

/-- Only the program counter of stack `i` changes. -/
private theorem update_other {pc : WakerPc} (j : ι) (hj : j ≠ i) :
    Function.update h.waker i pc j = h.waker j ∧ h.wakeupLinked j = h.wakeupLinked j :=
  ⟨Function.update_of_ne hj _ _, rfl⟩

/-- A stack that is about to unlock the mutex still is when another stack has moved. -/
private theorem exists_unlockWait {pc : WakerPc} (hi : h.waker i ≠ .unlockWait)
    (hex : ∃ j, h.waker j = .unlockWait) : ∃ j, Function.update h.waker i pc j = .unlockWait := by
  obtain ⟨j, hj⟩ := hex
  have hne : j ≠ i := by
    rintro rfl
    exact hi hj
  exact ⟨j, (Function.update_of_ne hne _ _).trans hj⟩

/-- After a step of stack `i` the stacks in `wakeup_stack_epoll` have the wake-up linked. -/
private theorem Inv.linked_update (hinv : h.Inv) {pc : WakerPc} {linked : ι → Bool}
    (hother : ∀ j, j ≠ i → linked j = h.wakeupLinked j)
    (hi : pc ≠ .outside ∧ pc ≠ .linkWakeup → linked i = true) (j : ι)
    (hj : Function.update h.waker i pc j ≠ .outside ∧
      Function.update h.waker i pc j ≠ .linkWakeup) : linked j = true := by
  by_cases hji : j = i
  · subst hji
    rw [Function.update_self] at hj
    exact hi hj
  · rw [Function.update_of_ne hji] at hj
    rw [hother j hji]
    exact hinv.linked j hj

/-- Coming to the linking keeps the invariant. -/
theorem Inv.startLink (hinv : h.Inv) (hstep : h.startLink i = some h') : h'.Inv := by
  cases hpc : h.waker i with
  | outside =>
    simp only [Handshake.startLink, hpc, Option.some.injEq] at hstep
    subst hstep
    exact ⟨fun harmed hfalse =>
        (hinv.cleared harmed hfalse).imp_right (exists_unlockWait (by simp [hpc])),
      hinv.linked_update (fun _ _ => rfl) (by simp)⟩
  | _ => simp [Handshake.startLink, hpc] at hstep

/-- A stack that has come to the linking will wake the waiter. -/
theorem Alerted.startLink (hstep : h.startLink i = some h') : h'.Alerted := by
  cases hpc : h.waker i with
  | outside =>
    simp only [Handshake.startLink, hpc, Option.some.injEq] at hstep
    subst hstep
    exact .inr ⟨i, .inl (Function.update_self ..)⟩
  | _ => simp [Handshake.startLink, hpc] at hstep

/-- Coming to the instance in `wakeup_stack_epoll` keeps the invariant. -/
theorem Inv.startWake (hinv : h.Inv) (hstep : h.startWake i = some h') : h'.Inv := by
  cases hpc : h.waker i with
  | outside =>
    simp only [Handshake.startWake, hpc] at hstep
    split at hstep
    · rename_i hlinked
      cases hstep
      exact ⟨fun harmed hfalse =>
          (hinv.cleared harmed hfalse).imp_right (exists_unlockWait (by simp [hpc])),
        hinv.linked_update (fun _ _ => rfl) fun _ => hlinked⟩
    · cases hstep
  | _ => simp [Handshake.startWake, hpc] at hstep

/-- Coming to the instance in `wakeup_stack_epoll` keeps the waiter alerted. -/
theorem Alerted.startWake (halert : h.Alerted) (hstep : h.startWake i = some h') :
    h'.Alerted := by
  cases hpc : h.waker i with
  | outside =>
    simp only [Handshake.startWake, hpc] at hstep
    split at hstep
    · rename_i hlinked
      cases hstep
      exact halert.of_waker id update_other fun _ => .inr (by simp [WillWake, hlinked])
    · cases hstep
  | _ => simp [Handshake.startWake, hpc] at hstep

/-- A step of a stack keeps the invariant. -/
theorem Inv.wakerStep (hinv : h.Inv) (hstep : h.wakerStep i = some h') : h'.Inv := by
  -- another waker that is about to unlock stays where it is
  have hmove : ∀ pc, h.waker i ≠ .unlockWait → h.armed = true → h.inWait = false →
      h.waitLocked = false ∨ ∃ j, Function.update h.waker i pc j = .unlockWait :=
    fun pc hi harmed hfalse => (hinv.cleared harmed hfalse).imp_right (exists_unlockWait hi)
  have hlinked : h.waker i ≠ .outside → h.waker i ≠ .linkWakeup → h.wakeupLinked i = true :=
    fun hout hlink => hinv.linked i ⟨hout, hlink⟩
  cases hpc : h.waker i with
  | outside => simp [Handshake.wakerStep, hpc] at hstep
  | linkWakeup =>
    simp only [Handshake.wakerStep, hpc, Option.some.injEq] at hstep
    subst hstep
    exact ⟨hmove _ (by simp [hpc]),
      hinv.linked_update (fun _ hj => Function.update_of_ne hj _ _) (by simp)⟩
  | loadInWait =>
    simp only [Handshake.wakerStep, hpc, Option.some.injEq] at hstep
    subst hstep
    exact ⟨hmove _ (by simp [hpc]),
      hinv.linked_update (fun _ _ => rfl) fun _ => hlinked (by simp [hpc]) (by simp [hpc])⟩
  | storeInWait =>
    simp only [Handshake.wakerStep, hpc, Option.some.injEq] at hstep
    -- from here on it is this waker that is about to unlock
    subst hstep
    exact ⟨fun _ _ => .inr ⟨i, Function.update_self ..⟩,
      hinv.linked_update (fun _ _ => rfl) fun _ => hlinked (by simp [hpc]) (by simp [hpc])⟩
  | unlockWait =>
    simp only [Handshake.wakerStep, hpc, Option.some.injEq] at hstep
    -- and with this step the lock is free
    subst hstep
    exact ⟨fun _ _ => .inl rfl,
      hinv.linked_update (fun _ _ => rfl) fun _ => hlinked (by simp [hpc]) (by simp [hpc])⟩
  | unlinkWakeup =>
    simp only [Handshake.wakerStep, hpc, Option.some.injEq] at hstep
    subst hstep
    exact ⟨hmove _ (by simp [hpc]),
      hinv.linked_update (fun _ hj => Function.update_of_ne hj _ _) (by simp)⟩

/-- A step of a stack keeps the waiter alerted. -/
theorem Alerted.wakerStep (halert : h.Alerted) (hinv : h.Inv) (hstep : h.wakerStep i = some h') :
    h'.Alerted := by
  cases hpc : h.waker i with
  | outside => simp [Handshake.wakerStep, hpc] at hstep
  | linkWakeup =>
    simp only [Handshake.wakerStep, hpc, Option.some.injEq] at hstep
    subst hstep
    refine halert.of_waker (i := i) id (fun j hj => ?_) fun _ => .inr (by simp [WillWake])
    exact ⟨Function.update_of_ne hj _ _, Function.update_of_ne hj _ _⟩
  | loadInWait =>
    simp only [Handshake.wakerStep, hpc, Option.some.injEq] at hstep
    subst hstep
    refine halert.of_waker (i := i) id update_other fun _ => ?_
    -- the stack goes on to clear `in_wait`, or found it cleared
    cases hin : h.inWait with
    | false => exact .inl rfl
    | true =>
      right
      simp [WillWake, hinv.linked i (by simp [Waking, hpc])]
  | storeInWait =>
    simp only [Handshake.wakerStep, hpc, Option.some.injEq] at hstep
    subst hstep
    exact .inl rfl
  | unlockWait =>
    simp only [Handshake.wakerStep, hpc, Option.some.injEq] at hstep
    subst hstep
    refine halert.of_waker (i := i) id update_other fun hwill => ?_
    simp [WillWake, hpc] at hwill
  | unlinkWakeup =>
    simp only [Handshake.wakerStep, hpc, Option.some.injEq] at hstep
    subst hstep
    refine halert.of_waker (i := i) id (fun j hj => ?_) fun hwill => ?_
    · exact ⟨Function.update_of_ne hj _ _, Function.update_of_ne hj _ _⟩
    · simp [WillWake, hpc] at hwill

/-- A stack that has come to the linking will unlock the mutex. -/
theorem StackWillUnlock.startLink (hstep : h.startLink i = some h') : h'.StackWillUnlock := by
  cases hpc : h.waker i with
  | outside =>
    simp only [Handshake.startLink, hpc, Option.some.injEq] at hstep
    subst hstep
    exact ⟨i, .inl (Function.update_self ..)⟩
  | _ => simp [Handshake.startLink, hpc] at hstep

/-- Coming to the instance in `wakeup_stack_epoll`, the stack is before the unlock. -/
theorem StackWillUnlock.startWake (hstep : h.startWake i = some h') : h'.StackWillUnlock := by
  cases hpc : h.waker i with
  | outside =>
    simp only [Handshake.startWake, hpc] at hstep
    split at hstep
    · rename_i hlinked
      cases hstep
      exact ⟨i, .inr ⟨hlinked, by simp⟩⟩
    · cases hstep
  | _ => simp [Handshake.startWake, hpc] at hstep

/-- While the waiter is armed, a step of a stack does not take away that the mutex will be
unlocked. -/
theorem WillUnlock.wakerStep (hwill : h.WillUnlock) (hinv : h.Inv) (harmed : h.armed = true)
    (hstep : h.wakerStep i = some h') : h'.WillUnlock := by
  have hlinked : h.waker i ≠ .outside → h.waker i ≠ .linkWakeup → h.wakeupLinked i = true :=
    fun hout hlink => hinv.linked i ⟨hout, hlink⟩
  cases hpc : h.waker i with
  | outside => simp [Handshake.wakerStep, hpc] at hstep
  | linkWakeup =>
    simp only [Handshake.wakerStep, hpc, Option.some.injEq] at hstep
    subst hstep
    exact .inr ⟨i, .inr ⟨Function.update_self .., by simp⟩⟩
  | loadInWait =>
    simp only [Handshake.wakerStep, hpc, Option.some.injEq] at hstep
    subst hstep
    cases hin : h.inWait with
    | true => exact .inr ⟨i, .inr ⟨hlinked (by simp [hpc]) (by simp [hpc]), by simp⟩⟩
    | false =>
      -- another stack has cleared `in_wait`
      refine (hinv.cleared harmed hin).imp_right fun ⟨j, hj⟩ => ⟨j, .inr ⟨?_, ?_⟩⟩
      · exact hinv.linked j (by simp [Waking, hj])
      · have hne : j ≠ i := by
          rintro rfl
          rw [hj] at hpc
          cases hpc
        simp [Function.update_of_ne hne, hj]
  | storeInWait =>
    simp only [Handshake.wakerStep, hpc, Option.some.injEq] at hstep
    subst hstep
    exact .inr ⟨i, .inr ⟨hlinked (by simp [hpc]) (by simp [hpc]), by simp⟩⟩
  | unlockWait =>
    simp only [Handshake.wakerStep, hpc, Option.some.injEq] at hstep
    subst hstep
    exact .inl rfl
  | unlinkWakeup =>
    simp only [Handshake.wakerStep, hpc, Option.some.injEq] at hstep
    subst hstep
    refine hwill.imp id fun ⟨j, hj⟩ => ⟨j, ?_⟩
    have hne : j ≠ i := by
      rintro rfl
      simp [hpc] at hj
    simpa [Function.update_of_ne hne] using hj

/-- The stacks leave the arming of the waiter alone. -/
theorem armed_of_wakerStep (hstep : h.wakerStep i = some h') : h'.armed = h.armed := by
  cases hpc : h.waker i <;> simp [Handshake.wakerStep, hpc] at hstep <;> simp [← hstep]

/-- Coming to the linking leaves the arming of the waiter alone. -/
theorem armed_of_startLink (hstep : h.startLink i = some h') : h'.armed = h.armed := by
  cases hpc : h.waker i <;> simp [Handshake.startLink, hpc] at hstep
  simp [← hstep]

/-- Coming to the instance leaves the arming of the waiter alone. -/
theorem armed_of_startWake (hstep : h.startWake i = some h') : h'.armed = h.armed := by
  cases hpc : h.waker i <;> simp [Handshake.startWake, hpc] at hstep
  simp [← hstep.2]

end Wakers

omit [DecidableEq ι] in
/-- While an armed and alerted waiter sleeps on the locked mutex, some stack is about to link its
wake-up, or has it linked and is not past the unlock of the mutex. -/
theorem Inv.waker_of_alerted {h : Handshake ι} (hinv : h.Inv) (halert : h.Alerted)
    (harmed : h.armed = true) (hlocked : h.waitLocked = true) :
    ∃ i, h.waker i = .linkWakeup ∨ (h.wakeupLinked i = true ∧ h.waker i ≠ .unlinkWakeup) := by
  rcases halert with hfalse | ⟨i, hlink | ⟨hlinked, -, hne⟩⟩
  · rcases hinv.cleared harmed hfalse with hunlocked | ⟨i, hi⟩
    · rw [hlocked] at hunlocked
      cases hunlocked
    · exact ⟨i, .inr ⟨hinv.linked i (by simp [Waking, hi]), by simp [hi]⟩⟩
  · exact ⟨i, .inl hlink⟩
  · exact ⟨i, .inr ⟨hlinked, hne⟩⟩

end Handshake

end Gazelle
