import Gazelle.Transition.System
import Gazelle.Epoll.Basic
import Gazelle.Epoll.Handshake
import Mathlib.Data.Int.Notation

/-!
# Waiting for and waking up on lwIP events

One epoll instance without kernel descriptors: `have_kernel_event` stays `false`. The waiter
stores `in_wait`, scans `event_list` and locks the `wait` mutex; a stack links a socket, links
its wake-up, and later clears `in_wait` and unlocks the mutex.

* `WakeSys.system`: all interleavings of the waiter, any number of stacks, and the other threads
  of the application;
* `wait_wake`: a sleeping waiter with a pending event will be woken up.
-/

namespace Gazelle

/-- Where the waiter stands in `lstack_epoll_wait`. -/
inductive EpollWaitPc
  /-- Outside the function. -/
  | idle
  /-- Before the store of `true` to `in_wait`. -/
  | storeTrue (maxevents : ℕ) (timeout : ℤ)
  /-- Before `epoll_lwip_event`. -/
  | scan (maxevents : ℕ) (timeout : ℤ)
  /-- Locking the `wait` mutex. -/
  | lockWait (maxevents : ℕ) (timeout : ℤ)
  /-- Before the store of `false` to `in_wait`. -/
  | storeFalse
  deriving DecidableEq

/-- An epoll instance with the thread that waits on it and the stacks `ι`. -/
structure WakeSys (ι σ : Type*) where
  /-- The sockets of the instance. -/
  table : EventTable σ
  /-- What the waiter shares with the stacks. -/
  hand : Handshake ι
  /-- The stacks in `add_sock_event` before its section under `event_list_lock`, with the
  arguments. -/
  adding : ι → Option (σ × EpollMask)
  /-- The thread in `lstack_epoll_wait`. -/
  waiter : EpollWaitPc
  /-- The sockets that a stack put into `event_list`; nothing reads this. -/
  stackPut : List σ

/-- The actions of the threads. -/
inductive WakeAct (ι σ : Type*)
  /-- Stack `i`, the one of the socket, calls `add_sock_event`. -/
  | addSockEvent (i : ι) (sock : σ) (event : EpollMask)
  /-- The section of `add_sock_event`; `outdated` says whether the application has read or
  written meanwhile. -/
  | addSection (i : ι) (outdated : Bool)
  /-- Stack `i` comes to this instance in the loop of `wakeup_stack_epoll`. -/
  | wakeupStackEpoll (i : ι)
  /-- Stack `i` makes its next step in linking its wake-up or in `wakeup_stack_epoll`. -/
  | waker (i : ι)
  /-- The application calls `lstack_epoll_wait`. -/
  | wait (maxevents : ℕ) (timeout : ℤ)
  /-- The waiter makes its next step. -/
  | waiter
  /-- `pthread_mutex_timedlock` times out. -/
  | timeout
  /-- Another thread of the application changes the masks, links and unlinks sockets. -/
  | other (table : EventTable σ)

namespace WakeSys

variable {ι σ : Type*} [DecidableEq ι] [DecidableEq σ]

/-- `add_sock_event` before its section: an event not asked for is dropped. -/
def callAddSockEvent (s : WakeSys ι σ) (i : ι) (x : σ) (event : EpollMask) :
    Option (WakeSys ι σ) :=
  if s.hand.waker i ≠ .outside ∨ s.adding i ≠ none then none
  else if event &&& (s.table.sock x).epollEvents = 0 then some s
  else some { s with adding := Function.update s.adding i (some (x, event)) }

/-- The section of `add_sock_event` under `event_list_lock`. -/
def addSection (s : WakeSys ι σ) (i : ι) (outdated : Bool) : Option (WakeSys ι σ) :=
  match s.adding i with
  | none => none
  | some (x, event) =>
    if outdated then some { s with adding := Function.update s.adding i none }
    else (s.hand.startLink i).map fun hand =>
      { s with
        table := s.table.addSockEvent x event
        hand := hand
        adding := Function.update s.adding i none
        stackPut := x :: s.stackPut }

/-- The next step of the waiter, which is blocked while it locks a locked mutex. -/
def waiterStep (s : WakeSys ι σ) : Option (WakeSys ι σ) :=
  match s.waiter with
  | .idle => none
  | .storeTrue maxevents timeout =>
    some { s with hand := s.hand.arm, waiter := .scan maxevents timeout }
  | .scan maxevents timeout =>
    let (table, reported) := s.table.epollLwipEvent maxevents
    let stackPut := s.stackPut.filter (· ∈ table.eventList)
    if 0 < reported.length ∨ timeout = 0 then
      some { s with
        table := table, hand := s.hand.leave, waiter := .storeFalse, stackPut := stackPut }
    else
      some { s with table := table, waiter := .lockWait maxevents timeout, stackPut := stackPut }
  | .lockWait maxevents timeout =>
    s.hand.lockWait.map fun hand =>
      { s with hand := hand, waiter := .storeTrue maxevents timeout }
  | .storeFalse => some { s with hand := s.hand.disarm, waiter := .idle }

/-- One step of one thread. -/
def step (s : WakeSys ι σ) : WakeAct ι σ → Option (WakeSys ι σ)
  | .addSockEvent i x event => s.callAddSockEvent i x event
  | .addSection i outdated => s.addSection i outdated
  | .wakeupStackEpoll i =>
    if s.adding i = none then (s.hand.startWake i).map fun hand => { s with hand := hand }
    else none
  | .waker i => (s.hand.wakerStep i).map fun hand => { s with hand := hand }
  | .wait maxevents timeout =>
    match s.waiter with
    | .idle => some { s with waiter := .storeTrue maxevents timeout }
    | _ => none
  | .waiter => s.waiterStep
  | .timeout =>
    match s.waiter with
    | .lockWait _ timeout =>
      if 0 < timeout then some { s with hand := s.hand.leave, waiter := .storeFalse } else none
    | _ => none
  | .other table =>
    some { s with
      table := table
      stackPut := s.stackPut.filter (· ∈ table.eventList) }

/-- The instance after `lstack_do_epoll_create`, with any sockets registered. -/
def create (sock : σ → EpollSock) : WakeSys ι σ where
  table := ⟨sock, []⟩
  hand := .create
  adding := fun _ => none
  waiter := .idle
  stackPut := []

/-- All interleavings of the threads. -/
def system (ι : Type*) [DecidableEq ι] (sock : σ → EpollSock) :
    Transition.System (WakeSys ι σ) (WakeAct ι σ) where
  Init s := s = create sock
  step := step

/-! ## The invariant -/

/-- The waiter has scanned the list and goes to sleep. -/
def Waiting (s : WakeSys ι σ) : Prop := ∃ maxevents timeout, s.waiter = .lockWait maxevents timeout

/-- The invariant of the instance. -/
structure WakeInv (s : WakeSys ι σ) : Prop where
  /-- The invariant of the handshake. -/
  hand : s.hand.Inv
  /-- The waiter is armed from its store to `in_wait` until it locks the mutex or leaves. -/
  armed : s.Waiting ∨ (∃ m t, s.waiter = .scan m t) → s.hand.armed = true
  /-- When a stack put a socket in after the scan, the waiter will be woken. -/
  woken : s.Waiting → s.stackPut ≠ [] → s.hand.Alerted

omit [DecidableEq ι] [DecidableEq σ] in
/-- The invariant holds when the instance is created. -/
theorem WakeInv.create (sock : σ → EpollSock) : WakeInv (create sock : WakeSys ι σ) where
  hand := .create
  armed := by simp [WakeSys.create, Waiting]
  woken := by simp [WakeSys.create]

section Steps

variable {s t : WakeSys ι σ} (h : WakeInv s)

include h

/-- The section of `add_sock_event` keeps the invariant. -/
theorem WakeInv.addSection {i : ι} {outdated : Bool} (hstep : s.addSection i outdated = some t) :
    WakeInv t := by
  cases hadd : s.adding i with
  | none => simp [WakeSys.addSection, hadd] at hstep
  | some args =>
    obtain ⟨x, event⟩ := args
    cases outdated with
    | true =>
      simp only [WakeSys.addSection, hadd, if_true, Option.some.injEq] at hstep
      exact hstep ▸ ⟨h.hand, h.armed, h.woken⟩
    | false =>
      simp only [WakeSys.addSection, hadd, Bool.false_eq_true, if_false,
        Option.map_eq_some_iff] at hstep
      obtain ⟨hand, hstart, rfl⟩ := hstep
      refine ⟨h.hand.startLink hstart, fun hwait => ?_, fun _ _ => .startLink hstart⟩
      rw [Handshake.armed_of_startLink hstart]
      exact h.armed hwait

omit [DecidableEq ι] in
/-- A step of the waiter keeps the invariant. -/
theorem WakeInv.waiterStep (hstep : s.waiterStep = some t) : WakeInv t := by
  cases hpc : s.waiter with
  | idle => simp [WakeSys.waiterStep, hpc] at hstep
  | storeTrue maxevents timeout =>
    simp only [WakeSys.waiterStep, hpc, Option.some.injEq] at hstep
    exact hstep ▸ ⟨h.hand.arm, fun _ => rfl, by simp [Waiting]⟩
  | scan maxevents timeout =>
    by_cases hleave : 0 < (s.table.epollLwipEvent maxevents).2.length ∨ timeout = 0
    · simp only [WakeSys.waiterStep, hpc, if_pos hleave, Option.some.injEq] at hstep
      exact hstep ▸ ⟨h.hand.leave, by simp [Waiting], by simp [Waiting]⟩
    · simp only [WakeSys.waiterStep, hpc, if_neg hleave, Option.some.injEq] at hstep
      subst hstep
      refine ⟨h.hand, fun _ => h.armed (.inr ⟨_, _, hpc⟩), fun _ hput => ?_⟩
      -- the waiter goes to sleep only after a scan that emptied the list
      have hnone : (s.table.epollLwipEvent maxevents).2 = [] := by
        by_contra hsome
        exact hleave (.inl (List.length_pos_iff.2 hsome))
      simp [EventTable.epollLwipEvent_nil hnone] at hput
  | lockWait maxevents timeout =>
    simp only [WakeSys.waiterStep, hpc, Option.map_eq_some_iff] at hstep
    obtain ⟨hand, hlock, rfl⟩ := hstep
    exact ⟨h.hand.lockWait hlock, by simp [Waiting], by simp [Waiting]⟩
  | storeFalse =>
    simp only [WakeSys.waiterStep, hpc, Option.some.injEq] at hstep
    exact hstep ▸ ⟨h.hand.disarm, by simp [Waiting], by simp [Waiting]⟩

/-- Every step keeps the invariant. -/
theorem WakeInv.step {a : WakeAct ι σ} (hstep : s.step a = some t) : WakeInv t := by
  cases a with
  | addSockEvent i x event =>
    simp only [WakeSys.step, callAddSockEvent] at hstep
    split at hstep
    · cases hstep
    · -- the event is put into the table, which can only link a socket
      split at hstep <;> cases hstep
      · exact h
      · exact ⟨h.hand, h.armed, h.woken⟩
  | addSection i outdated => exact h.addSection hstep
  | wakeupStackEpoll i =>
    simp only [WakeSys.step] at hstep
    split at hstep
    · -- a wake begins, and arrives where one was on its way
      obtain ⟨hand, hstart, rfl⟩ := Option.map_eq_some_iff.1 hstep
      refine ⟨h.hand.startWake hstart, fun hwait => ?_,
        fun hwait hput => (h.woken hwait hput).startWake hstart⟩
      rw [Handshake.armed_of_startWake hstart]
      exact h.armed hwait
    · cases hstep
  | waker i =>
    -- one more access of a thread that wakes
    obtain ⟨hand, hwaker, rfl⟩ := Option.map_eq_some_iff.1 hstep
    refine ⟨h.hand.wakerStep hwaker, fun hwait => ?_,
      fun hwait hput => (h.woken hwait hput).wakerStep h.hand hwaker⟩
    rw [Handshake.armed_of_wakerStep hwaker]
    exact h.armed hwait
  | wait maxevents timeout =>
    cases hpc : s.waiter with
    | idle =>
      -- a call begins outside of the loop
      simp only [WakeSys.step, hpc, Option.some.injEq] at hstep
      exact hstep ▸ ⟨h.hand, by simp [Waiting], by simp [Waiting]⟩
    | _ => simp [WakeSys.step, hpc] at hstep
  | waiter => exact h.waiterStep hstep
  | timeout =>
    cases hpc : s.waiter with
    | lockWait maxevents timeout =>
      -- the time is over and the call leaves the loop
      simp only [WakeSys.step, hpc] at hstep
      split at hstep <;> cases hstep
      exact ⟨h.hand.leave, by simp [Waiting], by simp [Waiting]⟩
    | _ => simp [WakeSys.step, hpc] at hstep
  | other table =>
    simp only [WakeSys.step, Option.some.injEq] at hstep
    subst hstep
    refine ⟨h.hand, h.armed, fun hwait hput => h.woken hwait fun hnil => hput ?_⟩
    -- an event list that is not empty was not empty before
    simp [hnil]

end Steps

/-- The invariant holds in every interleaving. -/
theorem WakeInv.reachable {sock : σ → EpollSock} {s : WakeSys ι σ}
    (hs : (system ι sock).Reachable s) : WakeInv s :=
  Transition.System.invariant
    (fun s (hinit : s = WakeSys.create sock) => hinit ▸ WakeInv.create sock)
    (fun _ _ _ _ h hstep => h.step hstep) hs

/-! ## The handshake -/

/-- An event that a stack raised and `epoll_lwip_event` would report. -/
structure LwipEventPending (s : WakeSys ι σ) (x : σ) : Prop where
  /-- The socket is linked. -/
  linked : x ∈ s.table.eventList
  /-- A stack put it there. -/
  put : x ∈ s.stackPut
  /-- An event asked for is raised. -/
  pending : (s.table.sock x).pending ≠ 0

/-- The waiter is blocked on the locked `wait` mutex. -/
def Asleep (s : WakeSys ι σ) : Prop := s.Waiting ∧ s.hand.waitLocked = true

/-- Stack `i` is in `add_sock_event`. -/
def InAddSockEvent (s : WakeSys ι σ) (i : ι) : Prop :=
  s.adding i ≠ none ∨ s.hand.waker i = .linkWakeup

/-- When the waiter is blocked on the locked mutex while an lwIP event is pending, some stack is
still in `add_sock_event`, or has the wake-up linked and is not past the unlock of the mutex. -/
theorem wait_wake {sock : σ → EpollSock} {s : WakeSys ι σ} (hs : (system ι sock).Reachable s)
    (hasleep : s.Asleep) {x : σ} (hx : s.LwipEventPending x) :
    ∃ i, s.InAddSockEvent i ∨
      (s.hand.wakeupLinked i = true ∧ s.hand.waker i ≠ .unlinkWakeup) := by
  have h := WakeInv.reachable hs
  have halert : s.hand.Alerted := h.woken hasleep.1 (List.ne_nil_of_mem hx.put)
  obtain ⟨i, hi⟩ := h.hand.waker_of_alerted halert (h.armed (.inl hasleep.1)) hasleep.2
  exact ⟨i, hi.imp_left .inr⟩

/-- A stack puts a socket in after the waiter has scanned the empty list and gone to sleep. -/
private def sleepRun : List (WakeAct Unit Unit) :=
  [.wait 8 (-1), .waiter, .waiter, .addSockEvent () () epollIn, .addSection () false, .waker ()]

/-- The stack has linked its wake-up when the waiter sleeps over that event. -/
theorem wait_wake_linked :
    ∃ s, (system Unit fun _ : Unit => ⟨0, epollIn⟩).Reachable s ∧ s.hand.waker () = .outside ∧
      ∃ i, s.InAddSockEvent i ∨
        (s.hand.wakeupLinked i = true ∧ s.hand.waker i ≠ .unlinkWakeup) := by
  have hs := Transition.System.reachable_of_run (M := system Unit fun _ : Unit => ⟨0, epollIn⟩)
    (l := sleepRun) (.init rfl) rfl
  exact ⟨_, hs, rfl, wait_wake hs (x := ()) ⟨⟨_, _, rfl⟩, rfl⟩ ⟨by decide, by decide, by decide⟩⟩

end WakeSys

end Gazelle
