import Gazelle.Epoll.KernelEvent
import Gazelle.Epoll.Lifetime
import Mathlib.Data.Fintype.Basic

/-!
# Registering a ready socket while a thread waits

`raise_pending_events` puts a socket that is ready into the list of its instance in the thread that
calls `lstack_epoll_ctl`. No stack takes part in that, and only stacks unlock the `wait` mutex.

* `CtlWakeSys.system`: all interleavings of one waiter, the threads in `lstack_epoll_ctl` and the
  stacks;
* `epoll_ctl_wakes`: in the runs whose steps meet `CtlWakeSys.Condition`, the waiter does not sleep
  on over a socket in the list;
* `epoll_ctl_sleeps`: it does when the socket is put there after the scan.
-/

namespace Gazelle

/-- Where a thread stands in `lstack_epoll_ctl`. The sockets that follow by `listen_next` are
`rest`, those that were found ready so far `found`. -/
inductive CtlCallPc (σ : Type*)
  /-- Outside the function. -/
  | outside
  /-- Before the store to `epoll_events`. -/
  | storeEvents (op : CtlOp) (events : EpollMask) (sock : σ) (rest found : List σ)
  /-- In `raise_pending_events`, before the tests outside the section. -/
  | probe (op : CtlOp) (events : EpollMask) (sock : σ) (rest found : List σ)
  /-- Before the section of `raise_pending_events`, with the events found so far. -/
  | raise (op : CtlOp) (events : EpollMask) (event : EpollMask) (sock : σ) (rest found : List σ)
  /-- Before the section of `EPOLL_CTL_DEL`. -/
  | unlink (events : EpollMask) (sock : σ) (rest found : List σ)
  /-- Before the return. -/
  | ret (found : List σ)
  deriving DecidableEq

/-- An epoll instance with its waiter, the stacks `ι` and the threads `τ` that register sockets. -/
structure CtlWakeSys (ι τ σ : Type*) where
  /-- The sockets of the instance. -/
  table : EventTable σ
  /-- What the waiter shares with the stacks. -/
  hand : Handshake ι
  /-- The stacks in `add_sock_event` before its section, with the arguments. -/
  adding : ι → Option (σ × EpollMask)
  /-- `have_kernel_event`. -/
  haveKernelEvent : Bool
  /-- The thread in `lstack_epoll_wait`. -/
  waiter : KernelWaitPc
  /-- The threads in `lstack_epoll_ctl`. -/
  caller : τ → CtlCallPc σ
  /-- The sockets that a call of `lstack_epoll_ctl` that has returned found ready. Nothing reads
  this. -/
  raised : List σ

/-- The actions of the threads. -/
inductive CtlWakeAct (ι τ σ : Type*)
  /-- Stack `i`, the one of the socket, calls `add_sock_event`. -/
  | addSockEvent (i : ι) (sock : σ) (event : EpollMask)
  /-- The section of `add_sock_event`; `outdated` says whether the application has read or written
  meanwhile. -/
  | addSection (i : ι) (outdated : Bool)
  /-- Stack `i` finds the instance among its kernel events. -/
  | wakeupKernelEvent (i : ι)
  /-- Stack `i` comes to this instance in the loop of `wakeup_stack_epoll`. -/
  | wakeupStackEpoll (i : ι)
  /-- Stack `i` makes its next step in linking its wake-up or in `wakeup_stack_epoll`. -/
  | waker (i : ι)
  /-- The application calls `lstack_epoll_wait`. -/
  | wait (maxevents timeout : ℤ)
  /-- The waiter makes its next step. -/
  | waiter
  /-- The kernel's `epoll_wait` returns `kernelNum` to the waiter. -/
  | poll (kernelNum : ℤ)
  /-- `pthread_mutex_timedlock` times out. -/
  | timeout
  /-- Thread `t` calls `lstack_epoll_ctl`. -/
  | ctl (t : τ) (op : CtlOp) (events : EpollMask) (sock : σ) (rest : List σ)
  /-- Thread `t` makes its next step; the flags say whether the socket can be read, whether it has
  an error, and whether it is one of lwIP that can be written. -/
  | ctlStep (t : τ) (readable errevent writable : Bool)
  /-- The section of `del_data_in_event` or `del_data_out_event` of a thread that reads or
  writes. -/
  | delData (sock : σ) (event : EpollMask)

namespace CtlWakeSys

variable {ι τ σ : Type*} [DecidableEq ι] [DecidableEq τ] [DecidableEq σ] (s : CtlWakeSys ι τ σ)

/-! ## The steps -/

/-- `add_sock_event` before its section: an event not asked for is dropped. -/
def callAddSockEvent (i : ι) (x : σ) (event : EpollMask) : Option (CtlWakeSys ι τ σ) :=
  if s.hand.waker i ≠ .outside ∨ s.adding i ≠ none then none
  else if event &&& (s.table.sock x).epollEvents = 0 then some s
  else some { s with adding := Function.update s.adding i (some (x, event)) }

/-- The section of `add_sock_event`. -/
def addSection (i : ι) (outdated : Bool) : Option (CtlWakeSys ι τ σ) :=
  match s.adding i with
  | none => none
  | some (x, event) =>
    if outdated then some { s with adding := Function.update s.adding i none }
    else (s.hand.startLink i).map fun hand =>
      { s with
        table := s.table.addSockEvent x event
        hand := hand
        adding := Function.update s.adding i none }

/-- The end of the loop body of `lstack_epoll_wait`: leave the loop or wait. -/
def leaveOrWait (maxevents timeout : ℤ) (lwipNum : ℕ) (kernelNum : ℤ) : CtlWakeSys ι τ σ :=
  if 0 < lwipNum + kernelNum ∨ timeout = 0 then
    { s with hand := s.hand.leave, waiter := .storeFalse }
  else { s with waiter := .lockWait maxevents timeout kernelNum }

/-- The next step of the waiter, outside the kernel. -/
def waiterStep : Option (CtlWakeSys ι τ σ) :=
  match s.waiter with
  | .storeTrue maxevents timeout kernelNum =>
    some { s with hand := s.hand.arm, waiter := .scan maxevents timeout kernelNum }
  | .scan maxevents timeout kernelNum =>
    let (table, reported) := s.table.epollLwipEvent maxevents.toNat
    some { s with
      table := table, waiter := .loadHave maxevents timeout reported.length kernelNum }
  | .loadHave maxevents timeout lwipNum kernelNum =>
    if s.haveKernelEvent then some { s with waiter := .poll maxevents timeout lwipNum }
    else some (s.leaveOrWait maxevents timeout lwipNum kernelNum)
  | .clearHave maxevents timeout lwipNum =>
    some (leaveOrWait { s with haveKernelEvent := false } maxevents timeout lwipNum 0)
  | .lockWait maxevents timeout kernelNum =>
    s.hand.lockWait.map fun hand =>
      { s with hand := hand, waiter := .storeTrue maxevents timeout kernelNum }
  | .storeFalse => some { s with hand := s.hand.disarm, waiter := .idle }
  | .idle | .poll .. => none

/-- The kernel's `epoll_wait` returns; it fails when it is given no room for events. -/
def pollReturn (kernelNum : ℤ) : Option (CtlWakeSys ι τ σ) :=
  match s.waiter with
  | .poll maxevents timeout lwipNum =>
    if kernelNum < -1 ∨ (maxevents - lwipNum ≤ 0 ∧ kernelNum ≠ -1) then none
    else if kernelNum = 0 then some { s with waiter := .clearHave maxevents timeout lwipNum }
    else some (s.leaveOrWait maxevents timeout lwipNum kernelNum)
  | _ => none

/-- What `lstack_epoll_ctl` does when it is through with a socket. -/
def nextSock (op : CtlOp) (events : EpollMask) (rest found : List σ) : CtlCallPc σ :=
  match rest with
  | [] => .ret found
  | x :: rest => .storeEvents op events x rest found

/-- Write the program counter of thread `t`. -/
def setCaller (t : τ) (pc : CtlCallPc σ) : CtlWakeSys ι τ σ :=
  { s with caller := Function.update s.caller t pc }

/-- Write `epoll_events` of a socket. -/
def storeEvents (x : σ) (events : EpollMask) : CtlWakeSys ι τ σ :=
  { s with
    table := { s.table with
      sock := Function.update s.table.sock x { s.table.sock x with epollEvents := events } } }

/-- The events that `raise_pending_events` finds outside its section. -/
def probed (readable errevent : Bool) : EpollMask :=
  (if readable then epollIn else 0) ||| if errevent then epollErr ||| epollIn else 0

/-- The events with which `raise_pending_events` ends. -/
def pendingEvents (event : EpollMask) (writable : Bool) : EpollMask :=
  if writable then event ||| epollOut else event

/-- The next step of thread `t` in `lstack_epoll_ctl`. -/
def ctlStep (t : τ) (readable errevent writable : Bool) : Option (CtlWakeSys ι τ σ) :=
  match s.caller t with
  | .outside => none
  | .storeEvents .del events x rest found =>
    some ((s.storeEvents x 0).setCaller t (.unlink events x rest found))
  | .storeEvents op events x rest found =>
    some ((s.storeEvents x (events ||| epollErr ||| epollHup)).setCaller t
      (.probe op events x rest found))
  | .probe op events x rest found =>
    some (s.setCaller t (.raise op events (probed readable errevent) x rest found))
  | .raise op events event x rest found =>
    let event := pendingEvents event writable
    let found := if event &&& (s.table.sock x).epollEvents ≠ 0 then x :: found else found
    some (setCaller { s with table := s.table.raisePendingEvents x event } t
      (nextSock op events rest found))
  | .unlink events x rest found =>
    some (setCaller { s with table := { s.table with eventList := s.table.eventList.erase x } } t
      (nextSock .del events rest found))
  | .ret found => some { s.setCaller t .outside with raised := found ++ s.raised }

/-- One step of one thread. -/
def step (s : CtlWakeSys ι τ σ) : CtlWakeAct ι τ σ → Option (CtlWakeSys ι τ σ)
  | .addSockEvent i x event => s.callAddSockEvent i x event
  | .addSection i outdated => s.addSection i outdated
  | .wakeupKernelEvent i =>
    if s.adding i = none then
      (s.hand.startLink i).map fun hand => { s with hand := hand, haveKernelEvent := true }
    else none
  | .wakeupStackEpoll i =>
    if s.adding i = none then (s.hand.startWake i).map fun hand => { s with hand := hand }
    else none
  | .waker i => (s.hand.wakerStep i).map fun hand => { s with hand := hand }
  | .wait maxevents timeout =>
    if s.waiter = .idle ∧ 0 < maxevents then
      some { s with waiter := .storeTrue maxevents timeout 0 }
    else none
  | .waiter => s.waiterStep
  | .poll kernelNum => s.pollReturn kernelNum
  | .timeout =>
    match s.waiter with
    | .lockWait _ timeout _ =>
      if 0 < timeout then some { s with hand := s.hand.leave, waiter := .storeFalse } else none
    | _ => none
  | .ctl t op events x rest =>
    if s.caller t = .outside then some (s.setCaller t (.storeEvents op events x rest []))
    else none
  | .ctlStep t readable errevent writable => s.ctlStep t readable errevent writable
  | .delData x event => some { s with table := s.table.delDataEvent x event }

/-- A new instance with any sockets. -/
def create (sock : σ → EpollSock) : CtlWakeSys ι τ σ where
  table := ⟨sock, []⟩
  hand := .create
  adding := fun _ => none
  haveKernelEvent := false
  waiter := .idle
  caller := fun _ => .outside
  raised := []

/-- All interleavings of the threads. -/
def system (ι τ : Type*) [DecidableEq ι] [DecidableEq τ] (sock : σ → EpollSock) :
    Transition.System (CtlWakeSys ι τ σ) (CtlWakeAct ι τ σ) where
  Init s := s = create sock
  step := step

/-! ## The property and the condition -/

/-- The waiter is blocked on the locked mutex. -/
def Asleep : Prop :=
  match s.waiter with
  | .lockWait .. => s.hand.waitLocked = true
  | _ => False

/-- Whether the waiter is blocked is decidable. -/
instance : Decidable s.Asleep := by
  unfold Asleep
  split <;> infer_instance

/-- The waiter has scanned the list without finding an event and has not locked the mutex. -/
def PastScan : Prop :=
  match s.waiter with
  | .loadHave _ _ lwipNum _ | .poll _ _ lwipNum | .clearHave _ _ lwipNum => lwipNum = 0
  | .lockWait .. => True
  | _ => False

/-- So is whether it is past its scan. -/
instance : Decidable s.PastScan := by
  unfold PastScan
  split <;> infer_instance

/-- What the steps have to meet: `raise_pending_events` does not find an event that is asked for
when the waiter is past its scan, and the kernel's `epoll_wait` does not fail when the scan has
taken one event, unless the mutex is unlocked or will be. -/
def Condition (s : CtlWakeSys ι τ σ) : CtlWakeAct ι τ σ → Prop
  | .ctlStep t _ _ writable =>
    match s.caller t with
    | .raise _ _ event x _ _ =>
      pendingEvents event writable &&& (s.table.sock x).epollEvents ≠ 0 → s.PastScan →
        s.hand.WillUnlock
    | _ => True
  | .poll kernelNum =>
    match s.waiter with
    | .poll _ _ lwipNum =>
      lwipNum = 1 → kernelNum < 0 → s.table.eventList = [] ∨ s.hand.WillUnlock
    | _ => True
  | _ => True

/-- Whether a stack will unlock the mutex is found by looking at all of them. -/
instance [Fintype ι] (h : Handshake ι) : Decidable h.StackWillUnlock :=
  inferInstanceAs (Decidable (∃ _, _))

/-- So is whether anyone will. -/
instance [Fintype ι] (h : Handshake ι) : Decidable h.WillUnlock :=
  inferInstanceAs (Decidable (_ ∨ _))

/-- With that the condition on an action is decidable. -/
instance [Fintype ι] (s : CtlWakeSys ι τ σ) (a : CtlWakeAct ι τ σ) : Decidable (Condition s a) := by
  unfold Condition
  split
  · split <;> infer_instance
  · split <;> infer_instance
  · infer_instance

/-! ## The invariant -/

/-- `kernel_num` of the waiter before the next call of the kernel. -/
def kernelNum : KernelWaitPc → ℤ
  | .storeTrue _ _ kernelNum | .scan _ _ kernelNum | .loadHave _ _ _ kernelNum
  | .lockWait _ _ kernelNum => kernelNum
  | _ => 0

/-- The waiter is past its store to `in_wait` and has not left the loop. -/
def InLoop : Prop :=
  match s.waiter with
  | .idle | .storeTrue .. | .storeFalse => False
  | _ => True

/-- The invariant of the runs whose steps meet the condition. -/
structure CtlWakeInv : Prop where
  /-- The invariant of the handshake. -/
  hand : s.hand.Inv
  /-- The waiter is armed while it is in the loop. -/
  armed : s.InLoop → s.hand.armed = true
  /-- `kernel_num` is not positive while the loop goes on. -/
  nonpos : kernelNum s.waiter ≤ 0
  /-- When the kernel has failed, it will be asked again. -/
  failed : kernelNum s.waiter < 0 → s.haveKernelEvent = true
  /-- The kernel is asked when it has events. -/
  polled : (∃ maxevents timeout lwipNum, s.waiter = .poll maxevents timeout lwipNum) →
    s.haveKernelEvent = true
  /-- A waiter past its scan will be woken when there is something in the list. -/
  woken : s.PastScan → s.table.eventList = [] ∨ s.hand.WillUnlock

omit [DecidableEq ι] [DecidableEq τ] [DecidableEq σ] in
/-- A waiter past its scan is in the loop. -/
theorem PastScan.inLoop {s : CtlWakeSys ι τ σ} (h : s.PastScan) : s.InLoop := by
  unfold PastScan at h
  unfold InLoop
  cases hpc : s.waiter <;> simp_all

omit [DecidableEq ι] [DecidableEq τ] [DecidableEq σ] in
/-- A waiter that is blocked is past its scan. -/
theorem Asleep.pastScan {s : CtlWakeSys ι τ σ} (h : s.Asleep) :
    s.PastScan ∧ s.hand.waitLocked = true := by
  unfold Asleep at h
  unfold PastScan
  split at h
  · next hpc =>
    rw [hpc]
    exact ⟨trivial, h⟩
  · exact h.elim

omit [DecidableEq ι] [DecidableEq τ] [DecidableEq σ] in
/-- The invariant holds of a new instance. -/
theorem CtlWakeInv.create (sock : σ → EpollSock) :
    CtlWakeInv (create sock : CtlWakeSys ι τ σ) where
  hand := .create
  armed := by simp [CtlWakeSys.create, InLoop]
  nonpos := Int.le_refl 0
  failed := by simp [CtlWakeSys.create, kernelNum]
  polled := by simp [CtlWakeSys.create]
  woken _ := .inl rfl

section Steps

variable {s} {s' : CtlWakeSys ι τ σ} (h : CtlWakeInv s)

include h

omit [DecidableEq ι] [DecidableEq τ] [DecidableEq σ] in
/-- A step that leaves the waiter alone, and puts a socket into the empty list only when the waiter
will be woken. -/
theorem CtlWakeInv.congr (hhand : s'.hand = s.hand) (hflag : s'.haveKernelEvent = s.haveKernelEvent)
    (hwaiter : s'.waiter = s.waiter)
    (hlist : s.PastScan → s.table.eventList = [] →
      s'.table.eventList = [] ∨ s.hand.WillUnlock) : CtlWakeInv s' where
  hand := hhand ▸ h.hand
  armed hloop := by
    rw [hhand]
    refine h.armed ?_
    unfold InLoop at hloop ⊢
    rwa [← hwaiter]
  nonpos := hwaiter ▸ h.nonpos
  failed := by
    rw [hwaiter, hflag]
    exact h.failed
  polled := by
    rw [hwaiter, hflag]
    exact h.polled
  woken hpast := by
    have hpast' : s.PastScan := by
      unfold PastScan at hpast ⊢
      rwa [← hwaiter]
    rw [hhand]
    rcases h.woken hpast' with hnil | hwill
    · exact hlist hpast' hnil
    · exact .inr hwill

omit [DecidableEq ι] [DecidableEq τ] [DecidableEq σ] in
/-- A step of a stack that leaves the mutex to be unlocked. -/
theorem CtlWakeInv.of_hand (hinv : s'.hand.Inv) (harmed : s'.hand.armed = s.hand.armed)
    (hflag : s.haveKernelEvent = true → s'.haveKernelEvent = true) (hwaiter : s'.waiter = s.waiter)
    (hwoken : s.PastScan → s'.table.eventList = [] ∨ s'.hand.WillUnlock) : CtlWakeInv s' where
  hand := hinv
  armed hloop := by
    rw [harmed]
    refine h.armed ?_
    unfold InLoop at hloop ⊢
    rwa [← hwaiter]
  nonpos := hwaiter ▸ h.nonpos
  failed := by
    rw [hwaiter]
    exact fun hneg => hflag (h.failed hneg)
  polled := by
    rw [hwaiter]
    exact fun hpoll => hflag (h.polled hpoll)
  woken hpast := by
    refine hwoken ?_
    unfold PastScan at hpast ⊢
    rwa [← hwaiter]

omit [DecidableEq τ] in
/-- The section of `add_sock_event` keeps the invariant. -/
theorem CtlWakeInv.addSection {i : ι} {outdated : Bool}
    (hstep : s.addSection i outdated = some s') :
    CtlWakeInv s' := by
  unfold CtlWakeSys.addSection at hstep
  split at hstep
  · cases hstep
  · next x event hadd =>
    split at hstep
    · obtain rfl := Option.some.inj hstep
      exact h.congr rfl rfl rfl fun _ hnil => .inl hnil
    · obtain ⟨hand, hstart, rfl⟩ := Option.map_eq_some_iff.1 hstep
      exact h.of_hand (h.hand.startLink hstart) (Handshake.armed_of_startLink hstart) id rfl
        fun _ => .inr (.inr (.startLink hstart))

omit [DecidableEq ι] [DecidableEq τ] [DecidableEq σ] in
/-- The end of the loop body keeps the invariant, when nothing is left behind. -/
theorem CtlWakeInv.leaveOrWait {maxevents timeout : ℤ} {lwipNum : ℕ} {num : ℤ} (hloop : s.InLoop)
    (hfailed : num < 0 → s.haveKernelEvent = true)
    (hwoken : (lwipNum : ℤ) + num ≤ 0 → s.table.eventList = [] ∨ s.hand.WillUnlock) :
    CtlWakeInv (s.leaveOrWait maxevents timeout lwipNum num) := by
  unfold CtlWakeSys.leaveOrWait
  split
  · refine ⟨h.hand.leave, fun hloop => ?_, Int.le_refl 0, fun hneg => ?_, by simp,
      fun hpast => ?_⟩
    · exact hloop.elim
    · exact absurd hneg (Int.lt_irrefl 0)
    · exact hpast.elim
  · next hend =>
    have hle : (lwipNum : ℤ) + num ≤ 0 := by
      by_contra hpos
      exact hend (.inl (Int.not_le.1 hpos))
    refine ⟨h.hand, fun _ => h.armed hloop, ?_, hfailed, by simp, fun _ => hwoken hle⟩
    show num ≤ 0
    omega

omit [DecidableEq ι] [DecidableEq τ] in
/-- A step of the waiter keeps the invariant. -/
theorem CtlWakeInv.waiterStep (hstep : s.waiterStep = some s') : CtlWakeInv s' := by
  unfold CtlWakeSys.waiterStep at hstep
  split at hstep
  · next maxevents timeout num hpc =>
    obtain rfl := Option.some.inj hstep
    have hnonpos := h.nonpos
    have hfailed := h.failed
    rw [hpc] at hnonpos hfailed
    exact ⟨h.hand.arm, fun _ => rfl, hnonpos, hfailed, by simp, fun hpast => hpast.elim⟩
  · next maxevents timeout num hpc =>
    obtain rfl := Option.some.inj hstep
    have hnonpos := h.nonpos
    have hfailed := h.failed
    rw [hpc] at hnonpos hfailed
    have hloop : s.InLoop := by simp [InLoop, hpc]
    refine ⟨h.hand, fun _ => h.armed hloop, hnonpos, hfailed, by simp, fun hpast => .inl ?_⟩
    -- the list is empty after a scan that found no event
    exact EventTable.epollLwipEvent_nil (List.length_eq_zero_iff.1 hpast)
  · next maxevents timeout lwipNum num hpc =>
    have hloop : s.InLoop := by simp [InLoop, hpc]
    have hnonpos := h.nonpos
    have hfailed := h.failed
    have hwoken := h.woken
    rw [hpc] at hnonpos hfailed
    simp only [PastScan, hpc] at hwoken
    split at hstep
    · next hflag =>
      obtain rfl := Option.some.inj hstep
      exact ⟨h.hand, fun _ => h.armed hloop, Int.le_refl 0,
        fun hneg => absurd hneg (Int.lt_irrefl 0), fun _ => hflag, hwoken⟩
    · next hflag =>
      obtain rfl := Option.some.inj hstep
      refine h.leaveOrWait hloop hfailed fun hle => hwoken ?_
      have hzero : 0 ≤ kernelNum (.loadHave maxevents timeout lwipNum num) := by
        by_contra hneg
        exact hflag (hfailed (Int.not_le.1 hneg))
      have hzero : 0 ≤ num := hzero
      omega
  · next maxevents timeout lwipNum hpc =>
    obtain rfl := Option.some.inj hstep
    have hloop : s.InLoop := by simp [InLoop, hpc]
    have hwoken := h.woken
    simp only [PastScan, hpc] at hwoken
    have hcleared : CtlWakeInv { s with haveKernelEvent := false } := by
      refine ⟨h.hand, h.armed, h.nonpos, fun hneg => ?_, by simp [hpc], h.woken⟩
      simp only [hpc, kernelNum] at hneg
      exact absurd hneg (Int.lt_irrefl 0)
    exact hcleared.leaveOrWait hloop (fun hneg => absurd hneg (Int.lt_irrefl 0))
      fun hle => hwoken (by omega)
  · next maxevents timeout num hpc =>
    obtain ⟨hand, hlock, rfl⟩ := Option.map_eq_some_iff.1 hstep
    have hnonpos := h.nonpos
    have hfailed := h.failed
    rw [hpc] at hnonpos hfailed
    exact ⟨h.hand.lockWait hlock, fun hloop => hloop.elim, hnonpos, hfailed, by simp,
      fun hpast => hpast.elim⟩
  · obtain rfl := Option.some.inj hstep
    exact ⟨h.hand.disarm, fun hloop => hloop.elim, Int.le_refl 0,
      fun hneg => absurd hneg (Int.lt_irrefl 0), by simp, fun hpast => hpast.elim⟩
  · cases hstep
  · cases hstep

omit [DecidableEq ι] [DecidableEq τ] [DecidableEq σ] in
/-- So does the return of the kernel's `epoll_wait`, when it meets the condition. -/
theorem CtlWakeInv.pollReturn {num : ℤ} (hc : Condition s (.poll num : CtlWakeAct ι τ σ))
    (hstep : s.pollReturn num = some s') : CtlWakeInv s' := by
  unfold CtlWakeSys.pollReturn at hstep
  split at hstep
  · next maxevents timeout lwipNum hpc =>
    have hloop : s.InLoop := by simp [InLoop, hpc]
    have hwoken := h.woken
    simp only [PastScan, hpc] at hwoken
    simp only [Condition, hpc] at hc
    have hflag : s.haveKernelEvent = true := h.polled ⟨_, _, _, hpc⟩
    split at hstep
    · cases hstep
    · next hreturn =>
      split at hstep
      · obtain rfl := Option.some.inj hstep
        exact ⟨h.hand, fun _ => h.armed hloop, Int.le_refl 0,
          fun hneg => absurd hneg (Int.lt_irrefl 0), by simp, hwoken⟩
      · next hnum =>
        obtain rfl := Option.some.inj hstep
        refine h.leaveOrWait hloop (fun _ => hflag) fun hle => ?_
        have hge : -1 ≤ num := by
          by_contra hlt
          exact hreturn (.inl (Int.not_le.1 hlt))
        -- the scan found no event, or one
        rcases Nat.eq_zero_or_pos lwipNum with rfl | hpos
        · exact hwoken rfl
        · obtain rfl : lwipNum = 1 := by omega
          exact hc rfl (by omega)
  · cases hstep

omit [DecidableEq ι] in
/-- A step in `lstack_epoll_ctl` that meets the condition keeps the invariant. -/
theorem CtlWakeInv.ctlStep {t : τ} {readable errevent writable : Bool}
    (hc : Condition s (.ctlStep t readable errevent writable))
    (hstep : s.ctlStep t readable errevent writable = some s') : CtlWakeInv s' := by
  unfold CtlWakeSys.ctlStep at hstep
  split at hstep
  · cases hstep
  · obtain rfl := Option.some.inj hstep
    exact h.congr rfl rfl rfl fun _ hnil => .inl hnil
  · obtain rfl := Option.some.inj hstep
    exact h.congr rfl rfl rfl fun _ hnil => .inl hnil
  · obtain rfl := Option.some.inj hstep
    exact h.congr rfl rfl rfl fun _ hnil => .inl hnil
  · next op events event x rest found hpc =>
    obtain rfl := Option.some.inj hstep
    refine h.congr rfl rfl rfl fun hpast hnil => ?_
    by_cases hasked : pendingEvents event writable &&& (s.table.sock x).epollEvents = 0
    · left
      show (s.table.raisePendingEvents x (pendingEvents event writable)).eventList = []
      unfold EventTable.raisePendingEvents
      split
      · exact hnil
      · rw [if_neg fun hne => hne.1 hasked]
        exact hnil
    · simp only [Condition, hpc] at hc
      exact .inr (hc hasked hpast)
  · obtain rfl := Option.some.inj hstep
    refine h.congr rfl rfl rfl fun _ hnil => .inl ?_
    show s.table.eventList.erase _ = []
    rw [hnil, List.erase_nil]
  · obtain rfl := Option.some.inj hstep
    exact h.congr rfl rfl rfl fun _ hnil => .inl hnil

/-- Every step that meets the condition keeps the invariant. -/
theorem CtlWakeInv.step {a : CtlWakeAct ι τ σ} (hc : Condition s a) (hstep : s.step a = some s') :
    CtlWakeInv s' := by
  cases a with
  | addSockEvent i x event =>
    simp only [CtlWakeSys.step, callAddSockEvent] at hstep
    split at hstep
    · cases hstep
    · -- the event is put into the table, which can only link a socket
      split at hstep <;> cases hstep
      · exact h
      · exact h.congr rfl rfl rfl fun _ hnil => .inl hnil
  | addSection i outdated => exact h.addSection hstep
  | wakeupKernelEvent i =>
    simp only [CtlWakeSys.step, Option.ite_none_right_eq_some] at hstep
    obtain ⟨-, hstep⟩ := hstep
    obtain ⟨hand, hstart, rfl⟩ := Option.map_eq_some_iff.1 hstep
    -- linking the instance begins a wake of the waiter
    exact h.of_hand (h.hand.startLink hstart) (Handshake.armed_of_startLink hstart) (fun _ => rfl)
      rfl fun _ => .inr (.inr (.startLink hstart))
  | wakeupStackEpoll i =>
    simp only [CtlWakeSys.step, Option.ite_none_right_eq_some] at hstep
    obtain ⟨-, hstep⟩ := hstep
    obtain ⟨hand, hstart, rfl⟩ := Option.map_eq_some_iff.1 hstep
    exact h.of_hand (h.hand.startWake hstart) (Handshake.armed_of_startWake hstart) id rfl
      fun _ => .inr (.inr (.startWake hstart))
  | waker i =>
    -- one more access of a thread that wakes
    obtain ⟨hand, hwaker, rfl⟩ := Option.map_eq_some_iff.1 hstep
    refine h.of_hand (h.hand.wakerStep hwaker) (Handshake.armed_of_wakerStep hwaker) id rfl
      fun hpast => (h.woken hpast).imp_right fun hwill => ?_
    -- a wake on its way goes on, or has arrived
    exact hwill.wakerStep h.hand (h.armed hpast.inLoop) hwaker
  | wait maxevents timeout =>
    simp only [CtlWakeSys.step, Option.ite_none_right_eq_some, Option.some.injEq] at hstep
    obtain ⟨-, rfl⟩ := hstep
    -- a call begins outside of the loop
    exact ⟨h.hand, fun hloop => hloop.elim, Int.le_refl 0,
      fun hneg => absurd hneg (Int.lt_irrefl 0), by simp, fun hpast => hpast.elim⟩
  | waiter => exact h.waiterStep hstep
  | poll num => exact h.pollReturn hc hstep
  | timeout =>
    simp only [CtlWakeSys.step] at hstep
    -- only a waiter that sleeps with a limit can run out of time
    split at hstep
    · rw [Option.ite_none_right_eq_some] at hstep
      obtain ⟨-, hstep⟩ := hstep
      obtain rfl := Option.some.inj hstep
      exact ⟨h.hand.leave, fun hloop => hloop.elim, Int.le_refl 0,
        fun hneg => absurd hneg (Int.lt_irrefl 0), by simp, fun hpast => hpast.elim⟩
    · cases hstep
  | ctl t op events x rest =>
    simp only [CtlWakeSys.step, Option.ite_none_right_eq_some, Option.some.injEq] at hstep
    obtain ⟨-, rfl⟩ := hstep
    exact h.congr rfl rfl rfl fun _ hnil => .inl hnil
  | ctlStep t readable errevent writable => exact h.ctlStep hc hstep
  | delData x event =>
    simp only [CtlWakeSys.step, Option.some.injEq] at hstep
    subst hstep
    refine h.congr rfl rfl rfl fun _ hnil => .inl ?_
    show (s.table.delDataEvent x event).eventList = []
    -- deleting an event links no socket
    simp [EventTable.delDataEvent, hnil]

end Steps

/-- The invariant holds in the runs whose steps meet the condition. -/
theorem CtlWakeInv.reachableUnder {sock : σ → EpollSock} {s : CtlWakeSys ι τ σ}
    (hs : (system ι τ sock).ReachableUnder Condition s) : CtlWakeInv s :=
  Transition.System.invariant_under
    (fun s (hinit : s = CtlWakeSys.create sock) => hinit ▸ CtlWakeInv.create sock)
    (fun _ _ _ h hc hstep => h.step hc hstep) hs

/-! ## Waiting and registering -/

/-- When a call of `lstack_epoll_ctl` that found a socket ready has returned, and the waiter is
blocked on the locked mutex while the socket is linked, some stack will unlock the mutex. -/
theorem epoll_ctl_wakes {sock : σ → EpollSock} {s : CtlWakeSys ι τ σ}
    (hs : (system ι τ sock).ReachableUnder Condition s) {x : σ} (_ : x ∈ s.raised)
    (hlinked : x ∈ s.table.eventList) (hasleep : s.Asleep) : s.hand.StackWillUnlock := by
  have h := CtlWakeInv.reachableUnder hs
  obtain ⟨hpast, hlocked⟩ := hasleep.pastScan
  rcases h.woken hpast with hnil | hunlocked | hwill
  · rw [hnil] at hlinked
    cases hlinked
  · rw [hlocked] at hunlocked
    cases hunlocked
  · exact hwill

/-- A thread waits without a timeout, and scans the empty list. -/
private def ctlWakeWait : List (CtlWakeAct Unit Unit (Fin 2)) :=
  [.wait 8 (-1), .waiter, .waiter, .waiter]

/-- Another registers the first socket, which can be read. -/
private def ctlWakeCtl : List (CtlWakeAct Unit Unit (Fin 2)) :=
  .ctl () .add epollIn ⟨0, Nat.zero_lt_two⟩ [] :: List.replicate 4 (.ctlStep () true false false)

/-- The socket is registered while the stack wakes up the waiter for another one. -/
theorem epoll_ctl_wakes_linked :
    ∃ s, (system Unit Unit fun _ : Fin 2 => ⟨0, epollIn⟩).ReachableUnder Condition s ∧
      (0 ∈ s.raised ∧ 0 ∈ s.table.eventList ∧ s.Asleep) ∧ s.hand.StackWillUnlock := by
  have hrun : ((system Unit Unit fun _ : Fin 2 => ⟨0, epollIn⟩).run (create fun _ => ⟨0, epollIn⟩)
      (ctlWakeWait ++ [.addSockEvent () 1 epollIn, .addSection () false, .waker ()] ++
        ctlWakeCtl)).any (fun s =>
          decide (0 ∈ s.raised ∧ 0 ∈ s.table.eventList ∧ s.Asleep)) = true := by decide +kernel
  obtain ⟨s, hs, hasleep⟩ := (Option.any_eq_true _ _).1 hrun
  obtain ⟨hraised, hlinked, hasleep⟩ := of_decide_eq_true hasleep
  have hreach := Transition.System.reachableUnder_of_run (C := Condition) (.init rfl) hs
    (by decide +kernel)
  exact ⟨s, hreach, ⟨hraised, hlinked, hasleep⟩, epoll_ctl_wakes hreach hraised hlinked hasleep⟩

/-- The waiter sleeps over the socket, and no stack knows of it. -/
theorem epoll_ctl_sleeps :
    ¬ ∀ (s : CtlWakeSys Unit Unit (Fin 2)) (x : Fin 2),
      (system Unit Unit fun _ : Fin 2 => ⟨0, epollIn⟩).Reachable s → x ∈ s.raised →
        x ∈ s.table.eventList → s.Asleep → s.hand.StackWillUnlock := by
  intro h
  have hrun : ((system Unit Unit fun _ : Fin 2 => ⟨0, epollIn⟩).run (create fun _ => ⟨0, epollIn⟩)
      (ctlWakeWait ++ ctlWakeCtl)).any (fun s =>
        decide ((0 ∈ s.raised ∧ 0 ∈ s.table.eventList ∧ s.Asleep) ∧
          ¬ s.hand.StackWillUnlock)) = true := by decide +kernel
  obtain ⟨s, hs, hasleep⟩ := (Option.any_eq_true _ _).1 hrun
  obtain ⟨⟨hraised, hlinked, hasleep⟩, hnot⟩ := of_decide_eq_true hasleep
  exact hnot (h s 0 (Transition.System.reachable_of_run (.init rfl) hs) hraised hlinked hasleep)

end CtlWakeSys

end Gazelle
