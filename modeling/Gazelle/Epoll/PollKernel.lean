import Gazelle.Epoll.WaitReport
import Gazelle.Transition.System
import Mathlib.Logic.Function.Basic
import Mathlib.Data.List.Count

/-!
# Kernel descriptors in `lstack_poll`

A thread that polls has an epoll descriptor of the kernel with the descriptors of its array that are
not sockets of lwIP alone, each registered with its index in the array, and a copy of the array of
the last call. `poll_init` registers again what differs from the copy. The events of an entry have
16 bits and a sign, and those of `struct epoll_event` have 32.

* `PollSys.system`: the calls of one thread, and what happens to the descriptors in between;
* `PollCore.lstackPoll`: one call with all rounds of its loop;
* `addTakes_iff`: which entries `EPOLL_CTL_ADD` refuses;
* `poll_attributes_iff`: along which runs every call writes the events of the kernel to the entries
  that they belong to.
-/

namespace Gazelle

/-- `struct pollfd`. -/
structure PollFd where
  /-- `fd`. -/
  fd : ℤ
  /-- `events`, a `short`. -/
  events : BitVec 16
  /-- `revents`, a `short`. -/
  revents : BitVec 16
  deriving DecidableEq

/-- `EPOLLEXCLUSIVE`. -/
def epollExclusive : EpollMask := BitVec.twoPow 32 28

/-- `EPOLLWAKEUP`. -/
def epollWakeup : EpollMask := 0x20000000

/-- The events that may be asked for with `EPOLLEXCLUSIVE`. -/
def epollExclusiveOk : EpollMask :=
  epollIn ||| epollOut ||| epollErr ||| epollHup ||| epollWakeup ||| epollEt ||| epollExclusive

/-- The masks that `EPOLL_CTL_ADD` takes; others are `EINVAL`. -/
def AddTakes (events : EpollMask) : Prop :=
  events &&& epollExclusive = 0 ∨ events &&& ~~~epollExclusiveOk = 0

/-- Whether `EPOLL_CTL_ADD` takes a mask is decidable. -/
instance (events : EpollMask) : Decidable (AddTakes events) :=
  inferInstanceAs (Decidable (_ ∨ _))

/-- `event.events = new_fd->events`. -/
def PollFd.mask (p : PollFd) : EpollMask := p.events.signExtend 32

/-- The events of an entry are refused when their sign is a minus: then all bits from 15 on are
set. -/
theorem addTakes_iff (p : PollFd) : AddTakes p.mask ↔ p.events.msb = false := by
  have hbit : ∀ i, 16 ≤ i → i < 32 → p.mask.getLsbD i = p.events.msb := by
    intro i hge hlt
    rw [PollFd.mask, BitVec.getLsbD_signExtend, decide_eq_true hlt, Bool.true_and,
      if_neg (Nat.not_lt.2 hge)]
  have hexclusive : p.mask &&& epollExclusive = 0 ↔ p.events.msb = false := by
    rw [epollExclusive, BitVec.and_twoPow, hbit 28 (by decide) (by decide)]
    cases p.events.msb with
    | true => decide
    | false => decide
  unfold AddTakes
  rw [hexclusive]
  refine or_iff_left_of_imp fun hok => ?_
  -- bit 30 may not be asked for with `EPOLLEXCLUSIVE`
  have hnot := congrArg (fun mask => mask.getLsbD 30) hok
  rw [BitVec.getLsbD_and, hbit 30 (by decide) (by decide)] at hnot
  exact (Bool.and_eq_false_iff.1 hnot).resolve_right (by decide)

/-- What `lstack_poll` reads of a socket. -/
structure PollSock where
  /-- `conn`, `none` for `NULL`, and whether `CONN_TYPE_HAS_HOST` holds of it. -/
  conn : Option Bool
  /-- `wakeup` is not `NULL`. -/
  wakeup : Bool
  deriving DecidableEq

/-- What `lstack_poll` reads and writes beside the array of the caller. -/
structure PollCore where
  /-- `last_fds`, with `last_max_nfds` entries. -/
  lastFds : List (ℤ × BitVec 16)
  /-- The descriptors registered in `epollfd`, with `data.u32` and the events. -/
  epollSet : ℤ → Option (ℕ × EpollMask)
  /-- The descriptors that are open and that the kernel can poll. -/
  opened : ℤ → Bool
  /-- The socket of a descriptor and those that follow it by `listen_next`. -/
  socket : ℤ → List PollSock

/-- What `update_events` reads of a socket. -/
structure SockEvents where
  /-- `epoll_events`. -/
  epollEvents : EpollMask
  /-- `NETCONN_IS_DATAIN` or `NETCONN_IS_ACCEPTIN`. -/
  isIn : Bool
  /-- `NETCONN_IS_OUTIDLE`. -/
  isOutIdle : Bool
  /-- `CONN_TYPE_IS_LIBOS` of `conn`. -/
  isLibos : Bool
  /-- `errevent > 0`. -/
  hasErr : Bool

/-- `update_events`. -/
def updateEvents (x : SockEvents) : EpollMask :=
  let event := if x.epollEvents &&& epollIn ≠ 0 ∧ x.isIn then epollIn else 0
  let event :=
    if x.epollEvents &&& epollOut ≠ 0 ∧ x.isOutIdle ∧ x.isLibos then event ||| epollOut else event
  if x.hasErr then event ||| (epollErr ||| epollIn) else event

/-- The events that are found fit into `revents`. -/
theorem setWidth_updateEvents (x : SockEvents) :
    (updateEvents x).setWidth 16 = 0 ↔ updateEvents x = 0 := by
  unfold updateEvents
  dsimp only
  generalize x.epollEvents &&& epollIn = asksIn
  generalize x.epollEvents &&& epollOut = asksOut
  split <;> split <;> split <;> decide

/-- One round of the loop, as far as it is not decided by the array. -/
structure PollRound where
  /-- What `update_events` reads of the sockets of a descriptor. -/
  sockEvents : ℤ → ℕ → SockEvents
  /-- `have_kernel_event`. -/
  haveKernelEvent : Bool
  /-- The descriptors that are ready in the kernel, with their events. -/
  ready : List (ℤ × EpollMask)
  nodup : (ready.map Prod.fst).Nodup
  /-- The kernel reports events of its own, which are among the first 16 bits. -/
  nonzero : ∀ e ∈ ready, e.2.setWidth 16 ≠ 0
  /-- What `pthread_mutex_lock` or `pthread_mutex_timedlock` returns. -/
  ret : ℤ

/-- What a call has done when it returns. -/
structure PollResult where
  /-- The array of the caller at the call. -/
  fds : List PollFd
  /-- `last_fds`, the descriptors and the sockets after `poll_init`. -/
  core : PollCore
  /-- The array at the return. -/
  revents : List PollFd
  /-- The value that is returned. -/
  num : ℤ
  /-- The events that the kernel returned in all rounds: the descriptor that is ready, and
  `data.u32` and the events of the entry. -/
  taken : List (ℤ × ℕ × EpollMask)

namespace PollCore

variable (s : PollCore)

/-! ## `poll_init` -/

/-- A descriptor without a socket, or with one that the kernel has a part in. -/
def HasKernel (sock : List PollSock) : Prop :=
  match sock with
  | [] => True
  | x :: _ => x.conn ≠ some false

/-- Whether the kernel has a part in a descriptor is decidable. -/
instance (sock : List PollSock) : Decidable (HasKernel sock) := by
  unfold HasKernel
  split <;> infer_instance

/-- An entry that `poll_init` leaves alone, because it is that of the last call. -/
def Skipped (i : ℕ) (p : PollFd) : Prop :=
  s.lastFds[i]? = some (p.fd, p.events) ∧
    match s.socket p.fd with
    | [] => True
    | x :: _ => x.wakeup = true

/-- Whether `poll_init` leaves an entry alone is decidable. -/
instance (i : ℕ) (p : PollFd) : Decidable (s.Skipped i p) := by
  unfold Skipped
  split <;> infer_instance

/-- `resize_kernel_poll`, when the array does not fit. -/
def resizeKernelPoll (nfds : ℕ) : PollCore :=
  if s.lastFds.length < nfds then { s with lastFds := List.replicate nfds (0, 0) } else s

/-- `EPOLL_CTL_DEL` of a descriptor that is open. -/
def epollCtlDel (fd : ℤ) : PollCore :=
  if s.opened fd then { s with epollSet := Function.update s.epollSet fd none } else s

/-- `EPOLL_CTL_ADD` of a descriptor that is open and not registered, with a mask that is taken. -/
def epollCtlAdd (fd : ℤ) (index : ℕ) (events : EpollMask) : PollCore :=
  if s.opened fd ∧ s.epollSet fd = none ∧ AddTakes events then
    { s with epollSet := Function.update s.epollSet fd (some (index, events)) }
  else s

/-- `update_kernel_poll`: delete the descriptor of the copy, add the new one. -/
def updateKernelPoll (i : ℕ) (p : PollFd) : PollCore :=
  ((s.lastFds[i]?.map fun last => s.epollCtlDel last.1).getD s).epollCtlAdd p.fd i p.mask

/-- The loop over the sockets of a descriptor, which sets `wakeup` of those with a connection. -/
def setWakeup : List PollSock → List PollSock
  | [] => []
  | x :: rest => if x.conn = none then x :: rest else { x with wakeup := true } :: setWakeup rest

/-- The loop body of `poll_init`. -/
def pollInitStep (i : ℕ) (p : PollFd) : PollCore :=
  if s.Skipped i p then s
  else
    -- the copy is overwritten first
    let s := { s with lastFds := s.lastFds.set i (p.fd, p.events) }
    let s := if HasKernel (s.socket p.fd) then s.updateKernelPoll i p else s
    { s with socket := Function.update s.socket p.fd (setWakeup (s.socket p.fd)) }

/-- The loop of `poll_init` from index `i` on. -/
def pollInitLoop (s : PollCore) (i : ℕ) : List PollFd → PollCore
  | [] => s
  | p :: rest => pollInitLoop (s.pollInitStep i p) (i + 1) rest

/-- `poll_init`. -/
def pollInit (fds : List PollFd) : PollCore :=
  pollInitLoop (s.resizeKernelPoll fds.length) 0 fds

/-! ## The loop -/

/-- The first events that `update_events` finds on the sockets of a chain, those before the first
one without a connection. -/
def chainEvents (sockEvents : ℕ → SockEvents) (i : ℕ) : List PollSock → EpollMask
  | [] => 0
  | x :: rest =>
    if x.conn = none then 0
    else if updateEvents (sockEvents i) ≠ 0 then updateEvents (sockEvents i)
    else chainEvents sockEvents (i + 1) rest

/-- The events of lwIP for a descriptor. -/
def lwipEvents (r : PollRound) (fd : ℤ) : EpollMask :=
  chainEvents (r.sockEvents fd) 0 (s.socket fd)

/-- `poll_lwip_event`. -/
def pollLwipEvent (r : PollRound) : List PollFd → List PollFd × ℕ
  | [] => ([], 0)
  | p :: rest =>
    let (rest, eventNum) := pollLwipEvent r rest
    if s.lwipEvents r p.fd ≠ 0 then
      ({ p with revents := (s.lwipEvents r p.fd).setWidth 16 } :: rest, eventNum + 1)
    else (p :: rest, eventNum)

/-- The events that the kernel has for the registered descriptors. -/
def kernelEvents (r : PollRound) : List (ℤ × ℕ × EpollMask) :=
  r.ready.filterMap fun e => (s.epollSet e.1).map fun reg => (e.1, reg.1, e.2)

/-- `fds[index].revents = wakeup->events[i].events` for the events of the kernel. -/
def writeRevents (fds : List PollFd) : List (ℤ × ℕ × EpollMask) → List PollFd
  | [] => fds
  | e :: rest =>
    writeRevents (fds.modify e.2.1 fun p => { p with revents := e.2.2.setWidth 16 }) rest

/-- `kernel_num` and the events after the kernel was asked, which it is when it has events. -/
def pollKernel (nfds : ℕ) (kernelNum : ℤ) (r : PollRound) : ℤ × List (ℤ × ℕ × EpollMask) :=
  if r.haveKernelEvent then kernelEpollWait nfds (some (s.kernelEvents r)) else (kernelNum, [])

/-- The loop of `lstack_poll`, `none` while it has not returned. -/
def pollLoop (call : List PollFd) (timeout : ℤ) (fds : List PollFd) (kernelNum : ℤ)
    (taken : List (ℤ × ℕ × EpollMask)) : List PollRound → Option PollResult
  | [] => none
  | r :: rest =>
    let lwip := s.pollLwipEvent r fds
    let polled := s.pollKernel fds.length kernelNum r
    let fds := writeRevents lwip.1 polled.2
    if 0 < lwip.2 + polled.1 ∨ timeout = 0 ∨ r.ret ≠ 0 then
      some ⟨call, s, fds, lwip.2 + polled.1, taken ++ polled.2⟩
    else pollLoop call timeout fds polled.1 (taken ++ polled.2) rest

/-- `lstack_poll`. -/
def lstackPoll (fds : List PollFd) (timeout : ℤ) (rounds : List PollRound) : Option PollResult :=
  (s.pollInit fds).pollLoop fds timeout (fds.map fun p => { p with revents := 0 }) 0 [] rounds

/-! ## The property and the condition -/

/-- A descriptor that the kernel can poll and that has no socket of lwIP alone. -/
def KernelPath (fd : ℤ) : Prop := s.opened fd = true ∧ HasKernel (s.socket fd)

/-- Whether the kernel can poll a descriptor is decidable. -/
instance (fd : ℤ) : Decidable (s.KernelPath fd) := inferInstanceAs (Decidable (_ ∧ _))

/-- An event of the kernel has the index of the entry with the descriptor that is ready. -/
def Indexed (fds : List PollFd) (e : ℤ × ℕ × EpollMask) : Prop :=
  fds[e.2.1]?.map PollFd.fd = some e.1

/-- Whether an event has the index of its entry is decidable. -/
instance (fds : List PollFd) (e : ℤ × ℕ × EpollMask) : Decidable (Indexed fds e) :=
  inferInstanceAs (Decidable (_ = _))

/-- The entry has events to return. -/
def HasRevents (p : PollFd) : Bool := p.revents ≠ 0

/-- The call attributes the events of the kernel to the right entries. -/
structure Attributes (r : PollResult) : Prop where
  /-- The indexes are those of the descriptors that are ready. -/
  indexed : ∀ e ∈ r.taken, Indexed r.fds e
  /-- The descriptors are registered with their index and events. -/
  registered : ∀ i p, r.fds[i]? = some p → r.core.KernelPath p.fd →
    r.core.epollSet p.fd = some (i, p.mask)
  /-- The value is the number of the entries with events. -/
  num : r.num = r.revents.countP HasRevents

/-- A descriptor is in the array and polled in the kernel, or it is registered with the index of its
entry. -/
def Belongs (fds : List PollFd) (fd : ℤ) : Prop :=
  (∃ p ∈ fds, p.fd = fd ∧ s.KernelPath fd) ∨
    (s.epollSet fd).any (fun reg => fds[reg.1]?.map PollFd.fd = some fd) = true

/-- Whether a descriptor belongs to the array is decidable. -/
instance (fds : List PollFd) (fd : ℤ) : Decidable (s.Belongs fds fd) :=
  inferInstanceAs (Decidable (_ ∨ _))

/-- What the rounds have to meet: the descriptors that the kernel reports belong to the array, and
those of the last round have no events of lwIP. -/
def RoundsMeet (fds : List PollFd) (timeout kernelNum : ℤ) : List PollRound → Prop
  | [] => True
  | r :: rest =>
    let polled := (s.pollInit fds).pollKernel fds.length kernelNum r
    let lwipNum := fds.countP fun p => s.lwipEvents r p.fd ≠ 0
    (∀ e ∈ polled.2, s.Belongs fds e.1) ∧
      if 0 < lwipNum + polled.1 ∨ timeout = 0 ∨ r.ret ≠ 0 then
        ∀ e ∈ polled.2, s.lwipEvents r e.1 = 0
      else RoundsMeet fds timeout polled.1 rest

/-- Whether the rounds meet the condition is found by going through them. -/
instance decidableRoundsMeet (fds : List PollFd) (timeout : ℤ) :
    ∀ (kernelNum : ℤ) (rounds : List PollRound),
      Decidable (s.RoundsMeet fds timeout kernelNum rounds)
  | _, [] => isTrue trivial
  | kernelNum, r :: rest =>
    haveI := decidableRoundsMeet fds timeout
      ((s.pollInit fds).pollKernel fds.length kernelNum r).1 rest
    inferInstanceAs (Decidable (_ ∧ ite _ _ _))

/-- What a call has to meet: no descriptor of the kernel is in the array twice, those that are left
alone are registered already, the events of the others are taken, and the rounds. -/
structure CallMeets (fds : List PollFd) (timeout : ℤ) (rounds : List PollRound) : Prop where
  /-- The descriptors are different. -/
  distinct : ∀ e ∈ fds.zipIdx, ∀ e' ∈ fds.zipIdx, s.KernelPath e.1.fd → e'.1.fd = e.1.fd →
    e'.2 = e.2
  /-- An entry that is skipped is registered. -/
  skipped : ∀ e ∈ fds.zipIdx, s.KernelPath e.1.fd →
    (s.resizeKernelPoll fds.length).Skipped e.2 e.1 →
      s.epollSet e.1.fd = some (e.2, e.1.mask)
  /-- The sign of the events of another entry is no minus. -/
  taken : ∀ e ∈ fds.zipIdx, s.KernelPath e.1.fd →
    ¬ (s.resizeKernelPoll fds.length).Skipped e.2 e.1 → e.1.events.msb = false
  /-- The rounds. -/
  rounds : s.RoundsMeet fds timeout 0 rounds

/-- Whether a call meets this is decidable, field by field. -/
instance (fds : List PollFd) (timeout : ℤ) (rounds : List PollRound) :
    Decidable (s.CallMeets fds timeout rounds) :=
  decidable_of_iff (_ ∧ _ ∧ _ ∧ _)
    ⟨fun h => ⟨h.1, h.2.1, h.2.2.1, h.2.2.2⟩, fun h => ⟨h.1, h.2, h.3, h.4⟩⟩

/-! ## What `poll_init` does -/

section Init

variable {s} {s' : PollCore} {i : ℕ} {p : PollFd} {fd : ℤ}

/-- What a call leaves alone: the open descriptors, and the connections of the sockets. -/
structure Kept (s s' : PollCore) : Prop where
  /-- The open descriptors. -/
  opened : s'.opened = s.opened
  /-- The connections. -/
  conn : ∀ fd, (s'.socket fd).map PollSock.conn = (s.socket fd).map PollSock.conn

theorem Kept.trans {s'' : PollCore} (h : Kept s s') (h' : Kept s' s'') : Kept s s'' :=
  ⟨h'.opened.trans h.opened, fun fd => (h'.conn fd).trans (h.conn fd)⟩

/-- Whether the kernel has a part in a socket is decided by the connections. -/
theorem hasKernel_congr {l l' : List PollSock} (h : l'.map PollSock.conn = l.map PollSock.conn) :
    HasKernel l' ↔ HasKernel l := by
  cases l with
  | nil =>
    obtain rfl : l' = [] := List.map_eq_nil_iff.1 h
    exact Iff.rfl
  | cons x l =>
    cases l' with
    | nil => cases h
    | cons y l' =>
      rw [List.map_cons, List.map_cons] at h
      obtain ⟨hconn, -⟩ := List.cons.inj h
      simp only [HasKernel, hconn]

/-- So are the events that are found. -/
theorem chainEvents_congr {sockEvents : ℕ → SockEvents} {l l' : List PollSock}
    (h : l'.map PollSock.conn = l.map PollSock.conn) (i : ℕ) :
    chainEvents sockEvents i l' = chainEvents sockEvents i l := by
  induction l generalizing l' i with
  | nil =>
    obtain rfl : l' = [] := List.map_eq_nil_iff.1 h
    rfl
  | cons x l ih =>
    cases l' with
    | nil => cases h
    | cons y l' =>
      rw [List.map_cons, List.map_cons] at h
      obtain ⟨hconn, hrest⟩ := List.cons.inj h
      rw [chainEvents, chainEvents, hconn, ih hrest]

theorem Kept.kernelPath (h : Kept s s') (fd : ℤ) : s'.KernelPath fd ↔ s.KernelPath fd := by
  unfold KernelPath
  rw [h.opened, hasKernel_congr (h.conn fd)]

theorem Kept.lwipEvents (h : Kept s s') (r : PollRound) (fd : ℤ) :
    s'.lwipEvents r fd = s.lwipEvents r fd :=
  chainEvents_congr (h.conn fd) 0

theorem map_conn_setWakeup (l : List PollSock) :
    (setWakeup l).map PollSock.conn = l.map PollSock.conn := by
  induction l with
  | nil => rfl
  | cons x l ih =>
    rw [setWakeup]
    split
    · rfl
    · rw [List.map_cons, List.map_cons, ih]

/-- What `update_kernel_poll` registers for an entry: nothing if the mask is refused. -/
def registration (i : ℕ) (p : PollFd) : Option (ℕ × EpollMask) :=
  if AddTakes p.mask then some (i, p.mask) else none

/-- An entry whose events have no minus is registered. -/
theorem registration_eq_some : registration i p = some (i, p.mask) ↔ p.events.msb = false := by
  rw [← addTakes_iff, registration]
  split
  · next h => exact iff_of_true rfl h
  · next h => exact iff_of_false (Option.some_ne_none _).symm h

/-- The descriptor of the copy is the new one already. -/
theorem updateKernelPoll_eq {events : BitVec 16} (h : s.lastFds[i]? = some (p.fd, events)) :
    s.updateKernelPoll i p =
      if s.opened p.fd then
        { s with epollSet := Function.update s.epollSet p.fd (registration i p) }
      else s := by
  unfold updateKernelPoll
  rw [h, Option.map_some, Option.getD_some]
  unfold epollCtlDel epollCtlAdd registration
  split
  · next hopened =>
    split
    · next hadd => rw [if_pos hadd.2.2, Function.update_idem]
    · next hadd =>
      rw [if_neg fun htakes => hadd ⟨hopened, Function.update_self .., htakes⟩]
  · next hopened => rw [if_neg fun hand => hopened hand.1]

/-- The loop body. -/
theorem pollInitStep_eq (hi : i < s.lastFds.length) :
    s.pollInitStep i p =
      if s.Skipped i p then s
      else
        { s with
          lastFds := s.lastFds.set i (p.fd, p.events)
          epollSet :=
            if s.KernelPath p.fd then Function.update s.epollSet p.fd (registration i p)
            else s.epollSet
          socket := Function.update s.socket p.fd (setWakeup (s.socket p.fd)) } := by
  have hlast : (s.lastFds.set i (p.fd, p.events))[i]? = some (p.fd, p.events) :=
    List.getElem?_set_self hi
  unfold pollInitStep
  split
  · rfl
  · by_cases hkernel : HasKernel (s.socket p.fd)
    · dsimp only
      rw [if_pos hkernel, updateKernelPoll_eq hlast]
      by_cases hopened : s.opened p.fd = true
      · rw [if_pos (show s.KernelPath p.fd from ⟨hopened, hkernel⟩), if_pos hopened]
      · rw [if_neg (show ¬ s.KernelPath p.fd from fun h => hopened h.1), if_neg hopened]
    · dsimp only
      rw [if_neg hkernel, if_neg (show ¬ s.KernelPath p.fd from fun h => hkernel h.2)]

theorem kept_pollInitStep (hi : i < s.lastFds.length) : Kept s (s.pollInitStep i p) := by
  rw [pollInitStep_eq hi]
  split
  · exact ⟨rfl, fun _ => rfl⟩
  · refine ⟨rfl, fun fd => ?_⟩
    dsimp only
    by_cases hfd : fd = p.fd
    · rw [hfd, Function.update_self, map_conn_setWakeup]
    · rw [Function.update_of_ne hfd]

theorem length_pollInitStep (hi : i < s.lastFds.length) :
    (s.pollInitStep i p).lastFds.length = s.lastFds.length := by
  rw [pollInitStep_eq hi]
  split
  · rfl
  · exact List.length_set

/-- Other descriptors are not touched, nor those that are not the kernel's. -/
theorem epollSet_pollInitStep (hi : i < s.lastFds.length) (hfd : p.fd = fd → ¬ s.KernelPath fd) :
    (s.pollInitStep i p).epollSet fd = s.epollSet fd := by
  rw [pollInitStep_eq hi]
  split
  · rfl
  · dsimp only
    split
    · next hkernel => exact Function.update_of_ne (fun heq => hfd heq.symm (heq ▸ hkernel)) ..
    · rfl

/-- A descriptor of the kernel is registered with its index unless it is skipped. -/
theorem epollSet_pollInitStep_self (hi : i < s.lastFds.length) (hkernel : s.KernelPath p.fd) :
    (s.pollInitStep i p).epollSet p.fd =
      if s.Skipped i p then s.epollSet p.fd else registration i p := by
  rw [pollInitStep_eq hi, if_pos hkernel]
  split
  · rfl
  · exact Function.update_self ..

/-- Whether a later entry is skipped is not changed by an entry with another descriptor. -/
theorem skipped_pollInitStep (hi : i < s.lastFds.length) {q : PollFd} (hq : q.fd ≠ p.fd) {j : ℕ}
    (hj : i < j) : (s.pollInitStep i p).Skipped j q ↔ s.Skipped j q := by
  rw [pollInitStep_eq hi]
  split
  · exact Iff.rfl
  · unfold Skipped
    dsimp only
    rw [List.getElem?_set_ne (Nat.ne_of_lt hj), Function.update_of_ne hq]

/-- The loop leaves the connections alone. -/
theorem kept_pollInitLoop {fds : List PollFd} (hi : i + fds.length ≤ s.lastFds.length) :
    Kept s (s.pollInitLoop i fds) := by
  induction fds generalizing s i with
  | nil => exact ⟨rfl, fun _ => rfl⟩
  | cons p rest ih =>
    rw [List.length_cons] at hi
    have hlt : i < s.lastFds.length := by omega
    refine (kept_pollInitStep (p := p) hlt).trans (ih ?_)
    rw [length_pollInitStep hlt]
    omega

/-- A descriptor that is not one of the kernel in the array stays as it is. -/
theorem epollSet_pollInitLoop {fds : List PollFd} (hi : i + fds.length ≤ s.lastFds.length)
    (hfd : ∀ p ∈ fds, p.fd = fd → ¬ s.KernelPath fd) :
    (s.pollInitLoop i fds).epollSet fd = s.epollSet fd := by
  induction fds generalizing s i with
  | nil => rfl
  | cons p rest ih =>
    rw [List.length_cons] at hi
    have hlt : i < s.lastFds.length := by omega
    have hrest : i + 1 + rest.length ≤ (s.pollInitStep i p).lastFds.length := by
      rw [length_pollInitStep hlt]
      omega
    rw [pollInitLoop, ih hrest fun q hq heq => ?_]
    · exact epollSet_pollInitStep hlt (hfd p List.mem_cons_self)
    · rw [(kept_pollInitStep hlt).kernelPath]
      exact hfd q (List.mem_cons_of_mem p hq) heq

/-- A descriptor of the kernel that is in the array once. -/
theorem epollSet_pollInitLoop_self {fds : List PollFd} (hi : i + fds.length ≤ s.lastFds.length)
    {j : ℕ} (hj : fds[j]? = some p) (hkernel : s.KernelPath p.fd)
    (honce : ∀ k q, fds[k]? = some q → q.fd = p.fd → k = j) :
    (s.pollInitLoop i fds).epollSet p.fd =
      if s.Skipped (i + j) p then s.epollSet p.fd else registration (i + j) p := by
  induction fds generalizing s i j with
  | nil => cases hj
  | cons q rest ih =>
    rw [List.length_cons] at hi
    have hlt : i < s.lastFds.length := by omega
    have hrest : i + 1 + rest.length ≤ (s.pollInitStep i q).lastFds.length := by
      rw [length_pollInitStep hlt]
      omega
    have hkept := kept_pollInitStep (p := q) hlt
    rw [pollInitLoop]
    -- the descriptor is that of the first entry, or of a later one
    cases j with
    | zero =>
      obtain rfl : q = p := Option.some.inj hj
      rw [epollSet_pollInitLoop hrest fun p' hp' heq => ?_, epollSet_pollInitStep_self hlt hkernel]
      · rfl
      · -- no later entry has it, so the rest of the loop does not write it again
        obtain ⟨k, hk⟩ := List.getElem?_of_mem hp'
        have := honce (k + 1) p' hk heq
        omega
    | succ j =>
      -- the first entry has another descriptor, and its step leaves this one alone
      have hne : p.fd ≠ q.fd := by
        intro heq
        have := honce 0 q rfl heq.symm
        omega
      have hstep := ih hrest hj ((hkept.kernelPath _).2 hkernel) fun k q' hk heq =>
        Nat.succ.inj (honce (k + 1) q' hk heq)
      have hindex : i + 1 + j = i + (j + 1) := by omega
      rw [hindex] at hstep
      rw [hstep, epollSet_pollInitStep hlt fun heq => absurd heq.symm hne]
      exact if_congr (skipped_pollInitStep hlt hne (by omega)) rfl rfl

/-- The array fits into the copy after `resize_kernel_poll`, which changes nothing else. -/
theorem length_resizeKernelPoll (nfds : ℕ) :
    nfds ≤ (s.resizeKernelPoll nfds).lastFds.length := by
  unfold resizeKernelPoll
  split
  · exact Nat.le_of_eq List.length_replicate.symm
  · next h => exact Nat.not_lt.1 h

theorem resizeKernelPoll_eq (nfds : ℕ) :
    s.resizeKernelPoll nfds = { s with lastFds := (s.resizeKernelPoll nfds).lastFds } := by
  unfold resizeKernelPoll
  split <;> rfl

/-- `poll_init` leaves the connections alone. -/
theorem kept_pollInit (fds : List PollFd) : Kept s (s.pollInit fds) := by
  have hresize : Kept s (s.resizeKernelPoll fds.length) := by
    rw [resizeKernelPoll_eq]
    exact ⟨rfl, fun _ => rfl⟩
  refine hresize.trans (kept_pollInitLoop ?_)
  rw [Nat.zero_add]
  exact length_resizeKernelPoll fds.length

/-- What `poll_init` does to a descriptor that is not one of the kernel in the array. -/
theorem epollSet_pollInit {fds : List PollFd} (hfd : ∀ p ∈ fds, p.fd = fd → ¬ s.KernelPath fd) :
    (s.pollInit fds).epollSet fd = s.epollSet fd := by
  have hlen : 0 + fds.length ≤ (s.resizeKernelPoll fds.length).lastFds.length := by
    rw [Nat.zero_add]
    exact length_resizeKernelPoll fds.length
  have hsame : (s.resizeKernelPoll fds.length).KernelPath fd ↔ s.KernelPath fd := by
    rw [resizeKernelPoll_eq]
    exact Iff.rfl
  unfold pollInit
  rw [epollSet_pollInitLoop hlen fun p hp heq => hsame.not.2 (hfd p hp heq), resizeKernelPoll_eq]

/-- What it does to one that is in the array once. -/
theorem epollSet_pollInit_self {fds : List PollFd} {j : ℕ} (hj : fds[j]? = some p)
    (hkernel : s.KernelPath p.fd) (honce : ∀ k q, fds[k]? = some q → q.fd = p.fd → k = j) :
    (s.pollInit fds).epollSet p.fd =
      if (s.resizeKernelPoll fds.length).Skipped j p then s.epollSet p.fd
      else registration j p := by
  have hlen : 0 + fds.length ≤ (s.resizeKernelPoll fds.length).lastFds.length := by
    rw [Nat.zero_add]
    exact length_resizeKernelPoll fds.length
  have hsame : (s.resizeKernelPoll fds.length).KernelPath p.fd ↔ s.KernelPath p.fd := by
    rw [resizeKernelPoll_eq]
    exact Iff.rfl
  have hset : (s.resizeKernelPoll fds.length).epollSet = s.epollSet := by
    rw [resizeKernelPoll_eq]
  unfold pollInit
  rw [epollSet_pollInitLoop_self hlen hj (hsame.2 hkernel) honce, Nat.zero_add, hset]

/-- All descriptors of the kernel are registered with their index and events exactly when they are
different, those that are skipped are registered so already, and the events of the others are
taken. -/
theorem registered_pollInit_iff (fds : List PollFd) :
    (∀ (i : ℕ) (p : PollFd), fds[i]? = some p → (s.pollInit fds).KernelPath p.fd →
        (s.pollInit fds).epollSet p.fd = some (i, p.mask)) ↔
      (∀ e ∈ fds.zipIdx, ∀ e' ∈ fds.zipIdx, s.KernelPath e.1.fd → e'.1.fd = e.1.fd → e'.2 = e.2) ∧
        (∀ e ∈ fds.zipIdx, s.KernelPath e.1.fd →
          (s.resizeKernelPoll fds.length).Skipped e.2 e.1 →
            s.epollSet e.1.fd = some (e.2, e.1.mask)) ∧
        ∀ e ∈ fds.zipIdx, s.KernelPath e.1.fd →
          ¬ (s.resizeKernelPoll fds.length).Skipped e.2 e.1 → e.1.events.msb = false := by
  have hkept := kept_pollInit (s := s) fds
  constructor
  · intro hreg
    have honce : ∀ (i : ℕ) (p : PollFd), fds[i]? = some p → s.KernelPath p.fd →
        ∀ (k : ℕ) (q : PollFd), fds[k]? = some q → q.fd = p.fd → k = i := by
      intro i p hi hkernel k q hk heq
      have hp := hreg i p hi ((hkept.kernelPath _).2 hkernel)
      have hq := hreg k q hk ((hkept.kernelPath _).2 (heq ▸ hkernel))
      rw [heq, hp] at hq
      exact (Prod.mk.inj (Option.some.inj hq)).1.symm
    -- what `poll_init` makes of an entry is what is asked for
    have hself : ∀ (i : ℕ) (p : PollFd), fds[i]? = some p → s.KernelPath p.fd →
        (if (s.resizeKernelPoll fds.length).Skipped i p then s.epollSet p.fd
          else registration i p) = some (i, p.mask) := by
      intro i p hi hkernel
      rw [← epollSet_pollInit_self hi hkernel (honce i p hi hkernel)]
      exact hreg i p hi ((hkept.kernelPath _).2 hkernel)
    refine ⟨?_, ?_, ?_⟩
    · rintro ⟨p, i⟩ he ⟨q, k⟩ he' hkernel heq
      exact honce i p (List.mk_mem_zipIdx_iff_getElem?.1 he) hkernel k q
        (List.mk_mem_zipIdx_iff_getElem?.1 he') heq
    · rintro ⟨p, i⟩ he hkernel hskip
      have hset := hself i p (List.mk_mem_zipIdx_iff_getElem?.1 he) hkernel
      rwa [if_pos hskip] at hset
    · rintro ⟨p, i⟩ he hkernel hskip
      have hset := hself i p (List.mk_mem_zipIdx_iff_getElem?.1 he) hkernel
      rw [if_neg hskip] at hset
      exact registration_eq_some.1 hset
  · rintro ⟨hdistinct, hskipped, htaken⟩ i p hi hkernel
    have hkernel := (hkept.kernelPath _).1 hkernel
    have he := List.mk_mem_zipIdx_iff_getElem?.2 hi
    rw [epollSet_pollInit_self hi hkernel fun k q hk heq =>
      hdistinct _ he _ (List.mk_mem_zipIdx_iff_getElem?.2 hk) hkernel heq]
    split
    · next hskip => exact hskipped _ he hkernel hskip
    · next hskip =>
      have hmsb : p.events.msb = false := htaken (p, i) he hkernel hskip
      exact registration_eq_some.2 hmsb

end Init

/-! ## What the rounds do -/

section Rounds

/-- Counting the elements of a list of which one is modified. -/
theorem countP_modify {α : Type*} {P : α → Bool} {f : α → α} {l : List α} {i : ℕ} {x : α}
    (h : l[i]? = some x) :
    (l.modify i f).countP P + (if P x then 1 else 0) = l.countP P + if P (f x) then 1 else 0 := by
  induction l generalizing i with
  | nil => cases h
  | cons y l ih =>
    cases i with
    | zero =>
      obtain rfl : y = x := Option.some.inj h
      rw [List.modify_zero_cons, List.countP_cons, List.countP_cons]
      omega
    | succ i =>
      rw [List.modify_succ_cons, List.countP_cons, List.countP_cons]
      have := ih h
      omega

/-- The array before the loop. -/
def zeroed (fds : List PollFd) : List PollFd := fds.map fun p => { p with revents := 0 }

variable {s}

/-- The events of lwIP fit into `revents`. -/
theorem setWidth_lwipEvents (r : PollRound) (fd : ℤ) :
    (s.lwipEvents r fd).setWidth 16 = 0 ↔ s.lwipEvents r fd = 0 := by
  have hchain : ∀ (i : ℕ) (l : List PollSock),
      (chainEvents (r.sockEvents fd) i l).setWidth 16 = 0 ↔
        chainEvents (r.sockEvents fd) i l = 0 := by
    intro i l
    induction l generalizing i with
    | nil => exact iff_of_true rfl rfl
    | cons x rest ih =>
      rw [chainEvents]
      split
      · exact iff_of_true rfl rfl
      split
      · exact setWidth_updateEvents _
      · exact ih (i + 1)
  exact hchain 0 _

/-- What `poll_lwip_event` writes into an array without events, and counts. -/
theorem pollLwipEvent_zeroed (r : PollRound) (fds : List PollFd) :
    s.pollLwipEvent r (zeroed fds) =
      (fds.map fun p => { p with revents := (s.lwipEvents r p.fd).setWidth 16 },
        fds.countP fun p => s.lwipEvents r p.fd ≠ 0) := by
  induction fds with
  | nil => rfl
  | cons p fds ih =>
    have hcons : zeroed (p :: fds) = { p with revents := 0 } :: zeroed fds := rfl
    rw [hcons, pollLwipEvent, ih, List.map_cons, List.countP_cons]
    dsimp only
    by_cases h : s.lwipEvents r p.fd = 0
    · rw [if_neg (not_not.2 h), if_neg (by simpa using h), h]
      rfl
    · rw [if_pos h, if_pos (by simpa using h)]

/-- The number of entries with events after the kernel has written its own, which have different
indexes of the array. -/
theorem countP_writeRevents {fds : List PollFd} {events : List (ℤ × ℕ × EpollMask)}
    (hdistinct : (events.map fun e => e.2.1).Nodup)
    (hindex : ∀ e ∈ events, (fds[e.2.1]?).isSome = true)
    (hne : ∀ e ∈ events, e.2.2.setWidth 16 ≠ 0) :
    (writeRevents fds events).countP HasRevents +
        events.countP (fun e => fds[e.2.1]?.any HasRevents) =
      fds.countP HasRevents + events.length := by
  induction events generalizing fds with
  | nil => rfl
  | cons e rest ih =>
    rw [List.map_cons, List.nodup_cons] at hdistinct
    obtain ⟨p, hp⟩ := Option.isSome_iff_exists.1 (hindex e List.mem_cons_self)
    -- the indexes differ, so this write is not at the entry of a later event
    have hother : ∀ e' ∈ rest,
        (fds.modify e.2.1 fun p => { p with revents := e.2.2.setWidth 16 })[e'.2.1]? =
          fds[e'.2.1]? := by
      intro e' he'
      refine List.getElem?_modify_ne _ _ fun heq => hdistinct.1 ?_
      rw [heq]
      exact List.mem_map_of_mem (f := fun e => e.2.1) he'
    have hrest := ih hdistinct.2
      (fun e' he' => by
        rw [hother e' he']
        exact hindex e' (List.mem_cons_of_mem e he'))
      (fun e' he' => hne e' (List.mem_cons_of_mem e he'))
    have hsame : rest.countP (fun e' => (fds.modify e.2.1 fun p =>
          { p with revents := e.2.2.setWidth 16 })[e'.2.1]?.any HasRevents) =
        rest.countP fun e' => fds[e'.2.1]?.any HasRevents :=
      List.countP_congr fun e' he' => by rw [hother e' he']
    -- the entry that is written has events now, whatever it had before
    have hnew : HasRevents { p with revents := e.2.2.setWidth 16 } = true := by
      simpa [HasRevents] using hne e List.mem_cons_self
    have hmodify := countP_modify (P := HasRevents)
      (f := fun p => { p with revents := e.2.2.setWidth 16 }) hp
    rw [if_pos hnew] at hmodify
    rw [writeRevents, List.countP_cons, List.length_cons, hp, Option.any_some]
    omega

/-- An event that the kernel returns is one of a registered descriptor. -/
theorem mem_kernelEvents {r : PollRound} {e : ℤ × ℕ × EpollMask} (h : e ∈ s.kernelEvents r) :
    (∃ events, s.epollSet e.1 = some (e.2.1, events)) ∧ e.2.2.setWidth 16 ≠ 0 := by
  obtain ⟨x, hx, he⟩ := List.mem_filterMap.1 h
  obtain ⟨reg, hreg, rfl⟩ := Option.map_eq_some_iff.1 he
  exact ⟨⟨reg.2, hreg⟩, r.nonzero x hx⟩

/-- The kernel returns a descriptor once. -/
theorem nodup_kernelEvents (r : PollRound) : ((s.kernelEvents r).map Prod.fst).Nodup := by
  have hready := List.pairwise_map.1 r.nodup
  refine List.pairwise_map.2 (hready.filterMap _ fun a a' hne e he e' he' => ?_)
  obtain ⟨reg, -, rfl⟩ := Option.map_eq_some_iff.1 he
  obtain ⟨reg', -, rfl⟩ := Option.map_eq_some_iff.1 he'
  exact hne

/-- What is returned to the thread is among the events of the kernel, and in its order. -/
theorem pollKernel_sublist (nfds : ℕ) (kernelNum : ℤ) (r : PollRound) :
    (s.pollKernel nfds kernelNum r).2.Sublist (s.kernelEvents r) := by
  unfold pollKernel
  split
  · unfold kernelEpollWait
    dsimp only
    split
    · exact List.nil_sublist _
    · exact List.take_sublist _ _
  · exact List.nil_sublist _

/-- The kernel returns the number of its events. -/
theorem pollKernel_num {nfds : ℕ} (hpos : 0 < nfds) (r : PollRound) :
    (s.pollKernel nfds 0 r).1 = (s.pollKernel nfds 0 r).2.length := by
  unfold pollKernel
  split
  · unfold kernelEpollWait
    dsimp only
    rw [if_neg (by omega)]
  · rfl

/-- When the descriptors of the array are registered, an event of the kernel has the right index
exactly when its descriptor belongs to the array. -/
theorem indexed_iff_belongs {fds : List PollFd}
    (hreg : ∀ (i : ℕ) (p : PollFd), fds[i]? = some p → (s.pollInit fds).KernelPath p.fd →
      (s.pollInit fds).epollSet p.fd = some (i, p.mask)) {r : PollRound}
    {e : ℤ × ℕ × EpollMask} (he : e ∈ (s.pollInit fds).kernelEvents r) :
    Indexed fds e ↔ s.Belongs fds e.1 := by
  obtain ⟨⟨events, hset⟩, -⟩ := mem_kernelEvents he
  unfold Indexed Belongs
  by_cases hin : ∃ p ∈ fds, p.fd = e.1 ∧ s.KernelPath e.1
  · refine iff_of_true ?_ (.inl hin)
    obtain ⟨p, hp, hfd, hkernel⟩ := hin
    obtain ⟨i, hi⟩ := List.getElem?_of_mem hp
    have hself := hreg i p hi (((kept_pollInit fds).kernelPath _).2 (hfd ▸ hkernel))
    rw [hfd, hset] at hself
    obtain ⟨hindex, -⟩ := Prod.mk.inj (Option.some.inj hself)
    rw [hindex, hi, Option.map_some, hfd]
  · have hold : s.epollSet e.1 = some (e.2.1, events) := by
      rw [← hset]
      exact (epollSet_pollInit fun p hp heq hkernel => hin ⟨p, hp, heq, hkernel⟩).symm
    rw [or_iff_right hin, hold, Option.any_some, decide_eq_true_eq]

/-- The value is the number of the entries with events exactly when the kernel reports no descriptor
that has events of lwIP. -/
theorem num_eq_countP_iff {fds : List PollFd} (hpos : 0 < fds.length) (r : PollRound)
    {core : PollCore} (hindexed : ∀ e ∈ (core.pollKernel fds.length 0 r).2, Indexed fds e) :
    ((fds.countP fun p => s.lwipEvents r p.fd ≠ 0 : ℕ) : ℤ) +
          (core.pollKernel fds.length 0 r).1 =
        (writeRevents (fds.map fun p => { p with revents := (s.lwipEvents r p.fd).setWidth 16 })
          (core.pollKernel fds.length 0 r).2).countP HasRevents ↔
      ∀ e ∈ (core.pollKernel fds.length 0 r).2, s.lwipEvents r e.1 = 0 := by
  have hsub := core.pollKernel_sublist fds.length 0 r
  have hlen := core.pollKernel_num hpos r
  generalize core.pollKernel fds.length 0 r = polled at *
  -- an entry has events exactly when its mask is not empty, since the bits of lwIP are in the lower
  -- half
  have hhas : ∀ p : PollFd,
      HasRevents { p with revents := (s.lwipEvents r p.fd).setWidth 16 } =
        decide (s.lwipEvents r p.fd ≠ 0) := by
    intro p
    exact decide_eq_decide.2 (not_congr (setWidth_lwipEvents r p.fd))
  have hlwip : (fds.map fun p =>
        { p with revents := (s.lwipEvents r p.fd).setWidth 16 }).countP HasRevents =
      fds.countP fun p => s.lwipEvents r p.fd ≠ 0 := by
    rw [List.countP_map]
    exact List.countP_congr fun p _ => by rw [Function.comp_apply, hhas]
  -- each event of the kernel is written to an entry of its descriptor
  have hentry : ∀ e ∈ polled.2, ∃ p : PollFd, p.fd = e.1 ∧
      (fds.map fun p => { p with revents := (s.lwipEvents r p.fd).setWidth 16 })[e.2.1]? =
        some { p with revents := (s.lwipEvents r p.fd).setWidth 16 } := by
    intro e he
    obtain ⟨p, hp, hfd⟩ := Option.map_eq_some_iff.1 (hindexed e he)
    exact ⟨p, hfd, by rw [List.getElem?_map, hp, Option.map_some]⟩
  -- two events of one entry would be of one descriptor
  have hdistinct : (polled.2.map fun e => e.2.1).Nodup := by
    have hfst := (core.nodup_kernelEvents r).sublist (hsub.map Prod.fst)
    rw [List.nodup_iff_pairwise_ne, List.pairwise_map] at hfst ⊢
    refine hfst.imp_of_mem fun he he' hne heq => hne ?_
    have hfd := hindexed _ he
    have hfd' := hindexed _ he'
    unfold Indexed at hfd hfd'
    rw [heq, hfd'] at hfd
    exact (Option.some.inj hfd).symm
  -- a write adds one to the number, unless the entry had events of lwIP
  have hcount := countP_writeRevents hdistinct
    (fun e he => by
      obtain ⟨p, -, hp⟩ := hentry e he
      rw [hp]
      rfl)
    (fun e he => (mem_kernelEvents (hsub.subset he)).2)
  rw [hlwip] at hcount
  -- so the number is right when no such entry is written
  have hzero : polled.2.countP (fun e => (fds.map fun p =>
        { p with revents := (s.lwipEvents r p.fd).setWidth 16 })[e.2.1]?.any HasRevents) = 0 ↔
      ∀ e ∈ polled.2, s.lwipEvents r e.1 = 0 := by
    rw [List.countP_eq_zero]
    refine forall₂_congr fun e he => ?_
    obtain ⟨p, hfd, hp⟩ := hentry e he
    rw [hp, Option.any_some, hhas, hfd]
    simp
  rw [← hzero]
  omega

/-- The loop changes neither the registrations nor the sockets. -/
theorem call_of_pollLoop {call fds : List PollFd} {timeout kernelNum : ℤ}
    {taken : List (ℤ × ℕ × EpollMask)} {rounds : List PollRound} {res : PollResult}
    (h : s.pollLoop call timeout fds kernelNum taken rounds = some res) :
    res.fds = call ∧ res.core = s := by
  induction rounds generalizing fds kernelNum taken with
  | nil => cases h
  | cons r rest ih =>
    simp only [pollLoop] at h
    split at h
    · obtain rfl := Option.some.inj h
      exact ⟨rfl, rfl⟩
    · exact ih h

/-- The rounds from any point of the loop on. -/
theorem pollLoop_iff {fds : List PollFd} {timeout : ℤ}
    (hreg : ∀ (i : ℕ) (p : PollFd), fds[i]? = some p → (s.pollInit fds).KernelPath p.fd →
      (s.pollInit fds).epollSet p.fd = some (i, p.mask)) (hpos : 0 < fds.length)
    {taken : List (ℤ × ℕ × EpollMask)} {rounds : List PollRound} {res : PollResult}
    (h : (s.pollInit fds).pollLoop fds timeout (zeroed fds) 0 taken rounds = some res) :
    ((∀ e ∈ res.taken, Indexed fds e) ∧ res.num = res.revents.countP HasRevents) ↔
      (∀ e ∈ taken, Indexed fds e) ∧ s.RoundsMeet fds timeout 0 rounds := by
  have hlwip : ∀ r fd, (s.pollInit fds).lwipEvents r fd = s.lwipEvents r fd :=
    (kept_pollInit fds).lwipEvents
  induction rounds generalizing taken with
  | nil => cases h
  | cons r rest ih =>
    have hlen : (zeroed fds).length = fds.length := List.length_map ..
    have hbelongs : (∀ e ∈ ((s.pollInit fds).pollKernel fds.length 0 r).2, Indexed fds e) ↔
        ∀ e ∈ ((s.pollInit fds).pollKernel fds.length 0 r).2, s.Belongs fds e.1 :=
      forall₂_congr fun e he =>
        indexed_iff_belongs hreg ((pollKernel_sublist _ _ _).subset he)
    have hcount := fun hindexed : ∀ e ∈ ((s.pollInit fds).pollKernel fds.length 0 r).2,
        Indexed fds e => num_eq_countP_iff (s := s) hpos r hindexed
    have hnum := (s.pollInit fds).pollKernel_num hpos r
    rw [pollLoop] at h
    rw [RoundsMeet]
    simp only [pollLwipEvent_zeroed, hlen, hlwip] at h
    generalize (s.pollInit fds).pollKernel fds.length 0 r = polled at *
    split at h
    · next hend =>
      rw [if_pos hend]
      obtain rfl := Option.some.inj h
      dsimp only
      rw [List.forall_mem_append, and_assoc, hbelongs]
      refine and_congr_right fun _ => and_congr_right fun hall => ?_
      exact hcount (hbelongs.2 hall)
    · next hend =>
      rw [if_neg hend]
      have hle : ((fds.countP fun p => s.lwipEvents r p.fd ≠ 0 : ℕ) : ℤ) + polled.1 ≤ 0 := by
        by_contra hlt
        exact hend (.inl (Int.not_le.1 hlt))
      have hzero : polled.1 = 0 := by omega
      -- nothing was written
      have hsame : writeRevents
          (fds.map fun p => { p with revents := (s.lwipEvents r p.fd).setWidth 16 }) polled.2 =
            zeroed fds := by
        rw [List.length_eq_zero_iff.1 (by omega : polled.2.length = 0), writeRevents]
        have hnone := List.countP_eq_zero.1
          (by omega : (fds.countP fun p => s.lwipEvents r p.fd ≠ 0) = 0)
        refine List.map_congr_left fun p hp => ?_
        have hno : s.lwipEvents r p.fd = 0 := by simpa using hnone p hp
        rw [(setWidth_lwipEvents r p.fd).2 hno]
      rw [hsame, hzero] at h
      rw [hzero]
      refine (ih h).trans ?_
      rw [List.forall_mem_append, and_assoc, hbelongs]

/-- One call. -/
theorem lstackPoll_iff {fds : List PollFd} {timeout : ℤ} {rounds : List PollRound}
    {r : PollResult} (hpos : 0 < fds.length) (h : s.lstackPoll fds timeout rounds = some r) :
    Attributes r ↔ s.CallMeets fds timeout rounds := by
  have hcall : r.fds = fds ∧ r.core = s.pollInit fds := call_of_pollLoop h
  constructor
  · rintro ⟨hindexed, hreg, hnum⟩
    rw [hcall.1, hcall.2] at hreg
    rw [hcall.1] at hindexed
    obtain ⟨hdistinct, hskipped, htaken⟩ := (registered_pollInit_iff fds).1 hreg
    have hrounds := (pollLoop_iff hreg hpos h).1 ⟨hindexed, hnum⟩
    exact ⟨hdistinct, hskipped, htaken, hrounds.2⟩
  · rintro ⟨hdistinct, hskipped, htaken, hrounds⟩
    have hreg := (registered_pollInit_iff fds).2 ⟨hdistinct, hskipped, htaken⟩
    obtain ⟨hindexed, hnum⟩ := (pollLoop_iff hreg hpos h).2
      ⟨fun _ he => absurd he List.not_mem_nil, hrounds⟩
    refine ⟨?_, ?_, hnum⟩
    · rw [hcall.1]
      exact hindexed
    · rw [hcall.1, hcall.2]
      exact hreg

end Rounds

end PollCore

/-- The thread with its last call. -/
structure PollSys where
  /-- What it keeps between the calls, and the descriptors. -/
  core : PollCore
  /-- The last call of `lstack_poll` that has returned. Nothing reads this. -/
  result : Option PollResult

/-- The steps. -/
inductive PollAct
  /-- `do_poll`. -/
  | poll (fds : List PollFd) (timeout : ℤ) (rounds : List PollRound)
  /-- A descriptor is closed. -/
  | close (fd : ℤ)
  /-- A descriptor is opened, with its sockets; `pollable` says whether the kernel can poll it. -/
  | opened (fd : ℤ) (sock : List PollSock) (pollable : Bool)
  /-- Something happens to the sockets of a descriptor. -/
  | sock (fd : ℤ) (sock : List PollSock)

namespace PollSys

/-- `do_poll`: an empty array is left to the `poll` of the kernel. -/
def doPoll (s : PollSys) (fds : List PollFd) (timeout : ℤ) (rounds : List PollRound) :
    Option PollSys :=
  if fds.length = 0 then some s
  else (s.core.lstackPoll fds timeout rounds).map fun r => ⟨r.core, some r⟩

/-- One step. -/
def step (s : PollSys) : PollAct → Option PollSys
  | .poll fds timeout rounds => s.doPoll fds timeout rounds
  | .close fd =>
    some { s with
      core := { s.core with
        epollSet := Function.update s.core.epollSet fd none
        opened := Function.update s.core.opened fd false
        socket := Function.update s.core.socket fd [] } }
  | .opened fd sock pollable =>
    if s.core.opened fd then none
    else
      some { s with
        core := { s.core with
          opened := Function.update s.core.opened fd pollable
          socket := Function.update s.core.socket fd sock } }
  | .sock fd sock =>
    some { s with
      core := { s.core with socket := Function.update s.core.socket fd sock } }

/-- The thread has not polled yet; `init_poll_wakeup_data` makes room for 32 entries. -/
def Initial (s : PollSys) : Prop :=
  s.core.lastFds = List.replicate 32 (0, 0) ∧ s.core.epollSet = (fun _ => none) ∧ s.result = none

/-- The calls of one thread, and what happens to the descriptors. -/
def system : Transition.System PollSys PollAct where
  Init := Initial
  step := step

/-! ## The calls of a run -/

/-- The last call has attributed the events of the kernel to the right entries. -/
def Attributes (s : PollSys) : Prop := ∀ r, s.result = some r → PollCore.Attributes r

/-- The condition on a step. -/
def Condition (s : PollSys) : PollAct → Prop
  | .poll fds timeout rounds => 0 < fds.length → s.core.CallMeets fds timeout rounds
  | _ => True

/-- The condition on an action is decidable. -/
instance (s : PollSys) : ∀ a, Decidable (Condition s a)
  | .poll fds timeout rounds =>
    inferInstanceAs (Decidable (0 < fds.length → s.core.CallMeets fds timeout rounds))
  | .close _ | .opened .. | .sock .. => isTrue trivial

/-- What happens to the descriptors does not change the last call. -/
theorem Attributes.step {s s' : PollSys} {a : PollAct} (h : s.Attributes) (hc : Condition s a)
    (hstep : s.step a = some s') : s'.Attributes := by
  cases a with
  | poll fds timeout rounds =>
    rw [PollSys.step, doPoll] at hstep
    split at hstep
    · obtain rfl := Option.some.inj hstep
      exact h
    · next hlen =>
      have hpos := Nat.pos_of_ne_zero hlen
      obtain ⟨r, hr, rfl⟩ := Option.map_eq_some_iff.1 hstep
      intro r' hr'
      obtain rfl := Option.some.inj hr'
      exact (PollCore.lstackPoll_iff hpos hr).2 (hc hpos)
  | close fd =>
    obtain rfl := Option.some.inj hstep
    exact h
  | opened fd sock pollable =>
    simp only [PollSys.step, Option.ite_none_left_eq_some, Option.some.injEq] at hstep
    obtain ⟨-, rfl⟩ := hstep
    exact h
  | sock fd sock =>
    obtain rfl := Option.some.inj hstep
    exact h

/-- A call that attributes them meets the condition. -/
theorem condition_of_attributes {s s' : PollSys} {a : PollAct} (h : s'.Attributes)
    (hstep : s.step a = some s') : Condition s a := by
  cases a with
  | poll fds timeout rounds =>
    intro hpos
    rw [PollSys.step, doPoll, if_neg (Nat.ne_of_gt hpos)] at hstep
    obtain ⟨r, hr, rfl⟩ := Option.map_eq_some_iff.1 hstep
    exact (PollCore.lstackPoll_iff hpos hr).1 (h r rfl)
  | _ => trivial

/-- Along a run, every call attributes the events of the kernel to the right entries exactly when
every call meets the condition. -/
theorem poll_attributes_iff {s : PollSys} {acts : List PollAct} (hs : system.Init s) :
    system.statesHold Attributes s acts ↔ system.stepsMeet Condition s acts := by
  refine Transition.System.statesHold_iff_stepsMeet (J := Attributes) (fun _ h => h)
    (fun _ _ _ h hc hstep => h.step hc hstep)
    (fun _ _ _ _ h hstep => condition_of_attributes h hstep) fun r hr => ?_
  rw [hs.2.2] at hr
  cases hr

/-- Descriptors 3 and 4 are open, without sockets. -/
def twoFds : PollSys where
  core := ⟨List.replicate 32 (0, 0), fun _ => none, fun fd => fd = 3 ∨ fd = 4, fun _ => []⟩
  result := none

/-- `POLLIN`. -/
def pollIn : BitVec 16 := 0x1

/-- A round in which both descriptors can be read. -/
def bothReady : PollRound where
  sockEvents _ _ := ⟨0, false, false, false, false⟩
  haveKernelEvent := true
  ready := [(3, epollIn), (4, epollIn)]
  nodup := by decide
  nonzero := by decide
  ret := 0

/-- The descriptors change places. -/
theorem poll_attributes_reordered :
    system.statesHold Attributes twoFds
      [.poll [⟨3, pollIn, 0⟩, ⟨4, pollIn, 0⟩] 0 [bothReady],
        .poll [⟨4, pollIn, 0⟩, ⟨3, pollIn, 0⟩] 0 [bothReady]] := by
  refine (poll_attributes_iff ⟨rfl, rfl, rfl⟩).2 ?_
  decide +kernel

/-- One descriptor is polled after the other, which stays registered with the same index. -/
theorem poll_attributes_stale :
    ¬ ∀ (s s' : PollSys) (acts : List PollAct), system.Init s → system.run s acts = some s' →
      s'.Attributes := by
  intro h
  have hrun : (system.run twoFds [.poll [⟨3, pollIn, 0⟩] 0 [bothReady],
      .poll [⟨4, pollIn, 0⟩] 0 [bothReady]]).any (fun s =>
        s.result.any fun r => decide (r.taken = [(3, 0, epollIn)] ∧ r.fds = [⟨4, pollIn, 0⟩])) =
          true := by decide +kernel
  obtain ⟨s, hs, hresult⟩ := (Option.any_eq_true _ _).1 hrun
  obtain ⟨r, hr, htaken⟩ := (Option.any_eq_true _ _).1 hresult
  obtain ⟨htaken, hfds⟩ := of_decide_eq_true htaken
  have hindexed := (h twoFds s _ ⟨rfl, rfl, rfl⟩ hs r hr).indexed (3, 0, epollIn) (by
    rw [htaken]
    exact List.mem_cons_self)
  rw [hfds] at hindexed
  exact absurd hindexed (by decide)

end PollSys

end Gazelle
