import Gazelle.Transition.System
import Gazelle.Epoll.Basic

/-!
# The read event of a socket

One level-triggered socket of an epoll instance. Its stack enqueues chains into `recv_ring` and
calls `add_sock_event`, one thread of the application reads, one writes, one calls
`lstack_epoll_ctl` and one `lstack_epoll_wait`. A step is an access to the ring or to
`recv_lastdata`, or a section under `event_list_lock`.

* `InSys.system`: all interleavings of these threads;
* `epoll_in_kept`: in the runs whose steps meet `Condition`, data in the socket means that
  `EPOLLIN` is raised and the socket linked once nothing is in progress;
* `epoll_in_lost`: `raise_pending_events` overwrites an `EPOLLIN` that was raised after it had
  looked for data.
-/

namespace Gazelle

/-- Where the stack stands after it has enqueued chains. -/
inductive AddEventPc
  /-- Outside. -/
  | idle
  /-- In `add_sock_event` before the tests of `wakeup` and `epoll_events`. -/
  | test
  /-- Before the section of `add_sock_event`. -/
  | raise
  deriving DecidableEq

/-- Where the reader stands in `read_stack_data`, with `recv_left`. -/
inductive ReadDataPc
  /-- Outside. -/
  | idle
  /-- At the head of the loop. -/
  | loop (recvLeft : ℕ)
  /-- In `gazelle_ring_read` before the store to `prod.head`. -/
  | ringRead (recvLeft : ℕ)
  /-- Copying from a chain of the given `tot_len`, which is in no other place. -/
  | copy (totLen : BitVec 16) (recvLeft : ℕ)
  /-- Before the test whether `EPOLLIN` is raised. -/
  | testEvents
  /-- Before the section of `del_data_in_event`. -/
  | delDataIn
  deriving DecidableEq

/-- Where the thread in `lstack_epoll_ctl` stands. -/
inductive CtlPc
  /-- Outside. -/
  | idle
  /-- Before the store to `epoll_events`. -/
  | storeEvents (events : EpollMask)
  /-- In `raise_pending_events` before the load of `cons.head`. -/
  | loadCons
  /-- Before the load of `prod.head`. -/
  | loadProd (cons : ℕ)
  /-- Before the load of `recv_lastdata`. -/
  | loadLastdata
  /-- Before the section of `raise_pending_events`, with what `NETCONN_IS_DATAIN` said. -/
  | raise (datain : Bool)
  deriving DecidableEq

/-- A socket with the epoll instance it belongs to and the threads that use it. -/
structure InSys (σ : Type*) where
  /-- `tot_len` of the chains enqueued into `recv_ring`; their number is `cons.head`. -/
  enqueued : List (BitVec 16)
  /-- `prod.head` of `recv_ring`. -/
  prodHead : ℕ
  /-- `tot_len` of `recv_lastdata`. -/
  recvLastdata : Option (BitVec 16)
  /-- `sock->wakeup` is set. -/
  wakeup : Bool
  /-- The sockets of the instance. -/
  table : EventTable σ
  /-- The stack. -/
  stack : AddEventPc
  /-- The thread in `read_stack_data`. -/
  reader : ReadDataPc
  /-- The thread in `write_stack_data` stands before the section of `del_data_out_event`. -/
  delDataOut : Bool
  /-- The thread in `lstack_epoll_ctl`. -/
  ctl : CtlPc

/-- The actions of the threads. -/
inductive InAct (σ : Type*)
  /-- The stack stores `cons.head` of `recv_ring` and calls `add_sock_event` with `EPOLLIN`. -/
  | enqueue (chains : List (BitVec 16))
  /-- The stack makes its next step. -/
  | stack
  /-- The application calls `read_stack_data`. -/
  | read (len : ℕ)
  /-- The reader makes its next step. -/
  | reader
  /-- `write_stack_data` comes to the test whether `EPOLLOUT` is raised. -/
  | write
  /-- The section of `del_data_out_event`, with what `NETCONN_IS_OUTIDLE` says. -/
  | delDataOut (outIdle : Bool)
  /-- The application calls `lstack_epoll_ctl` with `EPOLL_CTL_ADD` or `EPOLL_CTL_MOD`. -/
  | ctl (add : Bool) (events : EpollMask)
  /-- The thread in `lstack_epoll_ctl` makes its next step; `outIdle` says whether the socket is
  one of lwIP and `NETCONN_IS_OUTIDLE` holds. -/
  | ctlStep (outIdle : Bool)
  /-- The section of `epoll_lwip_event`. -/
  | epollLwipEvent (maxevents : ℕ)
  /-- A section for another socket of the instance. -/
  | other (table : EventTable σ)

namespace EventTable

variable {σ : Type*} [DecidableEq σ] {t : EventTable σ} {x : σ}

/-- `EPOLLIN` is raised and the socket is linked. -/
def Raised (t : EventTable σ) (x : σ) : Prop :=
  (t.sock x).events &&& epollIn ≠ 0 ∧ x ∈ t.eventList

/-- `add_sock_event` raises what is asked for. -/
theorem raised_addSockEvent (hasked : (t.sock x).epollEvents &&& epollIn ≠ 0) :
    (t.addSockEvent x epollIn).Raised x := by
  refine ⟨?_, mem_addSockEvent.2 (.inr rfl)⟩
  rw [and_epollIn_ne_zero] at hasked ⊢
  have hraised : (raised (t.sock x) epollIn)[0] = true := by
    rw [raised, if_neg (by decide)]
    simp [epollIn, hasked]
  simp [addSockEvent, hraised]

/-- `raise_pending_events` raises what is asked for if it has found it. -/
theorem raised_raisePendingEvents {event : EpollMask} (hevent : event &&& epollIn ≠ 0)
    (hasked : (t.sock x).epollEvents &&& epollIn ≠ 0) :
    (t.raisePendingEvents x event).Raised x := by
  have hne : event ≠ 0 := by
    rintro rfl
    exact hevent (by decide)
  have hpending := and_ne_zero_of_epollIn hevent hasked
  rw [raisePendingEvents, if_neg hne]
  refine ⟨?_, ?_⟩
  · simpa using hevent
  · by_cases hmem : x ∈ t.eventList
    · simp only [hmem, not_true_eq_false, and_false, if_false]
    · rw [if_pos ⟨hpending, hmem⟩]
      exact List.mem_append_right _ (List.mem_singleton.2 rfl)

/-- `del_data_out_event` leaves `EPOLLIN` raised. -/
theorem Raised.delDataOut (h : t.Raised x) : (t.delDataEvent x epollOut).Raised x := by
  have hevents : (t.sock x).events &&& ~~~epollOut &&& epollIn ≠ 0 := by
    have hbit := and_epollIn_ne_zero.1 h.1
    rw [and_epollIn_ne_zero]
    simp [hbit, epollOut]
  have hne : (t.sock x).events &&& ~~~epollOut ≠ 0 := by
    intro hzero
    rw [hzero] at hevents
    exact hevents (by decide)
  refine ⟨?_, ?_⟩
  · simpa [delDataEvent] using hevents
  · simp only [delDataEvent, if_neg hne]
    exact h.2

/-- `epoll_lwip_event` leaves a level-triggered socket that asks for `EPOLLIN` as it is. -/
theorem Raised.epollLwipEvent (h : t.Raised x) (maxevents : ℕ)
    (hasked : (t.sock x).epollEvents &&& epollIn ≠ 0)
    (hlevel : (t.sock x).epollEvents &&& epollEt = 0)
    (honeshot : (t.sock x).epollEvents &&& epollOneshot = 0) :
    (t.epollLwipEvent maxevents).1.Raised x := by
  refine ⟨?_, mem_epollLwipEventLoop hlevel honeshot (and_ne_zero_of_epollIn h.1 hasked) h.2⟩
  rw [EventTable.epollLwipEvent, sock_epollLwipEventLoop honeshot]
  exact h.1

end EventTable

namespace InSys

variable {σ : Type*} [DecidableEq σ] (x : σ) (errevent : Bool) (s : InSys σ)

/-- `NETCONN_IS_DATAIN`. -/
def isDatain : Bool := s.enqueued.length ≠ s.prodHead || s.recvLastdata.isSome

/-- `copy_len` of `read_stack_data`. -/
def copyLen (totLen : BitVec 16) (recvLeft : ℕ) : ℕ := min (min recvLeft totLen.toNat) 0xffff

/-- The next step of the stack in `add_sock_event`. -/
def stackStep : Option (InSys σ) :=
  match s.stack with
  | .idle => none
  | .test =>
    if !s.wakeup ∨ epollIn &&& (s.table.sock x).epollEvents = 0 then
      some { s with stack := .idle }
    else some { s with stack := .raise }
  | .raise =>
    -- without data the event is outdated
    if s.isDatain then
      some { s with table := s.table.addSockEvent x epollIn, stack := .idle }
    else some { s with stack := .idle }

/-- The next step of the reader in `read_stack_data`. -/
def readerStep : Option (InSys σ) :=
  match s.reader with
  | .idle => none
  | .loop recvLeft =>
    match s.recvLastdata with
    | some totLen => some { s with recvLastdata := none, reader := .copy totLen recvLeft }
    | none =>
      if s.enqueued.length = s.prodHead then some { s with reader := .testEvents }
      else some { s with reader := .ringRead recvLeft }
  | .ringRead recvLeft =>
    match s.enqueued[s.prodHead]? with
    | none => none
    | some totLen => some { s with prodHead := s.prodHead + 1, reader := .copy totLen recvLeft }
  | .copy totLen recvLeft =>
    let copyLen := copyLen totLen recvLeft
    if copyLen < totLen.toNat then
      some { s with
        recvLastdata := some (totLen - BitVec.ofNat 16 copyLen)
        reader := .testEvents }
    else if 0 < recvLeft - copyLen then some { s with reader := .loop (recvLeft - copyLen) }
    else some { s with reader := .testEvents }
  | .testEvents =>
    if s.wakeup ∧ (s.table.sock x).events &&& epollIn ≠ 0 then
      some { s with reader := .delDataIn }
    else some { s with reader := .idle }
  | .delDataIn =>
    if s.isDatain then some { s with reader := .idle }
    else some { s with table := s.table.delDataEvent x epollIn, reader := .idle }

/-- The events that `raise_pending_events` finds. -/
def pendingEvents (errevent datain outIdle : Bool) : EpollMask :=
  (if datain then epollIn else 0) ||| (if errevent then epollErr ||| epollIn else 0) |||
    (if outIdle then epollOut else 0)

/-- The next step in `lstack_epoll_ctl`. -/
def ctlStep (outIdle : Bool) : Option (InSys σ) :=
  match s.ctl with
  | .idle => none
  | .storeEvents events =>
    some { s with
      table := { s.table with
        sock := Function.update s.table.sock x
          { s.table.sock x with epollEvents := events ||| epollErr ||| epollHup } }
      ctl := .loadCons }
  | .loadCons => some { s with ctl := .loadProd s.enqueued.length }
  | .loadProd cons =>
    if cons ≠ s.prodHead then some { s with ctl := .raise true }
    else some { s with ctl := .loadLastdata }
  | .loadLastdata => some { s with ctl := .raise s.recvLastdata.isSome }
  | .raise datain =>
    some { s with
      table := s.table.raisePendingEvents x (pendingEvents errevent datain outIdle)
      ctl := .idle }

/-- One step of one thread. -/
def step : InAct σ → Option (InSys σ)
  | .enqueue chains =>
    if s.stack = .idle then some { s with enqueued := s.enqueued ++ chains, stack := .test }
    else none
  | .stack => s.stackStep x
  | .read len =>
    if s.reader ≠ .idle then none
    else if errevent && !s.isDatain then some s
    else some { s with reader := if len = 0 then .testEvents else .loop len }
  | .reader => s.readerStep x
  | .write =>
    if s.delDataOut then none
    else some { s with delDataOut := s.wakeup && (s.table.sock x).events &&& epollOut ≠ 0 }
  | .delDataOut outIdle =>
    if s.delDataOut then
      some { s with
        table := if outIdle then s.table else s.table.delDataEvent x epollOut
        delDataOut := false }
    else none
  | .ctl add events =>
    -- a level-triggered socket that is registered with `EPOLLIN`
    if s.ctl = .idle ∧ events &&& epollIn ≠ 0 ∧ events &&& epollEt = 0 ∧
        events &&& epollOneshot = 0 then
      some { s with wakeup := s.wakeup || add, ctl := .storeEvents events }
    else none
  | .ctlStep outIdle => s.ctlStep x errevent outIdle
  | .epollLwipEvent maxevents => some { s with table := (s.table.epollLwipEvent maxevents).1 }
  | .other table =>
    if table.sock x = s.table.sock x ∧ (x ∈ table.eventList ↔ x ∈ s.table.eventList) then
      some { s with table := table }
    else none

/-- A socket that is connected and not registered yet. -/
def create (sock : σ → EpollSock) : InSys σ where
  enqueued := []
  prodHead := 0
  recvLastdata := none
  wakeup := false
  table := ⟨Function.update sock x ⟨0, 0⟩, []⟩
  stack := .idle
  reader := .idle
  delDataOut := false
  ctl := .idle

/-- All interleavings of the threads that use a socket. -/
def system : Transition.System (InSys σ) (InAct σ) where
  Init s := ∃ sock, s = create x sock
  step := step x errevent

/-- None of the functions is in progress. -/
def Quiescent : Prop :=
  s.stack = .idle ∧ s.reader = .idle ∧ s.delDataOut = false ∧ s.ctl = .idle

/-- The reader holds a chain that it will put back into `recv_lastdata`. -/
def HoldsRest : Prop :=
  ∃ totLen recvLeft, s.reader = .copy totLen recvLeft ∧ copyLen totLen recvLeft < totLen.toNat

/-- There is data in the socket, or there will be when the reader goes on. -/
def HasData : Prop := s.isDatain ∨ s.HoldsRest

/-- No section that finds no data leaves data unannounced: `add_sock_event` does not take the
chain in the hands of the reader for read, and `raise_pending_events` does not overwrite what was
raised after it had looked. -/
def Condition : InAct σ → Prop
  | .stack =>
    s.stack = .raise → s.isDatain = false → s.HoldsRest → s.table.Raised x ∨ s.ctl ≠ .idle
  | .ctlStep outIdle =>
    s.ctl = .raise false → errevent = false → s.HasData →
      (outIdle = false ∧ s.table.Raised x) ∨ s.stack ≠ .idle
  | _ => True

/-- The invariant of the runs whose steps meet the condition. -/
structure InInv : Prop where
  /-- A registered socket asks for `EPOLLIN`, once the mask is stored. -/
  asked : s.wakeup = true → (∀ events, s.ctl ≠ .storeEvents events) →
    (s.table.sock x).epollEvents &&& epollIn ≠ 0
  /-- So does a socket for which the stack has passed the tests. -/
  tested : s.stack = .raise → (s.table.sock x).epollEvents &&& epollIn ≠ 0
  /-- So does a mask that is about to be stored. -/
  stored : ∀ events, s.ctl = .storeEvents events → events &&& epollIn ≠ 0 ∧
    events &&& epollEt = 0 ∧ events &&& epollOneshot = 0
  /-- The socket is level-triggered. -/
  level : (s.table.sock x).epollEvents &&& epollEt = 0
  /-- The socket is not one-shot. -/
  oneshot : (s.table.sock x).epollEvents &&& epollOneshot = 0
  /-- Data of a registered socket is announced, or will be. -/
  kept : s.wakeup = true → s.HasData → s.table.Raised x ∨ s.stack ≠ .idle ∨ s.ctl ≠ .idle

/-! ## The steps -/

section Steps

variable {x} {errevent} {s} {s' : InSys σ}

omit [DecidableEq σ] in
/-- A step that leaves the masks, `wakeup`, the stack and `lstack_epoll_ctl` alone keeps the
invariant when it makes no data. -/
theorem InInv.of_data (h : s.InInv x) (hwakeup : s'.wakeup = s.wakeup) (hstack : s'.stack = s.stack)
    (hctl : s'.ctl = s.ctl) (htable : s'.table = s.table) (hdata : s'.HasData → s.HasData) :
    s'.InInv x := by
  refine ⟨?_, ?_, ?_, ?_, ?_, ?_⟩
  · rw [hwakeup, hctl, htable]
    exact h.asked
  · rw [hstack, htable]
    exact h.tested
  · rw [hctl]
    exact h.stored
  · rw [htable]
    exact h.level
  · rw [htable]
    exact h.oneshot
  · rw [hwakeup, hstack, hctl, htable]
    exact fun hw hd => h.kept hw (hdata hd)

omit [DecidableEq σ] in
/-- A section that changes `events` and `event_list` only keeps the invariant when `EPOLLIN`
stays raised. -/
theorem InInv.of_table (h : s.InInv x) {t : EventTable σ}
    (hmask : (t.sock x).epollEvents = (s.table.sock x).epollEvents)
    (hraised : s.wakeup = true → s.HasData → s.stack = .idle → s.ctl = .idle →
      s.table.Raised x → t.Raised x) : InInv x { s with table := t } where
  asked hw hctl := by rw [hmask]; exact h.asked hw hctl
  tested hstack := by rw [hmask]; exact h.tested hstack
  stored := h.stored
  level := by rw [hmask]; exact h.level
  oneshot := by rw [hmask]; exact h.oneshot
  kept hw hd := by
    by_cases hstack : s.stack = .idle
    · by_cases hctl : s.ctl = .idle
      · have hold := (h.kept hw hd).resolve_right (by simp [hstack, hctl])
        exact .inl (hraised hw hd hstack hctl hold)
      · exact .inr (.inr hctl)
    · exact .inr (.inl hstack)

/-- The steps of the stack keep the invariant. -/
theorem InInv.stackStep (h : s.InInv x) (hc : s.Condition x errevent .stack)
    (hstep : s.stackStep x = some s') : s'.InInv x := by
  unfold InSys.stackStep at hstep
  cases hpc : s.stack with
  | idle => simp [hpc] at hstep
  | test =>
    simp only [hpc] at hstep
    split at hstep <;> cases hstep
    · rename_i hdrop
      refine ⟨h.asked, by simp, h.stored, h.level, h.oneshot, fun hw _ => ?_⟩
      -- a registered socket that does not ask for `EPOLLIN` is still being registered
      by_cases hctl : s.ctl = .idle
      · have hasked := h.asked hw (by simp [hctl])
        rw [BitVec.and_comm] at hasked
        rcases hdrop with hnot | hzero
        · exact absurd hw (by simpa using hnot)
        · exact absurd hzero hasked
      · exact .inr (.inr hctl)
    · rename_i hkeep
      rw [not_or] at hkeep
      refine ⟨h.asked, fun _ => ?_, h.stored, h.level, h.oneshot, fun _ _ => .inr (.inl (by simp))⟩
      rw [BitVec.and_comm]
      exact hkeep.2
  | raise =>
    simp only [hpc] at hstep
    have hasked := h.tested hpc
    split at hstep <;> cases hstep
    · have hmask : ((s.table.addSockEvent x epollIn).sock x).epollEvents =
          (s.table.sock x).epollEvents := by simp [EventTable.addSockEvent]
      refine ⟨fun hw hctl => ?_, by simp, h.stored, ?_, ?_, fun _ _ => ?_⟩
      · simpa only [hmask] using h.asked hw hctl
      · simpa only [hmask] using h.level
      · simpa only [hmask] using h.oneshot
      · exact .inl (EventTable.raised_addSockEvent hasked)
    · rename_i hdatain
      refine ⟨h.asked, by simp, h.stored, h.level, h.oneshot, fun _ hd => ?_⟩
      rcases hd with hd | hd
      · exact absurd hd hdatain
      · exact (hc hpc (by simpa using hdatain) hd).imp_right fun hctl => .inr hctl

/-- The steps of the reader keep the invariant. -/
theorem InInv.readerStep (h : s.InInv x) (hstep : s.readerStep x = some s') : s'.InInv x := by
  unfold InSys.readerStep at hstep
  cases hpc : s.reader with
  | idle => simp [hpc] at hstep
  | loop recvLeft =>
    simp only [hpc] at hstep
    split at hstep
    · rename_i totLen hlast
      cases hstep
      exact h.of_data rfl rfl rfl rfl fun _ => .inl (by simp [isDatain, hlast])
    · rename_i hlast
      split at hstep <;> cases hstep
      · refine h.of_data rfl rfl rfl rfl fun hd => ?_
        rcases hd with hd | ⟨_, _, hpc', -⟩
        · exact .inl hd
        · cases hpc'
      · rename_i hne
        exact h.of_data rfl rfl rfl rfl fun _ => .inl (by simp [isDatain, hne])
  | ringRead recvLeft =>
    simp only [hpc] at hstep
    split at hstep <;> cases hstep
    rename_i totLen hget
    have hlt := (List.getElem?_eq_some_iff.1 hget).1
    exact h.of_data rfl rfl rfl rfl fun _ => .inl (by simp [isDatain]; omega)
  | copy totLen recvLeft =>
    simp only [hpc] at hstep
    split at hstep
    · rename_i hrest
      cases hstep
      exact h.of_data rfl rfl rfl rfl fun _ => .inr ⟨totLen, recvLeft, hpc, hrest⟩
    · have hdata : ∀ pc, (∀ totLen recvLeft, pc ≠ .copy totLen recvLeft) →
          HasData { s with reader := pc } → s.HasData := by
        rintro pc hne (hd | ⟨_, _, hpc', -⟩)
        · exact .inl hd
        · exact absurd hpc' (hne _ _)
      split at hstep <;> cases hstep <;>
        exact h.of_data rfl rfl rfl rfl (hdata _ (by simp))
  | testEvents =>
    simp only [hpc] at hstep
    split at hstep <;> cases hstep <;> refine h.of_data rfl rfl rfl rfl fun hd => ?_ <;>
      exact hd.imp_right fun ⟨_, _, hpc', _⟩ => nomatch hpc'
  | delDataIn =>
    simp only [hpc] at hstep
    split at hstep <;> cases hstep
    · refine h.of_data rfl rfl rfl rfl fun hd => ?_
      exact hd.imp_right fun ⟨_, _, hpc', _⟩ => nomatch hpc'
    · rename_i hdatain
      have hidle : InInv x { s with reader := .idle } :=
        h.of_data rfl rfl rfl rfl fun hd => hd.imp_right fun ⟨_, _, hpc', _⟩ => nomatch hpc'
      refine hidle.of_table (by simp [EventTable.delDataEvent]) fun _ hd _ _ _ => ?_
      -- there is no data
      rcases hd with hd | ⟨_, _, hpc', -⟩
      · exact absurd hd hdatain
      · cases hpc'

/-- `raise_pending_events` finds `EPOLLIN` when there was data or an error. -/
theorem pendingEvents_epollIn {datain outIdle : Bool} (h : datain = true ∨ errevent = true) :
    pendingEvents errevent datain outIdle &&& epollIn ≠ 0 := by
  cases errevent <;> cases datain <;> cases outIdle <;> first | decide | simp at h

/-- What is stored to `epoll_events` has the bits asked for, apart from `EPOLLERR` and
`EPOLLHUP`. -/
theorem and_askedEvents (events : EpollMask) {m : EpollMask}
    (h : (epollErr ||| epollHup) &&& m = 0) :
    (events ||| epollErr ||| epollHup) &&& m = events &&& m := by
  rw [BitVec.or_assoc, BitVec.and_or_distrib_right, h]
  exact BitVec.or_zero

/-- The steps of `lstack_epoll_ctl` keep the invariant. -/
theorem InInv.ctlStep (h : s.InInv x) {outIdle : Bool}
    (hc : s.Condition x errevent (.ctlStep outIdle))
    (hstep : s.ctlStep x errevent outIdle = some s') : s'.InInv x := by
  unfold InSys.ctlStep at hstep
  cases hpc : s.ctl with
  | idle => simp [hpc] at hstep
  | storeEvents events =>
    simp only [hpc, Option.some.injEq] at hstep
    subst hstep
    obtain ⟨hin, het, hone⟩ := h.stored events hpc
    refine ⟨fun _ _ => ?_, fun _ => ?_, by simp, ?_, ?_, fun _ _ => .inr (.inr (by simp))⟩ <;>
      simp only [Function.update_self]
    · rwa [and_askedEvents events (by decide)]
    · rwa [and_askedEvents events (by decide)]
    · rwa [and_askedEvents events (by decide)]
    · rwa [and_askedEvents events (by decide)]
  | loadCons =>
    simp only [hpc, Option.some.injEq] at hstep
    subst hstep
    exact ⟨fun hw _ => h.asked hw (by simp [hpc]), h.tested, by simp, h.level, h.oneshot,
      fun _ _ => .inr (.inr (by simp))⟩
  | loadProd cons =>
    simp only [hpc] at hstep
    split at hstep <;> cases hstep <;>
      exact ⟨fun hw _ => h.asked hw (by simp [hpc]), h.tested, by simp, h.level, h.oneshot,
        fun _ _ => .inr (.inr (by simp))⟩
  | loadLastdata =>
    simp only [hpc, Option.some.injEq] at hstep
    subst hstep
    exact ⟨fun hw _ => h.asked hw (by simp [hpc]), h.tested, by simp, h.level, h.oneshot,
      fun _ _ => .inr (.inr (by simp))⟩
  | raise datain =>
    simp only [hpc, Option.some.injEq] at hstep
    subst hstep
    have hmask : ((s.table.raisePendingEvents x (pendingEvents errevent datain outIdle)).sock
        x).epollEvents = (s.table.sock x).epollEvents := by
      unfold EventTable.raisePendingEvents
      split <;> simp
    refine ⟨fun hw _ => ?_, fun hstack => ?_, by simp, ?_, ?_, fun hw hd => ?_⟩
    · simpa only [hmask] using h.asked hw (by simp [hpc])
    · simpa only [hmask] using h.tested hstack
    · simpa only [hmask] using h.level
    · simpa only [hmask] using h.oneshot
    · have hasked := h.asked hw (by simp [hpc])
      by_cases hfound : datain = true ∨ errevent = true
      · exact .inl (EventTable.raised_raisePendingEvents (pendingEvents_epollIn hfound) hasked)
      · simp only [not_or, Bool.not_eq_true] at hfound
        obtain ⟨rfl, herr⟩ := hfound
        rcases hc hpc herr hd with ⟨rfl, hraised⟩ | hstack
        · -- nothing was found and nothing is stored
          have hzero : pendingEvents errevent false false = 0 := by
            rw [herr]
            decide
          left
          simpa only [hzero, EventTable.raisePendingEvents, if_true] using hraised
        · exact .inr (.inl hstack)

/-- A step that meets the condition keeps the invariant. -/
theorem InInv.step {a : InAct σ} (h : s.InInv x) (hc : s.Condition x errevent a)
    (hstep : s.step x errevent a = some s') : s'.InInv x := by
  cases a with
  | enqueue chains =>
    simp only [InSys.step, Option.ite_none_right_eq_some, Option.some.injEq] at hstep
    obtain ⟨-, rfl⟩ := hstep
    -- chains that arrive leave everything else
    exact ⟨h.asked, by simp, h.stored, h.level, h.oneshot, fun _ _ => .inr (.inl (by simp))⟩
  | stack => exact h.stackStep hc hstep
  | read len =>
    simp only [InSys.step] at hstep
    -- a call that copies nothing leaves what is asked and what is raised
    have hcall : ∀ pc, (∀ totLen recvLeft, pc ≠ .copy totLen recvLeft) →
        InInv x { s with reader := pc } := by
      refine fun pc hne => h.of_data rfl rfl rfl rfl ?_
      rintro (hd | ⟨_, _, hpc, -⟩)
      · exact .inl hd
      · exact absurd hpc (hne _ _)
    split at hstep
    · -- the reader is busy and no call begins
      cases hstep
    · split at hstep <;> cases hstep
      · exact h
      · apply hcall
        split <;> simp
  | reader => exact h.readerStep hstep
  | write =>
    simp only [InSys.step] at hstep
    split at hstep <;> cases hstep
    exact h.of_data rfl rfl rfl rfl id
  | delDataOut outIdle =>
    simp only [InSys.step, Option.ite_none_right_eq_some, Option.some.injEq] at hstep
    obtain ⟨-, rfl⟩ := hstep
    -- only `EPOLLOUT` is taken away
    refine InInv.of_table (s := { s with delDataOut := false }) ⟨h.asked, h.tested, h.stored,
      h.level, h.oneshot, h.kept⟩ ?_ fun _ _ _ _ hraised => ?_ <;> split
    · rfl
    · simp [EventTable.delDataEvent]
    · exact hraised
    · exact hraised.delDataOut
  | ctl add events =>
    simp only [InSys.step, Option.ite_none_right_eq_some, Option.some.injEq] at hstep
    -- the caller asks for `EPOLLIN` again, level-triggered and not once only
    obtain ⟨⟨hidle, hin, het, hone⟩, rfl⟩ := hstep
    refine ⟨fun _ hctl => absurd rfl (hctl events), h.tested, ?_, h.level, h.oneshot,
      fun _ _ => .inr (.inr (by simp))⟩
    intro events' hstored
    cases hstored
    exact ⟨hin, het, hone⟩
  | ctlStep outIdle => exact h.ctlStep hc hstep
  | epollLwipEvent maxevents =>
    cases hstep
    -- a level-triggered event stays in the mask when it is reported
    have hmask : (s.table.epollLwipEvent maxevents).1.sock x = s.table.sock x :=
      EventTable.sock_epollLwipEventLoop h.oneshot
    refine h.of_table (by rw [hmask]) fun hw _ _ hctl hraised => ?_
    exact hraised.epollLwipEvent maxevents (h.asked hw (by simp [hctl])) h.level h.oneshot
  | other table =>
    simp only [InSys.step, Option.ite_none_right_eq_some, Option.some.injEq] at hstep
    obtain ⟨⟨hsock, hmem⟩, rfl⟩ := hstep
    -- what is done to other sockets does not touch this one
    refine h.of_table (by rw [hsock]) fun _ _ _ _ hraised => ?_
    rw [EventTable.Raised, hsock, hmem]
    exact hraised

end Steps

/-! ## Runs -/

variable {x} {errevent} {s}

/-- The invariant holds before the socket is registered. -/
theorem InInv.create (sock : σ → EpollSock) : (create x sock).InInv x where
  asked hw := by cases hw
  tested hstack := by cases hstack
  stored _ hctl := by cases hctl
  level := by simp [InSys.create]
  oneshot := by simp [InSys.create]
  kept hw := by cases hw

/-- In the runs whose steps meet the condition, data in a registered socket means that `EPOLLIN`
is raised and the socket linked, once none of the functions is in progress. -/
theorem epoll_in_kept (hs : (system x errevent).ReachableUnder (Condition x errevent) s)
    (hquiescent : s.Quiescent) (hwakeup : s.wakeup = true) (hdatain : s.isDatain = true) :
    (s.table.sock x).events &&& epollIn ≠ 0 ∧ x ∈ s.table.eventList := by
  have hinv : s.InInv x := Transition.System.invariant_under
    (fun _ ⟨sock, hinit⟩ => hinit ▸ InInv.create sock)
    (fun _ _ _ h hc hstep => h.step hc hstep) hs
  exact (hinv.kept hwakeup (.inl hdatain)).resolve_right
    (by simp [hquiescent.1, hquiescent.2.2.2])

/-- `raise_pending_events` finds no data. Then a chain arrives and `add_sock_event` raises
`EPOLLIN`, before the section of `raise_pending_events` stores `EPOLLOUT`. -/
private def overwrittenRun : List (InAct Unit) :=
  [.ctl true (epollIn ||| epollOut), .ctlStep true, .ctlStep true, .ctlStep true, .ctlStep true,
    .enqueue [100], .stack, .stack, .ctlStep true]

/-- There is data in the socket, nothing is in progress, and `EPOLLIN` is not raised. -/
theorem epoll_in_lost :
    ¬ ∀ s, (system () false).Reachable s → s.Quiescent → s.wakeup = true → s.isDatain = true →
      (s.table.sock ()).events &&& epollIn ≠ 0 ∧ () ∈ s.table.eventList := by
  intro hclaim
  obtain ⟨s, hs, hquiescent, hwakeup, hdatain, hevents⟩ : ∃ s, (system () false).Reachable s ∧
      s.Quiescent ∧ s.wakeup = true ∧ s.isDatain = true ∧
        (s.table.sock ()).events = epollOut :=
    ⟨_, Transition.System.reachable_of_run (l := overwrittenRun) (.init ⟨fun _ => ⟨0, 0⟩, rfl⟩) rfl,
      ⟨rfl, rfl, rfl, rfl⟩, rfl, rfl, rfl⟩
  have hraised := (hclaim s hs hquiescent hwakeup hdatain).1
  rw [hevents] at hraised
  exact hraised (by decide)

/-- The other way to lose the event: `add_sock_event` comes while the reader holds the chain, of
which it then puts back what it has no room for. -/
example : ∃ s, (system () false).Reachable s ∧ s.Quiescent ∧ s.wakeup = true ∧
    s.recvLastdata = some 90 ∧ (s.table.sock ()).events = 0 :=
  ⟨_, Transition.System.reachable_of_run
      (l := [.ctl true epollIn, .ctlStep false, .ctlStep false, .ctlStep false, .ctlStep false,
        .ctlStep false, .enqueue [100], .read 10, .reader, .reader, .stack, .stack, .reader,
        .reader]) (.init ⟨fun _ => ⟨0, 0⟩, rfl⟩) rfl,
    ⟨rfl, rfl, rfl, rfl⟩, rfl, rfl, rfl⟩

/-- A chain arrives after the socket is registered. -/
theorem epoll_in_kept_raised :
    ∃ s, (system () false).ReachableUnder (Condition () false) s ∧ s.Quiescent ∧
      s.wakeup = true ∧ s.isDatain = true ∧
      (s.table.sock ()).events &&& epollIn ≠ 0 ∧ () ∈ s.table.eventList := by
  have hctl := (Transition.System.ReachableUnder.init (M := system () false)
    (C := Condition () false) ⟨fun _ => ⟨0, 0⟩, rfl⟩).step (a := .ctl true epollIn) (by trivial) rfl
  have hstored := hctl.step (a := .ctlStep false) (by intro h; cases h) rfl
  have hcons := hstored.step (a := .ctlStep false) (by intro h; cases h) rfl
  have hprod := hcons.step (a := .ctlStep false) (by intro h; cases h) rfl
  have hlast := hprod.step (a := .ctlStep false) (by intro h; cases h) rfl
  have hdone := hlast.step (a := .ctlStep false)
    (by rintro - - (h | ⟨_, _, h, -⟩) <;> cases h) rfl
  have henqueued := hdone.step (a := .enqueue [100]) (by trivial) rfl
  have htested := henqueued.step (a := .stack) (by intro h; cases h) rfl
  have hraised := htested.step (a := .stack) (by rintro - h; cases h) rfl
  exact ⟨_, hraised, ⟨rfl, rfl, rfl, rfl⟩, rfl, rfl,
    epoll_in_kept hraised ⟨rfl, rfl, rfl, rfl⟩ rfl rfl⟩

end InSys

end Gazelle
