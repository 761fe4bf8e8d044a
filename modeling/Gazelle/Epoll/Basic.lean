import Mathlib.Logic.Function.Basic
import Mathlib.Data.List.Basic

/-!
# The event list of an epoll instance

The sockets linked in `wakeup->event_list` with the masks that decide whether an event is
reported, and the two functions that work on them inside an `event_list_lock` section:
`add_sock_event` puts a socket in, `epoll_lwip_event` reports the events and takes out what has
none left.
-/

namespace Gazelle

/-- A mask of epoll events. -/
abbrev EpollMask := BitVec 32

/-- `EPOLLIN`. -/
def epollIn : EpollMask := 0x1

/-- `EPOLLOUT`. -/
def epollOut : EpollMask := 0x4

/-- `EPOLLERR`. -/
def epollErr : EpollMask := 0x8

/-- `EPOLLHUP`. -/
def epollHup : EpollMask := 0x10

/-- `EPOLLONESHOT`. -/
def epollOneshot : EpollMask := 0x40000000

/-- `EPOLLET`. -/
def epollEt : EpollMask := 0x80000000

/-- The fields of a `struct lwip_sock` that decide what `epoll_lwip_event` reports. -/
structure EpollSock where
  /-- `sock->events`, the events raised. -/
  events : EpollMask
  /-- `sock->epoll_events`, the events asked for. -/
  epollEvents : EpollMask
  deriving DecidableEq

/-- `sock->events & sock->epoll_events`. -/
def EpollSock.pending (sock : EpollSock) : EpollMask := sock.events &&& sock.epollEvents

/-- The sockets of an epoll instance. -/
structure EventTable (σ : Type*) where
  /-- The masks of every socket. -/
  sock : σ → EpollSock
  /-- `wakeup->event_list`. -/
  eventList : List σ

namespace EventTable

variable {σ : Type*} [DecidableEq σ]

/-- The mask that `add_sock_event` adds to `sock->events`. -/
def raised (sock : EpollSock) (event : EpollMask) : EpollMask :=
  if event = epollErr then epollIn ||| epollErr else event &&& sock.epollEvents

/-- The section of `add_sock_event`, the event not being outdated: raise the event and link the
socket unless it is linked already. -/
def addSockEvent (t : EventTable σ) (x : σ) (event : EpollMask) : EventTable σ where
  sock := Function.update t.sock x
    { t.sock x with events := (t.sock x).events ||| raised (t.sock x) event }
  eventList := if x ∈ t.eventList then t.eventList else t.eventList ++ [x]

/-- The end of the section of `raise_pending_events`: unlike `add_sock_event` it overwrites the
events, unless it found none. -/
def raisePendingEvents (t : EventTable σ) (x : σ) (event : EpollMask) : EventTable σ :=
  if event = 0 then t
  else
    { sock := Function.update t.sock x { t.sock x with events := event }
      eventList :=
        if event &&& (t.sock x).epollEvents ≠ 0 ∧ x ∉ t.eventList then t.eventList ++ [x]
        else t.eventList }

/-- The end of the sections of `del_data_in_event` and `del_data_out_event`: the event is cleared,
and the socket unlinked when it has no other one. -/
def delDataEvent (t : EventTable σ) (x : σ) (event : EpollMask) : EventTable σ :=
  let events := (t.sock x).events &&& ~~~event
  { sock := Function.update t.sock x { t.sock x with events := events }
    eventList := if events = 0 then t.eventList.erase x else t.eventList }

/-- A one-shot socket that is reported asks for no events until the next `epoll_ctl`. -/
def clearOneshot (sock : σ → EpollSock) (x : σ) : σ → EpollSock :=
  if (sock x).epollEvents &&& epollOneshot ≠ 0 then
    Function.update sock x { sock x with epollEvents := 0 }
  else sock

/-- The loop of `epoll_lwip_event` over the rest of `event_list`, `eventNum` events being
reported already. -/
def epollLwipEventLoop (maxevents : ℕ) (sock : σ → EpollSock) (eventNum : ℕ) :
    List σ → EventTable σ × List (σ × EpollMask)
  | [] => (⟨sock, []⟩, [])
  | x :: rest =>
    if (sock x).pending = 0 then epollLwipEventLoop maxevents sock eventNum rest
    else
      let unlinked :=
        (sock x).epollEvents &&& epollEt ≠ 0 ∨ (sock x).epollEvents &&& epollOneshot ≠ 0
      -- the mask is reported after `epoll_events` is cleared
      let sock' := clearOneshot sock x
      let event := (x, (sock' x).pending)
      if maxevents ≤ eventNum + 1 then
        (⟨sock', if unlinked then rest else x :: rest⟩, [event])
      else
        let (t, reported) := epollLwipEventLoop maxevents sock' (eventNum + 1) rest
        (⟨t.sock, if unlinked then t.eventList else x :: t.eventList⟩, event :: reported)

/-- `epoll_lwip_event`: the instance afterwards and the events reported. -/
def epollLwipEvent (t : EventTable σ) (maxevents : ℕ) : EventTable σ × List (σ × EpollMask) :=
  epollLwipEventLoop maxevents t.sock 0 t.eventList

/-- A linked socket is linked after `add_sock_event`. -/
theorem mem_addSockEvent {t : EventTable σ} {x y : σ} {event : EpollMask} :
    y ∈ (t.addSockEvent x event).eventList ↔ y ∈ t.eventList ∨ y = x := by
  simp only [addSockEvent]
  split
  · rename_i hx
    exact ⟨.inl, fun h => h.elim id fun heq => heq ▸ hx⟩
  · simp

/-- A scan that reports nothing has taken every socket out of the list. -/
theorem epollLwipEventLoop_nil {maxevents eventNum : ℕ} {sock : σ → EpollSock} {l : List σ}
    (h : (epollLwipEventLoop maxevents sock eventNum l).2 = []) :
    (epollLwipEventLoop maxevents sock eventNum l).1.eventList = [] := by
  induction l with
  | nil => rfl
  | cons x rest ih =>
    by_cases hpending : (sock x).pending = 0
    · rw [epollLwipEventLoop, if_pos hpending] at h ⊢
      exact ih h
    · rw [epollLwipEventLoop, if_neg hpending] at h
      simp only at h
      split at h <;> simp at h

/-- When `epoll_lwip_event` reports nothing, `event_list` is empty. -/
theorem epollLwipEvent_nil {t : EventTable σ} {maxevents : ℕ}
    (h : (t.epollLwipEvent maxevents).2 = []) : (t.epollLwipEvent maxevents).1.eventList = [] :=
  epollLwipEventLoop_nil h

theorem clearOneshot_apply {sock : σ → EpollSock} {x y : σ}
    (honeshot : (sock x).epollEvents &&& epollOneshot = 0) : clearOneshot sock y x = sock x := by
  unfold clearOneshot
  split
  · rename_i hy
    have hne : x ≠ y := by
      rintro rfl
      exact hy honeshot
    rw [Function.update_of_ne hne]
  · rfl

/-- The loop of `epoll_lwip_event` does not write to a socket that is not one-shot. -/
theorem sock_epollLwipEventLoop {maxevents eventNum : ℕ} {sock : σ → EpollSock} {l : List σ} {x : σ}
    (honeshot : (sock x).epollEvents &&& epollOneshot = 0) :
    (epollLwipEventLoop maxevents sock eventNum l).1.sock x = sock x := by
  induction l generalizing sock eventNum with
  | nil => rfl
  | cons y rest ih =>
    have hclear := clearOneshot_apply (y := y) honeshot
    rw [epollLwipEventLoop]
    split
    · exact ih honeshot
    · simp only
      split
      · exact hclear
      · exact (ih (by rw [hclear, honeshot])).trans hclear

/-- The loop of `epoll_lwip_event` leaves a level-triggered socket with a pending event in the
list. -/
theorem mem_epollLwipEventLoop {maxevents eventNum : ℕ} {sock : σ → EpollSock} {l : List σ} {x : σ}
    (hlevel : (sock x).epollEvents &&& epollEt = 0)
    (honeshot : (sock x).epollEvents &&& epollOneshot = 0) (hpending : (sock x).pending ≠ 0)
    (hmem : x ∈ l) : x ∈ (epollLwipEventLoop maxevents sock eventNum l).1.eventList := by
  induction l generalizing sock eventNum with
  | nil => exact hmem
  | cons y rest ih =>
    have hclear := clearOneshot_apply (y := y) honeshot
    rw [epollLwipEventLoop]
    split
    · rename_i hy
      have hne : x ≠ y := by
        rintro rfl
        exact hpending hy
      exact ih hlevel honeshot hpending (List.mem_of_ne_of_mem hne hmem)
    · by_cases hxy : x = y
      · -- it is reported and stays where it is
        subst hxy
        simp only [hlevel, honeshot, ne_eq, not_true_eq_false, or_self, if_false]
        split <;> exact List.mem_cons_self
      · have hrest : x ∈ rest := List.mem_of_ne_of_mem hxy hmem
        simp only
        split <;> simp only <;> split
        · exact hrest
        · exact List.mem_cons_of_mem _ hrest
        · exact ih (by rw [hclear, hlevel]) (by rw [hclear, honeshot]) (by rwa [hclear]) hrest
        · exact List.mem_cons_of_mem _
            (ih (by rw [hclear, hlevel]) (by rw [hclear, honeshot]) (by rwa [hclear]) hrest)

/-- A mask has `EPOLLIN` exactly if it has the lowest bit. -/
theorem and_epollIn_ne_zero {m : EpollMask} : m &&& epollIn ≠ 0 ↔ m[0] = true := by
  have htwo : epollIn = BitVec.twoPow 32 0 := rfl
  rw [htwo, BitVec.and_twoPow, ← BitVec.getLsbD_eq_getElem]
  cases m.getLsbD 0 <;> decide

/-- Two masks that both have `EPOLLIN` have it in common. -/
theorem and_ne_zero_of_epollIn {m n : EpollMask} (hm : m &&& epollIn ≠ 0)
    (hn : n &&& epollIn ≠ 0) : m &&& n ≠ 0 := by
  rw [and_epollIn_ne_zero] at hm hn
  intro hzero
  have hbit : (m &&& n)[0] = true := by simp [hm, hn]
  rw [hzero] at hbit
  exact absurd hbit (by decide)

end EventTable

end Gazelle
