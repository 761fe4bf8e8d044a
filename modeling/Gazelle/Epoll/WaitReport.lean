import Gazelle.Epoll.Basic
import Mathlib.Data.List.Nodup
import Mathlib.Data.Int.Order.Basic

/-!
# What `lstack_epoll_wait` returns

A call of `lstack_epoll_wait` goes round its loop until there is something to return. Every round
takes events from the list of the instance and asks the kernel for the rest of the array, and the
number that is returned is the sum of the two counts. Between the rounds, and before the first, the
other threads do to the instance what they like.

* `EventTable.epollLwipEventLoop_reported`: which sockets one scan reports, with which masks;
* `EventTable.mem_epollLwipEventLoop_iff`: which of the sockets with an event stay linked;
* `EpollWakeup.lstackEpollWait`: the loop;
* `EpollWakeup.lstack_epoll_wait_reports_iff`: when a call returns everything it took.
-/

namespace Gazelle

namespace EventTable

variable {σ : Type*} [DecidableEq σ]

/-! ## One scan -/

/-- A socket that `epoll_lwip_event` takes out of the list with an event. -/
def TakesEvent (sock : EpollSock) : Prop :=
  sock.epollEvents &&& epollEt ≠ 0 ∨ sock.epollEvents &&& epollOneshot ≠ 0

/-- Whether an event is taken from a socket is decidable. -/
instance (sock : EpollSock) : Decidable (TakesEvent sock) := inferInstanceAs (Decidable (_ ∨ _))

/-- The sockets of a list that have an event. -/
def withEvent (sock : σ → EpollSock) (l : List σ) : List σ :=
  l.filter fun x => (sock x).pending ≠ 0

/-- The mask that is reported for a socket. -/
def reportedMask (sock : EpollSock) : EpollMask :=
  if sock.epollEvents &&& epollOneshot ≠ 0 then 0 else sock.pending

theorem clearOneshot_of_ne {sock : σ → EpollSock} {x y : σ} (h : y ≠ x) :
    clearOneshot sock x y = sock y := by
  unfold clearOneshot
  split
  · exact Function.update_of_ne h ..
  · rfl

/-- The mask is computed after `epoll_events` is cleared. -/
theorem pending_clearOneshot (sock : σ → EpollSock) (x : σ) :
    (clearOneshot sock x x).pending = reportedMask (sock x) := by
  unfold clearOneshot reportedMask
  split
  · rw [Function.update_self]
    exact BitVec.and_zero
  · rfl

/-- The list of the sockets with an event is not changed by clearing another one. -/
theorem withEvent_clearOneshot {sock : σ → EpollSock} {x : σ} {l : List σ} (h : x ∉ l) :
    withEvent (clearOneshot sock x) l = withEvent sock l := by
  refine List.filter_congr fun y hy => ?_
  have hne : y ≠ x := fun heq => h (heq ▸ hy)
  rw [clearOneshot_of_ne hne]

omit [DecidableEq σ] in
theorem mem_withEvent {sock : σ → EpollSock} {l : List σ} {x : σ} :
    x ∈ withEvent sock l ↔ x ∈ l ∧ (sock x).pending ≠ 0 := by
  simp [withEvent]

omit [DecidableEq σ] in
theorem withEvent_cons_of_pending {sock : σ → EpollSock} {l : List σ} {x : σ}
    (h : (sock x).pending ≠ 0) : withEvent sock (x :: l) = x :: withEvent sock l :=
  List.filter_cons_of_pos (decide_eq_true h)

omit [DecidableEq σ] in
theorem withEvent_cons_of_not_pending {sock : σ → EpollSock} {l : List σ} {x : σ}
    (h : (sock x).pending = 0) : withEvent sock (x :: l) = withEvent sock l :=
  List.filter_cons_of_neg (by simpa using h)

/-- A scan reports the first sockets with an event, as many as there is room for. -/
theorem epollLwipEventLoop_reported {maxevents eventNum : ℕ} {sock : σ → EpollSock} {l : List σ}
    (hl : l.Nodup) (hnum : eventNum < maxevents) :
    (epollLwipEventLoop maxevents sock eventNum l).2 =
      ((withEvent sock l).take (maxevents - eventNum)).map fun x =>
        (x, reportedMask (sock x)) := by
  induction l generalizing sock eventNum with
  | nil => rw [withEvent, List.filter_nil, List.take_nil, List.map_nil, epollLwipEventLoop]
  | cons x rest ih =>
    obtain ⟨hx, hrest⟩ := List.nodup_cons.1 hl
    rw [epollLwipEventLoop]
    split
    · next hpending =>
      rw [withEvent_cons_of_not_pending hpending]
      exact ih hrest hnum
    · next hpending =>
      obtain ⟨room, hroom⟩ : ∃ room, maxevents - eventNum = room + 1 :=
        ⟨maxevents - eventNum - 1, by omega⟩
      rw [withEvent_cons_of_pending hpending, hroom, List.take_succ_cons, List.map_cons,
        ← pending_clearOneshot]
      dsimp only
      split
      · -- the array is full
        obtain rfl : room = 0 := by omega
        rw [List.take_zero, List.map_nil]
      · have hsame : ∀ y ∈ (withEvent sock rest).take room,
            (y, reportedMask (clearOneshot sock x y)) = (y, reportedMask (sock y)) := by
          intro y hy
          have hmem : y ∈ rest := (mem_withEvent.1 (List.mem_of_mem_take hy)).1
          have hne : y ≠ x := fun heq => hx (heq ▸ hmem)
          rw [clearOneshot_of_ne hne]
        have hroom' : maxevents - (eventNum + 1) = room := by omega
        rw [ih hrest (by omega), withEvent_clearOneshot hx, hroom', List.map_congr_left hsame]

/-- The scan takes sockets out of the list only. -/
theorem epollLwipEventLoop_sublist {maxevents eventNum : ℕ} {sock : σ → EpollSock} {l : List σ} :
    (epollLwipEventLoop maxevents sock eventNum l).1.eventList.Sublist l := by
  induction l generalizing sock eventNum with
  | nil => exact List.Sublist.refl _
  | cons x rest ih =>
    rw [epollLwipEventLoop]
    split
    · exact ih.cons x
    · dsimp only
      split <;> dsimp only <;> split
      · exact List.sublist_cons_self x rest
      · exact List.Sublist.refl _
      · exact ih.cons x
      · exact ih.cons_cons x

/-- A socket with an event stays linked unless it is reported and is edge-triggered or
one-shot. -/
theorem mem_epollLwipEventLoop_iff {maxevents eventNum : ℕ} {sock : σ → EpollSock} {l : List σ}
    (hl : l.Nodup) (hnum : eventNum < maxevents) {x : σ} (hmem : x ∈ l)
    (hpending : (sock x).pending ≠ 0) :
    x ∈ (epollLwipEventLoop maxevents sock eventNum l).1.eventList ↔
      ¬ (x ∈ (withEvent sock l).take (maxevents - eventNum) ∧ TakesEvent (sock x)) := by
  induction l generalizing sock eventNum with
  | nil => cases hmem
  | cons y rest ih =>
    obtain ⟨hy, hrest⟩ := List.nodup_cons.1 hl
    rw [epollLwipEventLoop]
    split
    · next hnot =>
      have hne : x ≠ y := fun heq => hpending (heq ▸ hnot)
      rw [withEvent_cons_of_not_pending hnot]
      exact ih hrest hnum (List.mem_of_ne_of_mem hne hmem) hpending
    · next hyes =>
      obtain ⟨room, hroom⟩ : ∃ room, maxevents - eventNum = room + 1 :=
        ⟨maxevents - eventNum - 1, by omega⟩
      rw [withEvent_cons_of_pending hyes, hroom, List.take_succ_cons]
      by_cases hxy : x = y
      · -- it is the socket that is reported next
        subst hxy
        have hnotin : x ∉ (epollLwipEventLoop maxevents (clearOneshot sock x) (eventNum + 1)
            rest).1.eventList := fun h => hy (epollLwipEventLoop_sublist.subset h)
        simp only [List.mem_cons, true_or, true_and, TakesEvent]
        split <;> dsimp only <;> split
        · next htakes => exact iff_of_false hy (not_not.2 htakes)
        · next htakes => exact iff_of_true List.mem_cons_self htakes
        · next htakes => exact iff_of_false hnotin (not_not.2 htakes)
        · next htakes => exact iff_of_true List.mem_cons_self htakes
      · have hin : x ∈ rest := List.mem_of_ne_of_mem hxy hmem
        have hsock : clearOneshot sock y x = sock x := clearOneshot_of_ne hxy
        simp only [List.mem_cons, hxy, false_or]
        split
        · obtain rfl : room = 0 := by omega
          rw [List.take_zero]
          have hnone : ¬ (x ∈ ([] : List σ) ∧ TakesEvent (sock x)) := fun h =>
            absurd h.1 List.not_mem_nil
          dsimp only
          split
          · exact iff_of_true hin hnone
          · exact iff_of_true (List.mem_cons_of_mem y hin) hnone
        · have hroom' : maxevents - (eventNum + 1) = room := by omega
          have hpending' : (clearOneshot sock y x).pending ≠ 0 := by rwa [hsock]
          have hnum' : eventNum + 1 < maxevents := by omega
          have hstep := ih hrest hnum' hin hpending'
          rw [withEvent_clearOneshot hy, hroom', hsock] at hstep
          dsimp only
          split
          · exact hstep
          · rw [List.mem_cons, or_iff_right hxy]
            exact hstep

end EventTable

/-! ## The call -/

/-- `struct epoll_event`. -/
structure EpollEvent (δ : Type*) where
  /-- `events`. -/
  events : EpollMask
  /-- `data`. -/
  data : δ
  deriving DecidableEq

/-- What `lstack_epoll_wait` reads of an instance. A socket is linked once at most. -/
structure EpollWakeup (σ δ : Type*) where
  /-- The sockets and `event_list`. -/
  table : EventTable σ
  nodup : table.eventList.Nodup
  /-- `ep_data` of the sockets. -/
  epData : σ → δ
  /-- `have_kernel_event`. -/
  haveKernelEvent : Bool

/-- One round of the loop, as far as it is not decided by the instance. -/
structure WaitRound (σ δ : Type*) where
  /-- What the other threads do before the list is locked. -/
  others : EpollWakeup σ δ → EpollWakeup σ δ
  /-- The descriptors that are ready in the kernel, `none` when its `epoll_wait` fails. -/
  kernel : Option (List (EpollEvent δ))
  /-- What `pthread_mutex_lock` or `pthread_mutex_timedlock` returns. -/
  ret : ℤ

/-- What a call has done when it returns. -/
structure WaitResult (σ δ : Type*) where
  /-- The value that is returned. -/
  num : ℤ
  /-- The instance as the last round found it. -/
  found : EpollWakeup σ δ
  /-- The entries of `events` that `epoll_lwip_event` wrote in the last round, with the sockets. -/
  lwip : List (σ × EpollEvent δ)
  /-- The entries after these, which the kernel wrote. -/
  kernel : List (EpollEvent δ)
  /-- The sockets that were taken out of the list with an event, in any round. -/
  unlinked : List σ

/-- The kernel's `epoll_wait` with room for `maxevents` events, and the entries it writes. -/
def kernelEpollWait {ε : Type*} (maxevents : ℤ) : Option (List ε) → ℤ × List ε
  | none => (-1, [])
  | some ready =>
    if maxevents ≤ 0 then (-1, [])
    else ((ready.take maxevents.toNat).length, ready.take maxevents.toNat)

namespace EpollWakeup

open EventTable

variable {σ δ : Type*} [DecidableEq σ]

/-- The instance after `epoll_lwip_event`. -/
def scanned (w : EpollWakeup σ δ) (maxevents : ℕ) : EpollWakeup σ δ :=
  { w with
    table := (w.table.epollLwipEvent maxevents).1
    nodup := w.nodup.sublist epollLwipEventLoop_sublist }

/-- The entries that `epoll_lwip_event` writes. -/
def lwipEntries (w : EpollWakeup σ δ) (maxevents : ℕ) : List (σ × EpollEvent δ) :=
  (w.table.epollLwipEvent maxevents).2.map fun e => (e.1, ⟨e.2, w.epData e.1⟩)

/-- The sockets that `epoll_lwip_event` takes out of the list although they have an event, which it
does with edge-triggered and one-shot sockets. -/
def unlinked (w : EpollWakeup σ δ) (maxevents : ℕ) : List σ :=
  w.table.eventList.filter fun x =>
    (w.table.sock x).pending ≠ 0 ∧ x ∉ (w.scanned maxevents).table.eventList

/-- `kernel_num` after the kernel was asked, which it is when it has events. -/
def pollKernel (w : EpollWakeup σ δ) (room kernelNum : ℤ) (kernel : Option (List (EpollEvent δ))) :
    ℤ × List (EpollEvent δ) :=
  if w.haveKernelEvent then kernelEpollWait room kernel else (kernelNum, [])

/-- The instance when a round is over. -/
def afterRound (w : EpollWakeup σ δ) (maxevents : ℕ) (kernelNum : ℤ) : EpollWakeup σ δ :=
  { w.scanned maxevents with haveKernelEvent := w.haveKernelEvent && kernelNum ≠ 0 }

/-- The loop of `lstack_epoll_wait`, `none` while it has not returned. -/
def waitLoop (maxevents : ℕ) (timeout : ℤ) (w : EpollWakeup σ δ) (kernelNum : ℤ)
    (taken : List σ) : List (WaitRound σ δ) → Option (WaitResult σ δ)
  | [] => none
  | r :: rest =>
    let found := r.others w
    let lwip := found.lwipEntries maxevents
    let polled := found.pollKernel (maxevents - lwip.length) kernelNum r.kernel
    if 0 < lwip.length + polled.1 ∨ timeout = 0 ∨ r.ret ≠ 0 then
      some ⟨lwip.length + polled.1, found, lwip, polled.2, taken ++ found.unlinked maxevents⟩
    else
      waitLoop maxevents timeout (found.afterRound maxevents polled.1) polled.1
        (taken ++ found.unlinked maxevents) rest

/-- `lstack_epoll_wait`. -/
def lstackEpollWait (maxevents : ℕ) (timeout : ℤ) (w : EpollWakeup σ δ)
    (rounds : List (WaitRound σ δ)) : Option (WaitResult σ δ) :=
  waitLoop maxevents timeout w 0 [] rounds

/-! ## What is reported -/

/-- The call reports what it takes. -/
structure Reports (maxevents : ℕ) (r : WaitResult σ δ) : Prop where
  /-- The number is not negative. -/
  num_nonneg : 0 ≤ r.num
  /-- It is not larger than the array. -/
  num_le : r.num ≤ maxevents
  /-- It is the number of the entries that were written. -/
  num_eq : r.num = r.lwip.length + r.kernel.length
  /-- The entries of lwIP belong to different sockets. -/
  sockets : (r.lwip.map Prod.fst).Nodup
  /-- Each has the data and events of its socket, which was linked. -/
  entry : ∀ e ∈ r.lwip, e.1 ∈ r.found.table.eventList ∧ e.2.data = r.found.epData e.1 ∧
    e.2.events ≠ 0 ∧ e.2.events &&& (r.found.table.sock e.1).events = e.2.events ∧
      e.2.events &&& (r.found.table.sock e.1).epollEvents = e.2.events
  /-- A socket that was taken out is among the entries that are returned. -/
  unlinked : ∀ x ∈ r.unlinked, x ∈ (r.lwip.take r.num.toNat).map Prod.fst

/-- The first sockets with an event, as many as there is room for. -/
def firstReady (w : EpollWakeup σ δ) (maxevents : ℕ) : List σ :=
  (withEvent w.table.sock w.table.eventList).take maxevents

/-- What the rounds have to meet: in the last one the kernel's `epoll_wait` has not failed, for lack
of room or otherwise, the sockets that it finds ready are not one-shot, and the sockets that the
rounds before took out are among them. -/
def RoundsMeet (maxevents : ℕ) (timeout : ℤ) (w : EpollWakeup σ δ) (kernelNum : ℤ)
    (taken : List σ) : List (WaitRound σ δ) → Prop
  | [] => True
  | r :: rest =>
    let found := r.others w
    let first := found.firstReady maxevents
    let kernelNum' := (found.pollKernel (maxevents - first.length) kernelNum r.kernel).1
    if 0 < first.length + kernelNum' ∨ timeout = 0 ∨ r.ret ≠ 0 then
      0 ≤ kernelNum' ∧ (∀ x ∈ first, (found.table.sock x).epollEvents &&& epollOneshot = 0) ∧
        ∀ x ∈ taken, x ∈ first
    else
      RoundsMeet maxevents timeout (found.afterRound maxevents kernelNum') kernelNum'
        (taken ++ first.filter fun x => TakesEvent (found.table.sock x)) rest

variable {w : EpollWakeup σ δ} {maxevents : ℕ}

/-- The entries that are written for the sockets. -/
theorem lwipEntries_eq (w : EpollWakeup σ δ) (hmax : 0 < maxevents) :
    w.lwipEntries maxevents = (w.firstReady maxevents).map fun x =>
      (x, ⟨reportedMask (w.table.sock x), w.epData x⟩) := by
  unfold lwipEntries firstReady epollLwipEvent
  rw [epollLwipEventLoop_reported w.nodup hmax, List.map_map]
  rfl

/-- Their sockets. -/
theorem map_fst_lwipEntries (w : EpollWakeup σ δ) (hmax : 0 < maxevents) :
    (w.lwipEntries maxevents).map Prod.fst = w.firstReady maxevents := by
  rw [lwipEntries_eq w hmax, List.map_map]
  exact List.map_id _

/-- The sockets that are taken out are edge-triggered or one-shot. -/
theorem mem_unlinked (hmax : 0 < maxevents) {x : σ} :
    x ∈ w.unlinked maxevents ↔
      x ∈ (w.firstReady maxevents).filter fun x => TakesEvent (w.table.sock x) := by
  rw [unlinked, List.mem_filter, List.mem_filter, decide_eq_true_eq, decide_eq_true_eq]
  constructor
  · rintro ⟨hmem, hpending, hout⟩
    by_contra hnot
    exact hout ((mem_epollLwipEventLoop_iff w.nodup hmax hmem hpending).2 hnot)
  · rintro ⟨hfirst, htakes⟩
    obtain ⟨hmem, hpending⟩ := mem_withEvent.1 (List.mem_of_mem_take hfirst)
    refine ⟨hmem, hpending, fun hin => ?_⟩
    exact (mem_epollLwipEventLoop_iff w.nodup hmax hmem hpending).1 hin ⟨hfirst, htakes⟩

omit [DecidableEq σ] in
/-- The kernel fails, or returns the number of entries that it wrote. -/
theorem pollKernel_spec (w : EpollWakeup σ δ) {room kernelNum : ℤ} (hroom : 0 ≤ room)
    (hnum : kernelNum ≤ 0) (kernel : Option (List (EpollEvent δ))) :
    ((w.pollKernel room kernelNum kernel).1 < 0 ∧ (w.pollKernel room kernelNum kernel).2 = []) ∨
      ((w.pollKernel room kernelNum kernel).1 = (w.pollKernel room kernelNum kernel).2.length ∧
        (w.pollKernel room kernelNum kernel).1 ≤ room) := by
  unfold pollKernel
  split
  · cases kernel with
    | none => exact .inl ⟨(by omega : (-1 : ℤ) < 0), rfl⟩
    | some ready =>
      simp only [kernelEpollWait]
      split
      · exact .inl ⟨(by omega : (-1 : ℤ) < 0), rfl⟩
      · refine .inr ⟨rfl, ?_⟩
        have hlen := List.length_take_le room.toNat ready
        dsimp only
        omega
  · rcases lt_or_eq_of_le hnum with hneg | rfl
    · exact .inl ⟨hneg, rfl⟩
    · exact .inr ⟨rfl, hroom⟩

/-- A mask that is reported is not empty exactly when the socket, which has an event, is not
one-shot. -/
theorem reportedMask_ne_zero {sock : EpollSock} (hpending : sock.pending ≠ 0) :
    reportedMask sock ≠ 0 ↔ sock.epollEvents &&& epollOneshot = 0 := by
  unfold reportedMask
  split
  · next h => exact iff_of_false (not_not.2 rfl) h
  · next h => exact iff_of_true hpending (not_not.1 h)

/-- What is reported of a socket was pending. -/
theorem reportedMask_and (sock : EpollSock) :
    reportedMask sock &&& sock.events = reportedMask sock ∧
      reportedMask sock &&& sock.epollEvents = reportedMask sock := by
  unfold reportedMask EpollSock.pending
  split
  · exact ⟨BitVec.zero_and, BitVec.zero_and⟩
  · constructor <;> grind

/-- The last round. -/
theorem reports_last (hmax : 0 < maxevents) {kernelNum : ℤ} (hnum : kernelNum ≤ 0)
    {taken taken' : List σ} (hsame : ∀ x, x ∈ taken ↔ x ∈ taken')
    (kernel : Option (List (EpollEvent δ))) :
    let lwip := w.lwipEntries maxevents
    let first := w.firstReady maxevents
    let polled := w.pollKernel (maxevents - first.length) kernelNum kernel
    Reports maxevents
        ⟨first.length + polled.1, w, lwip, polled.2, taken ++ w.unlinked maxevents⟩ ↔
      0 ≤ polled.1 ∧ (∀ x ∈ first, (w.table.sock x).epollEvents &&& epollOneshot = 0) ∧
        ∀ x ∈ taken', x ∈ first := by
  intro lwip first polled
  have hfst : lwip.map Prod.fst = first := map_fst_lwipEntries w hmax
  have hlen : lwip.length = first.length := by rw [← hfst, List.length_map]
  -- the first list never has more than `maxevents`
  have hroom : (0 : ℤ) ≤ maxevents - first.length := by
    have := List.length_take_le maxevents (withEvent w.table.sock w.table.eventList)
    have : first.length ≤ maxevents := this
    omega
  have hpolled := pollKernel_spec w hroom hnum kernel
  have hentry : lwip = first.map fun x => (x, ⟨reportedMask (w.table.sock x), w.epData x⟩) :=
    lwipEntries_eq w hmax
  -- what is in it is linked and has something pending
  have hmem : ∀ x ∈ first, x ∈ w.table.eventList ∧ (w.table.sock x).pending ≠ 0 :=
    fun x hx => mem_withEvent.1 (List.mem_of_mem_take hx)
  -- from the report to the condition: an error of the kernel would make the number wrong
  constructor
  · rintro ⟨-, -, hnum_eq, -, hentries, hunlinked⟩
    have hkernel : 0 ≤ polled.1 := by
      dsimp only at hnum_eq
      omega
    refine ⟨hkernel, fun x hx => ?_, fun x hx => ?_⟩
    · have hin : (x, ⟨reportedMask (w.table.sock x), w.epData x⟩) ∈ lwip := by
        rw [hentry]
        exact List.mem_map_of_mem hx
      -- an entry with an empty mask is one that is asked for once only
      exact (reportedMask_ne_zero (hmem x hx).2).1 (hentries _ hin).2.2.1
    · -- what was unlinked is reported
      have hin := hunlinked x (List.mem_append_left _ ((hsame x).2 hx))
      rw [← hfst]
      exact List.map_subset _ (List.take_subset _ _) hin
  · rintro ⟨hkernel, honeshot, htaken⟩
    -- the kernel reports no error, so the number is that of both parts
    obtain ⟨heq, hle⟩ := hpolled.resolve_left fun h => absurd hkernel (Int.not_le.2 h.1)
    have htake : lwip.take ((first.length : ℤ) + polled.1).toNat = lwip :=
      List.take_of_length_le (by omega)
    refine ⟨?_, ?_, ?_, ?_, ?_, ?_⟩
    · show 0 ≤ (first.length : ℤ) + polled.1
      omega
    · show (first.length : ℤ) + polled.1 ≤ maxevents
      have hle' : polled.1 ≤ maxevents - first.length := hle
      omega
    · show (first.length : ℤ) + polled.1 = lwip.length + polled.2.length
      rw [hlen]
      exact congrArg _ heq
    · -- a socket is linked once
      show (lwip.map Prod.fst).Nodup
      rw [hfst]
      exact (w.nodup.filter _).sublist (List.take_sublist _ _)
    · intro e he
      rw [hentry] at he
      obtain ⟨x, hx, rfl⟩ := List.mem_map.1 he
      obtain ⟨hevents, hasked⟩ := reportedMask_and (w.table.sock x)
      exact ⟨(hmem x hx).1, rfl, (reportedMask_ne_zero (hmem x hx).2).2 (honeshot x hx), hevents,
        hasked⟩
    · intro x hx
      show x ∈ (lwip.take ((first.length : ℤ) + polled.1).toNat).map Prod.fst
      rw [htake, hfst]
      -- unlinked in this round or in one before
      rcases List.mem_append.1 hx with hx | hx
      · exact htaken x ((hsame x).1 hx)
      · exact (List.mem_filter.1 ((mem_unlinked hmax).1 hx)).1

/-- The rounds from any point of the loop on. -/
theorem waitLoop_reports_iff (hmax : 0 < maxevents) {timeout kernelNum : ℤ} (hnum : kernelNum ≤ 0)
    {taken taken' : List σ} (hsame : ∀ x, x ∈ taken ↔ x ∈ taken') {rounds : List (WaitRound σ δ)}
    {r : WaitResult σ δ} (h : waitLoop maxevents timeout w kernelNum taken rounds = some r) :
    Reports maxevents r ↔ RoundsMeet maxevents timeout w kernelNum taken' rounds := by
  induction rounds generalizing w kernelNum taken taken' with
  | nil => cases h
  | cons round rest ih =>
    have hlen : ((round.others w).lwipEntries maxevents).length =
        ((round.others w).firstReady maxevents).length := by
      rw [← map_fst_lwipEntries _ hmax, List.length_map]
    rw [waitLoop] at h
    rw [RoundsMeet]
    simp only [hlen] at h
    split at h
    · next hend =>
      rw [if_pos hend]
      obtain rfl := Option.some.inj h
      exact reports_last hmax hnum hsame round.kernel
    · next hend =>
      rw [if_neg hend]
      refine ih ?_ (fun x => ?_) h
      · by_contra hpos
        exact hend (.inl (by omega))
      · rw [List.mem_append, List.mem_append, hsame, mem_unlinked hmax]

/-- A call of `lstack_epoll_wait` that returns has reported what it took exactly when its rounds
meet the condition. -/
theorem lstack_epoll_wait_reports_iff (hmax : 0 < maxevents) {timeout : ℤ}
    {rounds : List (WaitRound σ δ)} {r : WaitResult σ δ}
    (h : lstackEpollWait maxevents timeout w rounds = some r) :
    Reports maxevents r ↔ RoundsMeet maxevents timeout w 0 [] rounds :=
  waitLoop_reports_iff hmax (Int.le_refl 0) (fun _ => Iff.rfl) h

/-- An instance with events of the kernel, and two linked sockets that can be read. -/
def twoReady (epollEvents : EpollMask) : EpollWakeup (Fin 2) ℕ where
  table := ⟨fun _ => ⟨epollIn, epollEvents⟩, [0, 1]⟩
  nodup := show ([0, 1] : List (Fin 2)).Nodup by decide
  epData x := x
  haveKernelEvent := true

/-- One round, with a descriptor that is ready in the kernel. -/
def oneRound : WaitRound (Fin 2) ℕ := ⟨id, some [⟨epollIn, 7⟩], 0⟩

/-- Both sockets, which are edge-triggered, and the descriptor of the kernel are reported. -/
theorem lstack_epoll_wait_reports_edge :
    ∃ r, lstackEpollWait 4 0 (twoReady (epollIn ||| epollEt)) [oneRound] = some r ∧
      Reports 4 r := by
  have hsome : (lstackEpollWait 4 0 (twoReady (epollIn ||| epollEt)) [oneRound]).isSome = true := by
    decide +kernel
  obtain ⟨r, hr⟩ := Option.isSome_iff_exists.1 hsome
  refine ⟨r, hr, (lstack_epoll_wait_reports_iff (by decide) hr).2 ?_⟩
  rw [RoundsMeet]
  exact (if_pos (.inr (.inl rfl))).mpr ⟨by decide +kernel, by decide +kernel, by decide +kernel⟩

/-- An edge-triggered socket is taken out of the list and fills the array, so that the kernel fails
for lack of room: the call returns 0. -/
theorem lstack_epoll_wait_drops_edge :
    ¬ ∀ (maxevents : ℕ) (timeout : ℤ) (w : EpollWakeup (Fin 2) ℕ)
      (rounds : List (WaitRound (Fin 2) ℕ)) (r : WaitResult (Fin 2) ℕ), 0 < maxevents →
        lstackEpollWait maxevents timeout w rounds = some r → Reports maxevents r := by
  intro h
  have hrun : (lstackEpollWait 1 0 (twoReady (epollIn ||| epollEt)) [oneRound]).any (fun r =>
      decide (r.num = 0 ∧ r.unlinked = [0])) = true := by decide +kernel
  obtain ⟨r, hr, hdrop⟩ := (Option.any_eq_true _ _).1 hrun
  obtain ⟨hnum, hunlinked⟩ := of_decide_eq_true hdrop
  have hin := (h 1 0 _ _ r (by decide) hr).unlinked 0 (by rw [hunlinked]; exact List.mem_cons_self)
  rw [hnum] at hin
  exact absurd hin List.not_mem_nil

end EpollWakeup

end Gazelle
