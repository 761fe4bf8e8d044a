import Gazelle.Transition.System
import Gazelle.Epoll.Basic
import Gazelle.Epoll.Handshake
import Mathlib.Data.Int.Notation

/-!
# Waiting for and waking up on kernel events

One epoll instance that the kernel-event thread of its bound stack watches edge-triggered. The
kernel-event thread fetches the edge into `stack->kernel_events`, `wakeup_kernel_event` of the
stack thread stores `true` to `have_kernel_event` and links the wake-up, and the waiter polls the
kernel when it sees the flag and clears it when there was nothing to report.

* `KernelSys.system`: all interleavings of the kernel, the kernel-event thread, the stacks and
  the waiter;
* `kernel_event_kept`: no kernel event is lost in the runs whose steps meet `Condition`;
* `kernel_event_lost`: the clearing of the flag can erase a fresh event.
-/

namespace Gazelle

/-- Where the waiter stands in `lstack_epoll_wait`, with its live local variables. -/
inductive KernelWaitPc
  /-- Outside the function. -/
  | idle
  /-- Before the store of `true` to `in_wait`. -/
  | storeTrue (maxevents timeout kernelNum : ℤ)
  /-- Before `epoll_lwip_event`. -/
  | scan (maxevents timeout kernelNum : ℤ)
  /-- Before the load of `have_kernel_event`. -/
  | loadHave (maxevents timeout : ℤ) (lwipNum : ℕ) (kernelNum : ℤ)
  /-- Before the kernel's `epoll_wait`. -/
  | poll (maxevents timeout : ℤ) (lwipNum : ℕ)
  /-- The kernel has reported nothing: before the store of `false` to `have_kernel_event`. -/
  | clearHave (maxevents timeout : ℤ) (lwipNum : ℕ)
  /-- Locking the `wait` mutex. -/
  | lockWait (maxevents timeout kernelNum : ℤ)
  /-- Before the store of `false` to `in_wait`. -/
  | storeFalse
  deriving DecidableEq

/-- Where the bound stack stands in `wakeup_kernel_event`. -/
inductive KernelEventPc
  /-- Outside the function. -/
  | outside
  /-- Before the test `i < stack->kernel_event_num` for the entry of this instance. -/
  | loop
  /-- Before the store of `true` to `have_kernel_event`. -/
  | storeHave
  /-- Before linking the wake-up. -/
  | linkWakeup
  /-- Before the store of `0` to `stack->kernel_event_num`; `handled` says whether the loop found
  the entry of this instance. -/
  | storeZero (handled : Bool)
  deriving DecidableEq

/-- An epoll instance with its kernel descriptors, its waiter and the stacks `ι`. -/
structure KernelSys (ι : Type*) where
  /-- What the waiter shares with the stacks. -/
  hand : Handshake ι
  /-- `wakeup->have_kernel_event`. -/
  haveKernelEvent : Bool
  /-- The number of kernel descriptors that the kernel's `epoll_wait` would report. -/
  ready : ℕ
  /-- The kernel holds an edge of the instance for the kernel-event thread. -/
  edge : Bool
  /-- `stack->kernel_event_num` of the bound stack. -/
  kernelEventNum : ℤ
  /-- The instance is among the entries of `stack->kernel_events` fetched last. -/
  fetched : Bool
  /-- The bound stack in `wakeup_kernel_event`. -/
  kernelPc : KernelEventPc
  /-- The thread in `lstack_epoll_wait`. -/
  waiter : KernelWaitPc

/-- The actions of the kernel and of the threads. -/
inductive KernelAct (ι σ : Type*)
  /-- A kernel descriptor of the instance becomes ready, which delivers one edge. -/
  | becomesReady
  /-- A ready descriptor is read empty. -/
  | unready
  /-- The kernel's `epoll_wait` returns `num` in the kernel-event thread; `mine` says whether the
  instance is among the entries. -/
  | fetch (num : ℤ) (mine : Bool)
  /-- The bound stack calls `wakeup_kernel_event`. -/
  | wakeupKernelEvent
  /-- The bound stack makes its next step in `wakeup_kernel_event`, up to the linking. -/
  | kernelStep
  /-- Stack `i` has put a socket into `event_list` and comes to the linking of its wake-up. -/
  | addSockEvent (i : ι)
  /-- Stack `i` comes to this instance in the loop of `wakeup_stack_epoll`. -/
  | wakeupStackEpoll (i : ι)
  /-- Stack `i` makes its next step in linking its wake-up or in `wakeup_stack_epoll`. -/
  | waker (i : ι)
  /-- The application calls `lstack_epoll_wait`. -/
  | wait (maxevents timeout : ℤ)
  /-- The waiter scans the sockets, which it finds in the given state. -/
  | scan (table : EventTable σ)
  /-- The kernel's `epoll_wait` returns `kernelNum` to the waiter. -/
  | poll (kernelNum : ℤ)
  /-- The waiter makes any other step. -/
  | waiter
  /-- `pthread_mutex_timedlock` times out. -/
  | timeout

namespace KernelSys

variable {ι σ : Type*} [DecidableEq ι] [DecidableEq σ]

/-- What the kernel's `epoll_wait` may return to the waiter: an error when it gives no room for
events, else as many ready descriptors as the kernel likes. -/
def PollReturns (ready : ℕ) (room kernelNum : ℤ) : Prop :=
  if room ≤ 0 then kernelNum = -1
  else if ready = 0 then kernelNum = 0
  else 0 < kernelNum ∧ kernelNum ≤ ready ∧ kernelNum ≤ room

/-- Whether `epoll_wait` may return a number is decidable. -/
instance (ready : ℕ) (room kernelNum : ℤ) : Decidable (PollReturns ready room kernelNum) := by
  unfold PollReturns
  infer_instance

/-- The kernel's `epoll_wait` returns `-1` when it fails. -/
theorem PollReturns.eq_neg_one {ready : ℕ} {room kernelNum : ℤ}
    (h : PollReturns ready room kernelNum) (hneg : kernelNum < 0) : kernelNum = -1 := by
  unfold PollReturns at h
  split_ifs at h <;> omega

/-- The end of the loop body of `lstack_epoll_wait`: leave the loop or wait. -/
def leaveOrWait (s : KernelSys ι) (maxevents timeout : ℤ) (lwipNum : ℕ) (kernelNum : ℤ) :
    KernelSys ι :=
  if 0 < lwipNum + kernelNum ∨ timeout = 0 then
    { s with hand := s.hand.leave, waiter := .storeFalse }
  else { s with waiter := .lockWait maxevents timeout kernelNum }

/-- The next step of the waiter outside the two calls of `epoll_lwip_event` and of the kernel. -/
def waiterStep (s : KernelSys ι) : Option (KernelSys ι) :=
  match s.waiter with
  | .storeTrue maxevents timeout kernelNum =>
    some { s with hand := s.hand.arm, waiter := .scan maxevents timeout kernelNum }
  | .loadHave maxevents timeout lwipNum kernelNum =>
    if s.haveKernelEvent then some { s with waiter := .poll maxevents timeout lwipNum }
    else some (s.leaveOrWait maxevents timeout lwipNum kernelNum)
  | .clearHave maxevents timeout lwipNum =>
    some (leaveOrWait { s with haveKernelEvent := false } maxevents timeout lwipNum 0)
  | .lockWait maxevents timeout kernelNum =>
    s.hand.lockWait.map fun hand =>
      { s with hand := hand, waiter := .storeTrue maxevents timeout kernelNum }
  | .storeFalse => some { s with hand := s.hand.disarm, waiter := .idle }
  | _ => none

/-- The next step of the bound stack in `wakeup_kernel_event`. -/
def kernelStep (bound : ι) (s : KernelSys ι) : Option (KernelSys ι) :=
  match s.kernelPc with
  | .loop =>
    if 0 < s.kernelEventNum ∧ s.fetched then some { s with kernelPc := .storeHave }
    else some { s with kernelPc := .storeZero false }
  | .storeHave =>
    (s.hand.startLink bound).map fun hand =>
      { s with hand := hand, haveKernelEvent := true, kernelPc := .linkWakeup }
  | .storeZero _ => some { s with kernelEventNum := 0, kernelPc := .outside }
  | _ => none

/-- One step of the kernel or of one thread. -/
def step (bound : ι) (s : KernelSys ι) : KernelAct ι σ → Option (KernelSys ι)
  | .becomesReady => some { s with ready := s.ready + 1, edge := true }
  | .unready => if s.ready = 0 then none else some { s with ready := s.ready - 1 }
  | .fetch num mine =>
    -- the thread calls `epoll_wait` again only when the stack has taken the last entries
    if 0 < s.kernelEventNum ∨ num < -1 ∨ num = 0 ∨ (mine ∧ (s.edge = false ∨ num < 0)) then none
    else some { s with kernelEventNum := num, fetched := mine, edge := s.edge && !mine }
  | .wakeupKernelEvent =>
    if s.kernelPc = .outside ∧ s.hand.waker bound = .outside then
      if s.kernelEventNum = 0 then some s else some { s with kernelPc := .loop }
    else none
  | .kernelStep => s.kernelStep bound
  | .addSockEvent i =>
    if i = bound ∧ s.kernelPc ≠ .outside then none
    else (s.hand.startLink i).map fun hand => { s with hand := hand }
  | .wakeupStackEpoll i =>
    if i = bound ∧ s.kernelPc ≠ .outside then none
    else (s.hand.startWake i).map fun hand => { s with hand := hand }
  | .waker i =>
    (s.hand.wakerStep i).map fun hand =>
      { s with
        hand := hand
        kernelPc := if i = bound ∧ s.kernelPc = .linkWakeup then .storeZero true else s.kernelPc }
  | .wait maxevents timeout =>
    match s.waiter with
    | .idle => some { s with waiter := .storeTrue maxevents timeout 0 }
    | _ => none
  | .scan table =>
    match s.waiter with
    | .scan maxevents timeout kernelNum =>
      let reported := (table.epollLwipEvent (BitVec.ofInt 32 maxevents).toNat).2
      some { s with waiter := .loadHave maxevents timeout reported.length kernelNum }
    | _ => none
  | .poll kernelNum =>
    match s.waiter with
    | .poll maxevents timeout lwipNum =>
      if ¬ PollReturns s.ready (maxevents - lwipNum) kernelNum then none
      else if kernelNum = 0 then some { s with waiter := .clearHave maxevents timeout lwipNum }
      else some (s.leaveOrWait maxevents timeout lwipNum kernelNum)
    | _ => none
  | .waiter => s.waiterStep
  | .timeout =>
    match s.waiter with
    | .lockWait _ timeout _ =>
      if 0 < timeout then some { s with hand := s.hand.leave, waiter := .storeFalse } else none
    | _ => none

/-- A new instance, no kernel descriptor of which is ready. -/
def create : KernelSys ι where
  hand := .create
  haveKernelEvent := false
  ready := 0
  edge := false
  kernelEventNum := 0
  fetched := false
  kernelPc := .outside
  waiter := .idle

/-- All interleavings of the kernel and the threads. -/
def system (bound : ι) (σ : Type*) [DecidableEq σ] :
    Transition.System (KernelSys ι) (KernelAct ι σ) where
  Init s := s = create
  step := step bound

/-! ## The property and the condition -/

/-- The edge has not yet been processed by `wakeup_kernel_event`: the kernel still holds it, or
it is among the fetched entries and the flag is not yet stored. -/
def EdgeInFlight (s : KernelSys ι) : Prop :=
  s.edge = true ∨
    (0 < s.kernelEventNum ∧ s.fetched = true ∧
      (s.kernelPc = .outside ∨ s.kernelPc = .loop ∨ s.kernelPc = .storeZero false)) ∨
    s.kernelPc = .storeHave

/-- The waiter is blocked on the locked mutex for as long as it takes. -/
def Asleep (s : KernelSys ι) : Prop :=
  (∃ maxevents timeout kernelNum, s.waiter = .lockWait maxevents timeout kernelNum ∧ timeout < 0) ∧
    s.hand.waitLocked = true

/-- Some stack has a wake-up of the instance before it: it is about to link it, or has it linked
and is not past the unlock of the mutex. -/
def WakeupPending (s : KernelSys ι) : Prop :=
  ∃ i, s.hand.waker i = .linkWakeup ∨
    (s.hand.wakeupLinked i = true ∧ s.hand.waker i ≠ .unlinkWakeup)

/-- No kernel event is lost: when the waiter sleeps while a kernel descriptor is ready, the flag
is set and a wake-up is pending, or the edge has still to be processed. -/
def KernelEventKept (s : KernelSys ι) : Prop :=
  s.Asleep → 0 < s.ready →
    (s.haveKernelEvent = true ∧ s.WakeupPending) ∨ s.EdgeInFlight

/-- The condition on a step:
the store of `false` to `have_kernel_event` finds no descriptor ready, or the edge in flight;
the kernel's `epoll_wait` fails for want of room, so that the waiter goes to sleep, only when no
descriptor is ready, or the edge is in flight, or the waiter is being woken anyway; and
the store of `0` to `kernel_event_num` does not overwrite entries fetched after the loop. -/
def Condition (s : KernelSys ι) : KernelAct ι σ → Prop
  | .waiter => (∃ m t l, s.waiter = .clearHave m t l) → s.ready = 0 ∨ s.EdgeInFlight
  | .poll kernelNum =>
    kernelNum < 0 → (∃ m t l, s.waiter = .poll m t l ∧ t < 0 ∧ l ≤ 1) →
      s.ready = 0 ∨ s.EdgeInFlight ∨ s.hand.Alerted
  | .kernelStep =>
    s.kernelPc = .storeZero false → 0 < s.kernelEventNum → s.fetched = true →
      s.ready = 0 ∨ s.edge = true
  | _ => True

/-! ## The invariant -/

/-- The waiter is past its store to `in_wait` and has not left the loop. -/
def InLoop (s : KernelSys ι) : Prop :=
  match s.waiter with
  | .idle => False
  | .storeTrue .. => False
  | .storeFalse => False
  | _ => True

/-- The waiter goes to sleep without a timeout. -/
def Waiting (s : KernelSys ι) : Prop :=
  ∃ maxevents timeout kernelNum, s.waiter = .lockWait maxevents timeout kernelNum ∧ timeout < 0

/-- The invariant of the runs whose steps meet the condition. -/
structure KernelInv (s : KernelSys ι) : Prop where
  /-- The invariant of the handshake. -/
  hand : s.hand.Inv
  /-- The waiter is armed while it is in the loop. -/
  armed : s.InLoop → s.hand.armed = true
  /-- While the stack handles the entry of the instance, the kernel-event thread waits. -/
  handled : s.kernelPc = .storeHave ∨ s.kernelPc = .linkWakeup ∨ s.kernelPc = .storeZero true →
    0 < s.kernelEventNum
  /-- The waiter will see that a descriptor is ready. -/
  flag : 0 < s.ready → s.haveKernelEvent = true ∨ s.EdgeInFlight
  /-- The waiter will wake up when a descriptor is ready. -/
  woken : s.Waiting → 0 < s.ready → s.EdgeInFlight ∨ s.hand.Alerted

omit [DecidableEq ι] in
/-- The invariant holds of a new instance. -/
theorem KernelInv.create : KernelInv (create : KernelSys ι) where
  hand := .create
  armed h := h.elim
  handled := by simp [KernelSys.create]
  flag := by simp [KernelSys.create]
  woken := by simp [KernelSys.create]

section Steps

variable {bound : ι} {s t : KernelSys ι} (h : KernelInv s)

include h

omit [DecidableEq ι] in
/-- A step of the stacks in the handshake that leaves the kernel's side alone, or finishes the
linking of the bound stack. -/
private theorem KernelInv.hand_step {hand : Handshake ι} {pc : KernelEventPc} (hinv : hand.Inv)
    (harmed : hand.armed = s.hand.armed) (halert : s.hand.Alerted → hand.Alerted)
    (hpc : pc = s.kernelPc ∨ (s.kernelPc = .linkWakeup ∧ pc = .storeZero true)) :
    KernelInv { s with hand := hand, kernelPc := pc } := by
  have hedge : s.EdgeInFlight → EdgeInFlight { s with hand := hand, kernelPc := pc } := by
    rcases hpc with rfl | ⟨hlink, rfl⟩
    · exact id
    · intro hflight
      simpa [EdgeInFlight, hlink] using hflight
  refine ⟨hinv, fun hloop => harmed.trans (h.armed hloop), fun hpc' => h.handled ?_,
    fun hready => (h.flag hready).imp_right hedge,
    fun hwait hready => (h.woken hwait hready).imp hedge halert⟩
  rcases hpc with rfl | ⟨hlink, rfl⟩
  · exact hpc'
  · exact .inr (.inl hlink)

omit [DecidableEq ι] in
/-- The end of the loop body keeps the invariant when the waiter, going to sleep, will be woken. -/
private theorem KernelInv.leaveOrWait (hloop : s.InLoop) {maxevents timeout kernelNum : ℤ}
    {lwipNum : ℕ} (hsleep : lwipNum + kernelNum ≤ 0 → timeout < 0 → 0 < s.ready →
      s.EdgeInFlight ∨ s.hand.Alerted) :
    KernelInv (s.leaveOrWait maxevents timeout lwipNum kernelNum) := by
  unfold KernelSys.leaveOrWait
  split
  · exact ⟨h.hand.leave, by simp [InLoop], h.handled, h.flag, by simp [Waiting]⟩
  · rename_i hwait
    refine ⟨h.hand, fun _ => h.armed hloop, h.handled, h.flag, ?_⟩
    rintro ⟨m, t, k, heq, hneg⟩ hready
    simp only [KernelWaitPc.lockWait.injEq] at heq
    exact hsleep (by omega) (heq.2.1 ▸ hneg) hready

omit [DecidableEq ι] in
/-- A step of the waiter keeps the invariant when it meets the condition. -/
theorem KernelInv.waiterStep
    (hc : (∃ m t l, s.waiter = .clearHave m t l) → s.ready = 0 ∨ s.EdgeInFlight)
    (hstep : s.waiterStep = some t) : KernelInv t := by
  cases hpc : s.waiter with
  | idle => simp [KernelSys.waiterStep, hpc] at hstep
  | storeTrue maxevents timeout kernelNum =>
    simp only [KernelSys.waiterStep, hpc, Option.some.injEq] at hstep
    exact hstep ▸ ⟨h.hand.arm, fun _ => rfl, h.handled, h.flag, by simp [Waiting]⟩
  | scan maxevents timeout kernelNum => simp [KernelSys.waiterStep, hpc] at hstep
  | loadHave maxevents timeout lwipNum kernelNum =>
    have hloop : s.InLoop := by simp [InLoop, hpc]
    cases hhave : s.haveKernelEvent with
    | true =>
      simp only [KernelSys.waiterStep, hpc, hhave, if_true, Option.some.injEq] at hstep
      exact hstep ▸ ⟨h.hand, fun _ => h.armed hloop, h.handled, fun _ => .inl rfl,
        by simp [Waiting]⟩
    | false =>
      simp only [KernelSys.waiterStep, hpc, hhave, Bool.false_eq_true, if_false,
        Option.some.injEq] at hstep
      -- the flag is not set, so whatever is ready still has its edge in flight
      refine hstep ▸ h.leaveOrWait hloop fun _ _ hready => .inl ?_
      simpa [hhave] using h.flag hready
  | poll maxevents timeout lwipNum => simp [KernelSys.waiterStep, hpc] at hstep
  | clearHave maxevents timeout lwipNum =>
    have hloop : s.InLoop := by simp [InLoop, hpc]
    have hedge : 0 < s.ready → s.EdgeInFlight := fun hready =>
      (hc ⟨_, _, _, hpc⟩).resolve_left (by omega)
    have hcleared : KernelInv { s with haveKernelEvent := false } :=
      ⟨h.hand, h.armed, h.handled, fun hready => .inr (hedge hready), h.woken⟩
    simp only [KernelSys.waiterStep, hpc, Option.some.injEq] at hstep
    exact hstep ▸ hcleared.leaveOrWait hloop fun _ _ hready => .inl (hedge hready)
  | lockWait maxevents timeout kernelNum =>
    simp only [KernelSys.waiterStep, hpc, Option.map_eq_some_iff] at hstep
    obtain ⟨hand, hlock, rfl⟩ := hstep
    exact ⟨h.hand.lockWait hlock, by simp [InLoop], h.handled, h.flag, by simp [Waiting]⟩
  | storeFalse =>
    simp only [KernelSys.waiterStep, hpc, Option.some.injEq] at hstep
    exact hstep ▸ ⟨h.hand.disarm, by simp [InLoop], h.handled, h.flag, by simp [Waiting]⟩

/-- A step of the bound stack in `wakeup_kernel_event` keeps the invariant when it meets the
condition. -/
theorem KernelInv.kernelStep
    (hc : s.kernelPc = .storeZero false → 0 < s.kernelEventNum → s.fetched = true →
      s.ready = 0 ∨ s.edge = true)
    (hstep : s.kernelStep bound = some t) : KernelInv t := by
  cases hpc : s.kernelPc with
  | outside => simp [KernelSys.kernelStep, hpc] at hstep
  | loop =>
    simp only [KernelSys.kernelStep, hpc] at hstep
    split at hstep
    · rename_i hmine
      cases hstep
      exact ⟨h.hand, h.armed, fun _ => hmine.1, fun _ => .inr (.inr (.inr rfl)),
        fun _ _ => .inl (.inr (.inr rfl))⟩
    · rename_i hmine
      cases hstep
      have hedge : s.EdgeInFlight → EdgeInFlight { s with kernelPc := .storeZero false } := by
        rintro (hedge | ⟨hpos, hfetched, -⟩ | hstore)
        · exact .inl hedge
        · exact absurd ⟨hpos, hfetched⟩ hmine
        · simp [hpc] at hstore
      exact ⟨h.hand, h.armed, by simp, fun hready => (h.flag hready).imp_right hedge,
        fun hwait hready => (h.woken hwait hready).imp_left hedge⟩
  | storeHave =>
    simp only [KernelSys.kernelStep, hpc, Option.map_eq_some_iff] at hstep
    obtain ⟨hand, hstart, rfl⟩ := hstep
    refine ⟨h.hand.startLink hstart, fun hloop => ?_, fun _ => h.handled (by simp [hpc]),
      fun _ => .inl rfl, fun _ _ => .inr (.startLink hstart)⟩
    rw [Handshake.armed_of_startLink hstart]
    exact h.armed hloop
  | linkWakeup => simp [KernelSys.kernelStep, hpc] at hstep
  | storeZero handled =>
    simp only [KernelSys.kernelStep, hpc, Option.some.injEq] at hstep
    subst hstep
    -- nothing but a fresh entry is overwritten, and the condition excludes that
    have hedge : 0 < s.ready → s.EdgeInFlight → s.edge = true := by
      rintro hready (hedge | ⟨hpos, hfetched, hwhere⟩ | hstore)
      · exact hedge
      · have hfalse : s.kernelPc = .storeZero false := by simpa [hpc] using hwhere
        exact (hc hfalse hpos hfetched).resolve_left (by omega)
      · simp [hpc] at hstore
    exact ⟨h.hand, h.armed, by simp, fun hready => (h.flag hready).imp_right fun hflight =>
        .inl (hedge hready hflight),
      fun hwait hready => (h.woken hwait hready).imp_left fun hflight =>
        .inl (hedge hready hflight)⟩

omit [DecidableEq ι] in
/-- The return of the kernel's `epoll_wait` in the kernel-event thread keeps the invariant. -/
theorem KernelInv.fetch {num : ℤ} {mine : Bool} (hnum : ¬ 0 < s.kernelEventNum)
    (hmine : mine = true → s.edge = true ∧ 0 < num) :
    KernelInv { s with kernelEventNum := num, fetched := mine, edge := s.edge && !mine } := by
  have hout : ¬ (s.kernelPc = .storeHave ∨ s.kernelPc = .linkWakeup ∨
      s.kernelPc = .storeZero true) := fun hpc => hnum (h.handled hpc)
  have hedge : s.EdgeInFlight → EdgeInFlight
      { s with kernelEventNum := num, fetched := mine, edge := s.edge && !mine } := by
    rintro (hedge | ⟨hpos, -⟩ | hstore)
    · cases mine with
      | false => exact .inl (by simpa using hedge)
      | true =>
        refine .inr (.inl ⟨(hmine rfl).2, rfl, ?_⟩)
        simp only
        cases hpc : s.kernelPc with
        | storeZero handled => cases handled <;> simp_all
        | _ => simp_all
    · exact absurd hpos hnum
    · exact absurd (.inl hstore) hout
  exact ⟨h.hand, h.armed, fun hpc => absurd hpc hout, fun hready => (h.flag hready).imp_right hedge,
    fun hwait hready => (h.woken hwait hready).imp_left hedge⟩

/-- A step that meets the condition keeps the invariant. -/
theorem KernelInv.step {a : KernelAct ι σ} (hc : Condition s a) (hstep : s.step bound a = some t) :
    KernelInv t := by
  cases a with
  | becomesReady =>
    simp only [KernelSys.step, Option.some.injEq] at hstep
    exact hstep ▸ ⟨h.hand, h.armed, h.handled, fun _ => .inr (.inl rfl), fun _ _ => .inl (.inl rfl)⟩
  | unready =>
    simp only [KernelSys.step] at hstep
    split at hstep <;> cases hstep
    refine ⟨h.hand, h.armed, h.handled, fun hready => h.flag ?_,
      fun hwait hready => h.woken hwait ?_⟩
    all_goals
      simp only at hready
      omega
  | fetch num mine =>
    simp only [KernelSys.step] at hstep
    split at hstep <;> cases hstep
    rename_i hguard
    refine h.fetch (by omega) fun hmine => ⟨?_, ?_⟩
    · by_contra hedge
      exact hguard (.inr (.inr (.inr ⟨hmine, .inl (by simpa using hedge)⟩)))
    · by_contra hnum
      exact hguard (.inr (.inr ((eq_or_ne num 0).imp_right fun hne => ⟨hmine, .inr (by omega)⟩)))
  | wakeupKernelEvent =>
    simp only [KernelSys.step] at hstep
    split at hstep
    · rename_i hout
      split at hstep <;> cases hstep
      · exact h
      · have hedge : s.EdgeInFlight → EdgeInFlight { s with kernelPc := .loop } := by
          intro hflight
          simpa [EdgeInFlight, hout.1] using hflight
        exact ⟨h.hand, h.armed, by simp, fun hready => (h.flag hready).imp_right hedge,
          fun hwait hready => (h.woken hwait hready).imp_left hedge⟩
    · cases hstep
  | kernelStep => exact h.kernelStep hc hstep
  | addSockEvent i =>
    simp only [KernelSys.step] at hstep
    split at hstep
    · cases hstep
    · obtain ⟨hand, hstart, rfl⟩ := Option.map_eq_some_iff.1 hstep
      exact h.hand_step (h.hand.startLink hstart) (Handshake.armed_of_startLink hstart)
        (fun _ => .startLink hstart) (.inl rfl)
  | wakeupStackEpoll i =>
    simp only [KernelSys.step] at hstep
    split at hstep
    · cases hstep
    · obtain ⟨hand, hstart, rfl⟩ := Option.map_eq_some_iff.1 hstep
      exact h.hand_step (h.hand.startWake hstart) (Handshake.armed_of_startWake hstart)
        (fun halert => halert.startWake hstart) (.inl rfl)
  | waker i =>
    obtain ⟨hand, hwaker, rfl⟩ := Option.map_eq_some_iff.1 hstep
    refine h.hand_step (h.hand.wakerStep hwaker) (Handshake.armed_of_wakerStep hwaker)
      (fun halert => halert.wakerStep h.hand hwaker) ?_
    split
    · rename_i hlink
      exact .inr ⟨hlink.2, rfl⟩
    · exact .inl rfl
  | wait maxevents timeout =>
    cases hpc : s.waiter with
    | idle =>
      simp only [KernelSys.step, hpc, Option.some.injEq] at hstep
      exact hstep ▸ ⟨h.hand, by simp [InLoop], h.handled, h.flag, by simp [Waiting]⟩
    | _ => simp [KernelSys.step, hpc] at hstep
  | scan table =>
    cases hpc : s.waiter with
    | scan maxevents timeout kernelNum =>
      simp only [KernelSys.step, hpc, Option.some.injEq] at hstep
      exact hstep ▸ ⟨h.hand, fun _ => h.armed (by simp [InLoop, hpc]), h.handled, h.flag,
        by simp [Waiting]⟩
    | _ => simp [KernelSys.step, hpc] at hstep
  | poll kernelNum =>
    cases hpc : s.waiter with
    | poll maxevents timeout lwipNum =>
      have hloop : s.InLoop := by simp [InLoop, hpc]
      simp only [KernelSys.step, hpc] at hstep
      split at hstep
      · cases hstep
      rename_i hreturns
      have herror := (not_not.1 hreturns).eq_neg_one
      split at hstep <;> cases hstep
      · exact ⟨h.hand, fun _ => h.armed hloop, h.handled, h.flag, by simp [Waiting]⟩
      · refine h.leaveOrWait hloop fun hsum hneg hready => ?_
        -- the waiter goes to sleep only when the call has failed
        exact (hc (by omega) ⟨_, _, _, hpc, hneg, by omega⟩).resolve_left (by omega)
    | _ => simp [KernelSys.step, hpc] at hstep
  | waiter => exact h.waiterStep hc hstep
  | timeout =>
    cases hpc : s.waiter with
    | lockWait maxevents timeout kernelNum =>
      simp only [KernelSys.step, hpc] at hstep
      split at hstep <;> cases hstep
      exact ⟨h.hand.leave, by simp [InLoop], h.handled, h.flag, by simp [Waiting]⟩
    | _ => simp [KernelSys.step, hpc] at hstep

omit [DecidableEq ι] in
/-- Under the invariant no kernel event is lost. -/
theorem KernelInv.kernelEventKept : s.KernelEventKept := by
  rintro ⟨hwait, hlocked⟩ hready
  by_cases hedge : s.EdgeInFlight
  · exact .inr hedge
  · have halert : s.hand.Alerted := (h.woken hwait hready).resolve_left hedge
    have hloop : s.InLoop := by
      obtain ⟨m, t, k, hpc, -⟩ := hwait
      simp [InLoop, hpc]
    exact .inl ⟨(h.flag hready).resolve_right hedge,
      h.hand.waker_of_alerted halert (h.armed hloop) hlocked⟩

end Steps

/-! ## Runs -/

/-- In the runs whose steps meet the condition no kernel event is lost. -/
theorem kernel_event_kept {bound : ι} {s : KernelSys ι}
    (hs : (system bound σ).ReachableUnder Condition s) : s.KernelEventKept :=
  KernelInv.kernelEventKept <| Transition.System.invariant_under
    (fun s (hinit : s = KernelSys.create) => hinit ▸ KernelInv.create)
    (fun _ _ _ h hc hstep => h.step hc hstep) hs

/-- The waiter has read what a first event announced, sees the flag still set and polls the
kernel in vain. Then a descriptor becomes ready, its edge is processed and the waiter woken up,
before the waiter clears the flag. -/
private def lostRun : List (KernelAct Unit Unit) :=
  [.becomesReady, .fetch 1 true, .wakeupKernelEvent, .kernelStep, .kernelStep, .waker (),
    .kernelStep, .wakeupStackEpoll (), .waker (), .waker (), .unready,
    .wait 8 (-1), .waiter, .scan ⟨fun _ => ⟨0, 0⟩, []⟩, .waiter, .poll 0,
    .becomesReady, .fetch 1 true, .wakeupKernelEvent, .kernelStep, .kernelStep, .waker (),
    .kernelStep, .wakeupStackEpoll (), .waker (), .waker (), .waker (), .waker (),
    .waiter, .waiter, .waiter, .scan ⟨fun _ => ⟨0, 0⟩, []⟩, .waiter]

/-- The state in which the waiter then sleeps. -/
private theorem lostRun_ends : ∃ s, (system () Unit).Reachable s ∧ s.Asleep ∧ s.ready = 1 ∧
    s.haveKernelEvent = false ∧ s.edge = false ∧ s.kernelEventNum = 0 ∧ s.kernelPc = .outside :=
  ⟨_, Transition.System.reachable_of_run (l := lostRun) (.init rfl) rfl,
    ⟨⟨_, _, _, rfl, by decide⟩, rfl⟩, rfl, rfl, rfl, rfl, rfl⟩

/-- The waiter sleeps while a descriptor is ready, the flag is not set, and the edge is gone. -/
theorem kernel_event_lost :
    ¬ ∀ s, (system () Unit).Reachable s → s.Asleep → 0 < s.ready →
      (s.haveKernelEvent = true ∧ s.WakeupPending) ∨ s.EdgeInFlight := by
  intro hclaim
  obtain ⟨s, hs, hasleep, hready, hhave, hedge, hnum, hpc⟩ := lostRun_ends
  rcases hclaim s hs hasleep (by omega) with ⟨hset, -⟩ | hflight
  · rw [hhave] at hset
    cases hset
  · simp [EdgeInFlight, hedge, hnum, hpc] at hflight

/-- A descriptor becomes ready while the waiter sleeps, and its wake-up is linked. -/
theorem kernel_event_kept_linked :
    ∃ s, (system () Unit).ReachableUnder Condition s ∧ s.Asleep ∧ s.ready = 1 ∧
      s.KernelEventKept := by
  have hwait := (Transition.System.ReachableUnder.init (M := system () Unit) (C := Condition)
    rfl).step (a := .wait 8 (-1)) (by trivial) rfl
  have harmed := hwait.step (a := .waiter) (by rintro ⟨_, _, _, h⟩; cases h) rfl
  have hscanned := harmed.step (a := .scan ⟨fun _ => ⟨0, 0⟩, []⟩) (by trivial) rfl
  have hasleep := hscanned.step (a := .waiter) (by rintro ⟨_, _, _, h⟩; cases h) rfl
  have hready := hasleep.step (a := .becomesReady) (by trivial) rfl
  have hfetched := hready.step (a := .fetch 1 true) (by trivial) rfl
  have hcalled := hfetched.step (a := .wakeupKernelEvent) (by trivial) rfl
  have hfound := hcalled.step (a := .kernelStep) (by intro h; cases h) rfl
  have hstored := hfound.step (a := .kernelStep) (by intro h; cases h) rfl
  have hlinked := hstored.step (a := .waker ()) (by trivial) rfl
  exact ⟨_, hlinked, ⟨⟨_, _, _, rfl, by decide⟩, rfl⟩, rfl, kernel_event_kept hlinked⟩

end KernelSys

end Gazelle
