import Gazelle.Transition.System
import Mathlib.Data.Int.Notation

/-!
# Send notifications

An application thread runs `gazelle_send`, that is `write_stack_data` and then
`notice_stack_send`; the stack thread runs `stack_send` for the messages it pops. Both count
the messages of the socket in `call_num`, after the push and apart from it.

* `SendSys.system`: every access to `call_num`, push, pop and test of the ring is a step;
* `call_num_eq`: what `call_num` shows in every reachable state;
* `send_notice_iff`: no notification is lost and `call_num` never gets negative in exactly the
  runs in which every message is counted before the stack uncounts it;
* `send_notice_lost`: a run that ends with data to send, no message, and both threads at rest.
-/

namespace Gazelle

/-- The data of a socket that is on its way from the application to lwIP. -/
structure SendData where
  /-- `gazelle_ring_readover_count(sock->send_ring)`. -/
  readover : ℕ
  /-- `sock->send_lastdata` is not `NULL`. -/
  sendLastdata : Bool
  /-- `sock->send_pre_del` is not `NULL`. -/
  sendPreDel : Bool
  deriving DecidableEq

namespace SendData

/-- `NETCONN_IS_DATAOUT`. -/
def isDataOut (d : SendData) : Bool := d.readover ≠ 0 || d.sendLastdata || d.sendPreDel

/-- `write_lwip_data`: `fits` says whether the next pbuf is at most `remain_size` long, `more`
whether it has a chain attached. -/
def writeLwipData (d : SendData) (fits more : Bool) : SendData :=
  if d.sendPreDel then
    if fits && more then { d with sendLastdata := true } else d
  else if d.sendLastdata then
    if fits then { d with sendPreDel := true, sendLastdata := more } else d
  else if d.readover = 0 then d
  else
    { readover := d.readover - 1, sendPreDel := true, sendLastdata := fits && more }

/-- `write_lwip_over`. -/
def writeLwipOver (d : SendData) : SendData := { d with sendPreDel := false }

end SendData

/-- Where the application stands in `gazelle_send`. -/
inductive GazelleSendPc
  /-- Outside the function. -/
  | idle
  /-- In `write_stack_data`, which has `stored` data for the stack or not yet. -/
  | writeStackData (stored : Bool)
  /-- In `notice_stack_send`, before the load of `call_num`. -/
  | loadCallNum
  /-- In `notice_stack_send`, before `rpc_call_send`. -/
  | rpcCallSend
  /-- In `notice_stack_send`, before the increment of `call_num`. -/
  | addCallNum
  deriving DecidableEq

/-- Where the stack thread stands in `stack_send`. -/
inductive StackSendPc
  /-- Outside the function. -/
  | idle
  /-- In `do_lwip_send`. -/
  | doLwipSend
  /-- Before the decrement of `call_num`. -/
  | subCallNum (replenishAgain : Bool)
  /-- Before the test of `NETCONN_IS_DATAOUT`. -/
  | testDataOut (replenishAgain : Bool)
  /-- Before the load of `call_num`. -/
  | loadCallNum
  /-- Before the push of the message back to the queue. -/
  | rpcCall
  /-- Before the increment of `call_num`. -/
  | addCallNum
  deriving DecidableEq

/-- One socket with the application thread that sends on it and its stack thread. -/
structure SendSys where
  /-- The data on its way to lwIP. -/
  data : SendData
  /-- `sock->call_num`. -/
  callNum : ℤ
  /-- The number of `stack_send` messages for the socket in `stack->rpc_queue`. -/
  queued : ℕ
  /-- The application thread. -/
  app : GazelleSendPc
  /-- The stack thread. -/
  stack : StackSendPc
  deriving DecidableEq

/-- The actions of the two threads. -/
inductive SendAct
  /-- The application calls `gazelle_send`. -/
  | gazelleSend
  /-- `write_stack_data` stores data: it reads `n` pbufs of the ring over, or, with `n = 0`,
  extends the last one. -/
  | store (n : ℕ)
  /-- `write_stack_data` returns a positive length or not; it never stores data and then
  returns nothing. -/
  | writeReturn (positive : Bool)
  /-- `notice_stack_send` loads `call_num`. -/
  | noticeLoad
  /-- `rpc_call_send` pushes a message, or finds none to allocate. -/
  | noticePush (allocated : Bool)
  /-- `notice_stack_send` increments `call_num`. -/
  | noticeAdd
  /-- The stack thread pops a message and calls `stack_send`. -/
  | pop
  /-- `lwip_send` calls `write_lwip_data`. -/
  | writeLwipData (fits more : Bool)
  /-- `lwip_send` calls `write_lwip_over`. -/
  | writeLwipOver
  /-- `do_lwip_send` returns. -/
  | lwipSendReturn (replenishAgain : Bool)
  /-- `stack_send` decrements `call_num`. -/
  | stackSub
  /-- `stack_send` tests `NETCONN_IS_DATAOUT`. -/
  | stackTest
  /-- `stack_send` loads `call_num`. -/
  | stackLoad
  /-- `stack_send` pushes the message back. -/
  | stackPush
  /-- `stack_send` increments `call_num`. -/
  | stackAdd
  deriving DecidableEq

namespace SendSys

/-- A socket after `gazelle_init_sock`. -/
def create : SendSys where
  data := ⟨0, false, false⟩
  callNum := 0
  queued := 0
  app := .idle
  stack := .idle

/-- One step of one thread. -/
def step (s : SendSys) : SendAct → Option SendSys
  | .gazelleSend =>
    match s.app with
    | .idle => some { s with app := .writeStackData false }
    | _ => none
  | .store n =>
    match s.app with
    | .writeStackData _ =>
      some { s with
        data := { s.data with readover := s.data.readover + n }
        app := .writeStackData true }
    | _ => none
  | .writeReturn positive =>
    match s.app with
    | .writeStackData stored =>
      if positive then some { s with app := .loadCallNum }
      else if stored then none
      else some { s with app := .idle }
    | _ => none
  | .noticeLoad =>
    match s.app with
    | .loadCallNum => some { s with app := if s.callNum < 2 then .rpcCallSend else .idle }
    | _ => none
  | .noticePush allocated =>
    match s.app with
    | .rpcCallSend =>
      if allocated then some { s with queued := s.queued + 1, app := .addCallNum } else some s
    | _ => none
  | .noticeAdd =>
    match s.app with
    | .addCallNum => some { s with callNum := s.callNum + 1, app := .idle }
    | _ => none
  | .pop =>
    match s.stack with
    | .idle =>
      if s.queued = 0 then none
      else some { s with queued := s.queued - 1, stack := .doLwipSend }
    | _ => none
  | .writeLwipData fits more =>
    match s.stack with
    | .doLwipSend => some { s with data := s.data.writeLwipData fits more }
    | _ => none
  | .writeLwipOver =>
    match s.stack with
    | .doLwipSend => some { s with data := s.data.writeLwipOver }
    | _ => none
  | .lwipSendReturn replenishAgain =>
    match s.stack with
    | .doLwipSend => some { s with stack := .subCallNum replenishAgain }
    | _ => none
  | .stackSub =>
    match s.stack with
    | .subCallNum replenishAgain =>
      some { s with callNum := s.callNum - 1, stack := .testDataOut replenishAgain }
    | _ => none
  | .stackTest =>
    match s.stack with
    | .testDataOut replenishAgain =>
      if !s.data.isDataOut && !replenishAgain then some { s with stack := .idle }
      else some { s with stack := .loadCallNum }
    | _ => none
  | .stackLoad =>
    match s.stack with
    | .loadCallNum => some { s with stack := if s.callNum = 0 then .rpcCall else .idle }
    | _ => none
  | .stackPush =>
    match s.stack with
    | .rpcCall => some { s with queued := s.queued + 1, stack := .addCallNum }
    | _ => none
  | .stackAdd =>
    match s.stack with
    | .addCallNum => some { s with callNum := s.callNum + 1, stack := .idle }
    | _ => none

/-- All interleavings of the two threads. -/
def system : Transition.System SendSys SendAct where
  Init s := s = create
  step := step

/-! ## What `call_num` shows -/

/-- The application has pushed a message and not yet counted it. -/
def appOwes (s : SendSys) : ℤ := if s.app = .addCallNum then 1 else 0

/-- What the stack has not yet counted: a message popped, or one pushed back. -/
def stackOwes (s : SendSys) : ℤ :=
  match s.stack with
  | .doLwipSend => 1
  | .subCallNum _ => 1
  | .addCallNum => -1
  | _ => 0

/-- `call_num` is the number of queued messages up to what the threads have still to count. -/
def Balanced (s : SendSys) : Prop := s.callNum = s.queued - s.appOwes + s.stackOwes

/-- Both threads are outside `gazelle_send` and `stack_send`. -/
def Quiescent (s : SendSys) : Prop := s.app = .idle ∧ s.stack = .idle

/-- Data is waiting for the stack only when a message is queued, or one of the threads will
still queue or handle one. -/
def Noticed (s : SendSys) : Prop :=
  s.data.isDataOut → 0 < s.queued ∨
    (∃ stored, s.app = .writeStackData stored ∧ stored = true) ∨ s.app = .loadCallNum ∨
    s.app = .rpcCallSend ∨ (s.stack ≠ .idle ∧ s.stack ≠ .addCallNum)

/-- Every step keeps `call_num` balanced. -/
theorem Balanced.step {s s' : SendSys} {a : SendAct} (h : s.Balanced)
    (hstep : s.step a = some s') : s'.Balanced := by
  unfold Balanced appOwes stackOwes at *
  cases a <;> simp only [SendSys.step] at hstep <;> grind

/-- In every reachable state `call_num` is the number of queued messages, up to the one that
either thread has still to count. -/
theorem call_num_eq {s : SendSys} (hs : system.Reachable s) :
    s.callNum = s.queued - s.appOwes + s.stackOwes :=
  Transition.System.invariant (I := Balanced)
    (fun s (hinit : s = create) => by subst hinit; rfl) (fun _ _ _ _ h hstep => h.step hstep) hs

/-- Between the calls `call_num` is the number of queued messages. -/
theorem Balanced.quiescent {s : SendSys} (h : s.Balanced) (hq : s.Quiescent) :
    s.callNum = s.queued := by
  have heq : s.callNum = s.queued - s.appOwes + s.stackOwes := h
  simpa [appOwes, stackOwes, hq.1, hq.2] using heq

/-! ## No notification is lost while `call_num` is not negative -/

/-- While the stack holds no message it has not counted, what is counted is queued. -/
theorem Balanced.queued_ge {s : SendSys} (h : s.Balanced) :
    s.callNum ≤ s.queued + 1 ∧ (s.stack = .loadCallNum → s.callNum ≤ s.queued) := by
  unfold Balanced appOwes stackOwes at h
  grind

/-- Every step keeps the data noticed, as long as `call_num` is not negative. -/
theorem Noticed.step {s s' : SendSys} {a : SendAct} (h : s.Noticed) (hb : s.Balanced)
    (hpos : 0 ≤ s.callNum) (hstep : s.step a = some s') : s'.Noticed := by
  intro hout
  have hcount := hb.queued_ge
  unfold Noticed at h
  cases a with
  | noticeLoad =>
    -- the message is left out only when two are counted, and one of these is queued
    by_cases htwo : s.callNum < 2
    · simp only [SendSys.step] at hstep
      grind
    · have hqueued : 0 < s.queued := by omega
      simp only [SendSys.step] at hstep
      grind
  | stackTest =>
    cases hpc : s.stack with
    | testDataOut replenishAgain =>
      by_cases hfree : (!s.data.isDataOut && !replenishAgain) = true
      · simp only [SendSys.step, hpc, if_pos hfree, Option.some.injEq] at hstep
        subst hstep
        simp_all
      · simp only [SendSys.step, hpc, if_neg hfree, Option.some.injEq] at hstep
        subst hstep
        simp
    | _ => simp [SendSys.step, hpc] at hstep
  | stackLoad =>
    cases hpc : s.stack with
    | loadCallNum =>
      simp only [SendSys.step, hpc, Option.some.injEq] at hstep
      subst hstep
      by_cases hzero : s.callNum = 0
      · simp [hzero]
      · -- another message is counted, and thus queued
        have hle : s.callNum ≤ s.queued := hcount.2 hpc
        exact .inl (by simp only; omega)
    | _ => simp [SendSys.step, hpc] at hstep
  | writeLwipData fits more =>
    simp only [SendSys.step] at hstep
    grind
  | writeLwipOver =>
    simp only [SendSys.step] at hstep
    grind
  | _ =>
    simp only [SendSys.step] at hstep
    grind

/-- The property of a state: `call_num` is not negative, and between the calls waiting data has
a message queued and `call_num` is the number of queued messages. -/
def NoticeKept (s : SendSys) : Prop :=
  0 ≤ s.callNum ∧
    (s.Quiescent → (s.data.isDataOut → 0 < s.queued) ∧ s.callNum = s.queued)

/-- The condition on a step: when the stack uncounts a message, some message is counted. -/
def Counted (s : SendSys) (a : SendAct) : Prop := a = .stackSub → 0 < s.callNum

/-- The invariant of the runs in which every message is counted before it is uncounted. -/
structure SendInv (s : SendSys) : Prop where
  /-- `call_num` is balanced. -/
  balanced : s.Balanced
  /-- `call_num` is not negative. -/
  callNum_nonneg : 0 ≤ s.callNum
  /-- Waiting data is noticed. -/
  noticed : s.Noticed

/-- Only the decrement of `call_num` by the stack lowers it. -/
theorem callNum_le_of_step {s s' : SendSys} {a : SendAct} (ha : a ≠ .stackSub)
    (hstep : s.step a = some s') : s.callNum ≤ s'.callNum := by
  cases a <;> simp only [SendSys.step] at hstep <;> grind

/-- The decrement of `call_num` lowers it by one. -/
theorem callNum_of_stackSub {s s' : SendSys} (hstep : s.step .stackSub = some s') :
    s'.callNum = s.callNum - 1 := by
  simp only [SendSys.step] at hstep
  grind

/-- A step that meets the condition keeps the invariant. -/
theorem SendInv.step {s s' : SendSys} {a : SendAct} (h : s.SendInv) (hc : Counted s a)
    (hstep : s.step a = some s') : s'.SendInv where
  balanced := h.balanced.step hstep
  callNum_nonneg := by
    by_cases ha : a = .stackSub
    · subst ha
      rw [callNum_of_stackSub hstep]
      have hpos := hc rfl
      omega
    · exact Int.le_trans h.callNum_nonneg (callNum_le_of_step ha hstep)
  noticed := h.noticed.step h.balanced h.callNum_nonneg hstep

/-- The invariant entails the property. -/
theorem SendInv.noticeKept {s : SendSys} (h : s.SendInv) : s.NoticeKept := by
  refine ⟨h.callNum_nonneg, fun hq => ⟨fun hout => ?_, h.balanced.quiescent hq⟩⟩
  rcases h.noticed hout with hqueued | ⟨_, happ, -⟩ | happ | happ | ⟨hstack, -⟩
  · exact hqueued
  · simp [hq.1] at happ
  · simp [hq.1] at happ
  · simp [hq.1] at happ
  · exact absurd hq.2 hstack

/-- Along a run of the two threads, `call_num` never gets negative and no notification is lost
exactly when the stack finds `call_num` positive whenever it uncounts a message. -/
theorem send_notice_iff (as : List SendAct) :
    system.statesHold NoticeKept create as ↔ system.stepsMeet Counted create as := by
  apply Transition.System.statesHold_iff_stepsMeet (J := SendInv)
  · exact fun s h => h.noticeKept
  · exact fun s a s' h hc hstep => h.step hc hstep
  · rintro s a s' h hkept hstep rfl
    have hnonneg := hkept.1
    rw [callNum_of_stackSub hstep] at hnonneg
    omega
  · exact ⟨rfl, Int.le_refl 0, fun hout => by simp [create, SendData.isDataOut] at hout⟩

/-- The application pushes its message, the stack handles it and sends nothing, uncounts it and
finds `call_num` not zero; only then the application counts the message. -/
private def lostRun : List SendAct :=
  [.gazelleSend, .store 1, .writeReturn true, .noticeLoad, .noticePush true, .pop,
    .lwipSendReturn false, .stackSub, .stackTest, .stackLoad, .noticeAdd]

/-- Both threads are outside their functions, data is waiting, and no message is queued. -/
theorem send_notice_lost :
    ¬ ∀ s, system.Reachable s →
      0 ≤ s.callNum ∧
        (s.Quiescent → (s.data.isDataOut → 0 < s.queued) ∧ s.callNum = s.queued) := by
  intro hclaim
  have hs : system.Reachable ⟨⟨1, false, false⟩, 0, 0, .idle, .idle⟩ :=
    Transition.System.reachable_of_run (l := lostRun) (.init rfl) (by decide)
  have hlost := ((hclaim _ hs).2 ⟨rfl, rfl⟩).1 rfl
  exact absurd hlost (by decide)

end SendSys

end Gazelle
