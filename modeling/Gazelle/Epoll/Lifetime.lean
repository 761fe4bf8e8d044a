import Gazelle.Transition.System
import Gazelle.Epoll.Basic
import Mathlib.Data.Int.Notation

/-!
# The lifetime of an epoll instance

A `struct wakeup_poll` is allocated by `lstack_do_epoll_create` and freed by `lstack_epoll_close`.
In between it is referred to by `sock->wakeup` of its sockets, by the `wakeup_list` of each stack,
by the kernel events of the stack that watches its descriptor, and by local variables. The functions
of the application threads, of the stack threads and of the kernel-event threads are split into
their accesses to what they share.

* `LifeSys.system`: all interleavings of the threads;
* `LifeSys.Safe`: no stack thread has a pointer to a freed instance;
* `LifeSys.Condition`: what the steps have to meet.
-/

namespace Gazelle

/-- `enum wakeup_type`. -/
inductive WakeupType
  /-- `WAKEUP_EPOLL`. -/
  | epoll
  /-- `WAKEUP_POLL`. -/
  | poll
  /-- `WAKEUP_CLOSE`. -/
  | close
  deriving DecidableEq

/-- `struct wakeup_poll`, for descriptors `σ`. -/
structure WakeupPoll (σ : Type*) where
  /-- `type`. -/
  type : WakeupType
  /-- `have_kernel_event`. -/
  haveKernelEvent : Bool
  /-- `epollfd`. -/
  epollfd : σ

/-- What became of a block of memory. -/
inductive Allocation
  /-- It was not allocated yet. -/
  | unused
  /-- It is allocated. -/
  | live
  /-- It was freed. -/
  | freed
  deriving DecidableEq

/-- `struct lwip_sock`, one for each descriptor, for the stacks `κ` and the instances `ω`. -/
structure LifeSock (κ ω : Type*) where
  /-- `stack`, `NULL` unless there is a socket. -/
  stack : Option κ
  /-- `wakeup`. -/
  wakeup : Option ω
  /-- The masks. -/
  masks : EpollSock
  /-- The instance in whose `event_list` the socket is linked. -/
  eventList : Option ω

/-- The operations of `lstack_epoll_ctl`. -/
inductive CtlOp
  /-- `EPOLL_CTL_ADD`. -/
  | add
  /-- `EPOLL_CTL_MOD`. -/
  | mod
  /-- `EPOLL_CTL_DEL`. -/
  | del
  deriving DecidableEq

/-- Where an application thread stands, with its live local variables. -/
inductive AppPc (σ ω : Type*)
  /-- Outside the functions. -/
  | idle
  /-- `lstack_epoll_ctl`: before the `switch`. -/
  | ctl (op : CtlOp) (wakeup : ω) (sock : σ) (events : EpollMask)
  /-- `lstack_epoll_ctl`: before the store to `epoll_events`. -/
  | modify (op : CtlOp) (wakeup : ω) (sock : σ) (events : EpollMask)
  /-- `raise_pending_events`: before the `event_list_lock` section. -/
  | raise (op : CtlOp) (wakeup : ω) (sock : σ) (events : EpollMask)
  /-- `lstack_epoll_ctl`: before the section of `EPOLL_CTL_DEL`. -/
  | delete (wakeup : ω) (sock : σ) (events : EpollMask)
  /-- `lstack_epoll_ctl`: before it turns to the next listening socket. -/
  | next (op : CtlOp) (wakeup : ω) (sock : σ) (events : EpollMask)
  /-- `lstack_epoll_close`: before the store of `WAKEUP_CLOSE`. -/
  | mark (fd : σ) (wakeup : ω)
  /-- `stack_broadcast_clean_epoll`: before the call to the stack with the given index. -/
  | clean (fd : σ) (wakeup : ω) (idx : ℕ)
  /-- `lstack_epoll_close`: before `event_list` is emptied. -/
  | unlink (fd : σ) (wakeup : ω)
  /-- `lstack_epoll_close`: before `free`. -/
  | free (fd : σ) (wakeup : ω)
  /-- `lstack_epoll_close`: before the store of `NULL` to `wakeup` of the descriptor. -/
  | forget (fd : σ) (wakeup : ω)
  /-- `lstack_epoll_close`: before the descriptor is closed. -/
  | closeFd (fd : σ) (wakeup : ω)

/-- The descriptor that a thread closes with `lstack_epoll_close`. -/
def AppPc.closing? {σ ω : Type*} : AppPc σ ω → Option σ
  | mark fd _ => some fd
  | clean fd _ _ => some fd
  | unlink fd _ => some fd
  | free fd _ => some fd
  | forget fd _ => some fd
  | closeFd fd _ => some fd
  | _ => none

/-- Where a stack thread stands, with its live local variables. -/
inductive EventPc (σ ω : Type*)
  /-- Outside the functions. -/
  | idle
  /-- `add_sock_event`: before the first test of `type`. -/
  | addType (sock : σ) (wakeup : ω) (event : EpollMask)
  /-- `add_sock_event`: before the second test of `type`. -/
  | addEpoll (sock : σ) (wakeup : ω) (event : EpollMask)
  /-- `add_sock_event`: before the `event_list_lock` section. -/
  | addSection (sock : σ) (wakeup : ω) (event : EpollMask)
  /-- `add_sock_event`: before the wake-up is linked. -/
  | link (wakeup : ω)
  /-- `wakeup_stack_epoll`: before the next node of `wakeup_list`. -/
  | wakeupStack
  /-- `wakeup_kernel_event`: before the test `i < stack->kernel_event_num`. -/
  | kernelLoop (i : ℕ)
  /-- `wakeup_kernel_event`: before the test of `type`. -/
  | kernelType (i : ℕ) (wakeup : ω)
  /-- `wakeup_kernel_event`: before the store to `have_kernel_event`. -/
  | kernelLink (i : ℕ) (wakeup : ω)
  /-- `gazelle_clean_sock`: before the socket is unlinked. -/
  | cleanSock (sock : σ)
  /-- `gazelle_clean_sock`: before `reset_sock_data`. -/
  | resetSock (sock : σ)

namespace EventPc

variable {σ ω : Type*}

/-- The instance to which a local variable points. -/
def wakeup? : EventPc σ ω → Option ω
  | addType _ w _ => some w
  | addEpoll _ w _ => some w
  | addSection _ w _ => some w
  | link w => some w
  | kernelType _ w => some w
  | kernelLink _ w => some w
  | _ => none

/-- `add_sock_event` works on the socket, with this instance. -/
def adds? : EventPc σ ω → Option (σ × ω)
  | addType x w _ => some (x, w)
  | addEpoll x w _ => some (x, w)
  | addSection x w _ => some (x, w)
  | _ => none

/-- The thread has found an instance that is not being closed, and is going to link its wake-up. -/
def links? : EventPc σ ω → Option ω
  | addEpoll _ w _ => some w
  | addSection _ w _ => some w
  | link w => some w
  | kernelLink _ w => some w
  | _ => none

end EventPc

/-- The application threads `ι`, `stackNum` stacks, the descriptors `σ` and the instances `ω`. -/
structure LifeSys (stackNum : ℕ) (ι σ ω : Type*) where
  /-- The instances. -/
  wakeup : ω → WakeupPoll σ
  /-- Their memory. -/
  alloc : ω → Allocation
  /-- The sockets. -/
  sock : σ → LifeSock (Fin stackNum) ω
  /-- The descriptors that are open. -/
  fdOpen : σ → Bool
  /-- The stack whose `epollfd` watches the descriptor of an instance. -/
  watched : ω → Option (Fin stackNum)
  /-- `stack->wakeup_list`. -/
  wakeupList : Fin stackNum → List ω
  /-- `data.ptr` of `stack->kernel_events`. -/
  kernelEvents : Fin stackNum → List ω
  /-- `stack->kernel_event_num`. -/
  kernelEventNum : Fin stackNum → ℤ
  /-- The stack threads. -/
  stackPc : Fin stackNum → EventPc σ ω
  /-- The application threads. -/
  app : ι → AppPc σ ω

/-- What a step of an application thread finds. -/
structure AppEnv (σ : Type*) where
  /-- The events that `raise_pending_events` finds. -/
  raised : EpollMask
  /-- `sock->listen_next`. -/
  listenNext : Option σ
  /-- `rpc_msg_alloc` returns a message. -/
  msg : Bool

/-- The steps. -/
inductive LifeAct (stackNum : ℕ) (ι σ ω : Type*)
  /-- `lstack_do_epoll_create` for a descriptor of the kernel, with the block that `calloc`
  returns and the stack that `update_epoll_max_stack` chooses. -/
  | create (i : ι) (fd : σ) (wakeup : ω) (stack : Fin stackNum)
  /-- A thread calls `lstack_epoll_ctl`. -/
  | ctl (i : ι) (op : CtlOp) (epfd sock : σ) (events : EpollMask)
  /-- A thread calls `lstack_epoll_close`. -/
  | close (i : ι) (fd : σ)
  /-- An application thread makes its next access. -/
  | app (i : ι) (env : AppEnv σ)
  /-- A stack creates a socket; `ok` says whether the rings were created. -/
  | socket (k : Fin stackNum) (sock : σ) (ok : Bool)
  /-- A stack calls `gazelle_clean_sock`. -/
  | cleanSock (k : Fin stackNum) (sock : σ)
  /-- A stack calls `add_sock_event`. -/
  | addSockEvent (k : Fin stackNum) (sock : σ) (event : EpollMask)
  /-- A stack calls `wakeup_stack_epoll`. -/
  | wakeupStackEpoll (k : Fin stackNum)
  /-- A stack calls `wakeup_kernel_event`. -/
  | wakeupKernelEvent (k : Fin stackNum)
  /-- A stack thread makes its next access; `outdated` says whether the event is. -/
  | stack (k : Fin stackNum) (outdated : Bool)
  /-- The kernel's `epoll_wait` returns entries, or `-1`, to a kernel-event thread. -/
  | fetch (k : Fin stackNum) (entries : Option (List ω))

/-- `KERNEL_EPOLL_MAX`. -/
def kernelEpollMax : ℕ := 512

namespace LifeSys

variable {stackNum : ℕ} {ι σ ω : Type*} [DecidableEq ι] [DecidableEq σ] [DecidableEq ω]
  (s : LifeSys stackNum ι σ ω)

/-- An application thread goes on. -/
def goto (i : ι) (pc : AppPc σ ω) : LifeSys stackNum ι σ ω :=
  { s with app := Function.update s.app i pc }

/-- A stack thread goes on. -/
def stackGoto (k : Fin stackNum) (pc : EventPc σ ω) : LifeSys stackNum ι σ ω :=
  { s with stackPc := Function.update s.stackPc k pc }

/-- Write to a socket. -/
def modifySock (x : σ) (f : LifeSock (Fin stackNum) ω → LifeSock (Fin stackNum) ω) :
    LifeSys stackNum ι σ ω :=
  { s with sock := Function.update s.sock x (f (s.sock x)) }

/-- Write to an instance. -/
def modifyWakeup (w : ω) (f : WakeupPoll σ → WakeupPoll σ) : LifeSys stackNum ι σ ω :=
  { s with wakeup := Function.update s.wakeup w (f (s.wakeup w)) }

/-- `list_del_node_null` on the wake-up of an instance in the list of a stack. -/
def unlinkWakeup (k : Fin stackNum) (w : ω) : LifeSys stackNum ι σ ω :=
  { s with wakeupList := Function.update s.wakeupList k ((s.wakeupList k).filter (· ≠ w)) }

/-- Link the wake-up of an instance, unless it is linked. -/
def linkWakeup (k : Fin stackNum) (w : ω) : LifeSys stackNum ι σ ω :=
  if w ∈ s.wakeupList k then s
  else { s with wakeupList := Function.update s.wakeupList k (s.wakeupList k ++ [w]) }

/-- `reset_sock_data`, as far as events are concerned. -/
def resetSockData (sock : LifeSock (Fin stackNum) ω) : LifeSock (Fin stackNum) ω :=
  { sock with stack := none, wakeup := none, masks := ⟨0, 0⟩ }

/-- `raise_pending_events` links the socket. -/
def raises (w : ω) (x : σ) (event : EpollMask) : Bool :=
  event ≠ 0 ∧ (s.wakeup w).type = .epoll ∧ event &&& (s.sock x).masks.epollEvents ≠ 0 ∧
    (s.sock x).eventList = none

/-- The next access in `lstack_epoll_ctl`. -/
def ctlStep (i : ι) (env : AppEnv σ) : AppPc σ ω → Option (LifeSys stackNum ι σ ω)
  | .ctl op w x events =>
    match op with
    | .add =>
      some ((s.modifySock x fun sock => { sock with wakeup := some w }).goto i
        (.modify op w x events))
    | .mod => some (s.goto i (.modify op w x events))
    | .del =>
      some ((s.modifySock x fun sock => { sock with masks.epollEvents := 0 }).goto i
        (.delete w x events))
  | .modify op w x events =>
    some ((s.modifySock x fun sock =>
      { sock with masks.epollEvents := events ||| epollErr ||| epollHup }).goto i
        (.raise op w x events))
  | .raise op w x events =>
    some ((s.modifySock x fun sock =>
      { sock with
        masks.events := if env.raised = 0 then sock.masks.events else env.raised
        eventList := if s.raises w x env.raised then some w else sock.eventList }).goto i
        (.next op w x events))
  | .delete w x events =>
    some ((s.modifySock x fun sock => { sock with eventList := none }).goto i
      (.next .del w x events))
  | .next op w _ events =>
    match env.listenNext with
    | none => some (s.goto i .idle)
    | some x => some (s.goto i (.ctl op w x events))
  | _ => none

/-- The next access in `lstack_epoll_close`. -/
def closeStep (i : ι) (env : AppEnv σ) : AppPc σ ω → Option (LifeSys stackNum ι σ ω)
  | .mark fd w =>
    some ((s.modifyWakeup w fun wakeup => { wakeup with type := .close }).goto i (.clean fd w 0))
  | .clean fd w idx =>
    if h : idx < stackNum then
      if env.msg then
        -- `stack_clean_epoll` is called by the stack thread between its other functions
        match s.stackPc ⟨idx, h⟩ with
        | .idle => some ((s.unlinkWakeup ⟨idx, h⟩ w).goto i (.clean fd w (idx + 1)))
        | _ => none
      else some (s.goto i (.clean fd w (idx + 1)))
    else some (s.goto i (.unlink fd w))
  | .unlink fd w =>
    some { s.goto i (.free fd w) with
      sock := fun x =>
        if (s.sock x).eventList = some w then { s.sock x with eventList := none } else s.sock x }
  | .free fd w => some { s.goto i (.forget fd w) with alloc := Function.update s.alloc w .freed }
  | .forget fd w =>
    some ((s.modifySock fd fun sock => { sock with wakeup := none }).goto i (.closeFd fd w))
  | .closeFd fd w =>
    some { s.goto i .idle with
      fdOpen := Function.update s.fdOpen fd false
      watched := Function.update s.watched w none }
  | _ => none

/-- The next access of a stack thread. -/
def stackStep (k : Fin stackNum) (outdated : Bool) : Option (LifeSys stackNum ι σ ω) :=
  match s.stackPc k with
  | .idle => none
  | .addType x w event =>
    if (s.wakeup w).type = .close ∨ event &&& (s.sock x).masks.epollEvents = 0 then
      some (s.stackGoto k .idle)
    else some (s.stackGoto k (.addEpoll x w event))
  | .addEpoll x w event =>
    if (s.wakeup w).type = .epoll then some (s.stackGoto k (.addSection x w event))
    else some (s.stackGoto k (.link w))
  | .addSection x w event =>
    if outdated then some (s.stackGoto k .idle)
    else
      some ((s.modifySock x fun sock =>
        { sock with
          masks.events := sock.masks.events ||| EventTable.raised sock.masks event
          eventList := if sock.eventList = none then some w else sock.eventList }).stackGoto k
          (.link w))
  | .link w => some ((s.linkWakeup k w).stackGoto k .idle)
  | .wakeupStack =>
    match s.wakeupList k with
    | [] => some (s.stackGoto k .idle)
    | w :: _ => some (s.unlinkWakeup k w)
  | .kernelLoop i =>
    if i < s.kernelEventNum k then
      (s.kernelEvents k)[i]?.map fun w => s.stackGoto k (.kernelType i w)
    else
      some { s.stackGoto k .idle with kernelEventNum := Function.update s.kernelEventNum k 0 }
  | .kernelType i w =>
    if (s.wakeup w).type = .close then some (s.stackGoto k (.kernelLoop (i + 1)))
    else some (s.stackGoto k (.kernelLink i w))
  | .kernelLink i w =>
    some (((s.modifyWakeup w fun wakeup => { wakeup with haveKernelEvent := true }).linkWakeup k
      w).stackGoto k (.kernelLoop (i + 1)))
  | .cleanSock x =>
    -- the socket is unlinked only from an instance that is not being closed
    match (s.sock x).wakeup with
    | some w =>
      if (s.wakeup w).type = .epoll then
        some ((s.modifySock x fun sock => { sock with eventList := none }).stackGoto k
          (.resetSock x))
      else some (s.stackGoto k (.resetSock x))
    | none => some (s.stackGoto k (.resetSock x))
  | .resetSock x =>
    -- then the descriptor is closed
    some { (s.modifySock x resetSockData).stackGoto k .idle with
      fdOpen := Function.update s.fdOpen x false }

/-- One step of one thread. -/
def step : LifeAct stackNum ι σ ω → Option (LifeSys stackNum ι σ ω)
  | .create i fd w k =>
    match s.app i with
    | .idle =>
      if s.fdOpen fd = false ∧ s.alloc w = .unused then
        some { s.modifySock fd fun sock => { sock with wakeup := some w } with
          wakeup := Function.update s.wakeup w ⟨.epoll, false, fd⟩
          alloc := Function.update s.alloc w .live
          fdOpen := Function.update s.fdOpen fd true
          watched := Function.update s.watched w (some k) }
      else none
    | _ => none
  | .ctl i op epfd x events =>
    match s.app i, (s.sock epfd).wakeup with
    | .idle, some w =>
      if epfd ≠ x ∧ (s.sock x).stack.isSome then some (s.goto i (.ctl op w x events)) else none
    | _, _ => none
  | .close i fd =>
    match s.app i, (s.sock fd).wakeup with
    | .idle, some w => if (s.wakeup w).epollfd = fd then some (s.goto i (.mark fd w)) else none
    | _, _ => none
  | .app i env => (s.ctlStep i env (s.app i)).or (s.closeStep i env (s.app i))
  | .socket k x ok =>
    match s.stackPc k with
    | .idle =>
      if s.fdOpen x then none
      else if ok then
        some { s.modifySock x fun sock =>
            { resetSockData sock with stack := some k, eventList := none } with
          fdOpen := Function.update s.fdOpen x true }
      else some (s.modifySock x resetSockData)
    | _ => none
  | .cleanSock k x =>
    match s.stackPc k with
    | .idle => if (s.sock x).stack = some k then some (s.stackGoto k (.cleanSock x)) else none
    | _ => none
  | .addSockEvent k x event =>
    match s.stackPc k with
    | .idle =>
      if (s.sock x).stack = some k then
        match (s.sock x).wakeup with
        | none => some s
        | some w => some (s.stackGoto k (.addType x w event))
      else none
    | _ => none
  | .wakeupStackEpoll k =>
    match s.stackPc k with
    | .idle => some (s.stackGoto k .wakeupStack)
    | _ => none
  | .wakeupKernelEvent k =>
    match s.stackPc k with
    | .idle => if s.kernelEventNum k = 0 then some s else some (s.stackGoto k (.kernelLoop 0))
    | _ => none
  | .stack k outdated => s.stackStep k outdated
  | .fetch k entries =>
    if 0 < s.kernelEventNum k then none
    else
      match entries with
      | none => some { s with kernelEventNum := Function.update s.kernelEventNum k (-1) }
      | some l =>
        if l.length ≤ kernelEpollMax ∧ ∀ w ∈ l, s.watched w = some k then
          some { s with
            kernelEvents := Function.update s.kernelEvents k l
            kernelEventNum := Function.update s.kernelEventNum k l.length }
        else none

/-- Nothing is open or allocated. -/
def create (fd : σ) : LifeSys stackNum ι σ ω where
  wakeup _ := ⟨.epoll, false, fd⟩
  alloc _ := .unused
  sock _ := ⟨none, none, ⟨0, 0⟩, none⟩
  fdOpen _ := false
  watched _ := none
  wakeupList _ := []
  kernelEvents _ := []
  kernelEventNum _ := 0
  stackPc _ := .idle
  app _ := .idle

/-- All interleavings of the threads. -/
def system (stackNum : ℕ) (ι σ ω : Type*) [DecidableEq ι] [DecidableEq σ] [DecidableEq ω] :
    Transition.System (LifeSys stackNum ι σ ω) (LifeAct stackNum ι σ ω) where
  Init s := ∃ fd, s = create fd
  step := step

/-- No pointer of a stack thread refers to a freed instance, and a socket that is linked is linked
in the list of its own instance. -/
structure Safe : Prop where
  /-- `sock->wakeup` of a socket. -/
  sock : ∀ x w, (s.sock x).stack.isSome → (s.sock x).wakeup = some w → s.alloc w ≠ .freed
  /-- The nodes of a `wakeup_list`. -/
  wakeupList : ∀ k, ∀ w ∈ s.wakeupList k, s.alloc w ≠ .freed
  /-- The kernel events that were not handled yet. -/
  kernelEvents : ∀ k (i : ℕ) w, i < s.kernelEventNum k → (s.kernelEvents k)[i]? = some w →
    s.alloc w ≠ .freed
  /-- The local variables. -/
  locals : ∀ k w, (s.stackPc k).wakeup? = some w → s.alloc w ≠ .freed
  /-- The event lists. -/
  eventList : ∀ x w, (s.sock x).eventList = some w → (s.sock x).wakeup = some w

/-- What a step of an application thread has to meet. -/
def AppCondition (env : AppEnv σ) : AppPc σ ω → Prop
  -- a socket that is added is not closed and in no other instance, and the instance is not freed
  | .ctl .add w x _ =>
    (s.sock x).stack.isSome ∧ s.alloc w ≠ .freed ∧
      (∀ w', (s.sock x).eventList = some w' → w' = w) ∧
      ∀ k w', (s.stackPc k).adds? = some (x, w') → w' = w
  -- a socket that is linked is not closed, and was added to the instance
  | .raise _ w x _ =>
    s.raises w x env.raised = true → (s.sock x).stack.isSome ∧ (s.sock x).wakeup = some w
  -- the stack can be asked to unlink the instance, or has not linked it and is not going to
  | .clean _ w idx =>
    env.msg = false →
      ∀ h : idx < stackNum, w ∉ s.wakeupList ⟨idx, h⟩ ∧ (s.stackPc ⟨idx, h⟩).links? ≠ some w
  -- the sockets of the instance were closed, and its kernel events handled
  | .free _ w =>
    (∀ x, (s.sock x).stack.isSome → (s.sock x).wakeup ≠ some w) ∧
      ∀ k (i : ℕ), i < s.kernelEventNum k → (s.kernelEvents k)[i]? ≠ some w
  | _ => True

/-- What a step has to meet. -/
def Condition : LifeAct stackNum ι σ ω → Prop
  | .app i env => s.AppCondition env (s.app i)
  -- no other thread closes the descriptor
  | .close _ fd => ∀ j, (s.app j).closing? ≠ some fd
  -- a socket that is closed was unlinked
  | .stack k _ => ∀ x, s.stackPc k = .resetSock x → (s.sock x).eventList = none
  -- no kernel event is reported between the `free` and the end of `lstack_epoll_close`
  | .fetch _ entries => ∀ l, entries = some l → ∀ w ∈ l, s.alloc w ≠ .freed
  | _ => True

end LifeSys

end Gazelle
