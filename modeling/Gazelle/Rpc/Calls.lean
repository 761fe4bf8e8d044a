import Gazelle.LocklessQueue.Invariant
import Mathlib.Algebra.Group.Int.Defs

/-!
# Remote calls to a stack thread

The application threads call functions of a stack thread by messages (`lstack_thread_rpc.c`): a
message comes from the pool of its thread, goes through the lockless queue of the stack, and is
returned to its pool by the caller, by `poll_rpc_msg` or by `stack_send`, which may also put it into
the queue again. The steps are the accesses to the message, to the pool and to the queue.

* `RpcSys.system`: all interleavings of the threads;
* `RpcSys.Safe`: what the callers rely on.
-/

namespace Gazelle

/-- The functions that a stack thread is asked to call. -/
inductive RpcFunc
  /-- `stack_send`. -/
  | stackSend
  /-- `stack_arp`. -/
  | stackArp
  /-- Any other one. -/
  | handler (f : ℕ)
  deriving DecidableEq

/-- `struct rpc_msg`. -/
structure RpcMsg where
  /-- `lock` is locked. -/
  locked : Bool
  /-- The sender releases the message. -/
  selfRelease : Bool
  /-- `result`, an `int64_t`. -/
  result : BitVec 64
  /-- The function. -/
  func : Option RpcFunc

/-- The calls. -/
inductive RpcCall
  /-- One of the functions that end in `rpc_sync_call`. -/
  | sync (f : ℕ)
  /-- `rpc_call_arp`. -/
  | arp
  /-- `rpc_call_send`. -/
  | send
  deriving DecidableEq

namespace RpcCall

/-- The function that is called. -/
def func : RpcCall → RpcFunc
  | sync f => .handler f
  | arp => .stackArp
  | send => .stackSend

/-- The caller waits. -/
def isSync : RpcCall → Bool
  | sync _ => true
  | _ => false

end RpcCall

/-- Where an application thread stands. -/
inductive CallPc (ν : Type*)
  /-- Outside the calls. -/
  | idle
  /-- Before it writes a field: `lock`, `func`, `self_release`, then `self_release` or `lock` once
  more, then the message is pushed. -/
  | init (call : RpcCall) (msg : ν) (field : ℕ)
  /-- In `lockless_queue_mpsc_push`. -/
  | pushing (call : RpcCall) (msg : ν)
  /-- In `pthread_spin_lock`. -/
  | waiting (msg : ν)
  /-- Before it reads the result. -/
  | result (msg : ν)
  /-- In `rpc_msg_free`: before `pthread_spin_destroy`, the write to `self_release`, and
  `rte_mempool_put`; `ret` is an `int32_t`. -/
  | free (ret : BitVec 32) (msg : ν) (field : ℕ)

/-- Where the stack thread stands in `poll_rpc_msg`. -/
inductive PollPc (ν : Type*)
  /-- Before the next message. -/
  | idle
  /-- In `lockless_queue_mpsc_pop`. -/
  | popping
  /-- Before it reads `func`. -/
  | call (msg : ν)
  /-- In the function. -/
  | handler (msg : ν) (func : RpcFunc)
  /-- In `stack_send`, which puts the message into the queue. -/
  | requeue (msg : ν)
  /-- In `stack_send`, which frees the message. -/
  | sendFree (msg : ν) (field : ℕ)
  /-- Before it reads `func` again. -/
  | test (msg : ν)
  /-- Before it reads `self_release`. -/
  | release (msg : ν)
  /-- Before `pthread_spin_unlock`. -/
  | unlock (msg : ν)
  /-- In `rpc_msg_free`. -/
  | free (msg : ν) (field : ℕ)

/-- The message of an application thread. -/
def CallPc.msg? {ν : Type*} : CallPc ν → Option ν
  | idle => none
  | init _ msg _ => some msg
  | pushing _ msg => some msg
  | waiting msg => some msg
  | result msg => some msg
  | free _ msg _ => some msg

/-- The message of the stack thread. -/
def PollPc.msg? {ν : Type*} : PollPc ν → Option ν
  | idle => none
  | popping => none
  | call msg => some msg
  | handler msg _ => some msg
  | requeue msg => some msg
  | sendFree msg _ => some msg
  | test msg => some msg
  | release msg => some msg
  | unlock msg => some msg
  | free msg _ => some msg

/-- The threads `ι`, the messages `ν`, and the history. -/
structure RpcSys (ι ν : Type*) where
  /-- `rpc_queue`; the stack thread pushes as `none`. -/
  queue : QueueSys (Option ι) ν
  /-- The messages. -/
  msg : ν → RpcMsg
  /-- The messages that are in their pools. -/
  inPool : ν → Bool
  /-- The application threads. -/
  caller : ι → CallPc ν
  /-- The stack thread. -/
  poller : PollPc ν
  /-- What the function of a message stored, once it has finished, since the message was taken from
  its pool. -/
  handled : ν → Option (BitVec 64)
  /-- What `rpc_sync_call` returned, with `handled` of its message at that time. -/
  returns : List (BitVec 32 × Option (BitVec 64))
  /-- How often a message was taken from its pool. -/
  gets : ν → ℕ
  /-- How often a message was returned to its pool. -/
  puts : ν → ℕ
  /-- The message that was popped last has been returned to its pool. -/
  stale : Bool
  /-- The stack thread has accessed such a message. -/
  accessedStale : Bool

/-- What a function finds and does. -/
structure HandlerEnv where
  /-- The result that it stores. -/
  result : BitVec 64
  /-- `get_socket` finds the socket. -/
  sock : Bool
  /-- `NETCONN_IS_DATAOUT`, after `lwip_send`. -/
  dataOut : Bool
  /-- What `do_lwip_send` returns. -/
  replenishAgain : Bool
  /-- `call_num`, after it was decremented. -/
  callNum : BitVec 32

/-- The steps. -/
inductive RpcAct (ι ν : Type*)
  /-- A call begins: `rte_mempool_get` returns a message or fails. -/
  | call (i : ι) (call : RpcCall) (msg : Option ν)
  /-- A caller makes its next access. -/
  | caller (i : ι)
  /-- `poll_rpc_msg` turns to the next message. -/
  | poll
  /-- The stack thread makes its next access. -/
  | poller (env : HandlerEnv)

namespace RpcSys

variable {ι ν : Type*} [DecidableEq ι] [DecidableEq ν] (poolOf : ν → ι) (s : RpcSys ι ν)

/-- Write to a message. -/
def modify (m : ν) (f : RpcMsg → RpcMsg) : RpcSys ι ν :=
  { s with msg := Function.update s.msg m (f (s.msg m)) }

/-- A caller goes on. -/
def goto (i : ι) (pc : CallPc ν) : RpcSys ι ν :=
  { s with caller := Function.update s.caller i pc }

/-- The stack thread accesses its message. -/
def access : RpcSys ι ν := { s with accessedStale := s.accessedStale || s.stale }

/-- `rte_mempool_put`. -/
def put (m : ν) : RpcSys ι ν :=
  { s with
    inPool := Function.update s.inPool m true
    puts := Function.update s.puts m (s.puts m + 1)
    stale := s.stale || (s.poller.msg? = some m) }

/-- `rpc_msg_alloc` takes a message from the pool of the thread. -/
def rpcMsgAlloc (i : ι) (call : RpcCall) : Option ν → Option (RpcSys ι ν)
  | none => some s
  | some m =>
    if s.inPool m = true ∧ poolOf m = i then
      some { s with
        inPool := Function.update s.inPool m false
        gets := Function.update s.gets m (s.gets m + 1)
        handled := Function.update s.handled m none
        caller := Function.update s.caller i (.init call m 0) }
    else none

/-- The next access of a caller. -/
def callerStep (i : ι) : Option (RpcSys ι ν) :=
  match s.caller i with
  | .idle => none
  | .init call m field =>
    match field with
    | 0 => some ((s.modify m fun msg => { msg with locked := false }).goto i (.init call m 1))
    | 1 =>
      some ((s.modify m fun msg => { msg with func := some call.func }).goto i (.init call m 2))
    | 2 => some ((s.modify m fun msg => { msg with selfRelease := true }).goto i (.init call m 3))
    | 3 =>
      -- `pthread_spin_trylock`, or the caller will not wait
      if call.isSync then
        some ((s.modify m fun msg => { msg with locked := true }).goto i (.init call m 4))
      else
        some ((s.modify m fun msg => { msg with selfRelease := false }).goto i (.init call m 4))
    | _ =>
      (s.queue.step (.push (some i) m)).map fun queue =>
        { s with queue }.goto i (.pushing call m)
  | .pushing call m =>
    (s.queue.step (.producer (some i))).map fun queue =>
      if queue.producer (some i) = .idle then
        { s with queue }.goto i (if call.isSync then .waiting m else .idle)
      else { s with queue }
  | .waiting m =>
    if (s.msg m).locked then none
    else some ((s.modify m fun msg => { msg with locked := true }).goto i (.result m))
  -- `ret = msg->result` cuts the result to 32 bits
  | .result m => some (s.goto i (.free ((s.msg m).result.setWidth 32) m 0))
  | .free ret m field =>
    match field with
    | 0 => some (s.goto i (.free ret m 1))
    | 1 => some ((s.modify m fun msg => { msg with selfRelease := false }).goto i (.free ret m 2))
    | _ => some { (s.put m).goto i .idle with returns := s.returns ++ [(ret, s.handled m)] }

/-- `stack_send` puts the message into the queue again. -/
def requeues (env : HandlerEnv) : Bool :=
  env.sock && (env.dataOut || env.replenishAgain) && env.callNum = 0

/-- A function of the stack thread works. -/
def handlerStep (env : HandlerEnv) (m : ν) : RpcFunc → Option (RpcSys ι ν)
  | .handler _ =>
    some { s.access.modify m fun msg => { msg with result := env.result } with
      handled := Function.update s.handled m (some env.result)
      poller := .test m }
  | .stackArp => some { s.access with poller := .test m }
  | .stackSend =>
    if requeues env then
      (s.queue.step (.push none m)).map fun queue =>
        { s.access with queue, poller := .requeue m }
    else
      -- `result` is stored only when there is no socket
      some { s.access.modify m fun msg =>
          if env.sock then msg else { msg with result := env.result }
        with poller := .sendFree m 0 }

/-- The next access of the stack thread. -/
def pollerStep (env : HandlerEnv) : Option (RpcSys ι ν) :=
  match s.poller with
  | .idle => none
  | .popping =>
    match s.queue.consumer with
    | .ret none => (s.queue.step .consumer).map fun queue => { s with queue, poller := .idle }
    | .ret (some (.msg m)) =>
      (s.queue.step .consumer).map fun queue =>
        { s with queue, poller := .call m, stale := false }
    | .ret (some .stub) => none
    | _ => (s.queue.step .consumer).map fun queue => { s with queue }
  | .call m =>
    match (s.msg m).func with
    | none => some { s.access with poller := .test m }
    | some func => some { s.access with poller := .handler m func }
  | .handler m func => s.handlerStep env m func
  | .requeue m =>
    (s.queue.step (.producer none)).map fun queue =>
      if queue.producer none = .idle then { s.access with queue, poller := .test m }
      else { s.access with queue }
  | .sendFree m field =>
    match field with
    | 0 => some { s.access with poller := .sendFree m 1 }
    | 1 =>
      some { s.access.modify m fun msg => { msg with selfRelease := false } with
        poller := .sendFree m 2 }
    | _ => some { s.access.put m with poller := .test m }
  | .test m =>
    if (s.msg m).func ≠ some .stackSend then some { s.access with poller := .release m }
    else some { s.access with poller := .idle }
  | .release m =>
    if (s.msg m).selfRelease then some { s.access with poller := .unlock m }
    else some { s.access with poller := .free m 0 }
  | .unlock m =>
    some { s.access.modify m fun msg => { msg with locked := false } with poller := .idle }
  | .free m field =>
    match field with
    | 0 => some { s.access with poller := .free m 1 }
    | 1 =>
      some { s.access.modify m fun msg => { msg with selfRelease := false } with
        poller := .free m 2 }
    | _ => some { s.access.put m with poller := .idle }

/-- One step of one thread. -/
def step : RpcAct ι ν → Option (RpcSys ι ν)
  | .call i call msg =>
    match s.caller i with
    | .idle => s.rpcMsgAlloc poolOf i call msg
    | _ => none
  | .caller i => s.callerStep i
  | .poll =>
    match s.poller with
    | .idle => (s.queue.step .pop).map fun queue => { s with queue, poller := .popping }
    | _ => none
  | .poller env => s.pollerStep env

/-- The queue after `lockless_queue_init`, and all messages in their pools. -/
def create (next : QueueNode ν → Option (QueueNode ν)) (msg : ν → RpcMsg) : RpcSys ι ν where
  queue := .create next
  msg := msg
  inPool _ := true
  caller _ := .idle
  poller := .idle
  handled _ := none
  returns := []
  gets _ := 0
  puts _ := 0
  stale := false
  accessedStale := false

/-- All interleavings of the threads. -/
def system : Transition.System (RpcSys ι ν) (RpcAct ι ν) where
  Init s := ∃ next msg, s = create next msg
  step := step poolOf

/-- `rpc_sync_call` has returned what the function of its message had stored, each message was
returned to its pool once for each time that it was taken and is with some thread or in the queue
until then, the queue has no message that is in its pool, and the stack thread has accessed no
message after it was returned. -/
structure Safe : Prop where
  /-- What `rpc_sync_call` returned. -/
  returns : ∀ r ∈ s.returns, ∃ result : BitVec 64, r.2 = some result ∧ r.1.toInt = result.toInt
  /-- The pools. -/
  once : ∀ m, s.gets m = s.puts m + if s.inPool m then 0 else 1
  /-- No message is lost. -/
  kept : ∀ m, s.inPool m = false →
    (∃ i, (s.caller i).msg? = some m) ∨ m ∈ s.queue.busy ∨ s.poller.msg? = some m
  /-- The queue. -/
  unqueued : ∀ m, s.inPool m = true → m ∉ s.queue.busy
  /-- The stack thread. -/
  fresh : s.accessedStale = false

/-- The result is in the range of `int32_t`. -/
def FitsInt32 (result : BitVec 64) : Prop := -2 ^ 31 ≤ result.toInt ∧ result.toInt < 2 ^ 31

/-- `stack_send` does not free its message, and a function for which a caller waits stores a result
that is not cut off. -/
def HandlerMeets (env : HandlerEnv) : RpcFunc → Prop
  | .stackSend => requeues env = true
  | .handler _ => FitsInt32 env.result
  | .stackArp => True

/-- What a step has to meet. -/
def KeepsMsg : RpcAct ι ν → Prop
  | .poller env => ∀ m func, s.poller = .handler m func → HandlerMeets env func
  | _ => True

end RpcSys

end Gazelle
