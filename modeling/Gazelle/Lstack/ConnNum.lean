import Gazelle.Transition.System
import Mathlib.Data.List.Nodup
import Mathlib.Algebra.Group.Nat.Defs

/-!
# The number of connections of a stack

`conn_num` of a stack is raised by `get_bind_protocol_stack` for a socket that is still to be made,
and by `stack_accept` for one that was accepted; `gazelle_clean_sock` lowers it. The counter is
`volatile` and not atomic: it is loaded and stored by the application threads, under no lock when
the thread is bound to the stack already, and by the stack thread. The steps are the accesses to the
counters, to the queues of the stacks and to the sockets.

* `ConnSys.system`: all interleavings of the calls;
* `ConnInv`: the counter against the sockets, with what was never counted or never undone;
* `conn_num_counts_sockets`: under which condition the counter is the number of sockets.
-/

namespace Gazelle

/-- `GAZELLE_MAX_CLIENTS`, from which the searches for the smallest `conn_num` start. -/
def gazelleMaxClients : ℕ := 20000

/-- What a stack thread is asked to do. -/
inductive SockMsg
  /-- `stack_socket`. -/
  | stackSocket
  /-- `stack_accept`. -/
  | stackAccept
  /-- `create_shadow_fd`. -/
  | createShadowFd
  /-- `stack_close`. -/
  | stackClose (fd : ℕ)
  deriving DecidableEq

/-- How far a call has come. -/
inductive ConnStage
  /-- `get_bind_protocol_stack`: before it looks at the stack `i`, with the stack found so far. -/
  | scan (i index min : ℕ)
  /-- `get_bind_protocol_stack`: before `conn_num` is loaded. -/
  | load (index : ℕ)
  /-- `get_bind_protocol_stack`: before `conn_num` is stored. -/
  | store (index : ℕ) (value : BitVec 16)
  /-- `rpc_call_socket`: before `rpc_msg_alloc`. -/
  | alloc (index : ℕ)
  /-- The message is in the queue of the stack. -/
  | queued (stack : ℕ) (msg : SockMsg)
  /-- `stack_accept`: before `conn_num` is stored. -/
  | accepted (stack : ℕ) (value : BitVec 16)
  /-- `gazelle_clean_sock` in the thread of `stack`: before `conn_num` of `owner` is stored. -/
  | cleaning (stack fd owner : ℕ) (value : BitVec 16)
  deriving DecidableEq

/-- A call in progress. -/
structure ConnCall where
  /-- The application thread that waits for it. -/
  thread : ℕ
  /-- How far it has come. -/
  stage : ConnStage
  deriving DecidableEq

/-- `struct lwip_sock` of a descriptor, as long as `stack` is not `NULL`. -/
structure ConnSock where
  /-- The descriptor. -/
  fd : ℕ
  /-- `stack`. -/
  stack : ℕ
  /-- The kernel has not closed the descriptor. -/
  fdOpen : Bool
  deriving DecidableEq

/-- The configuration. -/
structure ConnCfg where
  /-- `stack_num`. -/
  stackNum : ℕ
  /-- `is_send_thread` of the stacks. -/
  isSendThread : ℕ → Bool
  /-- `seperate_send_recv`. -/
  seperateSendRecv : Bool
  /-- `tuple_filter`. -/
  tupleFilter : Bool
  /-- `listen_shadow`. -/
  listenShadow : Bool

/-- The stacks, the sockets and the calls. -/
structure ConnSys where
  /-- `conn_num` of the stacks. -/
  connNum : ℕ → BitVec 16
  /-- `stack_index`. -/
  stackIndex : BitVec 16
  /-- `socket_lock` is held. -/
  socketLock : Bool
  /-- `bind_stack` of the threads. -/
  bindStack : ℕ → Option ℕ
  /-- The calls in progress; those whose message is queued are in the order of the queues. -/
  calls : List ConnCall
  /-- The sockets. -/
  socks : List ConnSock
  /-- How often `conn_num` was raised for a socket that was not made in the end. -/
  lost : ℕ → ℕ
  /-- How many sockets were made without raising `conn_num`. -/
  uncounted : ℕ → ℕ

/-- What comes of `lwip_socket` or `lwip_accept4` with `gazelle_init_sock`. -/
inductive SockMade
  /-- No descriptor. -/
  | failed
  /-- A descriptor whose rings could not be created. -/
  | noRing (fd : ℕ)
  /-- A socket. -/
  | made (fd : ℕ)
  deriving DecidableEq

/-- The descriptor that an attempt uses. -/
def SockMade.fd? : SockMade → Option ℕ
  | .failed => none
  | .noRing fd => some fd
  | .made fd => some fd

/-- Whether there is a socket in the end. -/
def SockMade.isMade : SockMade → Bool
  | .made _ => true
  | _ => false

/-- The steps. -/
inductive ConnAct
  /-- A thread calls `rpc_call_socket`. -/
  | rpcCallSocket (t : ℕ)
  /-- A thread goes on in `rpc_call_socket`; `msg` says whether there is a message. -/
  | app (t : ℕ) (msg : Bool)
  /-- A thread calls `rpc_call_accept`. -/
  | rpcCallAccept (t fd : ℕ) (msg : Bool)
  /-- A thread calls `rpc_call_shadow_fd`. -/
  | rpcCallShadowFd (t stack fd : ℕ) (msg : Bool)
  /-- A thread calls `do_close`; `kernel` says whether `select_path` returns `PATH_KERNEL`. -/
  | doClose (t fd : ℕ) (msg kernel : Bool)
  /-- A stack thread takes the next message; the outcomes of the attempts to make a socket. -/
  | poll (stack : ℕ) (first second : SockMade)
  /-- A stack thread stores `conn_num`. -/
  | finish (stack : ℕ)

/-- The stack whose thread carries out the call. -/
def ConnStage.runsOn (k : ℕ) : ConnStage → Bool
  | .accepted i _ => i = k
  | .cleaning i _ _ _ => i = k
  | _ => false

/-- `conn_num` of the stack was raised for a socket that is not there yet. -/
def ConnStage.ahead (k : ℕ) : ConnStage → Bool
  | .alloc i => i = k
  | .queued i .stackSocket => i = k
  | _ => false

/-- A socket of the stack is there, for which `conn_num` is still to be raised. -/
def ConnStage.behind (k : ℕ) : ConnStage → Bool
  | .accepted i _ => i = k
  | _ => false

/-- The message waits in the queue of the stack. -/
def ConnStage.queuedAt (k : ℕ) : ConnStage → Bool
  | .queued i _ => i = k
  | _ => false

namespace ConnSys

variable (c : ConnCfg) (s : ConnSys)

/-- The number of sockets of a stack. -/
def live (k : ℕ) : ℕ := s.socks.countP fun x => x.stack = k

/-- How many calls in progress have raised `conn_num` of a stack for a socket to come. -/
def ahead (k : ℕ) : ℕ := s.calls.countP fun x => x.stage.ahead k

/-- How many calls in progress are still to raise it for a socket that is there. -/
def behind (k : ℕ) : ℕ := s.calls.countP fun x => x.stage.behind k

/-- How many calls a stack thread is busy with. -/
def busy (k : ℕ) : ℕ := s.calls.countP fun x => x.stage.runsOn k

/-- No call is in progress. -/
def Quiet : Prop := s.calls = []

/-- Whether a call is in progress is decidable. -/
instance : Decidable s.Quiet := inferInstanceAs (Decidable (s.calls = []))

/-- A call goes on. -/
def goto (x : ConnCall) (stage : ConnStage) : ConnSys :=
  { s with calls := s.calls.erase x ++ [⟨x.thread, stage⟩] }

/-- A call returns. -/
def returns (x : ConnCall) : ConnSys := { s with calls := s.calls.erase x }

/-- A thread calls a function. -/
def start (t : ℕ) (stage : ConnStage) : ConnSys := { s with calls := s.calls ++ [⟨t, stage⟩] }

/-- The call of a thread. -/
def callOf (t : ℕ) : Option ConnCall := s.calls.find? fun x => x.thread = t

/-- The socket of a descriptor: `get_socket_by_fd`, and `NULL` also when there is no stack. -/
def sockOf (fd : ℕ) : Option ConnSock := s.socks.find? fun x => x.fd = fd

/-- `get_bind_protocol_stack` up to the search, in `rpc_call_socket`. -/
def getBindProtocolStack (t : ℕ) : Option ConnSys :=
  match s.bindStack t with
  | some i => some (s.start t (.load i))
  | none =>
    if !c.tupleFilter && !c.listenShadow then
      let s' := { s with stackIndex := s.stackIndex + 1 }
      if s.stackIndex.toNat ≥ c.stackNum then some s'
      else some (s'.start t (.load s.stackIndex.toNat))
    else if s.socketLock then none
    else some ({ s with socketLock := true }.start t (.scan 0 0 gazelleMaxClients))

/-- One round of the search for the stack with the smallest `conn_num`. -/
def scanStack (i index min : ℕ) : ConnStage :=
  if i < c.stackNum then
    if (!c.seperateSendRecv || c.isSendThread i) && (s.connNum i).toNat < min then
      .scan (i + 1) i (s.connNum i).toNat
    else .scan (i + 1) index min
  else .load index

/-- `conn_num++` has been stored, and `bind_stack` with it unless it was set before. -/
def countSocket (t index : ℕ) (value : BitVec 16) : ConnSys :=
  let s' := { s with connNum := Function.update s.connNum index (value + 1) }
  if s.bindStack t = none then
    { s' with bindStack := Function.update s.bindStack t (some index), socketLock := false }
  else s'

/-- `rpc_call_socket` goes on. -/
def app (x : ConnCall) (msg : Bool) : Option ConnSys :=
  match x.stage with
  | .scan i index min => some (s.goto x (s.scanStack c i index min))
  | .load index => some (s.goto x (.store index (s.connNum index)))
  | .store index value => some ((s.countSocket x.thread index value).goto x (.alloc index))
  | .alloc index =>
    if msg then some (s.goto x (.queued index .stackSocket))
    else some { s.returns x with lost := Function.update s.lost index (s.lost index + 1) }
  | _ => none

/-- `rpc_call_accept`. -/
def rpcCallAccept (t fd : ℕ) (msg : Bool) : ConnSys :=
  match s.sockOf fd with
  | some x => if msg then s.start t (.queued x.stack .stackAccept) else s
  | none => s

/-- `do_close` for a descriptor that does not listen, or for one that `stack_broadcast_close` comes
to. -/
def doClose (t fd : ℕ) (msg kernel : Bool) : ConnSys :=
  match s.sockOf fd with
  | some x =>
    if msg then s.start t (.queued x.stack (.stackClose fd))
    else if kernel then
      -- `stack_broadcast_close` has failed and the descriptor is closed without it
      { s with socks := s.socks.map fun y => if y.fd = fd then { y with fdOpen := false } else y }
    else s
  | none => s

/-- `reset_sock_data` for a descriptor. -/
def resetSockData (fd : ℕ) : ConnSys := { s with socks := s.socks.filter fun x => x.fd ≠ fd }

/-- `gazelle_init_sock` in the thread of a stack. -/
def initSock (k fd : ℕ) : ConnSys :=
  { s.resetSockData fd with socks := ⟨fd, k, true⟩ :: (s.resetSockData fd).socks }

/-- The kernel does not return a descriptor that is open. -/
def Unused (fd : ℕ) : Prop := ∀ x ∈ s.socks, x.fd = fd → x.fdOpen = false

/-- Whether a descriptor is unused is decidable. -/
instance (fd : ℕ) : Decidable (s.Unused fd) :=
  inferInstanceAs (Decidable (∀ x ∈ s.socks, x.fd = fd → x.fdOpen = false))

/-- `gazelle_socket`, with the descriptor that it returns. -/
def gazelleSocket (k : ℕ) : SockMade → Option (ConnSys × Option ℕ)
  | .failed => some (s, none)
  | .noRing fd => if s.Unused fd then some (s.resetSockData fd, none) else none
  | .made fd => if s.Unused fd then some (s.initSock k fd, some fd) else none

/-- `stack_socket`. -/
def stackSocket (k : ℕ) (x : ConnCall) (first second : SockMade) : Option ConnSys :=
  (s.gazelleSocket k first).bind fun r =>
    match r.2 with
    | some _ => some (r.1.returns x)
    | none =>
      (r.1.gazelleSocket k second).map fun r =>
        match r.2 with
        | some _ => r.1.returns x
        | none => { r.1.returns x with lost := Function.update r.1.lost k (r.1.lost k + 1) }

/-- `stack_accept` up to the load of `conn_num`. -/
def stackAccept (k : ℕ) (x : ConnCall) (first : SockMade) : Option ConnSys :=
  (s.gazelleSocket k first).map fun r =>
    match r.2 with
    | some _ => r.1.goto x (.accepted k (r.1.connNum k))
    | none => r.1.returns x

/-- `create_shadow_fd`. -/
def createShadowFd (k : ℕ) (x : ConnCall) (first : SockMade) : Option ConnSys :=
  (s.gazelleSocket k first).map fun r =>
    match r.2 with
    | some _ =>
      { r.1.returns x with uncounted := Function.update r.1.uncounted k (r.1.uncounted k + 1) }
    | none => r.1.returns x

/-- `stack_close` up to the load of `conn_num` in `gazelle_clean_sock`. -/
def stackClose (k : ℕ) (x : ConnCall) (fd : ℕ) : ConnSys :=
  match s.sockOf fd with
  | some y => s.goto x (.cleaning k fd y.stack (s.connNum y.stack))
  | none => s.returns x

/-- The call whose message is the first one in the queue of a stack. -/
def nextMsg (k : ℕ) : Option ConnCall := s.calls.find? fun x => x.stage.queuedAt k

/-- The call with which a stack thread is busy. -/
def running (k : ℕ) : Option ConnCall := s.calls.find? fun x => x.stage.runsOn k

/-- `poll_rpc_msg`: the next message is taken, unless the thread is still busy with another one. -/
def poll (k : ℕ) (first second : SockMade) : Option ConnSys :=
  if s.running k ≠ none then none
  else
    (s.nextMsg k).bind fun x =>
      match x.stage with
      | .queued _ .stackSocket => s.stackSocket k x first second
      | .queued _ .stackAccept => s.stackAccept k x first
      | .queued _ .createShadowFd => s.createShadowFd k x first
      | .queued _ (.stackClose fd) => some (s.stackClose k x fd)
      | _ => none

/-- The store of `conn_num` in `stack_accept` and in `gazelle_clean_sock`, and what follows. -/
def finish (k : ℕ) : Option ConnSys :=
  (s.running k).bind fun x =>
    match x.stage with
    | .accepted i value =>
      some { s.returns x with connNum := Function.update s.connNum i (value + 1) }
    | .cleaning _ fd owner value =>
      some { (s.resetSockData fd).returns x with
        connNum := Function.update s.connNum owner (value - 1) }
    | _ => none

/-- One step. A thread waits for its call, so that it has one at most. -/
def step (s : ConnSys) : ConnAct → Option ConnSys
  | .rpcCallSocket t => if s.callOf t = none then s.getBindProtocolStack c t else none
  | .app t msg => (s.callOf t).bind fun x => s.app c x msg
  | .rpcCallAccept t fd msg => if s.callOf t = none then some (s.rpcCallAccept t fd msg) else none
  | .rpcCallShadowFd t k fd msg =>
    if s.callOf t = none ∧ k < c.stackNum ∧ s.sockOf fd ≠ none then
      some (if msg then s.start t (.queued k .createShadowFd) else s)
    else none
  | .doClose t fd msg kernel =>
    if s.callOf t = none then some (s.doClose t fd msg kernel) else none
  | .poll k first second => s.poll k first second
  | .finish k => s.finish k

/-- No socket, no call, and all counters are zero. -/
def initial : ConnSys where
  connNum _ := 0
  stackIndex := 0
  socketLock := false
  bindStack _ := none
  calls := []
  socks := []
  lost _ := 0
  uncounted _ := 0

/-- All interleavings of the calls. -/
def system : Transition.System ConnSys ConnAct where
  Init s := s = initial
  step := step c

/-! ## The conditions -/

/-- The counter is still what the call has loaded. -/
def Unchanged : ConnStage → Prop
  | .store i value => s.connNum i = value
  | .accepted i value => s.connNum i = value
  | .cleaning _ _ owner value => s.connNum owner = value
  | _ => True

/-- Whether the counter is still the same is decidable. -/
instance (stage : ConnStage) : Decidable (s.Unchanged stage) := by
  unfold Unchanged
  cases stage <;> infer_instance

/-- No two updates of one counter overlap, no descriptor is used again for which lwIP still has a
socket, and a socket is closed by the thread of its own stack. -/
def NoOverlap : ConnAct → Prop
  | .app t _ => ∀ x ∈ s.callOf t, s.Unchanged x.stage
  | .poll k first second =>
    (∀ fd ∈ first.fd?, s.sockOf fd = none) ∧ (∀ fd ∈ second.fd?, s.sockOf fd = none) ∧
      ∀ x ∈ s.nextMsg k, ∀ y ∈ s.socks, x.stage = .queued k (.stackClose y.fd) → y.stack = k
  | .finish k => ∀ x ∈ s.running k, s.Unchanged x.stage
  | _ => True

/-- A socket for which `conn_num` is raised is made, one that is made has `conn_num` raised for it,
and there is room in the counter. -/
def Balanced : ConnAct → Prop
  | .app t msg => ∀ x ∈ s.callOf t,
    match x.stage with
    | .store i _ => s.live i + s.ahead i < 65535
    | .alloc _ => msg = true
    | _ => True
  | .poll k first second => ∀ x ∈ s.nextMsg k,
    match x.stage with
    | .queued _ .stackSocket => first.isMade ∨ second.isMade
    | .queued _ .stackAccept => s.live k + s.ahead k < 65535
    | .queued _ .createShadowFd => ¬ first.isMade
    | _ => True
  | _ => True

/-- What the steps have to meet. -/
def Condition (s : ConnSys) (a : ConnAct) : Prop := s.NoOverlap a ∧ s.Balanced a

/-- Whether an action overlaps no update is decidable. -/
instance (a : ConnAct) : Decidable (s.NoOverlap a) := by
  unfold NoOverlap
  cases a <;> infer_instance

/-- Whether it is balanced is decidable for each stage of the call. -/
instance (a : ConnAct) : Decidable (s.Balanced a) := by
  unfold Balanced
  cases a
  case app t msg =>
    refine @Option.decidableForallMem _ _ (fun x => ?_) _
    cases x.stage <;> infer_instance
  case poll k first second =>
    refine @Option.decidableForallMem _ _ (fun x => ?_) _
    rcases x.stage with _ | _ | _ | _ | ⟨_, _ | _ | _ | _⟩ | _ | _ <;> infer_instance
  all_goals infer_instance

/-- So the condition is decidable. -/
instance (a : ConnAct) : Decidable (Condition s a) := inferInstanceAs (Decidable (_ ∧ _))

end ConnSys

/-! ## The counter and the sockets -/

section Lists

variable {α : Type*} [DecidableEq α] {l : List α} {x y : α}

/-- An element goes. -/
theorem countP_erase_add (p : α → Bool) (h : x ∈ l) :
    (l.erase x).countP p + (if p x then 1 else 0) = l.countP p := by
  rw [(List.perm_cons_erase h).countP_eq p, List.countP_cons]

/-- An element is replaced. -/
theorem countP_erase_append (p : α → Bool) (h : x ∈ l) :
    (l.erase x ++ [y]).countP p + (if p x then 1 else 0) =
      l.countP p + (if p y then 1 else 0) := by
  rw [List.countP_append, List.countP_singleton, ← countP_erase_add p h]
  omega

end Lists

/-- The invariant. -/
structure ConnInv (s : ConnSys) : Prop where
  /-- The counter differs from the number of sockets by the calls in progress, by what was never
  undone and by what was never counted. -/
  ledger : ∀ k, ((s.connNum k).toNat + s.behind k + s.uncounted k) % 2 ^ 16 =
    (s.live k + s.ahead k + s.lost k) % 2 ^ 16
  /-- A descriptor has one socket. -/
  fds : (s.socks.map ConnSock.fd).Nodup
  /-- A stack thread is busy with one call at most. -/
  single : ∀ k, s.busy k ≤ 1
  /-- A socket that is being closed is there, and belongs to the thread that closes it. -/
  cleaning : ∀ x ∈ s.calls, ∀ k fd owner v, x.stage = .cleaning k fd owner v →
    owner = k ∧ ⟨fd, k⟩ ∈ s.socks.map fun y => (y.fd, y.stack)

namespace ConnSys

variable {c : ConnCfg} {s s' : ConnSys} {x y : ConnCall} {stage : ConnStage} {k : ℕ}

/-- The call of a thread is one of the calls. -/
theorem callOf_mem {t : ℕ} (h : x ∈ s.callOf t) : x ∈ s.calls := List.mem_of_find?_eq_some h

/-- The next message is that of one of the calls. -/
theorem nextMsg_mem (h : x ∈ s.nextMsg k) : x ∈ s.calls := List.mem_of_find?_eq_some h

/-- It is in the queue of the stack. -/
theorem nextMsg_stage (h : x ∈ s.nextMsg k) : ∃ msg, x.stage = .queued k msg := by
  have hq : x.stage.queuedAt k = true :=
    List.find?_some (p := fun x : ConnCall => x.stage.queuedAt k) h
  unfold ConnStage.queuedAt at hq
  split at hq
  · next i msg hst =>
    rw [decide_eq_true_eq] at hq
    exact ⟨msg, hq ▸ hst⟩
  · cases hq

/-- The call with which a thread is busy is one of the calls. -/
theorem running_mem (h : x ∈ s.running k) : x ∈ s.calls := List.mem_of_find?_eq_some h

/-- A thread that is not busy runs no call. -/
theorem busy_of_idle (h : s.running k = none) : s.busy k = 0 :=
  List.countP_eq_zero.2 fun x hx => List.find?_eq_none.1 h x hx

/-- A call that goes on. -/
theorem mem_goto (h : y ∈ (s.goto x stage).calls) : y ∈ s.calls ∨ y = ⟨x.thread, stage⟩ := by
  rcases List.mem_append.1 h with h | h
  · exact .inl (List.mem_of_mem_erase h)
  · exact .inr (List.mem_singleton.1 h)

/-- The sockets to come, when a call goes on. -/
theorem ahead_goto (hx : x ∈ s.calls) (stage : ConnStage) (k : ℕ) :
    (s.goto x stage).ahead k + (if x.stage.ahead k then 1 else 0) =
      s.ahead k + (if stage.ahead k then 1 else 0) :=
  countP_erase_append (fun z : ConnCall => z.stage.ahead k) hx

/-- The counts to come, when a call goes on. -/
theorem behind_goto (hx : x ∈ s.calls) (stage : ConnStage) (k : ℕ) :
    (s.goto x stage).behind k + (if x.stage.behind k then 1 else 0) =
      s.behind k + (if stage.behind k then 1 else 0) :=
  countP_erase_append (fun z : ConnCall => z.stage.behind k) hx

/-- How busy the threads are, when a call goes on. -/
theorem busy_goto (hx : x ∈ s.calls) (stage : ConnStage) (k : ℕ) :
    (s.goto x stage).busy k + (if x.stage.runsOn k then 1 else 0) =
      s.busy k + (if stage.runsOn k then 1 else 0) :=
  countP_erase_append (fun z : ConnCall => z.stage.runsOn k) hx

/-- The sockets to come, when a call returns. -/
theorem ahead_return (hx : x ∈ s.calls) (k : ℕ) :
    (s.returns x).ahead k + (if x.stage.ahead k then 1 else 0) = s.ahead k :=
  countP_erase_add (fun z : ConnCall => z.stage.ahead k) hx

/-- The counts to come, when a call returns. -/
theorem behind_return (hx : x ∈ s.calls) (k : ℕ) :
    (s.returns x).behind k + (if x.stage.behind k then 1 else 0) = s.behind k :=
  countP_erase_add (fun z : ConnCall => z.stage.behind k) hx

/-- How busy the threads are, when a call returns. -/
theorem busy_return (hx : x ∈ s.calls) (k : ℕ) :
    (s.returns x).busy k + (if x.stage.runsOn k then 1 else 0) = s.busy k :=
  countP_erase_add (fun z : ConnCall => z.stage.runsOn k) hx

/-- A call that begins. -/
theorem mem_start {t : ℕ} (h : y ∈ (s.start t stage).calls) : y ∈ s.calls ∨ y = ⟨t, stage⟩ := by
  rcases List.mem_append.1 h with h | h
  · exact .inl h
  · exact .inr (List.mem_singleton.1 h)

/-- The sockets to come, when a call begins. -/
theorem ahead_start (t : ℕ) (stage : ConnStage) (k : ℕ) :
    (s.start t stage).ahead k = s.ahead k + (if stage.ahead k then 1 else 0) := by
  simp [ahead, start, List.countP_append]

/-- The counts to come, when a call begins. -/
theorem behind_start (t : ℕ) (stage : ConnStage) (k : ℕ) :
    (s.start t stage).behind k = s.behind k + (if stage.behind k then 1 else 0) := by
  simp [behind, start, List.countP_append]

/-- How busy the threads are, when a call begins. -/
theorem busy_start (t : ℕ) (stage : ConnStage) (k : ℕ) :
    (s.start t stage).busy k = s.busy k + (if stage.runsOn k then 1 else 0) := by
  simp [busy, start, List.countP_append]

/-- A socket that is made. -/
theorem live_cons (s' : ConnSys) (fd i : ℕ) (b : Bool) (h : s'.socks = ⟨fd, i, b⟩ :: s.socks)
    (k : ℕ) : s'.live k = s.live k + (if i = k then 1 else 0) := by
  simp [live, h, List.countP_cons]

/-- A descriptor that the kernel has closed keeps its socket. -/
theorem live_closeFd (fd k : ℕ) :
    ConnSys.live { s with
      socks := s.socks.map fun y => if y.fd = fd then { y with fdOpen := false } else y } k =
        s.live k := by
  unfold live
  rw [List.countP_map]
  refine List.countP_congr fun y _ => ?_
  show decide ((if y.fd = fd then { y with fdOpen := false } else y : ConnSock).stack = k) =
    true ↔ _
  split <;> rfl

/-- A descriptor without a socket. -/
theorem sockOf_eq_none {fd : ℕ} : s.sockOf fd = none ↔ ∀ x ∈ s.socks, x.fd ≠ fd := by
  simp [sockOf, List.find?_eq_none]

/-- Nothing is reset then. -/
theorem resetSockData_of_none {fd : ℕ} (h : s.sockOf fd = none) : s.resetSockData fd = s := by
  have hf : s.socks.filter (fun x => x.fd ≠ fd) = s.socks :=
    List.filter_eq_self.2 fun x hx => decide_eq_true (sockOf_eq_none.1 h x hx)
  unfold resetSockData
  rw [hf]

/-- What an attempt to make a socket does, for a descriptor without one. -/
theorem gazelleSocket_cases {made : SockMade} {r : ConnSys × Option ℕ}
    (hfd : ∀ fd ∈ made.fd?, s.sockOf fd = none) (h : s.gazelleSocket k made = some r) :
    (made.isMade = false ∧ r = (s, none)) ∨
      ∃ fd, made = .made fd ∧ s.sockOf fd = none ∧
        r = ({ s with socks := ⟨fd, k, true⟩ :: s.socks }, some fd) := by
  cases made with
  | failed => exact .inl ⟨rfl, (Option.some.inj h).symm⟩
  | noRing fd =>
    simp only [gazelleSocket, Option.ite_none_right_eq_some, Option.some.injEq] at h
    rw [resetSockData_of_none (hfd fd rfl)] at h
    exact .inl ⟨rfl, h.2.symm⟩
  | made fd =>
    simp only [gazelleSocket, Option.ite_none_right_eq_some, Option.some.injEq] at h
    have hnone := hfd fd rfl
    refine .inr ⟨fd, rfl, hnone, ?_⟩
    rw [← h.2, initSock, resetSockData_of_none hnone]

end ConnSys

namespace ConnInv

open ConnSys

variable {c : ConnCfg} {s s' : ConnSys} {x : ConnCall} {stage : ConnStage} {k : ℕ}

/-- A stage in no stack thread is none of `gazelle_clean_sock`. -/
theorem not_cleaning (hrun : ∀ k, stage.runsOn k = false) {i fd owner : ℕ} {v : BitVec 16} :
    stage ≠ .cleaning i fd owner v := by
  rintro rfl
  have h := hrun i
  simp [ConnStage.runsOn] at h

/-- A call goes on outside the stack threads, without touching a counter. -/
theorem goto (h : ConnInv s) (hx : x ∈ s.calls)
    (hahead : ∀ k, stage.ahead k = x.stage.ahead k)
    (hbehind : ∀ k, stage.behind k = x.stage.behind k)
    (hrun : ∀ k, stage.runsOn k = false) : ConnInv (s.goto x stage) where
  ledger k := by
    have h₁ := ahead_goto hx stage k
    have h₂ := behind_goto hx stage k
    rw [hahead] at h₁
    rw [hbehind] at h₂
    rw [Nat.add_right_cancel h₁, Nat.add_right_cancel h₂]
    exact h.ledger k
  fds := h.fds
  single k := by
    have h₁ := busy_goto hx stage k
    have h₂ := h.single k
    rw [hrun k] at h₁
    simp only [Bool.false_eq_true, if_false] at h₁
    omega
  cleaning y hy i fd owner v hst := by
    rcases mem_goto hy with hy | rfl
    · exact h.cleaning y hy i fd owner v hst
    · exact absurd hst (not_cleaning hrun)

/-- A call begins. -/
theorem start (h : ConnInv s) {t : ℕ} (hahead : ∀ k, stage.ahead k = false)
    (hbehind : ∀ k, stage.behind k = false) (hrun : ∀ k, stage.runsOn k = false) :
    ConnInv (s.start t stage) where
  ledger k := by
    rw [ahead_start, behind_start, hahead, hbehind]
    exact h.ledger k
  fds := h.fds
  single k := by
    rw [busy_start, hrun]
    exact h.single k
  cleaning y hy i fd owner v hst := by
    rcases mem_start hy with hy | rfl
    · exact h.cleaning y hy i fd owner v hst
    · exact absurd hst (not_cleaning hrun)

/-- A call returns, after it has changed counters and sockets. -/
theorem returns (h : ConnInv s) (hx : x ∈ s.calls) (hcalls : s'.calls = s.calls.erase x)
    (hledger : ∀ k, ((s'.connNum k).toNat + (s.returns x).behind k + s'.uncounted k) % 2 ^ 16 =
      (s'.live k + (s.returns x).ahead k + s'.lost k) % 2 ^ 16)
    (hfds : (s'.socks.map ConnSock.fd).Nodup)
    (hsocks : ∀ y ∈ s.calls.erase x, ∀ k fd owner v, y.stage = .cleaning k fd owner v →
      ⟨fd, k⟩ ∈ s.socks.map (fun y => (y.fd, y.stack)) →
      ⟨fd, k⟩ ∈ s'.socks.map (fun y => (y.fd, y.stack))) : ConnInv s' where
  ledger k := by
    have h₀ := hledger k
    simp only [behind, ahead] at h₀
    simp only [behind, ahead, hcalls]
    exact h₀
  fds := hfds
  single k := by
    have h₁ := busy_return hx k
    have h₂ := h.single k
    have h₃ : s'.busy k = (s.returns x).busy k := by
      rw [busy, hcalls]
      rfl
    omega
  cleaning y hy i fd owner v hst := by
    rw [hcalls] at hy
    have h₀ := h.cleaning y (List.mem_of_mem_erase hy) i fd owner v hst
    exact ⟨h₀.1, hsocks y hy i fd owner v hst h₀.2⟩

/-- The invariant is about the counters, the calls and the sockets. -/
theorem congr (h : ConnInv s) (hnum : s'.connNum = s.connNum) (hcalls : s'.calls = s.calls)
    (hsocks : s'.socks = s.socks) (hlost : s'.lost = s.lost)
    (huncounted : s'.uncounted = s.uncounted) : ConnInv s' where
  ledger k := by
    have h₀ := h.ledger k
    simp only [behind, live, ahead] at h₀ ⊢
    rw [hnum, hcalls, hsocks, hlost, huncounted]
    exact h₀
  fds := hsocks ▸ h.fds
  single k := by
    have h₀ := h.single k
    simp only [busy] at h₀ ⊢
    rw [hcalls]
    exact h₀
  cleaning := by
    rw [hcalls, hsocks]
    exact h.cleaning

/-- `conn_num` is stored for a socket that is still to be made. -/
theorem countSocket (h : ConnInv s) (hx : x ∈ s.calls) {index : ℕ} {value : BitVec 16}
    (hst : x.stage = .store index value) (hv : s.connNum index = value) :
    ConnInv ((s.countSocket x.thread index value).goto x (.alloc index)) := by
  have hstore : ConnInv ({ s with
      connNum := Function.update s.connNum index (value + 1) }.goto x (.alloc index)) := by
    refine ⟨fun k => ?_, h.fds, fun k => ?_, fun y hy i fd owner v hy' => ?_⟩
    · have h₀ := h.ledger k
      have h₁ := ahead_goto hx (.alloc index) k
      have h₂ := behind_goto hx (.alloc index) k
      simp only [hst, ConnStage.ahead, ConnStage.behind, Bool.false_eq_true, if_false,
        decide_eq_true_eq, Nat.add_zero] at h₁ h₂
      show ((Function.update s.connNum index (value + 1) k).toNat +
        (s.goto x (.alloc index)).behind k + s.uncounted k) % 2 ^ 16 =
          (s.live k + (s.goto x (.alloc index)).ahead k + s.lost k) % 2 ^ 16
      rw [h₁, h₂]
      by_cases hk : index = k
      · subst hk
        have hone : (1 : BitVec 16).toNat = 1 := rfl
        rw [Function.update_self, if_pos rfl, BitVec.toNat_add, ← hv, hone]
        omega
      · rw [Function.update_of_ne (Ne.symm hk), if_neg hk]
        exact h₀
    · have h₁ := busy_goto hx (.alloc index) k
      have h₂ := h.single k
      simp only [ConnStage.runsOn, Bool.false_eq_true, if_false] at h₁
      show (s.goto x (.alloc index)).busy k ≤ 1
      omega
    · rcases mem_goto hy with hy | rfl
      · exact h.cleaning y hy i fd owner v hy'
      · cases hy'
  unfold ConnSys.countSocket
  split <;> exact hstore.congr rfl rfl rfl rfl rfl

/-- `rpc_msg_alloc` fails, and the counter stays raised. -/
theorem lose (h : ConnInv s) (hx : x ∈ s.calls) {i : ℕ}
    (hahead : ∀ k, x.stage.ahead k = decide (i = k)) (hbehind : ∀ k, x.stage.behind k = false) :
    ConnInv { s.returns x with lost := Function.update s.lost i (s.lost i + 1) } := by
  refine h.returns hx rfl (fun k => ?_) h.fds (fun y _ k fd owner v _ hmem => hmem)
  have h₀ := h.ledger k
  have h₁ := ahead_return hx k
  have h₂ := behind_return hx k
  rw [hahead] at h₁
  rw [hbehind] at h₂
  simp only [Bool.false_eq_true, if_false, Nat.add_zero, decide_eq_true_eq] at h₁ h₂
  show ((s.connNum k).toNat + _ + s.uncounted k) % 2 ^ 16 =
    (s.live k + _ + Function.update s.lost i (s.lost i + 1) k) % 2 ^ 16
  rw [h₂]
  by_cases hk : i = k
  · subst hk
    rw [Function.update_self]
    rw [if_pos rfl] at h₁
    omega
  · rw [Function.update_of_ne (Ne.symm hk)]
    rw [if_neg hk] at h₁
    omega

/-- `rpc_call_socket` goes on. -/
theorem app (h : ConnInv s) (hx : x ∈ s.calls) {msg : Bool} (hv : s.Unchanged x.stage)
    (hs : s.app c x msg = some s') : ConnInv s' := by
  unfold ConnSys.app at hs
  split at hs
  · next i index min hst =>
    obtain rfl := Option.some.inj hs
    have hplain : (∃ i' index' min', s.scanStack c i index min = .scan i' index' min') ∨
        ∃ index', s.scanStack c i index min = .load index' := by
      unfold scanStack
      split
      · split <;> exact .inl ⟨_, _, _, rfl⟩
      · exact .inr ⟨_, rfl⟩
    obtain ⟨i', index', min', hplain⟩ | ⟨index', hplain⟩ := hplain <;>
    · rw [hplain]
      exact h.goto hx (fun k => by rw [hst]; rfl) (fun k => by rw [hst]; rfl) (fun _ => rfl)
  · next index hst =>
    obtain rfl := Option.some.inj hs
    exact h.goto hx (fun k => by rw [hst]; rfl) (fun k => by rw [hst]; rfl) (fun _ => rfl)
  · next index value hst =>
    obtain rfl := Option.some.inj hs
    rw [hst] at hv
    exact h.countSocket hx hst hv
  · next index hst =>
    split at hs
    · obtain rfl := Option.some.inj hs
      exact h.goto hx (fun k => by rw [hst]; rfl) (fun k => by rw [hst]; rfl) (fun _ => rfl)
    · obtain rfl := Option.some.inj hs
      exact h.lose hx (fun k => by rw [hst]; rfl) (fun k => by rw [hst]; rfl)
  · cases hs

/-- A message is sent that is not one of `rpc_call_socket`. -/
theorem send (h : ConnInv s) {t i : ℕ} {msg : SockMsg} (hmsg : msg ≠ .stackSocket) :
    ConnInv (s.start t (.queued i msg)) := by
  refine h.start (fun k => ?_) (fun _ => rfl) (fun _ => rfl)
  cases msg with
  | stackSocket => exact absurd rfl hmsg
  | _ => rfl

/-- `get_bind_protocol_stack` begins. -/
theorem getBindProtocolStack (h : ConnInv s) {t : ℕ} (hs : s.getBindProtocolStack c t = some s') :
    ConnInv s' := by
  unfold ConnSys.getBindProtocolStack at hs
  split at hs
  · obtain rfl := Option.some.inj hs
    exact h.start (fun _ => rfl) (fun _ => rfl) (fun _ => rfl)
  · have hindex : ConnInv { s with stackIndex := s.stackIndex + 1 } := h.congr rfl rfl rfl rfl rfl
    have hlock : ConnInv { s with socketLock := true } := h.congr rfl rfl rfl rfl rfl
    split at hs
    · dsimp only at hs
      split at hs
      · obtain rfl := Option.some.inj hs
        exact hindex
      · obtain rfl := Option.some.inj hs
        exact hindex.start (fun _ => rfl) (fun _ => rfl) (fun _ => rfl)
    · split at hs
      · cases hs
      · obtain rfl := Option.some.inj hs
        exact hlock.start (fun _ => rfl) (fun _ => rfl) (fun _ => rfl)

/-- The kernel has closed a descriptor, and lwIP keeps its socket. -/
theorem closeFd (h : ConnInv s) (fd : ℕ) :
    ConnInv { s with
      socks := s.socks.map fun y => if y.fd = fd then { y with fdOpen := false } else y } where
  ledger k := by
    have h₀ := h.ledger k
    rw [← live_closeFd fd k] at h₀
    exact h₀
  fds := by
    have hfds : (s.socks.map fun y => if y.fd = fd then { y with fdOpen := false } else y).map
        ConnSock.fd = s.socks.map ConnSock.fd := by
      rw [List.map_map]
      refine List.map_congr_left fun y _ => ?_
      show (if y.fd = fd then { y with fdOpen := false } else y : ConnSock).fd = y.fd
      split <;> rfl
    show ((s.socks.map _).map ConnSock.fd).Nodup
    rw [hfds]
    exact h.fds
  single := h.single
  cleaning x hx i fd' owner v hst := by
    have hmap : (s.socks.map fun y => if y.fd = fd then { y with fdOpen := false } else y).map
        (fun y => (y.fd, y.stack)) = s.socks.map fun y => (y.fd, y.stack) := by
      rw [List.map_map]
      refine List.map_congr_left fun y _ => ?_
      show ((if y.fd = fd then { y with fdOpen := false } else y : ConnSock).fd,
        (if y.fd = fd then { y with fdOpen := false } else y : ConnSock).stack) = (y.fd, y.stack)
      split <;> rfl
    show owner = i ∧ (fd', i) ∈ (s.socks.map _).map _
    rw [hmap]
    exact h.cleaning x hx i fd' owner v hst

/-- `do_close` begins. -/
theorem doClose (h : ConnInv s) (t fd : ℕ) (msg kernel : Bool) :
    ConnInv (s.doClose t fd msg kernel) := by
  unfold ConnSys.doClose
  split
  · split
    · exact h.send (by simp)
    · split
      · exact h.closeFd fd
      · exact h
  · exact h

/-- A socket that is made has a descriptor of its own. -/
theorem fds_cons (h : ConnInv s) {fd : ℕ} (hfd : s.sockOf fd = none) (k : ℕ) (b : Bool) :
    (((⟨fd, k, b⟩ : ConnSock) :: s.socks).map ConnSock.fd).Nodup := by
  rw [List.map_cons, List.nodup_cons]
  refine ⟨fun hmem => ?_, h.fds⟩
  obtain ⟨y, hy, hyfd⟩ := List.mem_map.1 hmem
  exact sockOf_eq_none.1 hfd y hy hyfd

/-- The socket of `rpc_call_socket` is made. -/
theorem socketMade (h : ConnInv s) (hx : x ∈ s.calls) (hst : x.stage = .queued k .stackSocket)
    {fd : ℕ} (hfd : s.sockOf fd = none) :
    ConnInv ({ s with socks := ⟨fd, k, true⟩ :: s.socks }.returns x) := by
  refine h.returns hx rfl (fun j => ?_) (h.fds_cons hfd k true)
    (fun y _ i fd' owner v _ hmem => List.mem_cons_of_mem _ hmem)
  have h₀ := h.ledger j
  have h₁ := ahead_return hx j
  have h₂ := behind_return hx j
  have h₃ := live_cons (s := s) ({ s with socks := ⟨fd, k, true⟩ :: s.socks }.returns x) fd k
    true rfl j
  simp only [hst, ConnStage.ahead, ConnStage.behind, Bool.false_eq_true, if_false,
    decide_eq_true_eq, Nat.add_zero] at h₁ h₂
  rw [h₃, h₂]
  show ((s.connNum j).toNat + s.behind j + s.uncounted j) % 2 ^ 16 = (_ + _ + s.lost j) % 2 ^ 16
  rw [h₀, ← h₁]
  congr 1
  omega

/-- `stack_socket`. -/
theorem stackSocket (h : ConnInv s) (hx : x ∈ s.calls) (hst : x.stage = .queued k .stackSocket)
    {first second : SockMade} (hfirst : ∀ fd ∈ first.fd?, s.sockOf fd = none)
    (hsecond : ∀ fd ∈ second.fd?, s.sockOf fd = none)
    (hs : s.stackSocket k x first second = some s') : ConnInv s' := by
  obtain ⟨r, hr, hs⟩ := Option.bind_eq_some_iff.1 hs
  rcases gazelleSocket_cases hfirst hr with ⟨-, rfl⟩ | ⟨fd, -, hfd, rfl⟩
  · obtain ⟨r', hr', rfl⟩ := Option.map_eq_some_iff.1 hs
    rcases gazelleSocket_cases hsecond hr' with ⟨-, rfl⟩ | ⟨fd, -, hfd, rfl⟩
    · exact h.lose hx (fun k => by rw [hst]; rfl) (fun k => by rw [hst]; rfl)
    · exact h.socketMade hx hst hfd
  · obtain rfl := Option.some.inj hs
    exact h.socketMade hx hst hfd

/-- A message is answered without a change. -/
theorem answer (h : ConnInv s) (hx : x ∈ s.calls) (hahead : ∀ j, x.stage.ahead j = false)
    (hbehind : ∀ j, x.stage.behind j = false) : ConnInv (s.returns x) := by
  refine h.returns hx rfl (fun j => ?_) h.fds (fun y _ i fd' owner v _ hmem => hmem)
  have h₁ := ahead_return hx j
  have h₂ := behind_return hx j
  rw [hahead] at h₁
  rw [hbehind] at h₂
  simp only [Bool.false_eq_true, if_false, Nat.add_zero] at h₁ h₂
  rw [h₁, h₂]
  exact h.ledger j

/-- A stack thread begins with a message that it does not finish at once. -/
theorem busy_goto_le (h : ConnInv s) (hidle : s.busy k = 0) (hx : x ∈ s.calls) {msg : SockMsg}
    (hst : x.stage = .queued k msg) (hrun : ∀ j, stage.runsOn j = decide (k = j)) (j : ℕ) :
    (s.goto x stage).busy j ≤ 1 := by
  have h₁ := busy_goto hx stage j
  have h₂ := h.single j
  rw [hst, hrun] at h₁
  simp only [ConnStage.runsOn, Bool.false_eq_true, if_false, decide_eq_true_eq,
    Nat.add_zero] at h₁
  rw [h₁]
  by_cases hj : k = j
  · refine Nat.le_of_eq ?_
    rw [if_pos hj, ← hj, hidle]
  · rw [if_neg hj]
    exact h₂

/-- `stack_accept`. -/
theorem stackAccept (h : ConnInv s) (hidle : s.busy k = 0) (hx : x ∈ s.calls)
    (hst : x.stage = .queued k .stackAccept) {first : SockMade}
    (hfirst : ∀ fd ∈ first.fd?, s.sockOf fd = none) (hs : s.stackAccept k x first = some s') :
    ConnInv s' := by
  obtain ⟨r, hr, rfl⟩ := Option.map_eq_some_iff.1 hs
  rcases gazelleSocket_cases hfirst hr with ⟨-, rfl⟩ | ⟨fd, -, hfd, rfl⟩
  · exact h.answer hx (fun j => by rw [hst]; rfl) (fun j => by rw [hst]; rfl)
  · refine ⟨fun j => ?_, h.fds_cons hfd k true,
      h.busy_goto_le hidle hx hst (fun _ => rfl), fun y hy i fd' owner v hy' => ?_⟩
    · have h₀ := h.ledger j
      have h₁ := ahead_goto hx (.accepted k (s.connNum k)) j
      have h₂ := behind_goto hx (.accepted k (s.connNum k)) j
      have h₃ := live_cons (s := s) { s with socks := ⟨fd, k, true⟩ :: s.socks } fd k true rfl j
      simp only [hst, ConnStage.ahead, ConnStage.behind, Bool.false_eq_true, if_false,
        decide_eq_true_eq, Nat.add_zero] at h₁ h₂
      show ((s.connNum j).toNat + (s.goto x (.accepted k (s.connNum k))).behind j +
        s.uncounted j) % 2 ^ 16 = (ConnSys.live { s with socks := ⟨fd, k, true⟩ :: s.socks } j +
          (s.goto x (.accepted k (s.connNum k))).ahead j + s.lost j) % 2 ^ 16
      rw [h₁, h₂, h₃]
      omega
    · rcases mem_goto hy with hy | rfl
      · have h₀ := h.cleaning y hy i fd' owner v hy'
        exact ⟨h₀.1, List.mem_cons_of_mem _ h₀.2⟩
      · cases hy'

/-- `create_shadow_fd`. -/
theorem createShadowFd (h : ConnInv s) (hx : x ∈ s.calls)
    (hst : x.stage = .queued k .createShadowFd) {first : SockMade}
    (hfirst : ∀ fd ∈ first.fd?, s.sockOf fd = none)
    (hs : s.createShadowFd k x first = some s') : ConnInv s' := by
  obtain ⟨r, hr, rfl⟩ := Option.map_eq_some_iff.1 hs
  rcases gazelleSocket_cases hfirst hr with ⟨-, rfl⟩ | ⟨fd, -, hfd, rfl⟩
  · exact h.answer hx (fun j => by rw [hst]; rfl) (fun j => by rw [hst]; rfl)
  · refine h.returns hx rfl (fun j => ?_) (h.fds_cons hfd k true)
      (fun y _ i fd' owner v _ hmem => List.mem_cons_of_mem _ hmem)
    have h₀ := h.ledger j
    have h₁ := ahead_return hx j
    have h₂ := behind_return hx j
    have h₃ := live_cons (s := s) { s with socks := ⟨fd, k, true⟩ :: s.socks } fd k true rfl j
    simp only [hst, ConnStage.ahead, ConnStage.behind, Bool.false_eq_true, if_false,
      Nat.add_zero] at h₁ h₂
    rw [h₁, h₂]
    show ((s.connNum j).toNat + s.behind j +
      Function.update s.uncounted k (s.uncounted k + 1) j) % 2 ^ 16 =
        (ConnSys.live { s with socks := ⟨fd, k, true⟩ :: s.socks } j + s.ahead j +
          s.lost j) % 2 ^ 16
    rw [h₃]
    by_cases hj : k = j
    · subst hj
      rw [Function.update_self, if_pos rfl]
      omega
    · rw [Function.update_of_ne (Ne.symm hj), if_neg hj]
      exact h₀

/-- `stack_close` begins. -/
theorem stackClose (h : ConnInv s) (hidle : s.busy k = 0) (hx : x ∈ s.calls) {fd : ℕ}
    (hst : x.stage = .queued k (.stackClose fd))
    (hown : ∀ y ∈ s.socks, y.fd = fd → y.stack = k) : ConnInv (s.stackClose k x fd) := by
  have hahead : ∀ j, x.stage.ahead j = false := fun j => by rw [hst]; rfl
  have hbehind : ∀ j, x.stage.behind j = false := fun j => by rw [hst]; rfl
  unfold ConnSys.stackClose
  split
  · next y hy =>
    have hmem : y ∈ s.socks := List.mem_of_find?_eq_some hy
    have hyfd : y.fd = fd := by simpa using List.find?_some hy
    have hyk : y.stack = k := hown y hmem hyfd
    refine ⟨fun j => ?_, h.fds, h.busy_goto_le hidle hx hst (fun _ => rfl),
      fun z hz i fd' owner v hz' => ?_⟩
    · have h₁ := ahead_goto hx (.cleaning k fd y.stack (s.connNum y.stack)) j
      have h₂ := behind_goto hx (.cleaning k fd y.stack (s.connNum y.stack)) j
      rw [hahead] at h₁
      rw [hbehind] at h₂
      simp only [ConnStage.ahead, ConnStage.behind, Bool.false_eq_true, if_false,
        Nat.add_zero] at h₁ h₂
      rw [h₁, h₂]
      exact h.ledger j
    · rcases mem_goto hz with hz | rfl
      · exact h.cleaning z hz i fd' owner v hz'
      · simp only [ConnStage.cleaning.injEq] at hz'
        obtain ⟨rfl, rfl, rfl, -⟩ := hz'
        exact ⟨hyk, List.mem_map.2 ⟨y, hmem, by rw [hyfd, hyk]⟩⟩
  · exact h.answer hx hahead hbehind

/-- `poll_rpc_msg`. -/
theorem poll (h : ConnInv s) {first second : SockMade} (hno : s.NoOverlap (.poll k first second))
    (hs : s.poll k first second = some s') : ConnInv s' := by
  obtain ⟨hfirst, hsecond, hown⟩ := hno
  unfold ConnSys.poll at hs
  split at hs
  · cases hs
  · next hidle =>
    have hidle : s.busy k = 0 := busy_of_idle (not_not.1 hidle)
    obtain ⟨x, hx, hs⟩ := Option.bind_eq_some_iff.1 hs
    obtain ⟨msg, hst⟩ := nextMsg_stage hx
    have hmem := nextMsg_mem hx
    rw [hst] at hs
    cases msg with
    | stackSocket => exact h.stackSocket hmem hst hfirst hsecond hs
    | stackAccept => exact h.stackAccept hidle hmem hst hfirst hs
    | createShadowFd => exact h.createShadowFd hmem hst hfirst hs
    | stackClose fd =>
      obtain rfl := Option.some.inj hs
      exact h.stackClose hidle hmem hst fun y hy hyfd => hown x hx y hy (hyfd ▸ hst)

/-- A socket that goes. -/
theorem live_resetSockData (h : ConnInv s) {fd : ℕ}
    (hmem : (fd, k) ∈ s.socks.map fun y => (y.fd, y.stack)) (j : ℕ) :
    (s.resetSockData fd).live j + (if k = j then 1 else 0) = s.live j := by
  obtain ⟨y, hy, hyk⟩ := List.mem_map.1 hmem
  obtain ⟨rfl, rfl⟩ := Prod.mk.inj hyk
  have herase : s.socks.filter (fun x => x.fd ≠ y.fd) = s.socks.erase y := by
    rw [(List.Nodup.of_map _ h.fds).erase_eq_filter]
    refine List.filter_congr fun x hx => ?_
    have hxy : x.fd = y.fd ↔ x = y :=
      ⟨List.inj_on_of_nodup_map h.fds hx hy, fun hxy => hxy ▸ rfl⟩
    simp [hxy, bne, beq_eq_decide]
  have hcount := countP_erase_add (fun x => decide (x.stack = j)) hy
  rw [← herase] at hcount
  simp only [decide_eq_true_eq] at hcount
  exact hcount

/-- The counter is stored at the end of `stack_accept` or in `gazelle_clean_sock`. -/
theorem finish (h : ConnInv s) (hno : s.NoOverlap (.finish k)) (hs : s.finish k = some s') :
    ConnInv s' := by
  unfold ConnSys.finish at hs
  obtain ⟨x, hx, hs⟩ := Option.bind_eq_some_iff.1 hs
  have hmem := running_mem hx
  have hv := hno x hx
  have hone : (1 : BitVec 16).toNat = 1 := rfl
  split at hs
  · next i value hst =>
    obtain rfl := Option.some.inj hs
    rw [hst] at hv
    refine h.returns hmem rfl (fun j => ?_) h.fds (fun y _ i fd' owner v _ hmem => hmem)
    have h₀ := h.ledger j
    have h₁ := ahead_return hmem j
    have h₂ := behind_return hmem j
    simp only [hst, ConnStage.ahead, ConnStage.behind, Bool.false_eq_true, if_false,
      decide_eq_true_eq, Nat.add_zero] at h₁ h₂
    rw [h₁]
    show ((Function.update s.connNum i (value + 1) j).toNat + _ + s.uncounted j) % 2 ^ 16 =
      (s.live j + s.ahead j + s.lost j) % 2 ^ 16
    by_cases hj : i = j
    · subst hj
      have hval : s.connNum i = value := hv
      rw [if_pos rfl] at h₂
      rw [Function.update_self, BitVec.toNat_add, ← hval, hone]
      omega
    · rw [if_neg hj] at h₂
      rw [Function.update_of_ne (Ne.symm hj)]
      omega
  · next i fd owner value hst =>
    obtain rfl := Option.some.inj hs
    rw [hst] at hv
    obtain ⟨rfl, hsock⟩ := h.cleaning x hmem i fd owner value hst
    have hk : x.stage.runsOn owner = true := by
      rw [hst]
      exact decide_eq_true rfl
    have hsub : ((s.socks.filter fun y => y.fd ≠ fd).map ConnSock.fd).Nodup :=
      List.Nodup.sublist (List.Sublist.map _ List.filter_sublist) h.fds
    refine h.returns hmem rfl (fun j => ?_) hsub (fun y hy i' fd' owner' v hst' hsock' => ?_)
    · have h₀ := h.ledger j
      have h₁ := ahead_return hmem j
      have h₂ := behind_return hmem j
      have h₃ := h.live_resetSockData hsock j
      simp only [hst, ConnStage.ahead, ConnStage.behind, Bool.false_eq_true, if_false,
        Nat.add_zero] at h₁ h₂
      rw [h₁, h₂]
      show ((Function.update s.connNum owner (value - 1) j).toNat + _ + s.uncounted j) % 2 ^ 16 =
        ((s.resetSockData fd).live j + s.ahead j + s.lost j) % 2 ^ 16
      by_cases hj : owner = j
      · subst hj
        have hval : s.connNum owner = value := hv
        rw [if_pos rfl] at h₃
        rw [Function.update_self, BitVec.toNat_sub, ← hval, hone]
        omega
      · rw [if_neg hj] at h₃
        rw [Function.update_of_ne (Ne.symm hj)]
        omega
    · -- another call that closes a socket runs in another thread, and so closes another socket
      have hother : i' ≠ owner := by
        rintro rfl
        have h₁ := busy_return hmem i'
        have h₂ := h.single i'
        rw [hk, if_pos rfl] at h₁
        have hpos : 0 < (s.returns x).busy i' :=
          List.countP_pos_iff.2 ⟨y, hy, by rw [hst']; exact decide_eq_true rfl⟩
        omega
      obtain ⟨z, hz, hzk⟩ := List.mem_map.1 hsock'
      obtain ⟨w, hw, hwk⟩ := List.mem_map.1 hsock
      obtain ⟨rfl, rfl⟩ := Prod.mk.inj hzk
      obtain ⟨rfl, rfl⟩ := Prod.mk.inj hwk
      refine List.mem_map.2 ⟨z, List.mem_filter.2 ⟨hz, decide_eq_true fun hfd => ?_⟩, rfl⟩
      exact hother (congrArg ConnSock.stack (List.inj_on_of_nodup_map h.fds hz hw hfd))
  · cases hs

/-- The invariant is kept when updates do not overlap. -/
theorem step (h : ConnInv s) {a : ConnAct} (hno : s.NoOverlap a) (hs : s.step c a = some s') :
    ConnInv s' := by
  cases a with
  | rpcCallSocket t =>
    simp only [ConnSys.step, Option.ite_none_right_eq_some] at hs
    exact h.getBindProtocolStack hs.2
  | app t msg =>
    obtain ⟨x, hx, hs⟩ := Option.bind_eq_some_iff.1 hs
    exact h.app (callOf_mem hx) (hno x hx) hs
  | rpcCallAccept t fd msg =>
    simp only [ConnSys.step, Option.ite_none_right_eq_some, Option.some.injEq] at hs
    obtain ⟨-, rfl⟩ := hs
    unfold ConnSys.rpcCallAccept
    split
    · split
      · exact h.send (by simp)
      · exact h
    · exact h
  | rpcCallShadowFd t i fd msg =>
    simp only [ConnSys.step, Option.ite_none_right_eq_some, Option.some.injEq] at hs
    obtain ⟨-, rfl⟩ := hs
    split
    · exact h.send (by simp)
    · exact h
  | doClose t fd msg kernel =>
    simp only [ConnSys.step, Option.ite_none_right_eq_some, Option.some.injEq] at hs
    obtain ⟨-, rfl⟩ := hs
    exact h.doClose t fd msg kernel
  | poll k first second => exact h.poll hno hs
  | finish k => exact h.finish hno hs

/-- There is nothing at first. -/
theorem initial : ConnInv initial where
  ledger _ := rfl
  fds := List.nodup_nil
  single _ := Nat.zero_le 1
  cleaning _ hx := absurd hx List.not_mem_nil

/-- In a run whose updates do not overlap, the counter differs from the number of sockets by what is
in progress, lost and uncounted. -/
theorem of_reachable (hs : (system c).ReachableUnder NoOverlap s) : ConnInv s := by
  refine Transition.System.invariant_under (I := ConnInv) ?_ ?_ hs
  · rintro s rfl
    exact initial
  · intro s a s' h hno hs
    exact h.step hno hs

end ConnInv

/-- Nothing was lost or not counted, and the sockets with those to come fit into the counter. -/
structure ConnExact (s : ConnSys) : Prop where
  /-- No `conn_num` stayed raised without a socket. -/
  lost : ∀ k, s.lost k = 0
  /-- No socket was made without raising `conn_num`. -/
  uncounted : ∀ k, s.uncounted k = 0
  /-- The sockets with those to come. -/
  room : ∀ k, s.live k + s.ahead k ≤ 65535

namespace ConnExact

open ConnSys

variable {c : ConnCfg} {s s' : ConnSys} {x : ConnCall} {stage : ConnStage} {k : ℕ}

/-- The same losses, and no more sockets with those to come. -/
theorem of_le (h : ConnExact s) (hlost : s'.lost = s.lost) (huncounted : s'.uncounted = s.uncounted)
    (hle : ∀ k, s'.live k + s'.ahead k ≤ s.live k + s.ahead k) : ConnExact s' where
  lost k := by rw [hlost]; exact h.lost k
  uncounted k := by rw [huncounted]; exact h.uncounted k
  room k := Nat.le_trans (hle k) (h.room k)

/-- The same losses, and one socket more for a stack with room for it. -/
theorem of_room (h : ConnExact s) (hlost : s'.lost = s.lost)
    (huncounted : s'.uncounted = s.uncounted) {i : ℕ} (hroom : s.live i + s.ahead i < 65535)
    (hle : ∀ k, s'.live k + s'.ahead k ≤ s.live k + s.ahead k + (if i = k then 1 else 0)) :
    ConnExact s' where
  lost k := by rw [hlost]; exact h.lost k
  uncounted k := by rw [huncounted]; exact h.uncounted k
  room k := by
    have h₁ := hle k
    have h₂ := h.room k
    split at h₁
    · next hk =>
      subst hk
      omega
    · omega

/-- A call goes on, with no socket to come that was not to come before. -/
theorem goto (h : ConnExact s) (hx : x ∈ s.calls)
    (hahead : ∀ k, stage.ahead k = x.stage.ahead k) : ConnExact (s.goto x stage) := by
  refine h.of_le rfl rfl fun k => ?_
  have h₁ := ahead_goto hx stage k
  rw [hahead] at h₁
  exact Nat.le_of_eq (congrArg (s.live k + ·) (Nat.add_right_cancel h₁))

/-- A call begins, with no socket to come. -/
theorem start (h : ConnExact s) {t : ℕ} (hahead : ∀ k, stage.ahead k = false) :
    ConnExact (s.start t stage) := by
  refine h.of_le rfl rfl fun k => ?_
  have h₁ := ahead_start (s := s) t stage k
  rw [hahead] at h₁
  exact Nat.le_of_eq (congrArg (s.live k + ·) h₁)

/-- A message is sent that is not one of `rpc_call_socket`. -/
theorem send (h : ConnExact s) {t i : ℕ} {msg : SockMsg} (hmsg : msg ≠ .stackSocket) :
    ConnExact (s.start t (.queued i msg)) := by
  refine h.start fun k => ?_
  cases msg with
  | stackSocket => exact absurd rfl hmsg
  | _ => rfl

/-- A call returns, and no socket is made. -/
theorem returns (h : ConnExact s) (hx : x ∈ s.calls) : ConnExact (s.returns x) := by
  refine h.of_le rfl rfl fun k => ?_
  have h₁ := ahead_return hx k
  show s.live k + (s.returns x).ahead k ≤ _
  omega

/-- `get_bind_protocol_stack` begins. -/
theorem getBindProtocolStack (h : ConnExact s) {t : ℕ}
    (hs : s.getBindProtocolStack c t = some s') : ConnExact s' := by
  have hindex : ConnExact { s with stackIndex := s.stackIndex + 1 } :=
    h.of_le rfl rfl fun k => Nat.le_refl _
  have hlock : ConnExact { s with socketLock := true } := h.of_le rfl rfl fun k => Nat.le_refl _
  unfold ConnSys.getBindProtocolStack at hs
  split at hs
  · obtain rfl := Option.some.inj hs
    exact h.start fun _ => rfl
  · split at hs
    · dsimp only at hs
      split at hs
      · obtain rfl := Option.some.inj hs
        exact hindex
      · obtain rfl := Option.some.inj hs
        exact hindex.start fun _ => rfl
    · split at hs
      · cases hs
      · obtain rfl := Option.some.inj hs
        exact hlock.start fun _ => rfl

/-- `rpc_call_socket` goes on. -/
theorem app (h : ConnExact s) {t : ℕ} {msg : Bool} (hb : s.Balanced (.app t msg))
    (hx : x ∈ s.callOf t) (hs : s.app c x msg = some s') : ConnExact s' := by
  have hb := hb x hx
  have hmem := callOf_mem hx
  unfold ConnSys.app at hs
  split at hs
  · -- the scan for the stack with the fewest connections counts nothing yet
    next i index min hst =>
    obtain rfl := Option.some.inj hs
    refine h.goto hmem fun k => ?_
    rw [hst]
    unfold scanStack
    split
    · split <;> rfl
    · rfl
  · next index hst =>
    obtain rfl := Option.some.inj hs
    exact h.goto hmem fun k => by rw [hst]; rfl
  · next index value hst =>
    obtain rfl := Option.some.inj hs
    rw [hst] at hb
    -- the count of the chosen stack is one ahead of its sockets; no other stack is concerned
    have hcount : ∀ s₁ : ConnSys, s₁.calls = s.calls → s₁.socks = s.socks → ∀ k,
        (s₁.goto x (.alloc index)).live k + (s₁.goto x (.alloc index)).ahead k ≤
          s.live k + s.ahead k + (if index = k then 1 else 0) := by
      intro s₁ hcalls hsocks k
      have h₁ := ahead_goto (s := s₁) (hcalls ▸ hmem) (.alloc index) k
      have h₂ : s₁.live k = s.live k := by rw [live, hsocks, live]
      have h₃ : s₁.ahead k = s.ahead k := by rw [ahead, hcalls, ahead]
      simp only [hst, ConnStage.ahead, Bool.false_eq_true, if_false, decide_eq_true_eq,
        Nat.add_zero] at h₁
      show s₁.live k + _ ≤ _
      omega
    unfold countSocket
    split <;> exact h.of_room rfl rfl hb (hcount _ rfl rfl)
  · -- without a message the count would stay ahead, which the condition excludes
    next index hst =>
    rw [hst] at hb
    rw [if_pos hb] at hs
    obtain rfl := Option.some.inj hs
    exact h.goto hmem fun k => by rw [hst]; rfl
  · cases hs

/-- The socket of `rpc_call_socket` is made. -/
theorem socketMade (h : ConnExact s) (hx : x ∈ s.calls) (hst : x.stage = .queued k .stackSocket)
    (fd : ℕ) : ConnExact ({ s with socks := ⟨fd, k, true⟩ :: s.socks }.returns x) := by
  refine h.of_le rfl rfl fun j => ?_
  have h₁ := ahead_return hx j
  have h₃ := live_cons (s := s) { s with socks := ⟨fd, k, true⟩ :: s.socks } fd k true rfl j
  simp only [hst, ConnStage.ahead, decide_eq_true_eq] at h₁
  show ConnSys.live { s with socks := ⟨fd, k, true⟩ :: s.socks } j + (s.returns x).ahead j ≤ _
  omega

/-- `poll_rpc_msg`. -/
theorem poll (h : ConnExact s) {first second : SockMade}
    (hno : s.NoOverlap (.poll k first second)) (hb : s.Balanced (.poll k first second))
    (hs : s.poll k first second = some s') : ConnExact s' := by
  obtain ⟨hfirst, hsecond, -⟩ := hno
  unfold ConnSys.poll at hs
  -- the message is taken out of the queue, and its stage says what is done
  split at hs
  · cases hs
  · obtain ⟨x, hx, hs⟩ := Option.bind_eq_some_iff.1 hs
    obtain ⟨msg, hst⟩ := nextMsg_stage hx
    have hmem := nextMsg_mem hx
    have hb := hb x hx
    rw [hst] at hs hb
    cases msg with
    | stackSocket =>
      -- the second try is only made when the first one fails
      obtain ⟨r, hr, hs⟩ := Option.bind_eq_some_iff.1 hs
      rcases gazelleSocket_cases hfirst hr with ⟨hnot, rfl⟩ | ⟨fd, -, -, rfl⟩
      · obtain ⟨r', hr', rfl⟩ := Option.map_eq_some_iff.1 hs
        rcases gazelleSocket_cases hsecond hr' with ⟨hnot', rfl⟩ | ⟨fd, -, -, rfl⟩
        · rcases hb with hb | hb
          · exact absurd hb (by simp [hnot])
          · exact absurd hb (by simp [hnot'])
        · exact h.socketMade hmem hst fd
      · obtain rfl := Option.some.inj hs
        exact h.socketMade hmem hst fd
    | stackAccept =>
      -- the socket is there and `conn_num` is loaded, its store is a step of its own
      obtain ⟨r, hr, rfl⟩ := Option.map_eq_some_iff.1 hs
      rcases gazelleSocket_cases hfirst hr with ⟨-, rfl⟩ | ⟨fd, -, -, rfl⟩
      · exact h.returns hmem
      · refine h.of_room rfl rfl hb fun j => ?_
        have h₁ := ahead_goto hmem (.accepted k (s.connNum k)) j
        have h₃ := live_cons (s := s) { s with socks := ⟨fd, k, true⟩ :: s.socks } fd k true rfl j
        simp only [hst, ConnStage.ahead, Bool.false_eq_true, if_false, Nat.add_zero] at h₁
        show ConnSys.live { s with socks := ⟨fd, k, true⟩ :: s.socks } j +
          (s.goto x (.accepted k (s.connNum k))).ahead j ≤ _
        omega
    | createShadowFd =>
      -- a shadow descriptor is not counted, so the run may not make one
      obtain ⟨r, hr, rfl⟩ := Option.map_eq_some_iff.1 hs
      rcases gazelleSocket_cases hfirst hr with ⟨-, rfl⟩ | ⟨fd, rfl, -, -⟩
      · exact h.returns hmem
      · exact absurd rfl hb
    | stackClose fd =>
      -- the close counts down, unless the descriptor has no socket
      obtain rfl := Option.some.inj hs
      unfold ConnSys.stackClose
      split
      · exact h.goto hmem fun k => by rw [hst]; rfl
      · exact h.returns hmem

/-- The counter is stored at the end of `stack_accept` or in `gazelle_clean_sock`. -/
theorem finish (h : ConnExact s) (hs : s.finish k = some s') : ConnExact s' := by
  unfold ConnSys.finish at hs
  obtain ⟨x, hx, hs⟩ := Option.bind_eq_some_iff.1 hs
  have hret := h.returns (running_mem hx)
  split at hs
  · obtain rfl := Option.some.inj hs
    exact hret.of_le rfl rfl fun k => Nat.le_refl _
  · next i fd owner value hst =>
    obtain rfl := Option.some.inj hs
    refine hret.of_le rfl rfl fun j => Nat.add_le_add_right ?_ _
    exact List.Sublist.countP_le List.filter_sublist
  · cases hs

/-- Nothing is lost by a step that meets the condition. -/
theorem step (h : ConnExact s) {a : ConnAct} (hc : Condition s a) (hs : s.step c a = some s') :
    ConnExact s' := by
  cases a with
  | rpcCallSocket t =>
    simp only [ConnSys.step, Option.ite_none_right_eq_some] at hs
    exact h.getBindProtocolStack hs.2
  | app t msg =>
    obtain ⟨x, hx, hs⟩ := Option.bind_eq_some_iff.1 hs
    exact h.app hc.2 hx hs
  | rpcCallAccept t fd msg =>
    -- what is sent is not counted before the stack thread has it
    simp only [ConnSys.step, Option.ite_none_right_eq_some, Option.some.injEq] at hs
    obtain ⟨-, rfl⟩ := hs
    unfold ConnSys.rpcCallAccept
    split
    · split
      · exact h.send (by simp)
      · exact h
    · exact h
  | rpcCallShadowFd t i fd msg =>
    simp only [ConnSys.step, Option.ite_none_right_eq_some, Option.some.injEq] at hs
    obtain ⟨-, rfl⟩ := hs
    split
    · exact h.send (by simp)
    · exact h
  | doClose t fd msg kernel =>
    simp only [ConnSys.step, Option.ite_none_right_eq_some, Option.some.injEq] at hs
    obtain ⟨-, rfl⟩ := hs
    unfold ConnSys.doClose
    split
    · split
      · exact h.send (by simp)
      · split
        · -- without a message only the descriptor may be closed, and the socket stays counted
          exact h.of_le rfl rfl fun k =>
            Nat.le_of_eq (congrArg (· + s.ahead k) (live_closeFd fd k))
        · exact h
    · exact h
  | poll k first second => exact h.poll hc.1 hc.2 hs
  | finish k => exact h.finish hs

/-- Nothing is lost in a run whose steps all meet the condition. -/
theorem of_reachable (hs : (system c).ReachableUnder Condition s) : ConnExact s := by
  refine Transition.System.invariant_under (I := ConnExact) ?_ ?_ hs
  · rintro s rfl
    exact ⟨fun _ => rfl, fun _ => rfl, fun _ => Nat.zero_le _⟩
  · intro s a s' h hc hs
    exact h.step hc hs

end ConnExact

namespace ConnSys

variable {c : ConnCfg} {s : ConnSys}

/-- Without a call in progress nothing is to come. -/
theorem Quiet.ahead (h : s.Quiet) (k : ℕ) : s.ahead k = 0 := by
  rw [ConnSys.ahead, h, List.countP_nil]

/-- Without a call in progress no count is to come. -/
theorem Quiet.behind (h : s.Quiet) (k : ℕ) : s.behind k = 0 := by
  rw [ConnSys.behind, h, List.countP_nil]

/-- Between the calls of a run whose updates do not overlap, the counter of a stack is the number of
its sockets exactly when as many sockets were never counted as counts were never undone, modulo the
width of the counter. -/
theorem conn_num_eq_live_iff (hs : (system c).ReachableUnder NoOverlap s) (hq : s.Quiet) {k : ℕ}
    (hroom : s.live k < 2 ^ 16) :
    (s.connNum k).toNat = s.live k ↔
      s.lost k % 2 ^ 16 = s.uncounted k % 2 ^ 16 := by
  have h := (ConnInv.of_reachable hs).ledger k
  have hlt := (s.connNum k).isLt
  rw [hq.ahead, hq.behind] at h
  constructor <;> intro heq <;> omega

/-- The counter of a stack is not zero when a socket is about to be taken off it. -/
theorem conn_num_pos {x : ConnCall} {k fd owner : ℕ} {v : BitVec 16} (h : ConnInv s)
    (he : ConnExact s) (hx : x ∈ s.calls) (hst : x.stage = .cleaning k fd owner v) :
    s.connNum owner ≠ 0 := by
  obtain ⟨rfl, hsock⟩ := h.cleaning x hx k fd owner v hst
  -- the stack is busy with this call, so that it does not accept a connection
  have hbehind : s.behind owner = 0 := by
    refine List.countP_eq_zero.2 fun y hy hb => ?_
    have hyst : ∃ v', y.stage = .accepted owner v' := by
      unfold ConnStage.behind at hb
      split at hb
      · next i v' hyst => exact ⟨v', of_decide_eq_true hb ▸ hyst⟩
      · cases hb
    obtain ⟨v', hyst⟩ := hyst
    have h₁ := busy_return hx owner
    have h₂ := h.single owner
    have hne : y ≠ x := by
      rintro rfl
      rw [hst] at hyst
      cases hyst
    have hpos : 0 < (s.returns x).busy owner := by
      refine List.countP_pos_iff.2 ⟨y, (List.mem_erase_of_ne hne).2 hy, ?_⟩
      rw [hyst]
      exact decide_eq_true rfl
    rw [hst] at h₁
    simp only [ConnStage.runsOn, decide_true, if_true] at h₁
    omega
  have hlive : 0 < s.live owner := by
    obtain ⟨y, hy, hyk⟩ := List.mem_map.1 hsock
    exact List.countP_pos_iff.2 ⟨y, hy, decide_eq_true (Prod.mk.inj hyk).2⟩
  intro hzero
  have h₀ := h.ledger owner
  have hroom := he.room owner
  rw [hzero, hbehind, he.lost, he.uncounted] at h₀
  have hz : (0 : BitVec 16).toNat = 0 := rfl
  omega

/-- In a run whose steps all meet the condition, the counter of each stack is the number of its
sockets whenever no call is in progress; it is not zero when a socket is about to be taken off it;
and it has an earlier value again when the sockets are those of that time. -/
theorem conn_num_counts_sockets (hs : (system c).ReachableUnder Condition s) :
    (s.Quiet → ∀ k, (s.connNum k).toNat = s.live k) ∧
      (∀ x ∈ s.calls, ∀ k fd owner v, x.stage = .cleaning k fd owner v →
        s.connNum owner ≠ 0) ∧
      ∀ s', (system c).ReachableUnder Condition s' → s.Quiet → s'.Quiet →
        (∀ y, y ∈ s'.socks ↔ y ∈ s.socks) → s'.connNum = s.connNum := by
  have hcount : ∀ {s : ConnSys}, (system c).ReachableUnder Condition s → s.Quiet →
      ∀ k, (s.connNum k).toNat = s.live k := by
    intro s hs hq k
    have he := ConnExact.of_reachable hs
    have hroom := he.room k
    refine (conn_num_eq_live_iff (hs.mono fun _ _ h => h.1) hq (by omega)).2 ?_
    rw [he.lost, he.uncounted]
  have hinv : ∀ {s : ConnSys}, (system c).ReachableUnder Condition s → ConnInv s :=
    fun hs => ConnInv.of_reachable (hs.mono fun _ _ h => h.1)
  refine ⟨hcount hs, fun x hx k fd owner v hst => ?_, fun s' hs' hq hq' hsocks => ?_⟩
  · exact conn_num_pos (hinv hs) (ConnExact.of_reachable hs) hx hst
  · have hperm : s'.socks.Perm s.socks :=
      (List.perm_ext_iff_of_nodup (List.Nodup.of_map _ (hinv hs').fds)
        (List.Nodup.of_map _ (hinv hs).fds)).2 hsocks
    funext k
    have hlive : s'.live k = s.live k := hperm.countP_eq _
    exact BitVec.eq_of_toNat_eq (by rw [hcount hs' hq' k, hcount hs hq k, hlive])

/-- Two stacks with shadows. -/
def twoStacks : ConnCfg where
  stackNum := 2
  isSendThread _ := false
  seperateSendRecv := false
  tupleFilter := false
  listenShadow := true

/-- A thread makes its first socket, on the first of two stacks. -/
def firstSocket : List ConnAct :=
  [.rpcCallSocket 0, .app 0 true, .app 0 true, .app 0 true, .app 0 true, .app 0 true, .app 0 true,
    .poll 0 (.made 3) .failed]

/-- A thread makes a socket, accepts a connection and closes the first one. -/
theorem conn_num_counts_accepted :
    ∃ s, (system twoStacks).ReachableUnder Condition s ∧ s.Quiet ∧
      (s.connNum 0).toNat = s.live 0 := by
  have hrun : ((system twoStacks).run initial (firstSocket ++ [.rpcCallAccept 0 3 true,
      .poll 0 (.made 5) .failed, .finish 0, .doClose 0 3 true false, .poll 0 .failed .failed,
      .finish 0])).any (fun s => decide s.Quiet) = true := by decide +kernel
  obtain ⟨s, hs, hq⟩ := (Option.any_eq_true _ _).1 hrun
  have hq : s.Quiet := of_decide_eq_true hq
  have hreach : (system twoStacks).ReachableUnder Condition s :=
    Transition.System.reachableUnder_of_run (.init rfl) hs (by decide +kernel)
  exact ⟨s, hreach, hq, (conn_num_counts_sockets hreach).1 hq 0⟩

/-- A shadow is made and closed: the counter of its stack is below zero afterwards. -/
theorem conn_num_wraps :
    ¬ ∀ (c : ConnCfg) (s : ConnSys), (system c).Reachable s → s.Quiet →
      ∀ k, (s.connNum k).toNat = s.live k := by
  intro h
  have hrun : ((system twoStacks).run initial (firstSocket ++ [.rpcCallShadowFd 0 1 3 true,
      .poll 1 (.made 4) .failed, .doClose 0 4 true false, .poll 1 .failed .failed,
      .finish 1])).any (fun s => decide (s.Quiet ∧ (s.connNum 1).toNat = 65535 ∧
        s.live 1 = 0)) = true := by decide +kernel
  obtain ⟨s, hs, hq⟩ := (Option.any_eq_true _ _).1 hrun
  obtain ⟨hq, hnum, hlive⟩ : s.Quiet ∧ (s.connNum 1).toNat = 65535 ∧ s.live 1 = 0 :=
    of_decide_eq_true hq
  have hreach : (system twoStacks).Reachable s :=
    Transition.System.reachable_of_run (.init rfl) hs
  have heq := h twoStacks s hreach hq 1
  omega

end ConnSys

end Gazelle
