import Gazelle.Ltran.Entries
import Gazelle.Ltran.Requests
import Gazelle.Ltran.StackLogout
import Gazelle.Transition.GracePeriod

/-!
# The ticks of the instances and the end of a logout

A stack, a listener or a connection is on when its tick is that of the slot of its instance, which
a logout increments. The control thread then clears the slot and waits until each of the two
forwarding threads has ended an iteration, before it frees the stacks and the instance
(`ltran_instance.c`).

The control thread writes the memory that the forwarding threads read in single steps here. A
forwarding thread reads a slot, a place of a `stack_array` or the ticks of a stack in one step, and
handles a packet, a message or a scan in one step; the tables are its own.

* `TickSys.system`: all orders of these steps;
* `TickSys.Protected`: what is on belongs to an instance that is attached and not logged out, and no
  thread has a pointer to what was freed;
* `TickSys.Guarded`: besides, what an instance that has logged out leaves in the tables stays off
  when its slot is used again, and no thread is in an iteration with an instance that is freed;
* `TickSys.ticks_protect`, `TickSys.generation_ticks`: these hold in every run with few ticks in
  which no tid is linked twice;
* `TickSys.ticks_free_other_instance`: a logout that frees a stack of another instance.
-/

namespace Gazelle

/-! ## The threads -/

/-- A pointer that a forwarding thread has read. -/
inductive ForwardPtr
  /-- An instance, by its number. -/
  | inst (no : ℕ)
  /-- A stack of a `stack_array`. -/
  | stack (addr : ℕ)
  /-- A stack that was on, or of an entry that was. -/
  | onStack (addr : ℕ)
  deriving DecidableEq

/-- The pointers to an instance and to its stacks. -/
def ForwardPtr.Of (no : ℕ) (inst : GazelleInstance) : ForwardPtr → Prop
  | .inst n => n = no
  | .stack addr | .onStack addr => ∃ j, inst.stackArray j = some addr

/-- The forwarding threads. -/
inductive ForwardThread
  /-- The thread of `upstream_forward`. -/
  | upstream
  /-- The thread of `downstream_forward`. -/
  | downstream
  deriving DecidableEq

/-- An instance whose slot is cleared: the local variables of `handle_instance_logout`. -/
structure LeftInstance where
  /-- The connection that ends. -/
  conn : ℕ
  /-- The number of the instance. -/
  no : ℕ
  /-- The instance. -/
  inst : GazelleInstance

/-- Where the control thread stands, with its live local variables. -/
inductive ControlPc
  /-- It waits for an event. -/
  | idle
  /-- `gazelle_instance_add_by_pid` has incremented the tick of the slot; what the request does
  apart from this. -/
  | procMem (conn : ℕ) (next : StackCtl) (ok : Bool)
  /-- `handle_reg_msg_thrd_ring` before it writes `instance_reg_tick` of the stack. -/
  | regTick (i : Fin gazelleMaxInstanceNum) (addr : ℕ)
  /-- `handle_reg_msg_thrd_ring` before it writes `instance_cur_tick` of the stack. -/
  | curTick (i : Fin gazelleMaxInstanceNum) (addr : ℕ)
  /-- At the `END` of `reg_conn_msg_proc`. -/
  | endConn (conn : ℕ)
  /-- `handle_instance_logout` before it clears the slot. -/
  | setNull (conn : ℕ) (i : Fin gazelleMaxInstanceNum)
  /-- `wait_forward_done` before it reads `rx_loop_count`. -/
  | readRx (left : LeftInstance)
  /-- Before it reads `tx_loop_count`. -/
  | readTx (left : LeftInstance) (rx : BitVec 64)
  /-- In its loop before it compares `tx_loop_count`. -/
  | waitTx (left : LeftInstance) (rx tx : BitVec 64)
  /-- In its loop before it compares `rx_loop_count`. -/
  | waitRx (left : LeftInstance) (rx tx : BitVec 64)
  /-- `handle_instance_logout` after it. -/
  | free (left : LeftInstance)

/-- The instance that has left its slot and is not freed yet. -/
def ControlPc.left : ControlPc → Option LeftInstance
  | .readRx l | .readTx l _ | .waitTx l _ _ | .waitRx l _ _ | .free l => some l
  | _ => none

/-- The instance that each forwarding thread is waited for, with the count that was read, or `none`
when the thread has been waited for. -/
def ControlPc.waits : ControlPc → ForwardThread → Option (LeftInstance × Option (BitVec 64))
  | .readTx left rx, .upstream | .waitTx left rx _, .upstream | .waitRx left rx _, .upstream =>
    some (left, some rx)
  | .waitTx left _ tx, .downstream => some (left, some tx)
  | .waitRx left _ _, .downstream | .free left, _ => some (left, none)
  | _, _ => none

/-- ltran with its three threads. -/
structure TickSys where
  /-- What the control thread writes. -/
  ctl : StackCtl
  /-- The control thread. -/
  pc : ControlPc
  /-- The upstream thread, with `rx_loop_count`. -/
  up : LoopReader ForwardPtr
  /-- The downstream thread, with `tx_loop_count`. -/
  down : LoopReader ForwardPtr
  /-- `g_tcp_sock_htable`. -/
  sockHtable : GazelleTcpSockHtable
  /-- `g_tcp_conn_htable`. -/
  connHtable : GazelleTcpConnHtable
  /-- The number of the instance in each slot. Numbers are not used again, so they tell instances
  apart. -/
  instNo : Fin gazelleMaxInstanceNum → ℕ
  /-- The next number. -/
  added : ℕ
  /-- The instances that have attached; nothing reads this. -/
  attached : List ℕ
  /-- The instances that have logged out; nothing reads this. -/
  loggedOut : List ℕ
  /-- The instance of each stack; nothing reads this. -/
  owner : ℕ → Option ℕ

/-- The steps. -/
inductive TickAct
  /-- A request on a connection. -/
  | request (conn : ℕ) (msg : RegRequestMsg) (env : RegEnv)
  /-- An error, a hang-up or a failed read on a connection. -/
  | fail (conn : ℕ)
  /-- The control thread goes on. -/
  | control
  /-- A forwarding thread reads a slot. -/
  | fetchInst (t : ForwardThread) (i : Fin gazelleMaxInstanceNum)
  /-- It reads a place of the `stack_array` of an instance. -/
  | fetchStack (t : ForwardThread) (no : ℕ) (j : Fin gazelleMaxInstanceNum)
  /-- It finds a stack on. -/
  | check (t : ForwardThread) (addr : ℕ)
  /-- The upstream thread handles a message of the ring of a stack. -/
  | message (addr : ℕ) (msg : RegRingMsg) (alloc : Option ℕ)
  /-- `tcp_handle` for a packet. -/
  | packet (q : GazelleQuintuple) (malloc : Option ℕ)
  /-- `gazelle_delete_aging_conn`, with what `pthread_mutex_trylock` says. -/
  | deleteAgingConn (locked : Bool)
  /-- `gazelle_detect_conn_logout`. -/
  | detectConnLogout (locked : Bool)
  /-- `gazelle_detect_sock_logout`. -/
  | detectSockLogout (locked : Bool)
  /-- A forwarding thread ends an iteration. -/
  | finish (t : ForwardThread)

namespace TickSys

variable (hash : LtranJhash) (tidHashFn : Tid → BitVec 32) (config : LtranConfig) (s : TickSys)

/-! ## The control thread -/

/-- A request was handled. -/
def afterRequest (conn : ℕ) (ok : Bool) : ControlPc := if ok then .idle else .endConn conn

/-- `reg_conn_msg_proc` with a request, up to the first write that the forwarding threads see. -/
def request (conn : ℕ) (msg : RegRequestMsg) (env : RegEnv) : TickSys :=
  match msg with
  | .procMem _ =>
    -- the tick is written first, the slot with the next step
    let (next, ok) := s.ctl.handleRequest tidHashFn config conn msg env
    { s with
      ctl.mgr.instanceCurTick := next.mgr.instanceCurTick
      pc := .procMem conn next ok }
  | .procAtt conf =>
    -- `instance_reg_tick` of the instance, which turns it on, is the last write
    let (ctl, ok) := s.ctl.handleRequest tidHashFn config conn msg env
    { s with
      ctl := ctl
      attached :=
        if ok then
          ((s.ctl.mgr.gazelleInstanceGetByPid conf.pid).map fun found => s.instNo found.1).toList ++
            s.attached
        else s.attached
      pc := afterRequest conn ok }
  | .thrdRing conf =>
    let found := s.ctl.mgr.gazelleInstanceGetByPid conf.pid
    let (done, ok) := s.ctl.handleRegMsgThrdRing tidHashFn conf env
    { s with
      -- the ticks of a new stack are written after the response
      ctl := (s.ctl.handleRegMsgThrdRing tidHashFn conf { env with responded := false }).1
      owner := Function.update s.owner s.ctl.nextAddr (found.map fun found => s.instNo found.1)
      pc :=
        match found with
        | some (i, _) =>
          if ok ∧ done.nextAddr ≠ s.ctl.nextAddr then .regTick i s.ctl.nextAddr
          else afterRequest conn ok
        | none => afterRequest conn ok }
  | .other => s

/-- The control thread goes on. -/
def control : Option TickSys :=
  match s.pc with
  | .idle => none
  | .procMem conn next ok =>
    some { s with
      ctl := next
      instNo := fun i => if (s.ctl.mgr.instances i).isNone then s.added else s.instNo i
      added := s.added + 1
      pc := afterRequest conn ok }
  | .regTick i addr =>
    (s.ctl.mgr.instances i).map fun inst =>
      { s with
        ctl := s.ctl.modify addr fun stack =>
          { stack with instanceRegTick := inst.instanceRegTick }
        pc := .curTick i addr }
  | .curTick i addr =>
    (s.ctl.mgr.instances i).map fun inst =>
      { s with
        ctl := s.ctl.modify addr fun stack =>
          { stack with instanceCurTick := some inst.instanceCurTick }
        pc := .idle }
  | .endConn conn =>
    -- a connection without a pid has no instance to log out
    let pid := s.ctl.connPid conn
    match if pid = 0 then none else s.ctl.mgr.gazelleInstanceGetByPid pid with
    | none =>
      some { s with ctl.connPid := Function.update s.ctl.connPid conn 0, pc := .idle }
    | some (i, inst) =>
      -- with the tick everything of the instance is off
      some { s with
        ctl.mgr.instanceCurTick :=
          Function.update s.ctl.mgr.instanceCurTick inst.instanceCurTick
            (s.ctl.mgr.instanceCurTick inst.instanceCurTick + 1)
        loggedOut := s.instNo i :: s.loggedOut
        pc := .setNull conn i }
  | .setNull conn i =>
    (s.ctl.mgr.instances i).map fun inst =>
      { s with
        ctl.mgr := s.ctl.mgr.gazelleSetInstanceNullByPid (s.ctl.connPid conn)
        pc := .readRx ⟨conn, s.instNo i, inst⟩ }
  -- the counts are read after the slot was cleared
  | .readRx left => some { s with pc := .readTx left s.up.count }
  | .readTx left rx => some { s with pc := .waitTx left rx s.down.count }
  | .waitTx left rx tx =>
    some { s with pc := if tx = s.down.count then .waitTx left rx tx else .waitRx left rx tx }
  | .waitRx left rx tx =>
    some { s with pc := if rx = s.up.count then .waitTx left rx tx else .free left }
  | .free left =>
    -- only an instance that has registered a thread has stacks
    let ctl :=
      if left.inst.regState = .regThrdRing then
        s.ctl.handleInstLogoutForRegThrdRing tidHashFn left.inst
      else s.ctl
    some { s with
      ctl := { ctl with connPid := Function.update ctl.connPid left.conn 0 }
      pc := .idle }

/-! ## The forwarding threads -/

/-- The listeners and the connections, with the ticks. -/
def tables : LtranTables := ⟨s.ctl.mgr.instanceCurTick, s.sockHtable, s.connHtable⟩

/-- What the upstream thread has made of the tables. -/
def setTables (t : LtranTables) : TickSys :=
  { s with sockHtable := t.sockHtable, connHtable := t.connHtable }

/-- A forwarding thread. -/
def reader : ForwardThread → LoopReader ForwardPtr
  | .upstream => s.up
  | .downstream => s.down

/-- A forwarding thread makes a step. -/
def setReader (r : LoopReader ForwardPtr) : ForwardThread → TickSys
  | .upstream => { s with up := r }
  | .downstream => { s with down := r }

/-- A forwarding thread has read a pointer. -/
def hold (t : ForwardThread) (p : ForwardPtr) : TickSys := s.setReader ((s.reader t).hold p) t

/-- The instance in a slot, by its number. -/
def slotAt (no : ℕ) : Option GazelleInstance :=
  (List.finRange gazelleMaxInstanceNum).findSome? fun i =>
    if s.instNo i = no then s.ctl.mgr.instances i else none

/-- The instance at an address, `none` when it was freed. -/
def instAt (no : ℕ) : Option GazelleInstance :=
  -- an instance that has left its slot is still there until it is freed
  match s.pc.left with
  | some left => if left.no = no then some left.inst else s.slotAt no
  | none => s.slotAt no

/-- `INSTANCE_IS_ON` of the stack at an address. -/
def isOn (addr : ℕ) : Bool :=
  (s.ctl.readStack addr).any fun stack => s.ctl.mgr.stackIsOn stack.toGazelleStack

/-- The upstream thread handles a packet of `tcp_handle`. -/
def packet (q : GazelleQuintuple) (malloc : Option ℕ) : TickSys :=
  match s.tables.tcpHandle hash q malloc with
  | (t, some (some addr)) => (s.setTables t).hold .upstream (.onStack addr)
  | (t, _) => s.setTables t

/-- One step. -/
def step : TickAct → Option TickSys
  | .request conn msg env =>
    match s.pc with
    | .idle => some (s.request tidHashFn config conn msg env)
    | _ => none
  | .fail conn =>
    match s.pc with
    | .idle => some { s with pc := .endConn conn }
    | _ => none
  | .control => s.control tidHashFn
  | .fetchInst t i => (s.ctl.mgr.instances i).map fun _ => s.hold t (.inst (s.instNo i))
  -- a thread reads through the pointers that it has
  | .fetchStack t no j =>
    if .inst no ∈ (s.reader t).held then
      ((s.instAt no).bind fun inst => inst.stackArray j).map fun addr => s.hold t (.stack addr)
    else none
  | .check t addr =>
    if .stack addr ∈ (s.reader t).held ∧ s.isOn addr then some (s.hold t (.onStack addr))
    else none
  | .message addr msg alloc =>
    if .onStack addr ∈ s.up.held then
      (s.ctl.readStack addr).map fun stack =>
        s.setTables (s.tables.tcpHashTableModify hash stack.toGazelleStack msg alloc)
    else none
  | .packet q malloc => some (s.packet hash q malloc)
  -- a scan gives up when it does not get the lock
  | .deleteAgingConn locked =>
    some (if locked then s.setTables s.tables.gazelleDeleteAgingConn else s)
  | .detectConnLogout locked =>
    some (if locked then s.setTables s.tables.gazelleDetectConnLogout else s)
  | .detectSockLogout locked =>
    some (if locked then s.setTables s.tables.gazelleDetectSockLogout else s)
  | .finish t => some (s.setReader (s.reader t).finish t)

/-- ltran after its start. -/
def create (maxInstanceNum maxStackNum maxSockNum maxConnNum : BitVec 32) : TickSys where
  ctl := .create maxInstanceNum maxStackNum
  pc := .idle
  up := ⟨0, []⟩
  down := ⟨0, []⟩
  sockHtable := .create maxSockNum
  connHtable := .create maxConnNum
  instNo _ := 0
  added := 0
  attached := []
  loggedOut := []
  owner _ := none

/-- All orders of steps, for any limits that fit into the array of instances. -/
def system : Transition.System TickSys TickAct where
  Init s := ∃ maxInstanceNum maxStackNum maxSockNum maxConnNum : BitVec 32,
    1 ≤ maxInstanceNum.toNat ∧ maxInstanceNum.toNat ≤ gazelleMaxInstanceNum ∧
      s = create maxInstanceNum maxStackNum maxSockNum maxConnNum
  step := step hash tidHashFn config

/-! ## The property and the condition -/

/-- The stack is linked, and that of an instance that has attached and not logged out. -/
def Current (addr : ℕ) : Prop :=
  (∃ stack ∈ s.ctl.stackHtable.toList, stack.addr = addr) ∧
    ∃ no ∈ s.attached, no ∉ s.loggedOut ∧ s.owner addr = some no

/-- What is on belongs to an instance that has attached and not logged out, and no forwarding thread
has a pointer to an instance or a stack that was freed. -/
structure Protected : Prop where
  /-- A stack that is on. -/
  stackOn : ∀ stack ∈ s.ctl.stackHtable.toList, s.ctl.mgr.stackIsOn stack.toGazelleStack = true →
    s.Current stack.addr
  /-- A listener that is on. -/
  sockOn : ∀ sock ∈ s.sockHtable.toList, s.tables.sockIsOn sock = true →
    ∃ addr, sock.stack = some addr ∧ s.Current addr
  /-- A connection that is on. -/
  connOn : ∀ conn ∈ s.connHtable.toList, s.tables.connIsOn conn = true →
    ∃ addr, conn.stack = some addr ∧ s.Current addr
  /-- The instances that a forwarding thread has fetched are not freed. -/
  instPtrs : ∀ t no, .inst no ∈ (s.reader t).held → (s.instAt no).isSome
  /-- Neither are the stacks. -/
  stackPtrs : ∀ t addr, .stack addr ∈ (s.reader t).held ∨ .onStack addr ∈ (s.reader t).held →
    ∃ stack ∈ s.ctl.stackHtable.toList, stack.addr = addr

/-- A stack, a listener or a connection of the tables with its ticks and its stack. -/
inductive HasEntry : Option (Fin gazelleMaxInstanceNum) → Tick → ℕ → Prop
  /-- A stack, which is its own. -/
  | stack {stack : LinkedStack} : stack ∈ s.ctl.stackHtable.toList →
    HasEntry stack.instanceCurTick stack.instanceRegTick stack.addr
  /-- A listener. -/
  | sock {sock : GazelleTcpSock} {addr : ℕ} : sock ∈ s.sockHtable.toList →
    sock.stack = some addr → HasEntry sock.instanceCurTick sock.instanceRegTick addr
  /-- A connection. -/
  | conn {conn : GazelleTcpConn} {addr : ℕ} : conn ∈ s.connHtable.toList →
    conn.stack = some addr → HasEntry conn.instanceCurTick conn.instanceRegTick addr

/-- What the ticks guard, in a run from one state to another. -/
structure Guarded (s s' : TickSys) : Prop where
  /-- What is on, and what the forwarding threads have. -/
  safe : s'.Protected
  /-- An entry of an instance that has logged out is off for ever, whatever is in its slot. -/
  off : ∀ cur reg addr no, s.HasEntry cur reg addr → s.owner addr = some no → no ∈ s.loggedOut →
    instanceIsOn s'.ctl.mgr.instanceCurTick cur reg = false
  /-- When a logout frees an instance, no iteration that has fetched it, or one of its stacks, is
  still running. -/
  clear : ∀ left, s'.pc = .free left →
    ∀ t, (s'.reader t).Clear (ForwardPtr.Of left.no left.inst)

/-- Each tick was incremented less than `2 ^ 31` times. -/
def TicksBelow : Prop := ∀ i, (s.ctl.mgr.instanceCurTick i).toNat < 2 ^ 31

/-- Whether they were is decidable, slot by slot. -/
instance : Decidable s.TicksBelow := Nat.decidableForallFin _

/-- Each tick was incremented less than `2 ^ 31 - 1` times, so that another increment leaves it
positive. -/
def FewTicks : Prop := ∀ i, (s.ctl.mgr.instanceCurTick i).toNat + 1 < 2 ^ 31

/-- Whether the ticks are few is decidable, slot by slot. -/
instance : Decidable s.FewTicks := Nat.decidableForallFin _

/-- The condition on a step: a request that links a stack has a tid that no linked stack has, be it
on or off. -/
def FreshTid : TickAct → Prop
  | .request conn msg env => s.ctl.FreshTid tidHashFn (.request conn msg env)
  | _ => True

/-- The condition on a step is decidable. -/
instance : (a : TickAct) → Decidable (s.FreshTid tidHashFn a)
  | .request conn msg env =>
    inferInstanceAs (Decidable (s.ctl.FreshTid tidHashFn (.request conn msg env)))
  | .fail _ | .control | .fetchInst .. | .fetchStack .. | .check .. | .message .. | .packet ..
  | .deleteAgingConn _ | .detectConnLogout _ | .detectSockLogout _ | .finish _ =>
    inferInstanceAs (Decidable True)

/-! ## Entries and instances -/

end TickSys

/-- What is on in a slot: `mgr'` has it where `mgr` has it, or the tick has grown. -/
def InstanceMgr.OnKept (mgr mgr' : InstanceMgr) : Prop :=
  ∀ i, (mgr.instanceCurTick i).toNat < (mgr'.instanceCurTick i).toNat ∨
    mgr'.instanceCurTick i = mgr.instanceCurTick i ∧
      ∀ inst, mgr.instances i = some inst → inst.instanceRegTick = mgr.instanceCurTick i →
        ∃ inst', mgr'.instances i = some inst' ∧ inst'.instanceRegTick = inst.instanceRegTick ∧
          ∀ j addr, inst.stackArray j = some addr → inst'.stackArray j = some addr

/-- The ticks and the stack of an entry: when it is on, its stack is one of an instance that is
on. -/
structure InstanceMgr.Ticked (mgr : InstanceMgr) (cur : Option (Fin gazelleMaxInstanceNum))
    (reg : Tick) (stack : Option ℕ) : Prop where
  /-- It is not that of a new entry. -/
  lt : reg.toNat < 2 ^ 31
  /-- It is not ahead of the slot. -/
  le : ∀ i, cur = some i → reg.toNat ≤ (mgr.instanceCurTick i).toNat
  /-- It is on. -/
  on : ∀ i, cur = some i → reg = mgr.instanceCurTick i → ∃ inst j addr,
    mgr.instances i = some inst ∧ inst.instanceRegTick = mgr.instanceCurTick i ∧
      stack = some addr ∧ inst.stackArray j = some addr

namespace InstanceMgr

variable {mgr mgr' : InstanceMgr} {cur : Option (Fin gazelleMaxInstanceNum)} {reg : Tick}
  {stack : Option ℕ}

theorem Ticked.mono (h : mgr.Ticked cur reg stack) (hkept : mgr.OnKept mgr') :
    mgr'.Ticked cur reg stack := by
  refine ⟨h.lt, fun i hi => ?_, fun i hi hreg => ?_⟩
  · rcases hkept i with hlt | ⟨heq, -⟩
    · exact (h.le i hi).trans hlt.le
    · rw [heq]
      exact h.le i hi
  · rcases hkept i with hlt | ⟨heq, hinst⟩
    · -- an older tick
      have hle := h.le i hi
      rw [hreg] at hle
      exact absurd hlt (Nat.not_lt.2 hle)
    · rw [heq] at hreg ⊢
      obtain ⟨inst, j, addr, hsome, hon, hstack, hplace⟩ := h.on i hi hreg
      obtain ⟨inst', hsome', htick, harray⟩ := hinst inst hsome hon
      exact ⟨inst', j, addr, hsome', htick.trans hon, hstack, harray j addr hplace⟩

/-- A new entry is off. -/
theorem ticked_none (mgr : InstanceMgr) (stack : Option ℕ) :
    mgr.Ticked none instanceRegTickInitVal stack where
  lt := by decide
  le _ hi := absurd hi (Option.some_ne_none _).symm
  on _ hi := absurd hi (Option.some_ne_none _).symm

/-- An entry that is on. -/
theorem Ticked.of_isOn (h : mgr.Ticked cur reg stack)
    (hon : instanceIsOn mgr.instanceCurTick cur reg = true) : ∃ i inst j addr,
      mgr.instances i = some inst ∧ inst.instanceRegTick = mgr.instanceCurTick i ∧
        stack = some addr ∧ inst.stackArray j = some addr := by
  have heq : reg = (cur.map mgr.instanceCurTick).getD instanceCurTickInitVal :=
    of_decide_eq_true hon
  cases cur with
  | none =>
    have hinit : reg = instanceCurTickInitVal := heq
    have hlt := h.lt
    rw [hinit] at hlt
    exact absurd hlt (by decide)
  | some i =>
    obtain ⟨inst, j, addr, hinst⟩ := h.on i rfl heq
    exact ⟨i, inst, j, addr, hinst⟩

/-- An entry that is off stays so while the ticks grow. -/
theorem Ticked.off_mono (h : mgr.Ticked cur reg stack)
    (hoff : instanceIsOn mgr.instanceCurTick cur reg = false)
    (hle : ∀ i, (mgr.instanceCurTick i).toNat ≤ (mgr'.instanceCurTick i).toNat) :
    instanceIsOn mgr'.instanceCurTick cur reg = false := by
  refine decide_eq_false fun heq => of_decide_eq_false hoff ?_
  cases cur with
  | none => exact heq
  | some i =>
    -- the tick of the slot was not less, and it is not greater
    have hreg : reg = mgr'.instanceCurTick i := heq
    have hge := h.le i rfl
    rw [hreg] at hge ⊢
    exact BitVec.eq_of_toNat_eq (hge.antisymm (hle i))

end InstanceMgr

namespace TickSys

/-- The pointer leads to an instance in a slot. -/
def InSlot (s : TickSys) (p : ForwardPtr) : Prop :=
  ∃ i inst, s.ctl.mgr.instances i = some inst ∧ p.Of (s.instNo i) inst

/-- The pointer leads to the instance that has left its slot. -/
def OfLeft (s : TickSys) (p : ForwardPtr) : Prop :=
  ∃ left, s.pc.left = some left ∧ p.Of left.no left.inst

/-- The instance was in slot `i` until the slot was cleared, and its stacks are linked still. -/
structure Left (tidHashFn : Tid → BitVec 32) (s : TickSys) (left : LeftInstance) (before : StackCtl)
    (i : Fin gazelleMaxInstanceNum) : Prop where
  /-- The state before. -/
  inv : before.StackInv tidHashFn
  /-- The instance was in the slot. -/
  slot : before.mgr.instances i = some left.inst
  /-- The table is the same. -/
  table : s.ctl.stackHtable = before.stackHtable
  /-- The slot is cleared. -/
  cleared : s.ctl.mgr.instances = Function.update before.mgr.instances i none
  /-- No other instance has the number. -/
  number : ∀ k inst, s.ctl.mgr.instances k = some inst → s.instNo k ≠ left.no

/-- The instances in the slots and their ticks. -/
structure SlotInv (s : TickSys) : Prop where
  /-- An instance uses the tick of its slot. -/
  cell : ∀ i inst, s.ctl.mgr.instances i = some inst → inst.instanceCurTick = i
  /-- Its own tick is not ahead. -/
  below : ∀ i inst, s.ctl.mgr.instances i = some inst →
    inst.instanceRegTick.toNat ≤ (s.ctl.mgr.instanceCurTick i).toNat
  /-- There were few increments. -/
  few : ∀ i, (s.ctl.mgr.instanceCurTick i).toNat < 2 ^ 31
  /-- An instance that is on has attached. -/
  attached : ∀ i inst, s.ctl.mgr.instances i = some inst →
    inst.instanceRegTick = s.ctl.mgr.instanceCurTick i → s.instNo i ∈ s.attached
  /-- The numbers were given out. -/
  number : ∀ i inst, s.ctl.mgr.instances i = some inst → s.instNo i < s.added
  /-- They tell instances apart. -/
  unique : ∀ i k inst other, s.ctl.mgr.instances i = some inst →
    s.ctl.mgr.instances k = some other → s.instNo i = s.instNo k → i = k
  /-- An instance in a slot has not logged out, but for the one whose slot is cleared next. -/
  alive : ∀ i inst, s.ctl.mgr.instances i = some inst → (∀ conn, s.pc ≠ .setNull conn i) →
    s.instNo i ∉ s.loggedOut
  /-- That one is off. -/
  off : ∀ conn i inst, s.pc = .setNull conn i → s.ctl.mgr.instances i = some inst →
    inst.instanceRegTick ≠ s.ctl.mgr.instanceCurTick i
  /-- Instances that have logged out were added before. -/
  old : ∀ no ∈ s.loggedOut, no < s.added
  /-- The stacks know their instances. -/
  owner : ∀ i inst j addr, s.ctl.mgr.instances i = some inst → inst.stackArray j = some addr →
    s.owner addr = some (s.instNo i)

/-- Where the control thread stands. -/
def PcInv (tidHashFn : Tid → BitVec 32) (s : TickSys) : Prop :=
  match s.pc with
  | .idle | .endConn _ => True
  | .procMem _ next _ =>
    next.StackInv tidHashFn ∧ next.stackHtable = s.ctl.stackHtable ∧
      next.mgr.instanceCurTick = s.ctl.mgr.instanceCurTick ∧
      (next.mgr.instances = s.ctl.mgr.instances ∨ ∃ i inst, s.ctl.mgr.instances i = none ∧
        next.mgr.instances = Function.update s.ctl.mgr.instances i (some inst) ∧
        inst.instanceCurTick = i ∧ (∀ j, inst.stackArray j = none) ∧
        inst.instanceRegTick.toNat < (s.ctl.mgr.instanceCurTick i).toNat)
  | .regTick i addr => ∃ inst j, s.ctl.mgr.instances i = some inst ∧
      inst.stackArray j = some addr ∧
      ∀ stack ∈ s.ctl.stackHtable.toList, stack.addr = addr → stack.instanceCurTick = none
  | .curTick i addr => ∃ inst j, s.ctl.mgr.instances i = some inst ∧
      inst.stackArray j = some addr ∧
      ∀ stack ∈ s.ctl.stackHtable.toList, stack.addr = addr →
        stack.instanceRegTick = inst.instanceRegTick
  | .setNull conn i => ∃ inst,
      s.ctl.mgr.gazelleInstanceGetByPid (s.ctl.connPid conn) = some (i, inst)
  | .readRx left | .readTx left _ | .waitTx left _ _ | .waitRx left _ _ | .free left =>
    ∃ before i, Left tidHashFn s left before i

/-- The invariant. -/
structure TickInv (tidHashFn : Tid → BitVec 32) (s : TickSys) : Prop where
  /-- The stack table. -/
  ctl : s.ctl.StackInv tidHashFn
  /-- The slots. -/
  slots : s.SlotInv
  /-- The stacks. -/
  stack : ∀ stack ∈ s.ctl.stackHtable.toList,
    s.ctl.mgr.Ticked stack.instanceCurTick stack.instanceRegTick (some stack.addr)
  /-- The listeners and the connections. -/
  entries : s.tables.Every s.ctl.mgr.Ticked
  /-- What the forwarding threads have. -/
  held : ∀ t, ∀ p ∈ (s.reader t).held, s.InSlot p ∨ s.OfLeft p
  /-- The control thread. -/
  pc : s.PcInv tidHashFn
  /-- What the control thread knows of the forwarding threads. -/
  waits : ∀ t left n, s.pc.waits t = some (left, n) →
    (s.reader t).ClearSince n (ForwardPtr.Of left.no left.inst)

variable {hash : LtranJhash} {tidHashFn : Tid → BitVec 32} {config : LtranConfig} {s s' : TickSys}

/-! ## What the invariant says -/

/-- An instance that has left its slot is none in a slot, nor are its stacks. -/
theorem Left.not_inSlot {left : LeftInstance} {before : StackCtl} {i : Fin gazelleMaxInstanceNum}
    (h : Left tidHashFn s left before i) {p : ForwardPtr} (hp : s.InSlot p) :
    ¬ p.Of left.no left.inst := by
  obtain ⟨k, inst, hinst, hof⟩ := hp
  have hslot : k ≠ i ∧ before.mgr.instances k = some inst := by
    rw [h.cleared] at hinst
    by_cases hk : k = i
    · subst hk
      rw [Function.update_self] at hinst
      cases hinst
    · rw [Function.update_of_ne hk] at hinst
      exact ⟨hk, hinst⟩
  have hown : ∀ addr, (∃ j, inst.stackArray j = some addr) →
      ¬ ∃ j, left.inst.stackArray j = some addr := by
    rintro addr ⟨j, hj⟩ ⟨l, hl⟩
    exact hslot.1 (h.inv.own k i inst left.inst j l addr hslot.2 h.slot hj hl)
  cases p with
  | inst no =>
    intro hno
    exact h.number k inst hinst (Eq.trans (Eq.symm hof) hno)
  | stack addr => exact hown addr hof
  | onStack addr => exact hown addr hof

/-- The stacks of an instance in a slot are linked. -/
theorem TickInv.linked_of_inSlot (h : s.TickInv tidHashFn) {addr : ℕ}
    (hp : s.InSlot (.stack addr)) : ∃ stack ∈ s.ctl.stackHtable.toList, stack.addr = addr := by
  obtain ⟨i, inst, hinst, j, hj⟩ := hp
  obtain ⟨stack, hmem, haddr, -⟩ := h.ctl.array i inst j addr hinst hj
  exact ⟨stack, hmem, haddr⟩

/-- So are those of the instance that has left its slot. -/
theorem Left.linked {left : LeftInstance} {before : StackCtl} {i : Fin gazelleMaxInstanceNum}
    (h : Left tidHashFn s left before i) {j : Fin gazelleMaxInstanceNum} {addr : ℕ}
    (hj : left.inst.stackArray j = some addr) :
    ∃ stack ∈ s.ctl.stackHtable.toList, stack.addr = addr := by
  obtain ⟨stack, hmem, haddr, -⟩ := h.inv.array i left.inst j addr h.slot hj
  exact ⟨stack, h.table ▸ hmem, haddr⟩

/-- There is such an instance. -/
theorem TickInv.exists_left (h : s.TickInv tidHashFn) {left : LeftInstance}
    (hleft : s.pc.left = some left) : ∃ before i, Left tidHashFn s left before i := by
  have hpc := h.pc
  unfold PcInv at hpc
  cases heq : s.pc <;> rw [heq] at hleft <;> cases hleft <;> simp only [heq] at hpc <;> exact hpc

theorem Left.congr {left : LeftInstance} {before : StackCtl} {i : Fin gazelleMaxInstanceNum}
    (h : Left tidHashFn s left before i) (hctl : s'.ctl = s.ctl) (hno : s'.instNo = s.instNo) :
    Left tidHashFn s' left before i := by
  refine ⟨h.inv, h.slot, ?_, ?_, ?_⟩
  · rw [hctl]
    exact h.table
  · rw [hctl]
    exact h.cleared
  · rw [hctl, hno]
    exact h.number

/-- The control thread does nothing. -/
theorem PcInv.congr (h : s.PcInv tidHashFn) (hctl : s'.ctl = s.ctl) (hpc : s'.pc = s.pc)
    (hno : s'.instNo = s.instNo) : s'.PcInv tidHashFn := by
  have hleft : ∀ left, (∃ before i, Left tidHashFn s left before i) →
      ∃ before i, Left tidHashFn s' left before i := fun _ ⟨before, i, hbefore⟩ =>
    ⟨before, i, hbefore.congr hctl hno⟩
  unfold PcInv at h ⊢
  rw [hpc, hctl]
  cases heq : s.pc <;> simp only [heq] at h ⊢
  case readRx | readTx | waitTx | waitRx | free => exact hleft _ h
  all_goals exact h

/-- An instance that is waited for has left its slot. -/
theorem left_of_waits {t : ForwardThread} {left : LeftInstance} {n : Option (BitVec 64)}
    (hwaits : s.pc.waits t = some (left, n)) : s.pc.left = some left := by
  cases heq : s.pc <;> cases t <;> rw [heq] at hwaits <;> cases hwaits <;> rfl

/-- An entry that is on has a stack of an instance that is attached and not logged out. -/
theorem TickInv.current (h : s.TickInv tidHashFn) {cur : Option (Fin gazelleMaxInstanceNum)}
    {reg : Tick} {stack : Option ℕ} (ht : s.ctl.mgr.Ticked cur reg stack)
    (hon : instanceIsOn s.ctl.mgr.instanceCurTick cur reg = true) :
    ∃ addr, stack = some addr ∧ s.Current addr ∧ s.InSlot (.onStack addr) := by
  obtain ⟨i, inst, j, addr, hinst, htick, hstack, hplace⟩ := ht.of_isOn hon
  have hslot : s.InSlot (.stack addr) := ⟨i, inst, hinst, j, hplace⟩
  have hpc : ∀ conn, s.pc ≠ .setNull conn i := fun conn hpc =>
    h.slots.off conn i inst hpc hinst htick
  exact ⟨addr, hstack, ⟨h.linked_of_inSlot hslot, s.instNo i, h.slots.attached i inst hinst htick,
    h.slots.alive i inst hinst hpc, h.slots.owner i inst j addr hinst hplace⟩, hslot⟩

/-- The ticks of an entry. -/
theorem TickInv.ticked (h : s.TickInv tidHashFn) {cur : Option (Fin gazelleMaxInstanceNum)}
    {reg : Tick} {addr : ℕ} (hentry : s.HasEntry cur reg addr) :
    s.ctl.mgr.Ticked cur reg (some addr) := by
  cases hentry with
  | stack hmem => exact h.stack _ hmem
  | sock hmem hstack => exact hstack ▸ h.entries.sock _ hmem
  | conn hmem hstack => exact hstack ▸ h.entries.conn _ hmem

/-- An entry of an instance that has logged out is off. -/
theorem TickInv.off_of_loggedOut (h : s.TickInv tidHashFn)
    {cur : Option (Fin gazelleMaxInstanceNum)} {reg : Tick} {addr no : ℕ}
    (hentry : s.HasEntry cur reg addr) (howner : s.owner addr = some no)
    (hout : no ∈ s.loggedOut) : instanceIsOn s.ctl.mgr.instanceCurTick cur reg = false := by
  rw [Bool.eq_false_iff]
  intro hon
  obtain ⟨other, heq, ⟨-, no', -, halive, howner'⟩, -⟩ := h.current (h.ticked hentry) hon
  obtain rfl := Option.some.inj heq
  rw [howner] at howner'
  exact halive (Option.some.inj howner' ▸ hout)

/-- When an instance is freed, both threads have been waited for. -/
theorem TickInv.clear_of_free (h : s.TickInv tidHashFn) {left : LeftInstance}
    (hpc : s.pc = .free left) (t : ForwardThread) :
    (s.reader t).Clear (ForwardPtr.Of left.no left.inst) := by
  have hwaits := h.waits t left none (by rw [hpc]; cases t <;> rfl)
  exact hwaits.clear (Option.some_ne_none _).symm

/-- The instance in a slot is found by its number. -/
theorem slotAt_eq_none {no : ℕ} (hnone : s.slotAt no = none) (i : Fin gazelleMaxInstanceNum)
    (hno : s.instNo i = no) : s.ctl.mgr.instances i = none := by
  have hi := List.findSome?_eq_none_iff.1 hnone i (List.mem_finRange i)
  rwa [if_pos hno] at hi

theorem slotAt_eq_some {no : ℕ} {inst : GazelleInstance} (hsome : s.slotAt no = some inst) :
    ∃ i, s.ctl.mgr.instances i = some inst ∧ s.instNo i = no := by
  obtain ⟨i, -, hi⟩ := List.exists_of_findSome?_eq_some hsome
  split at hi
  · next hno => exact ⟨i, hi, hno⟩
  · cases hi

/-- What is at the address of an instance. -/
theorem instAt_eq_some {no : ℕ} {inst : GazelleInstance} (hsome : s.instAt no = some inst) :
    (∃ i, s.ctl.mgr.instances i = some inst ∧ s.instNo i = no) ∨
      ∃ left, s.pc.left = some left ∧ left.no = no ∧ left.inst = inst := by
  unfold instAt at hsome
  split at hsome
  · next left hleft =>
    split at hsome
    · next hno => exact .inr ⟨left, hleft, hno, Option.some.inj hsome⟩
    · exact .inl (slotAt_eq_some hsome)
  · exact .inl (slotAt_eq_some hsome)

/-- The invariant is what is wanted. -/
theorem TickInv.protected (h : s.TickInv tidHashFn) : s.Protected where
  stackOn stack hmem hon := by
    obtain ⟨addr, heq, hcurrent, -⟩ := h.current (h.stack stack hmem) hon
    exact Option.some.inj heq ▸ hcurrent
  sockOn sock hmem hon := by
    obtain ⟨addr, heq, hcurrent, -⟩ := h.current (h.entries.sock sock hmem) hon
    exact ⟨addr, heq, hcurrent⟩
  connOn conn hmem hon := by
    obtain ⟨addr, heq, hcurrent, -⟩ := h.current (h.entries.conn conn hmem) hon
    exact ⟨addr, heq, hcurrent⟩
  instPtrs t no hheld := by
    rw [Option.isSome_iff_ne_none]
    -- an instance whose memory is gone is neither in its slot nor on its way out
    intro hnone
    have hslot : s.slotAt no = none := by
      unfold instAt at hnone
      split at hnone
      · split at hnone
        · cases hnone
        · exact hnone
      · exact hnone
    rcases h.held t _ hheld with ⟨i, inst, hinst, hno⟩ | ⟨left, hleft, hno⟩
    · rw [slotAt_eq_none hslot i (Eq.symm hno)] at hinst
      cases hinst
    · have hsome : s.instAt no = some left.inst := by
        unfold instAt
        rw [hleft]
        exact if_pos (Eq.symm hno)
      rw [hnone] at hsome
      cases hsome
  stackPtrs t addr hheld := by
    have hor : s.InSlot (.stack addr) ∨ s.OfLeft (.stack addr) :=
      hheld.elim (h.held t (.stack addr)) (h.held t (.onStack addr))
    -- the stacks of an instance that is logged out are linked until it is freed
    rcases hor with hslot | ⟨left, hleft, j, hj⟩
    · exact h.linked_of_inSlot hslot
    · obtain ⟨before, i, hbefore⟩ := h.exists_left hleft
      exact hbefore.linked hj

/-! ## The forwarding threads -/

@[simp]
theorem reader_setReader_self {t : ForwardThread} {r : LoopReader ForwardPtr} :
    (s.setReader r t).reader t = r := by
  cases t <;> rfl

theorem reader_setReader_of_ne {t u : ForwardThread} {r : LoopReader ForwardPtr} (hu : u ≠ t) :
    (s.setReader r t).reader u = s.reader u := by
  cases t <;> cases u <;> first | rfl | exact absurd rfl hu

/-- A forwarding thread makes a step. -/
theorem TickInv.setReader (h : s.TickInv tidHashFn) {t : ForwardThread}
    {r : LoopReader ForwardPtr} (hheld : ∀ p ∈ r.held, s.InSlot p ∨ s.OfLeft p)
    (hwaits : ∀ left n, s.pc.waits t = some (left, n) →
      r.ClearSince n (ForwardPtr.Of left.no left.inst)) :
    (s.setReader r t).TickInv tidHashFn := by
  have hheld' : ∀ u, ∀ p ∈ ((s.setReader r t).reader u).held, s.InSlot p ∨ s.OfLeft p := by
    intro u p hp
    by_cases hu : u = t
    · subst hu
      rw [reader_setReader_self] at hp
      exact hheld p hp
    · rw [reader_setReader_of_ne hu] at hp
      exact h.held u p hp
  have hwaits' : ∀ u left n, s.pc.waits u = some (left, n) →
      ((s.setReader r t).reader u).ClearSince n (ForwardPtr.Of left.no left.inst) := by
    intro u left n hn
    by_cases hu : u = t
    · subst hu
      rw [reader_setReader_self]
      exact hwaits left n hn
    · rw [reader_setReader_of_ne hu]
      exact h.waits u left n hn
  have hslots := h.slots
  cases t
  all_goals
    exact ⟨h.ctl, ⟨hslots.cell, hslots.below, hslots.few, hslots.attached, hslots.number,
      hslots.unique, hslots.alive, hslots.off, hslots.old, hslots.owner⟩, h.stack, h.entries,
      hheld', h.pc.congr rfl rfl rfl, hwaits'⟩

/-- A forwarding thread reads a pointer: one into a slot, or one that it comes upon through another
one. -/
theorem TickInv.hold (h : s.TickInv tidHashFn) {t : ForwardThread} {p : ForwardPtr}
    (hp : s.InSlot p ∨ s.OfLeft p) (hthrough : ∀ left, s.pc.left = some left →
      p.Of left.no left.inst → ∃ q ∈ (s.reader t).held, q.Of left.no left.inst) :
    (s.hold t p).TickInv tidHashFn := by
  refine h.setReader (fun q hq => ?_) fun left n hn =>
    (h.waits t left n hn).hold (hthrough left (left_of_waits hn))
  rcases LoopReader.mem_hold.1 hq with rfl | hq
  · exact hp
  · exact h.held t q hq

/-- A pointer into a slot. -/
theorem TickInv.holdSlot (h : s.TickInv tidHashFn) {t : ForwardThread} {p : ForwardPtr}
    (hp : s.InSlot p) : (s.hold t p).TickInv tidHashFn := by
  refine h.hold (.inl hp) fun left hleft hof => ?_
  obtain ⟨before, i, hbefore⟩ := h.exists_left hleft
  exact absurd hof (hbefore.not_inSlot hp)

/-- A forwarding thread ends an iteration. -/
theorem TickInv.finish (h : s.TickInv tidHashFn) (t : ForwardThread) :
    (s.setReader (s.reader t).finish t).TickInv tidHashFn :=
  h.setReader (fun _ hp => absurd hp List.not_mem_nil) fun _ _ _ => .inr LoopReader.clear_finish

/-- The upstream thread changes the tables. -/
theorem TickInv.setTables (h : s.TickInv tidHashFn) {t : LtranTables}
    (ht : t.Every s.ctl.mgr.Ticked) : (s.setTables t).TickInv tidHashFn := by
  have hslots := h.slots
  exact ⟨h.ctl, ⟨hslots.cell, hslots.below, hslots.few, hslots.attached, hslots.number,
    hslots.unique, hslots.alive, hslots.off, hslots.old, hslots.owner⟩, h.stack,
    ⟨ht.sock, ht.conn⟩, h.held, h.pc.congr rfl rfl rfl, h.waits⟩

/-- A place of a `stack_array` is read. -/
theorem TickInv.fetchStack (h : s.TickInv tidHashFn) {t : ForwardThread} {no : ℕ}
    {inst : GazelleInstance} {j : Fin gazelleMaxInstanceNum} {addr : ℕ}
    (hno : .inst no ∈ (s.reader t).held) (hinst : s.instAt no = some inst)
    (hplace : inst.stackArray j = some addr) : (s.hold t (.stack addr)).TickInv tidHashFn := by
  rcases instAt_eq_some hinst with ⟨i, hslot, -⟩ | ⟨left, hleft, hleftNo, rfl⟩
  · exact h.holdSlot ⟨i, inst, hslot, j, hplace⟩
  · refine h.hold (.inr ⟨left, hleft, j, hplace⟩) fun other hother _ => ⟨_, hno, ?_⟩
    rw [hleft] at hother
    obtain rfl := Option.some.inj hother
    exact hleftNo.symm

/-- A stack is found on. -/
theorem TickInv.check (h : s.TickInv tidHashFn) {t : ForwardThread} {addr : ℕ}
    (hheld : .stack addr ∈ (s.reader t).held) : (s.hold t (.onStack addr)).TickInv tidHashFn :=
  h.hold (h.held t (.stack addr) hheld) fun _ _ hof => ⟨_, hheld, hof⟩

/-- A message of a stack is handled. -/
theorem TickInv.message (h : s.TickInv tidHashFn) {addr : ℕ} {stack : LinkedStack}
    (hread : s.ctl.readStack addr = some stack) (msg : RegRingMsg) (alloc : Option ℕ) :
    (s.setTables (s.tables.tcpHashTableModify hash stack.toGazelleStack msg alloc)).TickInv
      tidHashFn := by
  have hmem : stack ∈ s.ctl.stackHtable.toList := List.mem_of_find?_eq_some hread
  exact h.setTables (h.entries.tcpHashTableModify (InstanceMgr.ticked_none _ _)
    (h.stack stack hmem) msg alloc)

/-- A packet is handled. -/
theorem TickInv.packet (h : s.TickInv tidHashFn) (q : GazelleQuintuple) (malloc : Option ℕ) :
    (s.packet hash q malloc).TickInv tidHashFn := by
  have hentries : (s.tables.tcpHandle hash q malloc).1.Every s.ctl.mgr.Ticked :=
    h.entries.tcpHandle (InstanceMgr.ticked_none _ _)
  have hstack : ∀ stack, (s.tables.tcpHandle hash q malloc).2 = some stack → ∃ cur reg,
      s.ctl.mgr.Ticked cur reg stack ∧ instanceIsOn s.ctl.mgr.instanceCurTick cur reg = true :=
    fun stack heq => h.entries.tcpHandle_stack heq
  unfold TickSys.packet
  cases hhandle : s.tables.tcpHandle hash q malloc with
  | mk t found =>
    rw [hhandle] at hentries hstack
    have hset := h.setTables hentries
    cases found with
    | none => exact hset
    | some stack =>
      cases stack with
      | none => exact hset
      | some addr =>
        obtain ⟨cur, reg, hticked, hon⟩ := hstack _ rfl
        obtain ⟨addr', heq, -, hslot⟩ := h.current hticked hon
        obtain rfl := Option.some.inj heq
        exact hset.holdSlot hslot

end TickSys

namespace StackCtl

variable {tidHashFn : Tid → BitVec 32} {s : StackCtl}

/-- The instance that `handle_reg_msg_thrd_ring` writes back. -/
def withStack (inst : GazelleInstance) (idx : Fin gazelleMaxInstanceNum) (addr : ℕ) :
    GazelleInstance :=
  { inst with
    stackArray := Function.update inst.stackArray idx (some addr)
    stackCnt := inst.stackCnt + 1
    regState := .regThrdRing }

/-- `handle_reg_msg_thrd_ring` before the ticks of the stack are written: the stacks are the same,
or a new one is linked in a free place of the instance. -/
theorem handleRegMsgThrdRing_cases (h : TableInv tidHashFn s) {conf : ClientThrdConf} {env : RegEnv}
    (hfresh : s.LinksStack tidHashFn conf env →
      ∀ stack ∈ s.stackHtable.toList, stack.tid ≠ conf.tid) {t : StackCtl}
    (ht : (s.handleRegMsgThrdRing tidHashFn conf { env with responded := false }).1 = t) :
    (t.mgr = s.mgr ∧ (∀ u, u ∈ t.stackHtable.toList ↔ u ∈ s.stackHtable.toList) ∧
        ((s.handleRegMsgThrdRing tidHashFn conf env).2 = true →
          (s.handleRegMsgThrdRing tidHashFn conf env).1.nextAddr = s.nextAddr)) ∨
      ∃ i inst idx, s.mgr.gazelleInstanceGetByPid conf.pid = some (i, inst) ∧
        inst.stackArray idx = none ∧
        t.mgr = s.mgr.setInstance i (withStack inst idx s.nextAddr) ∧
        ∀ u, u ∈ t.stackHtable.toList ↔
          u = { s.newStack conf.tid with index := idx.val } ∨ u ∈ s.stackHtable.toList := by
  unfold StackCtl.handleRegMsgThrdRing at ht ⊢
  split at ht
  · next hon =>
    -- the request is refused before anything is done
    subst ht
    exact .inl ⟨rfl, fun _ => Iff.rfl, fun _ => by rw [if_pos hon]⟩
  next hoff =>
  rw [if_neg hoff]
  cases hget : s.mgr.gazelleInstanceGetByPid conf.pid with
  | none =>
    -- no instance has this pid
    rw [hget] at ht
    subst ht
    exact .inl ⟨rfl, fun _ => Iff.rfl, fun _ => rfl⟩
  | some found =>
    obtain ⟨i, inst⟩ := found
    rw [hget] at ht
    dsimp only at ht ⊢
    split at ht
    · next hroom =>
      -- the instance has all the stacks it was registered for
      subst ht
      exact .inl ⟨rfl, fun _ => Iff.rfl, fun _ => by rw [if_pos hroom]⟩
    next hroom =>
    rw [if_neg hroom]
    cases hadd : s.gazelleStackAddByTid tidHashFn conf.tid env.calloc with
    | none =>
      -- the stack table is full, or there is no memory
      rw [hadd] at ht
      subst ht
      exact .inl ⟨rfl, fun _ => Iff.rfl, fun _ => rfl⟩
    | some s₁ =>
      rw [hadd] at ht
      -- only now a stack is linked, so the tid is fresh
      have hlinks : s.LinksStack tidHashFn conf env := by
        unfold StackCtl.gazelleStackAddByTid at hadd
        refine ⟨by simpa using hoff, by simpa [hget] using Nat.not_lt.1 hroom, ?_⟩
        split at hadd
        · cases hadd
        · next hnum =>
          split at hadd
          · next hcalloc => exact ⟨hnum, hcalloc⟩
          · cases hadd
      obtain ⟨htable, hmgr, -, hmem⟩ := h.gazelleStackAddByTid (hfresh hlinks) hadd
      have hin : s.newStack conf.tid ∈ s₁.stackHtable.toList := (hmem _).2 (.inl rfl)
      -- its address is one that no stack of the table has
      have hne : ∀ u ∈ s.stackHtable.toList, u.addr ≠ (s.newStack conf.tid).addr := fun u hu =>
        (h.fresh u hu).ne
      dsimp only at ht ⊢
      cases hidx : LtranRegistry.gazelleGetFreeStackIdx inst with
      | none =>
        rw [hidx] at ht
        dsimp only at ht ⊢
        -- no place in the instance, and the new stack is deleted again
        obtain ⟨-, -, hleft, hmgr', -⟩ := htable.gazelleStackDelByTid hin ht
        refine .inl ⟨hmgr'.trans hmgr, fun u => ?_, fun hok => absurd hok Bool.false_ne_true⟩
        rw [hleft, hmem]
        constructor
        · rintro ⟨rfl | hu, hnew⟩
          · exact absurd rfl hnew
          · exact hu
        · exact fun hu => ⟨.inr hu, fun heq => hne u hu (by rw [heq])⟩
      | some idx =>
        -- the new stack is linked, which writes its index and nothing of the others
        rw [hidx] at ht
        dsimp only [linkStack] at ht
        subst ht
        have hfree := List.find?_some hidx
        refine .inr ⟨i, inst, idx, rfl, Option.isNone_iff_eq_none.1 hfree, ?_, fun u => ?_⟩
        · simp only [Bool.false_eq_true, if_false, StackCtl.modify, hmgr]
          rfl
        · simp only [Bool.false_eq_true, if_false, mem_modify, hmem]
          constructor
          · rintro ⟨v, rfl | hv, rfl⟩
            · exact .inl (if_pos rfl)
            · exact .inr (by rwa [if_neg (hne v hv)])
          · rintro (rfl | hu)
            · exact ⟨_, .inl rfl, if_pos rfl⟩
            · exact ⟨u, .inr hu, if_neg (hne u hu)⟩

/-- The ticks of the slots do not matter for the stack table. -/
theorem StackInv.setTicks (h : StackInv tidHashFn s) (ticks : Fin gazelleMaxInstanceNum → Tick) :
    StackInv tidHashFn { s with mgr.instanceCurTick := ticks } :=
  h.of_mgr (h.toTableInv.congr rfl rfl rfl rfl)
    (fun _ _ _ _ _ _ stack hmem haddr hindex => ⟨stack, hmem, haddr, hindex⟩)
    (fun _ inst hinst => .inl ⟨inst, hinst, rfl⟩)
    ⟨h.slots.limit, h.slots.count, h.slots.unique, h.slots.below, h.slots.stackArray⟩

/-- Writing to a stack, but not to its tid and its place. -/
theorem StackInv.modify (h : StackInv tidHashFn s) (addr : ℕ) {f : LinkedStack → LinkedStack}
    (hf : ∀ t, (f t).tid = t.tid ∧ (f t).addr = t.addr ∧ (f t).index = t.index) :
    StackInv tidHashFn (s.modify addr f) := by
  refine ⟨h.toTableInv.modify addr fun t => ⟨(hf t).1, (hf t).2.1⟩, h.slots,
    fun i inst j a hinst hplace => ?_, h.own⟩
  obtain ⟨u, hu, huaddr, huindex⟩ := h.array i inst j a hinst hplace
  refine ⟨_, mem_modify.2 ⟨u, hu, rfl⟩, ?_⟩
  split
  · exact ⟨(hf u).2.1.trans huaddr, (hf u).2.2.trans huindex⟩
  · exact ⟨huaddr, huindex⟩

end StackCtl

namespace TickSys

variable {hash : LtranJhash} {tidHashFn : Tid → BitVec 32} {config : LtranConfig} {s s' : TickSys}

/-! ## The steps of the control thread -/

/-- The instances of `s` are in their slots in `s'`, with their stacks. -/
def SlotsKept (s s' : TickSys) : Prop :=
  ∀ i inst, s.ctl.mgr.instances i = some inst → s'.instNo i = s.instNo i ∧
    ∃ inst', s'.ctl.mgr.instances i = some inst' ∧
      ∀ j addr, inst.stackArray j = some addr → inst'.stackArray j = some addr

theorem InSlot.mono {p : ForwardPtr} (hp : s.InSlot p) (hkept : SlotsKept s s') : s'.InSlot p := by
  obtain ⟨i, inst, hinst, hof⟩ := hp
  obtain ⟨hno, inst', hinst', harray⟩ := hkept i inst hinst
  refine ⟨i, inst', hinst', ?_⟩
  rw [hno]
  cases p with
  | inst no => exact hof
  | stack addr => exact hof.imp fun j hj => harray j addr hj
  | onStack addr => exact hof.imp fun j hj => harray j addr hj

/-- The control thread makes a step while no instance is between its slot and its end. -/
theorem TickInv.ctlStep (h : s.TickInv tidHashFn) (hleft : s.pc.left = none)
    (hsock : s'.sockHtable = s.sockHtable) (hconn : s'.connHtable = s.connHtable)
    (hreader : s'.reader = s.reader) (hctl : s'.ctl.StackInv tidHashFn) (hslots : s'.SlotInv)
    (hstack : ∀ stack ∈ s'.ctl.stackHtable.toList,
      s'.ctl.mgr.Ticked stack.instanceCurTick stack.instanceRegTick (some stack.addr))
    (hon : s.ctl.mgr.OnKept s'.ctl.mgr) (hkept : SlotsKept s s') (hpc : s'.PcInv tidHashFn)
    (hleft' : s'.pc.left = none) : s'.TickInv tidHashFn := by
  refine ⟨hctl, hslots, hstack, ⟨fun sock hmem => ?_, fun conn hmem => ?_⟩, fun t p hp => ?_, hpc,
    fun t left n hn => ?_⟩
  · have hold : sock ∈ s'.sockHtable.toList := hmem
    rw [hsock] at hold
    exact (h.entries.sock sock hold).mono hon
  · have hold : conn ∈ s'.connHtable.toList := hmem
    rw [hconn] at hold
    exact (h.entries.conn conn hold).mono hon
  · rw [hreader] at hp
    rcases h.held t p hp with hslot | ⟨left, heq, -⟩
    · exact .inl (hslot.mono hkept)
    · rw [hleft] at heq
      cases heq
  · have heq := left_of_waits hn
    rw [hleft'] at heq
    cases heq

/-- An increment does not wrap. -/
theorem toNat_tick_add {tick : Tick} (hfew : tick.toNat < 2 ^ 31) :
    (tick + 1).toNat = tick.toNat + 1 := by
  have hone : (1 : BitVec 32).toNat = 1 := rfl
  rw [BitVec.toNat_add, hone]
  exact Nat.mod_eq_of_lt ((Nat.add_lt_add_right hfew 1).trans (by decide))

/-- Nothing of what is on changes. -/
theorem onKept_of_eq {mgr mgr' : InstanceMgr} (htick : mgr'.instanceCurTick = mgr.instanceCurTick)
    (hinst : ∀ i inst, mgr.instances i = some inst → mgr'.instances i = some inst) :
    mgr.OnKept mgr' :=
  fun i => .inr ⟨congrFun htick i, fun inst hsome _ =>
    ⟨inst, hinst i inst hsome, rfl, fun _ _ hplace => hplace⟩⟩

/-- A tick grows. -/
theorem onKept_tick {mgr mgr' : InstanceMgr} {i : Fin gazelleMaxInstanceNum}
    (hfew : (mgr.instanceCurTick i).toNat < 2 ^ 31)
    (htick : mgr'.instanceCurTick =
      Function.update mgr.instanceCurTick i (mgr.instanceCurTick i + 1))
    (hinst : mgr'.instances = mgr.instances) : mgr.OnKept mgr' := by
  intro k
  by_cases hk : k = i
  · subst hk
    left
    rw [htick, Function.update_self, toNat_tick_add hfew]
    exact Nat.lt_succ_self _
  · right
    rw [htick, Function.update_of_ne hk, hinst]
    exact ⟨rfl, fun inst hsome _ => ⟨inst, hsome, rfl, fun _ _ hplace => hplace⟩⟩

/-- After a request there is no instance between its slot and its end. -/
theorem left_afterRequest (conn : ℕ) (ok : Bool) : (afterRequest conn ok).left = none := by
  cases ok <;> rfl

theorem afterRequest_ne_setNull (conn : ℕ) (ok : Bool) (conn' : ℕ)
    (i : Fin gazelleMaxInstanceNum) : afterRequest conn ok ≠ .setNull conn' i := by
  cases ok <;> exact ControlPc.noConfusion

theorem pcInv_afterRequest (conn : ℕ) (ok : Bool) (hpc : s.pc = afterRequest conn ok) :
    s.PcInv tidHashFn := by
  unfold PcInv
  cases ok <;> rw [hpc] <;> trivial

/-- `gazelle_instance_add_by_pid` increments the tick of the slot. -/
theorem TickInv.procMem (h : s.TickInv tidHashFn) (hidle : s.pc = .idle) {conn : ℕ}
    {conf : ClientProcConf} {env : RegEnv}
    (hbelow : (s.request tidHashFn config conn (.procMem conf) env).TicksBelow) :
    (s.request tidHashFn config conn (.procMem conf) env).TickInv tidHashFn := by
  unfold TickSys.request at hbelow ⊢
  cases hrequest : s.ctl.handleRequest tidHashFn config conn (.procMem conf) env with
  | mk next ok =>
  rw [hrequest] at hbelow
  dsimp only at hbelow ⊢
  -- what the request does
  have hreg : ∃ reg, s.ctl.registry.handleRegMsgProcMem config conn conn conf env = (reg, ok) ∧
      next = { s.ctl with
        mgr := reg.mgr, connPid := Function.update s.ctl.connPid conn conf.pid } := by
    unfold StackCtl.handleRequest at hrequest
    obtain ⟨rfl, rfl⟩ := Prod.mk.inj hrequest
    exact ⟨_, rfl, rfl⟩
  obtain ⟨reg, hreg, rfl⟩ := hreg
  have hnext : StackCtl.StackInv tidHashFn
      { s.ctl with mgr := reg.mgr, connPid := Function.update s.ctl.connPid conn conf.pid } :=
    h.ctl.of_mgr (h.ctl.toTableInv.congr rfl rfl rfl rfl)
      (fun _ _ _ _ _ _ stack hmem haddr hindex => ⟨stack, hmem, haddr, hindex⟩)
      (StackCtl.arraysKept_handleRegMsgProcMem hreg)
      (LtranRegistry.slotsInv_handleRegMsgProcMem h.ctl.slots hreg)
  have hleft : s.pc.left = none := by rw [hidle]; rfl
  have hslots := h.slots
  have hcases := LtranRegistry.handleRegMsgProcMem_cases hreg
  dsimp only [StackCtl.registry] at hcases
  -- the tick grows only where there is no instance
  have htick : ∀ i inst, s.ctl.mgr.instances i = some inst →
      reg.mgr.instanceCurTick i = s.ctl.mgr.instanceCurTick i := by
    intro i inst hinst
    rcases hcases with ⟨htick, -⟩ | ⟨k, -, hnone, htick, -⟩
    · exact congrFun htick i
    · have hne : i ≠ k := by
        rintro rfl
        rw [hnone] at hinst
        cases hinst
      rw [htick, Function.update_of_ne hne]
  have hon : s.ctl.mgr.OnKept { s.ctl.mgr with instanceCurTick := reg.mgr.instanceCurTick } := by
    rcases hcases with ⟨htick, -⟩ | ⟨k, -, -, htick, -⟩
    · exact onKept_of_eq htick fun _ _ hinst => hinst
    · exact onKept_tick (hslots.few k) htick rfl
  refine h.ctlStep hleft rfl rfl rfl (h.ctl.setTicks _)
    ⟨hslots.cell, fun i inst hinst => ?_, hbelow, fun i inst hinst heq => ?_, hslots.number,
      hslots.unique, fun i inst hinst _ => ?_, fun _ _ _ hpc => ?_, hslots.old, hslots.owner⟩
    (fun stack hmem => (h.stack stack hmem).mono hon) hon
    (fun i inst hinst => ⟨rfl, inst, hinst, fun _ _ hplace => hplace⟩) ?_ rfl
  · rw [htick i inst hinst]
    exact hslots.below i inst hinst
  · rw [htick i inst hinst] at heq
    exact hslots.attached i inst hinst heq
  · exact hslots.alive i inst hinst fun conn' hpc => by rw [hidle] at hpc; cases hpc
  · cases hpc
  · refine ⟨hnext, rfl, rfl, ?_⟩
    rcases hcases with ⟨-, hinst, -⟩ | ⟨k, inst, hnone, htick', hinst, hcell, hreg', harray, -⟩
    · exact .inl hinst
    · refine .inr ⟨k, inst, hnone, hinst, hcell, harray, ?_⟩
      rw [hreg', htick', Function.update_self, toNat_tick_add (hslots.few k)]
      exact Nat.lt_succ_self _

/-- A free slot has got an instance without stacks that is off, or none has. -/
structure AddsInstance (mgr next : InstanceMgr) : Prop where
  /-- The ticks are the same. -/
  ticks : next.instanceCurTick = mgr.instanceCurTick
  /-- The instances that were there are. -/
  old : ∀ i inst, mgr.instances i = some inst → next.instances i = some inst
  /-- What was not there is new, and the only one. -/
  new : ∀ i inst, next.instances i = some inst → mgr.instances i = some inst ∨
    (mgr.instances i = none ∧ inst.instanceCurTick = i ∧ (∀ j, inst.stackArray j = none) ∧
      inst.instanceRegTick.toNat < (mgr.instanceCurTick i).toNat ∧
      ∀ k other, next.instances k = some other → k = i ∨ mgr.instances k = some other)

/-- What `handle_reg_msg_proc_mem` writes into the slots. -/
theorem AddsInstance.of_pcInv (h : PcInv tidHashFn s) {conn : ℕ} {next : StackCtl} {ok : Bool}
    (hpc : s.pc = .procMem conn next ok) : AddsInstance s.ctl.mgr next.mgr := by
  simp only [PcInv, hpc] at h
  obtain ⟨-, -, hticks, heq | ⟨k, new, hnone, heq, hcell, harray, hlt⟩⟩ := h
  · exact ⟨hticks, fun i inst hinst => heq ▸ hinst, fun i inst hinst => .inl (heq ▸ hinst)⟩
  -- an instance of the new state is in the slot that was free, or an old one
  have hcases : ∀ i inst, next.mgr.instances i = some inst →
      (i = k ∧ inst = new) ∨ s.ctl.mgr.instances i = some inst := by
    intro i inst hinst
    rw [heq] at hinst
    by_cases hi : i = k
    · rw [hi, Function.update_self] at hinst
      exact .inl ⟨hi, (Option.some.inj hinst).symm⟩
    · rw [Function.update_of_ne hi] at hinst
      exact .inr hinst
  refine ⟨hticks, fun i inst hinst => ?_, fun i inst hinst => ?_⟩
  · have hne : i ≠ k := by
      rintro rfl
      rw [hnone] at hinst
      cases hinst
    rw [heq, Function.update_of_ne hne]
    exact hinst
  · rcases hcases i inst hinst with ⟨rfl, rfl⟩ | hinst
    · exact .inr ⟨hnone, hcell, harray, hlt,
        fun l other hother => (hcases l other hother).imp_left And.left⟩
    · exact .inl hinst

/-- The slots after that. The number of the new instance was not given out before. -/
theorem SlotInv.adds (h : s.SlotInv) (hs : AddsInstance s.ctl.mgr s'.ctl.mgr)
    (hpc : ∀ conn i, s.pc ≠ .setNull conn i) (hpc' : ∀ conn i, s'.pc ≠ .setNull conn i)
    (hno : ∀ i, s'.instNo i = if (s.ctl.mgr.instances i).isNone then s.added else s.instNo i)
    (hadded : s'.added = s.added + 1) (hattached : s'.attached = s.attached)
    (hout : s'.loggedOut = s.loggedOut) (howner : s'.owner = s.owner) : s'.SlotInv := by
  have hold : ∀ i inst, s.ctl.mgr.instances i = some inst → s'.instNo i = s.instNo i := by
    intro i inst hinst
    rw [hno, hinst]
    rfl
  have hnew : ∀ i, s.ctl.mgr.instances i = none → s'.instNo i = s.added := by
    intro i hnone
    rw [hno, hnone]
    rfl
  refine ⟨fun i inst hinst => ?_, fun i inst hinst => ?_, fun i => ?_, fun i inst hinst heq => ?_,
    fun i inst hinst => ?_, fun i k inst other hinst hother heq => ?_, fun i inst hinst _ => ?_,
    fun conn i _ heq => absurd heq (hpc' conn i), fun no hmem => ?_,
    fun i inst j addr hinst hplace => ?_⟩
  · rcases hs.new i inst hinst with hinst | ⟨-, hcell, -⟩
    · exact h.cell i inst hinst
    · exact hcell
  · rw [hs.ticks]
    rcases hs.new i inst hinst with hinst | ⟨-, -, -, hlt, -⟩
    · exact h.below i inst hinst
    · exact hlt.le
  · rw [hs.ticks]
    exact h.few i
  · rw [hs.ticks] at heq
    rcases hs.new i inst hinst with hinst | ⟨-, -, -, hlt, -⟩
    · rw [hold i inst hinst, hattached]
      exact h.attached i inst hinst heq
    · -- a new instance is off
      rw [heq] at hlt
      exact absurd hlt (lt_irrefl _)
  · rw [hadded]
    rcases hs.new i inst hinst with hinst | ⟨hnone, -⟩
    · rw [hold i inst hinst]
      exact Nat.lt_succ_of_lt (h.number i inst hinst)
    · rw [hnew i hnone]
      exact Nat.lt_succ_self _
  · rcases hs.new i inst hinst with hinst | ⟨hnone, -, -, -, honly⟩
    · rw [hold i inst hinst] at heq
      rcases hs.new k other hother with hother | ⟨hnone, -⟩
      · rw [hold k other hother] at heq
        exact h.unique i k inst other hinst hother heq
      · rw [hnew k hnone] at heq
        exact absurd heq (h.number i inst hinst).ne
    · rcases honly k other hother with rfl | hother
      · rfl
      · rw [hnew i hnone, hold k other hother] at heq
        exact absurd heq.symm (h.number k other hother).ne
  · rw [hout]
    rcases hs.new i inst hinst with hinst | ⟨hnone, -⟩
    · rw [hold i inst hinst]
      exact h.alive i inst hinst fun conn => hpc conn i
    · rw [hnew i hnone]
      exact fun hmem => lt_irrefl _ (h.old _ hmem)
  · rw [hadded]
    exact Nat.lt_succ_of_lt (h.old no (hout ▸ hmem))
  · rw [howner]
    rcases hs.new i inst hinst with hinst | ⟨-, -, harray, -⟩
    · rw [hold i inst hinst]
      exact h.owner i inst j addr hinst hplace
    · rw [harray j] at hplace
      cases hplace

/-- `handle_reg_msg_proc_mem` does the rest. -/
theorem TickInv.procMemDone (h : s.TickInv tidHashFn) {conn : ℕ} {next : StackCtl} {ok : Bool}
    (hpc : s.pc = .procMem conn next ok) (hs : s.control tidHashFn = some s') :
    s'.TickInv tidHashFn := by
  simp only [TickSys.control, hpc, Option.some.injEq] at hs
  subst hs
  have hadds := AddsInstance.of_pcInv h.pc hpc
  have hinv := h.pc
  simp only [PcInv, hpc] at hinv
  obtain ⟨hnext, htable, -, -⟩ := hinv
  have hleft : s.pc.left = none := by rw [hpc]; rfl
  have hon : s.ctl.mgr.OnKept next.mgr := onKept_of_eq hadds.ticks hadds.old
  refine h.ctlStep hleft rfl rfl rfl hnext
    (h.slots.adds hadds (fun _ _ heq => by rw [hpc] at heq; cases heq)
      (afterRequest_ne_setNull conn ok) (fun _ => rfl) rfl rfl rfl rfl)
    (fun stack hmem => ?_) hon (fun i inst hinst => ⟨?_, inst, hadds.old i inst hinst, ?_⟩)
    (pcInv_afterRequest _ _ rfl) (left_afterRequest conn ok)
  · dsimp only at hmem
    rw [htable] at hmem
    exact (h.stack stack hmem).mono hon
  · dsimp only
    rw [hinst]
    rfl
  · exact fun _ _ hplace => hplace

/-- An instance is written back. -/
theorem instances_setInstance {mgr : InstanceMgr} {i k : Fin gazelleMaxInstanceNum}
    {inst other : GazelleInstance} (hother : (mgr.setInstance i inst).instances k = some other) :
    (k = i ∧ other = inst) ∨ (k ≠ i ∧ mgr.instances k = some other) := by
  have hupdate : Function.update mgr.instances i (some inst) k = some other := hother
  by_cases hk : k = i
  · subst hk
    rw [Function.update_self] at hupdate
    exact .inl ⟨rfl, (Option.some.inj hupdate).symm⟩
  · rw [Function.update_of_ne hk] at hupdate
    exact .inr ⟨hk, hupdate⟩

theorem instances_setInstance_self {mgr : InstanceMgr} {i : Fin gazelleMaxInstanceNum}
    {inst : GazelleInstance} : (mgr.setInstance i inst).instances i = some inst :=
  Function.update_self ..

theorem instances_setInstance_of_ne {mgr : InstanceMgr} {i k : Fin gazelleMaxInstanceNum}
    {inst : GazelleInstance} (hk : k ≠ i) :
    (mgr.setInstance i inst).instances k = mgr.instances k :=
  Function.update_of_ne hk ..

/-- An instance in a slot is written back with more stacks at most: the other slots are kept. -/
theorem onKept_setInstance {mgr mgr' : InstanceMgr} {i : Fin gazelleMaxInstanceNum}
    {inst inst' : GazelleInstance} (hinst : mgr.instances i = some inst)
    (hmgr : mgr' = mgr.setInstance i inst')
    (htick : inst.instanceRegTick = mgr.instanceCurTick i →
      inst'.instanceRegTick = inst.instanceRegTick)
    (harray : ∀ j addr, inst.stackArray j = some addr → inst'.stackArray j = some addr) :
    mgr.OnKept mgr' := by
  subst hmgr
  refine fun k => .inr ⟨rfl, fun x hx hon => ?_⟩
  by_cases hk : k = i
  · subst hk
    rw [hinst] at hx
    obtain rfl := Option.some.inj hx
    exact ⟨inst', instances_setInstance_self, htick hon, harray⟩
  · exact ⟨x, (instances_setInstance_of_ne hk).trans hx, rfl, fun _ _ hplace => hplace⟩

/-- `handle_reg_msg_proc_att`. -/
theorem TickInv.procAtt (h : s.TickInv tidHashFn) (hidle : s.pc = .idle) (conn : ℕ)
    (conf : ClientProcConf) (env : RegEnv) :
    (s.request tidHashFn config conn (.procAtt conf) env).TickInv tidHashFn := by
  unfold TickSys.request
  cases hrequest : s.ctl.handleRequest tidHashFn config conn (.procAtt conf) env with
  | mk next ok =>
  dsimp only
  have hreg : ∃ reg, s.ctl.registry.handleRegMsgProcAtt conf env = (reg, ok) ∧
      next = { s.ctl with mgr := reg.mgr } := by
    unfold StackCtl.handleRequest at hrequest
    obtain ⟨rfl, rfl⟩ := Prod.mk.inj hrequest
    exact ⟨_, rfl, rfl⟩
  obtain ⟨reg, hreg, rfl⟩ := hreg
  have hnext : StackCtl.StackInv tidHashFn { s.ctl with mgr := reg.mgr } :=
    h.ctl.of_mgr (h.ctl.toTableInv.congr rfl rfl rfl rfl)
      (fun _ _ _ _ _ _ stack hmem haddr hindex => ⟨stack, hmem, haddr, hindex⟩)
      (StackCtl.arraysKept_handleRegMsgProcAtt hreg)
      (LtranRegistry.slotsInv_handleRegMsgProcAtt h.ctl.slots hreg)
  have hleft : s.pc.left = none := by rw [hidle]; rfl
  have hslots := h.slots
  have halive : ∀ i inst, s.ctl.mgr.instances i = some inst → s.instNo i ∉ s.loggedOut :=
    fun i inst hinst => hslots.alive i inst hinst fun _ heq => by rw [hidle] at heq; cases heq
  rcases LtranRegistry.handleRegMsgProcAtt_cases hreg with
    ⟨rfl, rfl⟩ | ⟨i, inst, inst', hget, hmgr, hcell, harray, -, -, hok⟩
  · exact h.ctlStep hleft rfl rfl rfl hnext
      ⟨hslots.cell, hslots.below, hslots.few, hslots.attached, hslots.number, hslots.unique,
        fun k x hx _ => halive k x hx,
        fun conn' k _ heq => absurd heq (afterRequest_ne_setNull conn false conn' k), hslots.old,
        hslots.owner⟩
      h.stack (onKept_of_eq rfl fun _ _ hx => hx)
      (fun k x hx => ⟨rfl, x, hx, fun _ _ hplace => hplace⟩)
      (pcInv_afterRequest conn false rfl) rfl
  dsimp only [StackCtl.registry] at hget hmgr hok
  obtain ⟨hinst, -⟩ := InstanceMgr.gazelleInstanceGetByPid_some hget
  have hcellI : inst.instanceCurTick = i := hslots.cell i inst hinst
  rw [hcellI] at hok
  rw [hget, Option.map_some, Option.toList_some]
  -- the tick of the instance is old, or that of the slot
  have htick : inst.instanceRegTick = s.ctl.mgr.instanceCurTick i →
      inst'.instanceRegTick = inst.instanceRegTick := by
    intro heq
    rcases hok with ⟨-, hreg'⟩ | ⟨-, hreg'⟩
    · exact hreg'
    · exact hreg'.trans heq.symm
  have hon : s.ctl.mgr.OnKept reg.mgr :=
    onKept_setInstance hinst hmgr htick fun j addr hplace => by rw [harray]; exact hplace
  have hnew : ∀ k x, reg.mgr.instances k = some x →
      (k = i ∧ x = inst') ∨ (k ≠ i ∧ s.ctl.mgr.instances k = some x) := fun k x hx =>
    instances_setInstance (hmgr ▸ hx)
  have hticks : reg.mgr.instanceCurTick = s.ctl.mgr.instanceCurTick := by rw [hmgr]; rfl
  have hsome : ∀ k x, reg.mgr.instances k = some x → ∃ y, s.ctl.mgr.instances k = some y := by
    intro k x hx
    rcases hnew k x hx with ⟨rfl, -⟩ | ⟨-, hx⟩
    · exact ⟨inst, hinst⟩
    · exact ⟨x, hx⟩
  refine h.ctlStep hleft rfl rfl rfl hnext
    ⟨fun k x hx => ?_, fun k x hx => ?_, fun k => ?_, fun k x hx heq => ?_, fun k x hx => ?_,
      fun k l x y hx hy heq => ?_, fun k x hx _ => ?_,
      fun conn' k _ heq => absurd heq (afterRequest_ne_setNull conn ok conn' k), hslots.old,
      fun k x j addr hx hplace => ?_⟩
    (fun stack hmem => (h.stack stack hmem).mono hon) hon (fun k x hx => ?_)
    (pcInv_afterRequest conn ok rfl) (left_afterRequest conn ok)
  · rcases hnew k x hx with ⟨rfl, rfl⟩ | ⟨-, hx⟩
    · exact hcell.trans hcellI
    · exact hslots.cell k x hx
  · rw [hticks]
    rcases hnew k x hx with ⟨rfl, rfl⟩ | ⟨-, hx⟩
    · rcases hok with ⟨-, hreg'⟩ | ⟨-, hreg'⟩
      · rw [hreg']
        exact hslots.below k inst hinst
      · rw [hreg']
    · exact hslots.below k x hx
  · rw [hticks]
    exact hslots.few k
  · rw [hticks] at heq
    rcases hnew k x hx with ⟨rfl, rfl⟩ | ⟨-, hx⟩
    · rcases hok with ⟨rfl, hreg'⟩ | ⟨rfl, -⟩
      · exact hslots.attached k inst hinst (hreg' ▸ heq)
      · exact List.mem_append_left _ (List.mem_singleton_self _)
    · have hmem := hslots.attached k x hx heq
      dsimp only
      split
      · exact List.mem_append_right _ hmem
      · exact hmem
  · obtain ⟨y, hy⟩ := hsome k x hx
    exact hslots.number k y hy
  · obtain ⟨x', hx'⟩ := hsome k x hx
    obtain ⟨y', hy'⟩ := hsome l y hy
    exact hslots.unique k l x' y' hx' hy' heq
  · obtain ⟨y, hy⟩ := hsome k x hx
    exact halive k y hy
  · rcases hnew k x hx with ⟨rfl, rfl⟩ | ⟨-, hx⟩
    · rw [harray] at hplace
      exact hslots.owner k inst j addr hinst hplace
    · exact hslots.owner k x j addr hx hplace
  · refine ⟨rfl, ?_⟩
    by_cases hk : k = i
    · subst hk
      rw [hinst] at hx
      obtain rfl := Option.some.inj hx
      exact ⟨inst', hmgr ▸ instances_setInstance_self, fun j addr hplace => by rwa [harray]⟩
    · exact ⟨x, hmgr ▸ (instances_setInstance_of_ne hk).trans hx, fun _ _ hplace => hplace⟩

/-- The stacks of an instance are older than the next one. -/
theorem TickInv.addr_lt (h : s.TickInv tidHashFn) {i : Fin gazelleMaxInstanceNum}
    {inst : GazelleInstance} {j : Fin gazelleMaxInstanceNum} {addr : ℕ}
    (hinst : s.ctl.mgr.instances i = some inst) (hplace : inst.stackArray j = some addr) :
    addr < s.ctl.nextAddr := by
  obtain ⟨stack, hmem, rfl, -⟩ := h.ctl.array i inst j addr hinst hplace
  exact h.ctl.fresh stack hmem

/-- Writing down the owner of the next stack leaves those of the others alone. -/
theorem TickInv.owner_update (h : s.TickInv tidHashFn) (no : Option ℕ)
    {i : Fin gazelleMaxInstanceNum} {inst : GazelleInstance} {j : Fin gazelleMaxInstanceNum}
    {addr : ℕ} (hinst : s.ctl.mgr.instances i = some inst)
    (hplace : inst.stackArray j = some addr) :
    Function.update s.owner s.ctl.nextAddr no addr = some (s.instNo i) := by
  rw [Function.update_of_ne (h.addr_lt hinst hplace).ne]
  exact h.slots.owner i inst j addr hinst hplace

/-- The slots while the instances change nothing but their stacks. -/
theorem SlotInv.of_instances (h : s.SlotInv)
    (hticks : s'.ctl.mgr.instanceCurTick = s.ctl.mgr.instanceCurTick)
    (hsome : ∀ i inst, s'.ctl.mgr.instances i = some inst → ∃ old,
      s.ctl.mgr.instances i = some old ∧ inst.instanceCurTick = old.instanceCurTick ∧
        inst.instanceRegTick = old.instanceRegTick)
    (hno : s'.instNo = s.instNo) (hadded : s'.added = s.added)
    (hattached : s'.attached = s.attached)
    (hout : s'.loggedOut = s.loggedOut) (hnull : ∀ conn i, s.pc ≠ .setNull conn i)
    (hnull' : ∀ conn i, s'.pc ≠ .setNull conn i)
    (howner : ∀ i inst j addr, s'.ctl.mgr.instances i = some inst →
      inst.stackArray j = some addr → s'.owner addr = some (s.instNo i)) : s'.SlotInv where
  -- each instance is an old one but for its stacks
  cell i inst hinst := by
    obtain ⟨old, hold, hcell, -⟩ := hsome i inst hinst
    exact hcell.trans (h.cell i old hold)
  below i inst hinst := by
    obtain ⟨old, hold, -, hreg⟩ := hsome i inst hinst
    rw [hreg, hticks]
    exact h.below i old hold
  few i := by
    rw [hticks]
    exact h.few i
  attached i inst hinst heq := by
    obtain ⟨old, hold, -, hreg⟩ := hsome i inst hinst
    rw [hreg, hticks] at heq
    rw [hno, hattached]
    exact h.attached i old hold heq
  number i inst hinst := by
    obtain ⟨old, hold, -⟩ := hsome i inst hinst
    rw [hno, hadded]
    exact h.number i old hold
  unique i k inst other hinst hother heq := by
    obtain ⟨old, hold, -⟩ := hsome i inst hinst
    obtain ⟨old', hold', -⟩ := hsome k other hother
    rw [hno] at heq
    exact h.unique i k old old' hold hold' heq
  alive i inst hinst _ := by
    obtain ⟨old, hold, -⟩ := hsome i inst hinst
    rw [hno, hout]
    exact h.alive i old hold fun conn => hnull conn i
  off conn i _ heq := absurd heq (hnull' conn i)
  old no hmem := by
    rw [hadded]
    exact h.old no (hout ▸ hmem)
  owner i inst j addr hinst hplace := by
    rw [hno]
    exact howner i inst j addr hinst hplace

/-- `handle_reg_msg_thrd_ring` links no stack. -/
theorem TickInv.thrdRing_unlinked (h : s.TickInv tidHashFn) (hidle : s.pc = .idle)
    {linked : StackCtl}
    (hinv : linked.StackInv tidHashFn) (hmgr : linked.mgr = s.ctl.mgr)
    (hmem : ∀ u, u ∈ linked.stackHtable.toList ↔ u ∈ s.ctl.stackHtable.toList) (no : Option ℕ)
    (conn : ℕ) (ok : Bool) :
    TickInv tidHashFn { s with
      ctl := linked
      owner := Function.update s.owner s.ctl.nextAddr no
      pc := afterRequest conn ok } := by
  have hleft : s.pc.left = none := by rw [hidle]; rfl
  have hinsts : linked.mgr.instances = s.ctl.mgr.instances := by rw [hmgr]
  have hticks : linked.mgr.instanceCurTick = s.ctl.mgr.instanceCurTick := by rw [hmgr]
  refine h.ctlStep hleft rfl rfl rfl hinv
    (h.slots.of_instances hticks (fun i inst hinst => ⟨inst, hinsts ▸ hinst, rfl, rfl⟩) rfl rfl rfl
      rfl (fun _ _ heq => by rw [hidle] at heq; cases heq) (afterRequest_ne_setNull conn ok)
      fun i inst j addr hinst hplace => h.owner_update no (hinsts ▸ hinst) hplace)
    (fun stack hstack => ?_) (onKept_of_eq hticks fun i inst hinst => hinsts ▸ hinst)
    (fun i inst hinst => ⟨rfl, inst, hinsts ▸ hinst, fun _ _ hplace => hplace⟩)
    (pcInv_afterRequest conn ok rfl) (left_afterRequest conn ok)
  have hold := h.stack stack ((hmem stack).1 hstack)
  rwa [← hmgr] at hold

/-- `handle_reg_msg_thrd_ring` links a stack in a free place of an instance. -/
theorem TickInv.thrdRing_linked (h : s.TickInv tidHashFn) (hidle : s.pc = .idle) {linked : StackCtl}
    (hinv : linked.StackInv tidHashFn) {i idx : Fin gazelleMaxInstanceNum} {inst : GazelleInstance}
    {tid : Tid} (hinst : s.ctl.mgr.instances i = some inst) (hfree : inst.stackArray idx = none)
    (hmgr : linked.mgr =
      s.ctl.mgr.setInstance i (StackCtl.withStack inst idx s.ctl.nextAddr))
    (hmem : ∀ u, u ∈ linked.stackHtable.toList ↔
      u = { s.ctl.newStack tid with index := idx.val } ∨ u ∈ s.ctl.stackHtable.toList)
    (conn : ℕ) (ok : Bool) {pc : ControlPc}
    (hpc : pc = .regTick i s.ctl.nextAddr ∨ pc = afterRequest conn ok) :
    TickInv tidHashFn { s with
      ctl := linked
      owner := Function.update s.owner s.ctl.nextAddr (some (s.instNo i))
      pc := pc } := by
  have hleft : s.pc.left = none := by rw [hidle]; rfl
  have hticks : linked.mgr.instanceCurTick = s.ctl.mgr.instanceCurTick := by rw [hmgr]; rfl
  -- the stacks that the instance had are in their places
  have harray : ∀ j addr, inst.stackArray j = some addr →
      (StackCtl.withStack inst idx s.ctl.nextAddr).stackArray j = some addr := by
    intro j addr hplace
    have hj : j ≠ idx := by
      rintro rfl
      rw [hfree] at hplace
      cases hplace
    exact (Function.update_of_ne hj ..).trans hplace
  have hon : s.ctl.mgr.OnKept linked.mgr := onKept_setInstance hinst hmgr (fun _ => rfl) harray
  have hnew : ∀ k x, linked.mgr.instances k = some x →
      (k = i ∧ x = StackCtl.withStack inst idx s.ctl.nextAddr) ∨
        (k ≠ i ∧ s.ctl.mgr.instances k = some x) := fun k x hx =>
    instances_setInstance (hmgr ▸ hx)
  have hslot : linked.mgr.instances i = some (StackCtl.withStack inst idx s.ctl.nextAddr) :=
    hmgr ▸ instances_setInstance_self
  have hpcs : pc.left = none ∧ ∀ conn' k, pc ≠ .setNull conn' k := by
    rcases hpc with rfl | rfl
    · exact ⟨rfl, fun _ _ => ControlPc.noConfusion⟩
    · exact ⟨left_afterRequest conn ok, afterRequest_ne_setNull conn ok⟩
  refine h.ctlStep hleft rfl rfl rfl hinv
    (h.slots.of_instances hticks (fun k x hx => ?_) rfl rfl rfl rfl
      (fun _ _ heq => by rw [hidle] at heq; cases heq) hpcs.2 fun k x j addr hx hplace => ?_)
    (fun stack hstack => ?_) hon (fun k x hx => ⟨rfl, ?_⟩) ?_ hpcs.1
  · rcases hnew k x hx with ⟨rfl, rfl⟩ | ⟨-, hx⟩
    · exact ⟨inst, hinst, rfl, rfl⟩
    · exact ⟨x, hx, rfl, rfl⟩
  · -- the owner of the new stack is written down, those of the others stay
    rcases hnew k x hx with ⟨rfl, rfl⟩ | ⟨-, hx⟩
    · have hupdate : Function.update inst.stackArray idx (some s.ctl.nextAddr) j = some addr :=
        hplace
      by_cases hj : j = idx
      · subst hj
        rw [Function.update_self] at hupdate
        rw [← Option.some.inj hupdate]
        exact Function.update_self ..
      · rw [Function.update_of_ne hj] at hupdate
        exact h.owner_update _ hinst hupdate
    · exact h.owner_update _ hx hplace
  · rcases (hmem stack).1 hstack with rfl | hold
    · exact InstanceMgr.ticked_none _ _
    · exact (h.stack stack hold).mono hon
  · by_cases hk : k = i
    · subst hk
      rw [hinst] at hx
      obtain rfl := Option.some.inj hx
      exact ⟨_, hslot, harray⟩
    · exact ⟨x, hmgr ▸ (instances_setInstance_of_ne hk).trans hx, fun _ _ hplace => hplace⟩
  · rcases hpc with rfl | rfl
    · -- the new stack is the only one at its address
      refine ⟨_, idx, hslot, Function.update_self .., fun stack hstack haddr => ?_⟩
      rcases (hmem stack).1 hstack with rfl | hold
      · rfl
      · exact absurd haddr (h.ctl.fresh stack hold).ne
    · exact pcInv_afterRequest _ _ rfl

/-- `handle_reg_msg_thrd_ring` before it writes the ticks of the stack. -/
theorem TickInv.thrdRing (h : s.TickInv tidHashFn) (hidle : s.pc = .idle) {conn : ℕ}
    {conf : ClientThrdConf} {env : RegEnv}
    (hfresh : s.FreshTid tidHashFn (.request conn (.thrdRing conf) env)) :
    (s.request tidHashFn config conn (.thrdRing conf) env).TickInv tidHashFn := by
  unfold TickSys.request
  dsimp only
  generalize hlinked : (s.ctl.handleRegMsgThrdRing tidHashFn conf
    { env with responded := false }).1 = linked
  have hinv : linked.StackInv tidHashFn := by
    rw [← hlinked]
    exact h.ctl.handleRegMsgThrdRing hfresh
  have hcases := StackCtl.handleRegMsgThrdRing_cases h.ctl.toTableInv hfresh hlinked
  generalize hdone : s.ctl.handleRegMsgThrdRing tidHashFn conf env = done at hcases
  obtain ⟨done, ok⟩ := done
  dsimp only at hcases
  rcases hcases with ⟨hmgr, hmem, hnext⟩ | ⟨i, inst, idx, hget, hfree, hmgr, hmem⟩
  · -- the control thread goes on with the response
    have hpc : (match s.ctl.mgr.gazelleInstanceGetByPid conf.pid with
        | some (i, _) =>
          if ok ∧ done.nextAddr ≠ s.ctl.nextAddr then .regTick i s.ctl.nextAddr
          else afterRequest conn ok
        | none => afterRequest conn ok) = afterRequest conn ok := by
      split
      · exact if_neg fun hand => hand.2 (hnext hand.1)
      · rfl
    rw [hpc]
    exact h.thrdRing_unlinked hidle hinv hmgr hmem _ conn ok
  · have hinst := (InstanceMgr.gazelleInstanceGetByPid_some hget).1
    rw [hget]
    dsimp only [Option.map_some]
    refine h.thrdRing_linked hidle hinv hinst hfree hmgr hmem conn ok ?_
    split
    · exact .inl rfl
    · exact .inr rfl

/-- A stack is written to while the slots stay: the entries and the pointers keep. -/
theorem TickInv.writeStack (h : s.TickInv tidHashFn) (hleft : s.pc.left = none) (addr : ℕ)
    {f : LinkedStack → LinkedStack} {pc : ControlPc}
    (hf : ∀ t, (f t).tid = t.tid ∧ (f t).addr = t.addr ∧ (f t).index = t.index)
    (hticked : ∀ stack ∈ s.ctl.stackHtable.toList, stack.addr = addr →
      s.ctl.mgr.Ticked (f stack).instanceCurTick (f stack).instanceRegTick (some stack.addr))
    (hnull : ∀ conn i, s.pc ≠ .setNull conn i) (hleft' : pc.left = none)
    (hnull' : ∀ conn i, pc ≠ .setNull conn i)
    (hpc : PcInv tidHashFn { s with ctl := s.ctl.modify addr f, pc }) :
    TickInv tidHashFn { s with ctl := s.ctl.modify addr f, pc } := by
  have hslots := h.slots
  refine h.ctlStep hleft rfl rfl rfl (h.ctl.modify addr hf)
    ⟨hslots.cell, hslots.below, hslots.few, hslots.attached, hslots.number, hslots.unique,
      fun i inst hinst _ => hslots.alive i inst hinst fun conn => hnull conn i,
      fun conn i _ heq => absurd heq (hnull' conn i), hslots.old, hslots.owner⟩
    (fun stack hmem => ?_) (onKept_of_eq rfl fun _ _ hx => hx)
    (fun _ x hx => ⟨rfl, x, hx, fun _ _ hplace => hplace⟩) hpc hleft'
  obtain ⟨t, ht, rfl⟩ := StackCtl.mem_modify.1 hmem
  by_cases haddr : t.addr = addr
  · rw [if_pos haddr, (hf t).2.1]
    exact hticked t ht haddr
  · rw [if_neg haddr]
    exact h.stack t ht

/-- `handle_reg_msg_thrd_ring` writes `instance_reg_tick` of the stack. -/
theorem TickInv.regTick (h : s.TickInv tidHashFn) {i : Fin gazelleMaxInstanceNum} {addr : ℕ}
    (hpc : s.pc = .regTick i addr) (hs : s.control tidHashFn = some s') :
    s'.TickInv tidHashFn := by
  simp only [TickSys.control, hpc, Option.map_eq_some_iff] at hs
  obtain ⟨inst, hinst, rfl⟩ := hs
  have hinv := h.pc
  simp only [PcInv, hpc] at hinv
  obtain ⟨inst', j, hinst', hplace, hnone⟩ := hinv
  rw [hinst] at hinst'
  obtain rfl := Option.some.inj hinst'
  refine h.writeStack (by rw [hpc]; rfl) addr (fun _ => ⟨rfl, rfl, rfl⟩)
    (fun stack hmem haddr => ?_) (fun _ _ => by rw [hpc]; exact ControlPc.noConfusion) rfl
    (fun _ _ => ControlPc.noConfusion) ?_
  · -- the stack is off as long as it has the tick cell of a new one
    dsimp only
    rw [hnone stack hmem haddr]
    have hbelow := h.slots.below i inst hinst
    exact ⟨hbelow.trans_lt (h.slots.few i), fun _ heq => absurd heq (Option.some_ne_none _).symm,
      fun _ heq => absurd heq (Option.some_ne_none _).symm⟩
  · refine ⟨inst, j, hinst, hplace, fun stack hmem haddr => ?_⟩
    obtain ⟨t, -, rfl⟩ := StackCtl.mem_modify.1 hmem
    by_cases ht : t.addr = addr
    · rw [if_pos ht]
    · rw [if_neg ht] at haddr
      exact absurd haddr ht

/-- `handle_reg_msg_thrd_ring` writes `instance_cur_tick` of the stack. -/
theorem TickInv.curTick (h : s.TickInv tidHashFn) {i : Fin gazelleMaxInstanceNum} {addr : ℕ}
    (hpc : s.pc = .curTick i addr) (hs : s.control tidHashFn = some s') :
    s'.TickInv tidHashFn := by
  simp only [TickSys.control, hpc, Option.map_eq_some_iff] at hs
  obtain ⟨inst, hinst, rfl⟩ := hs
  have hinv := h.pc
  simp only [PcInv, hpc] at hinv
  obtain ⟨inst', j, hinst', hplace, hreg⟩ := hinv
  rw [hinst] at hinst'
  obtain rfl := Option.some.inj hinst'
  have hcell := h.slots.cell i inst hinst
  refine h.writeStack (by rw [hpc]; rfl) addr (fun _ => ⟨rfl, rfl, rfl⟩)
    (fun stack hmem haddr => ?_) (fun _ _ => by rw [hpc]; exact ControlPc.noConfusion) rfl
    (fun _ _ => ControlPc.noConfusion) trivial
  dsimp only
  rw [hreg stack hmem haddr, hcell]
  have hbelow := h.slots.below i inst hinst
  refine ⟨hbelow.trans_lt (h.slots.few i), fun k hk => ?_, fun k hk heq => ?_⟩
  · obtain rfl := Option.some.inj hk
    exact hbelow
  · obtain rfl := Option.some.inj hk
    exact ⟨inst, j, addr, hinst, heq, by rw [haddr], hplace⟩

/-- The control thread only moves on. -/
theorem TickInv.setPc (h : s.TickInv tidHashFn) {pc : ControlPc} {connPid : ℕ → Pid}
    (hleft : pc.left = s.pc.left) (hnull : ∀ conn i, s.pc ≠ .setNull conn i)
    (hnull' : ∀ conn i, pc ≠ .setNull conn i)
    (hpc : PcInv tidHashFn { s with ctl.connPid := connPid, pc })
    (hwaits : ∀ t left n, pc.waits t = some (left, n) →
      (s.reader t).ClearSince n (ForwardPtr.Of left.no left.inst)) :
    TickInv tidHashFn { s with ctl.connPid := connPid, pc } := by
  have hslots := h.slots
  have hctl : StackCtl.StackInv tidHashFn { s.ctl with connPid := connPid } :=
    ⟨h.ctl.toTableInv.congr rfl rfl rfl rfl, h.ctl.slots, h.ctl.array, h.ctl.own⟩
  refine ⟨hctl, ⟨hslots.cell, hslots.below, hslots.few, hslots.attached, hslots.number,
    hslots.unique, fun i inst hinst _ => hslots.alive i inst hinst fun conn => hnull conn i,
    fun conn i _ heq => absurd heq (hnull' conn i), hslots.old, hslots.owner⟩, h.stack,
    ⟨h.entries.sock, h.entries.conn⟩, fun t p hp => ?_, hpc, hwaits⟩
  rcases h.held t p hp with hslot | ⟨left, heq, hof⟩
  · exact .inl hslot
  · exact .inr ⟨left, hleft.trans heq, hof⟩

/-- `handle_instance_logout` increments the tick of the instance, if there is one. -/
theorem TickInv.endConn (h : s.TickInv tidHashFn) {conn : ℕ} (hpc : s.pc = .endConn conn)
    (hs : s.control tidHashFn = some s') (hbelow : s'.TicksBelow) : s'.TickInv tidHashFn := by
  have hleft : s.pc.left = none := by rw [hpc]; rfl
  have hnull : ∀ conn' i, s.pc ≠ .setNull conn' i := by
    intro conn' i heq
    rw [hpc] at heq
    cases heq
  -- the only slot written is that of the instance, and only its tick
  simp only [TickSys.control, hpc] at hs
  split at hs
  · -- no instance has this pid
    obtain rfl := Option.some.inj hs
    refine h.setPc ?_ hnull (fun _ _ => ControlPc.noConfusion) trivial fun t _ _ hn => ?_
    · exact hleft.symm
    · cases t <;> cases hn
  next i inst hfound =>
  obtain rfl := Option.some.inj hs
  have hget : s.ctl.mgr.gazelleInstanceGetByPid (s.ctl.connPid conn) = some (i, inst) := by
    split at hfound
    · cases hfound
    · exact hfound
  obtain ⟨hinst, -⟩ := InstanceMgr.gazelleInstanceGetByPid_some hget
  have hslots := h.slots
  unfold TicksBelow at hbelow
  rw [hslots.cell i inst hinst] at hbelow ⊢
  -- a tick only grows, so what was off stays off
  have hon : s.ctl.mgr.OnKept
      { s.ctl.mgr with
        instanceCurTick :=
          Function.update s.ctl.mgr.instanceCurTick i (s.ctl.mgr.instanceCurTick i + 1) } :=
    onKept_tick (hslots.few i) rfl rfl
  -- whoever registered with the tick of before is behind it now
  have hgrown : ∀ x, s.ctl.mgr.instances i = some x →
      x.instanceRegTick.toNat < (s.ctl.mgr.instanceCurTick i + 1).toNat := by
    intro x hx
    rw [toNat_tick_add (hslots.few i)]
    exact Nat.lt_succ_of_le (hslots.below i x hx)
  refine h.ctlStep hleft rfl rfl rfl (h.ctl.setTicks _)
    ⟨hslots.cell, fun k x hx => ?_, hbelow, fun k x hx heq => ?_, hslots.number,
      hslots.unique, fun k x hx hk => ?_, fun conn' k x heq hx => ?_, fun no hmem => ?_,
      hslots.owner⟩
    (fun stack hmem => (h.stack stack hmem).mono hon) hon
    (fun _ x hx => ⟨rfl, x, hx, fun _ _ hplace => hplace⟩) ⟨inst, hget⟩ rfl
  · dsimp only at hx ⊢
    -- the tick of this slot has grown, the others are as before
    by_cases hki : k = i
    · subst hki
      rw [Function.update_self]
      exact (hgrown x hx).le
    · rw [Function.update_of_ne hki]
      exact hslots.below k x hx
  · dsimp only at hx heq
    by_cases hki : k = i
    · subst hki
      rw [Function.update_self] at heq
      -- no registration has the tick of a slot that has just grown
      have hlt := hgrown x hx
      rw [heq] at hlt
      exact absurd hlt (lt_irrefl _)
    · rw [Function.update_of_ne hki] at heq
      exact hslots.attached k x hx heq
  · -- the other instances are alive as before
    have hki : k ≠ i := by
      rintro rfl
      exact hk conn rfl
    intro hmem
    rcases List.mem_cons.1 hmem with heq | hmem
    · exact hki (hslots.unique k i x inst hx hinst heq)
    · exact hslots.alive k x hx (fun conn' => hnull conn' k) hmem
  · -- the instance that is logged out is off until its pointer is cleared
    obtain ⟨-, rfl⟩ := ControlPc.setNull.inj heq
    dsimp only at hx ⊢
    rw [Function.update_self]
    intro hreg
    have hlt := hgrown x hx
    rw [hreg] at hlt
    exact lt_irrefl _ hlt
  · -- its number is never given again
    rcases List.mem_cons.1 hmem with rfl | hmem
    · exact hslots.number i inst hinst
    · exact hslots.old no hmem

/-- `handle_instance_logout` clears the slot. -/
theorem TickInv.setNull (h : s.TickInv tidHashFn) {conn : ℕ} {i : Fin gazelleMaxInstanceNum}
    (hpc : s.pc = .setNull conn i) (hs : s.control tidHashFn = some s') : s'.TickInv tidHashFn := by
  simp only [TickSys.control, hpc, Option.map_eq_some_iff] at hs
  obtain ⟨inst, hinst, rfl⟩ := hs
  have hinv := h.pc
  simp only [PcInv, hpc] at hinv
  obtain ⟨inst', hget⟩ := hinv
  obtain ⟨hinst', -⟩ := InstanceMgr.gazelleInstanceGetByPid_some hget
  rw [hinst] at hinst'
  obtain rfl := Option.some.inj hinst'
  have hslots := h.slots
  have hmgrSlots := h.ctl.slots.gazelleSetInstanceNullByPid (s.ctl.connPid conn)
  have hmgr : s.ctl.mgr.gazelleSetInstanceNullByPid (s.ctl.connPid conn) =
      { s.ctl.mgr with
        curInstanceNum := s.ctl.mgr.curInstanceNum - 1
        instances := Function.update s.ctl.mgr.instances i none } := by
    rw [InstanceMgr.gazelleSetInstanceNullByPid, hget]
  rw [hmgr] at hmgrSlots ⊢
  have hother : ∀ k x, Function.update s.ctl.mgr.instances i none k = some x →
      k ≠ i ∧ s.ctl.mgr.instances k = some x := by
    intro k x hx
    by_cases hk : k = i
    · subst hk
      rw [Function.update_self] at hx
      cases hx
    · rw [Function.update_of_ne hk] at hx
      exact ⟨hk, hx⟩
  -- the instance is off
  have hon : s.ctl.mgr.OnKept
      { s.ctl.mgr with
        curInstanceNum := s.ctl.mgr.curInstanceNum - 1
        instances := Function.update s.ctl.mgr.instances i none } := by
    refine fun k => .inr ⟨rfl, fun x hx htick => ?_⟩
    have hk : k ≠ i := by
      rintro rfl
      exact hslots.off conn k x hpc hx htick
    exact ⟨x, (Function.update_of_ne hk ..).trans hx, rfl, fun _ _ hplace => hplace⟩
  have hctl : StackCtl.StackInv tidHashFn
      { s.ctl with
        mgr := { s.ctl.mgr with
          curInstanceNum := s.ctl.mgr.curInstanceNum - 1
          instances := Function.update s.ctl.mgr.instances i none } } :=
    h.ctl.of_mgr (h.ctl.toTableInv.congr rfl rfl rfl rfl)
      (fun _ _ _ _ _ _ stack hmem haddr hindex => ⟨stack, hmem, haddr, hindex⟩)
      (fun k x hx => .inl ⟨x, (hother k x hx).2, rfl⟩) hmgrSlots
  refine ⟨hctl, ⟨fun k x hx => ?_, fun k x hx => ?_, hslots.few, fun k x hx heq => ?_,
    fun k x hx => ?_, fun k l x y hx hy heq => ?_, fun k x hx _ => ?_,
    fun _ _ _ heq => absurd heq ControlPc.noConfusion, hslots.old, fun k x j addr hx hplace => ?_⟩,
    fun stack hmem => (h.stack stack hmem).mono hon,
    ⟨fun sock hmem => (h.entries.sock sock hmem).mono hon,
      fun conn hmem => (h.entries.conn conn hmem).mono hon⟩, fun t p hp => ?_, ?_,
    fun t _ _ hn => ?_⟩
  · exact hslots.cell k x (hother k x hx).2
  · exact hslots.below k x (hother k x hx).2
  · exact hslots.attached k x (hother k x hx).2 heq
  · exact hslots.number k x (hother k x hx).2
  · exact hslots.unique k l x y (hother k x hx).2 (hother l y hy).2 heq
  · obtain ⟨hk, hx⟩ := hother k x hx
    refine hslots.alive k x hx fun conn' heq => hk ?_
    rw [hpc] at heq
    exact (ControlPc.setNull.inj heq).2.symm
  · exact hslots.owner k x j addr (hother k x hx).2 hplace
  · rcases h.held t p hp with ⟨k, x, hx, hof⟩ | ⟨left, heq, -⟩
    · by_cases hk : k = i
      · subst hk
        rw [hinst] at hx
        obtain rfl := Option.some.inj hx
        exact .inr ⟨_, rfl, hof⟩
      · exact .inl ⟨k, x, (Function.update_of_ne hk ..).trans hx, hof⟩
    · rw [hpc] at heq
      cases heq
  · refine ⟨s.ctl, i, h.ctl, hinst, rfl, rfl, fun k x hx heq => ?_⟩
    obtain ⟨hk, hx⟩ := hother k x hx
    exact hk (hslots.unique k i x inst hx hinst heq)
  · cases t <;> cases hn

/-- `wait_forward_done` goes on: the instance is the same. -/
theorem TickInv.wait (h : s.TickInv tidHashFn) {left : LeftInstance} {pc : ControlPc}
    (hleft : s.pc.left = some left) (hleft' : pc.left = some left)
    (hwaits : ∀ t n, pc.waits t = some (left, n) →
      (s.reader t).ClearSince n (ForwardPtr.Of left.no left.inst)) :
    TickInv tidHashFn { s with pc } := by
  have hnull : ∀ {pc : ControlPc}, pc.left = some left → ∀ conn i, pc ≠ .setNull conn i := by
    rintro pc hpc conn i rfl
    cases hpc
  obtain ⟨before, i, hbefore⟩ := h.exists_left hleft
  refine h.setPc (hleft'.trans hleft.symm) (hnull hleft) (hnull hleft') ?_ fun t other n hn => ?_
  · have hbefore' : Left tidHashFn { s with pc } left before i := hbefore.congr rfl rfl
    unfold PcInv
    cases pc <;> cases hleft' <;> exact ⟨before, i, hbefore'⟩
  · have hother : some other = some left :=
      (left_of_waits (s := { s with pc }) hn).symm.trans hleft'
    obtain rfl := Option.some.inj hother
    exact hwaits t n hn

/-- `wait_forward_done` reads `rx_loop_count`. -/
theorem TickInv.readRx (h : s.TickInv tidHashFn) {left : LeftInstance} (hpc : s.pc = .readRx left)
    (hs : s.control tidHashFn = some s') : s'.TickInv tidHashFn := by
  simp only [TickSys.control, hpc, Option.some.injEq] at hs
  subst hs
  refine h.wait (by rw [hpc]; rfl) rfl fun t n hn => ?_
  cases t <;> cases hn
  exact LoopReader.clearSince_count

/-- It reads `tx_loop_count`. -/
theorem TickInv.readTx (h : s.TickInv tidHashFn) {left : LeftInstance} {rx : BitVec 64}
    (hpc : s.pc = .readTx left rx) (hs : s.control tidHashFn = some s') :
    s'.TickInv tidHashFn := by
  simp only [TickSys.control, hpc, Option.some.injEq] at hs
  subst hs
  refine h.wait (by rw [hpc]; rfl) rfl fun t n hn => ?_
  cases t <;> cases hn
  · exact h.waits .upstream left (some rx) (by rw [hpc]; rfl)
  · exact LoopReader.clearSince_count

/-- It compares `tx_loop_count`. -/
theorem TickInv.waitTx (h : s.TickInv tidHashFn) {left : LeftInstance} {rx tx : BitVec 64}
    (hpc : s.pc = .waitTx left rx tx) (hs : s.control tidHashFn = some s') :
    s'.TickInv tidHashFn := by
  simp only [TickSys.control, hpc, Option.some.injEq] at hs
  subst hs
  have hup := h.waits .upstream left (some rx) (by rw [hpc]; rfl)
  have hdown := h.waits .downstream left (some tx) (by rw [hpc]; rfl)
  by_cases htx : tx = s.down.count
  · rw [if_pos htx]
    refine h.wait (by rw [hpc]; rfl) rfl fun t n hn => ?_
    cases t <;> cases hn
    · exact hup
    · exact hdown
  · rw [if_neg htx]
    refine h.wait (by rw [hpc]; rfl) rfl fun t n hn => ?_
    cases t <;> cases hn
    · exact hup
    · exact .inr (hdown.clear fun heq => htx (Option.some.inj heq))

/-- It compares `rx_loop_count`; when that has changed, it compares neither again. -/
theorem TickInv.waitRx (h : s.TickInv tidHashFn) {left : LeftInstance} {rx tx : BitVec 64}
    (hpc : s.pc = .waitRx left rx tx) (hs : s.control tidHashFn = some s') :
    s'.TickInv tidHashFn := by
  simp only [TickSys.control, hpc, Option.some.injEq] at hs
  subst hs
  have hup := h.waits .upstream left (some rx) (by rw [hpc]; rfl)
  have hdown := h.waits .downstream left none (by rw [hpc]; rfl)
  by_cases hrx : rx = s.up.count
  · rw [if_pos hrx]
    refine h.wait (by rw [hpc]; rfl) rfl fun t n hn => ?_
    cases t <;> cases hn
    · exact hup
    · exact .inr (hdown.clear (Option.some_ne_none _).symm)
  · rw [if_neg hrx]
    refine h.wait (by rw [hpc]; rfl) rfl fun t n hn => ?_
    cases t <;> cases hn
    · exact .inr (hup.clear fun heq => hrx (Option.some.inj heq))
    · exact hdown

/-- `handle_inst_logout_for_reg_thrd_ring` links no stack and keeps those of the instances in the
slots. -/
theorem Left.logout {left : LeftInstance} {before : StackCtl} {i : Fin gazelleMaxInstanceNum}
    (hbefore : Left tidHashFn s left before i) (h : s.ctl.StackInv tidHashFn) {ctl : StackCtl}
    (hctl : s.ctl.handleInstLogoutForRegThrdRing tidHashFn left.inst = ctl) :
    ctl.StackInv tidHashFn ∧ ctl.mgr = s.ctl.mgr ∧
      ∀ stack ∈ ctl.stackHtable.toList, stack ∈ s.ctl.stackHtable.toList := by
  have hother : ∀ k x, s.ctl.mgr.instances k = some x →
      k ≠ i ∧ before.mgr.instances k = some x := by
    intro k x hx
    rw [hbefore.cleared] at hx
    by_cases hk : k = i
    · subst hk
      rw [Function.update_self] at hx
      cases hx
    · rw [Function.update_of_ne hk] at hx
      exact ⟨hk, hx⟩
  obtain ⟨hinv, hmgr, -, -, hothers⟩ := hbefore.inv.handleInstLogoutForRegThrdRing hbefore.slot
    h.toTableInv hbefore.table hctl
  obtain ⟨-, -, _, -, -, -, hmem⟩ := h.toTableInv.foldl_logoutPlace (List.nodup_finRange _)
    (StackCtl.countP_stackArray (hbefore.inv.slots.stackArray i left.inst hbefore.slot))
    (fun j _ addr => by rw [hbefore.table]; exact hbefore.inv.array i left.inst j addr hbefore.slot)
    hctl
  refine ⟨h.of_mgr hinv (fun k x j addr hx hplace _ _ _ _ => ?_)
    (fun k x hx => .inl ⟨x, hmgr ▸ hx, rfl⟩) (hmgr.symm ▸ h.slots), hmgr,
    fun stack hstack => ((hmem stack).1 hstack).1⟩
  rw [hmgr] at hx
  exact hothers k x j addr (hother k x hx).1 (hother k x hx).2 hplace

/-- `handle_instance_logout` frees the stacks and the instance. -/
theorem TickInv.free (h : s.TickInv tidHashFn) {left : LeftInstance} (hpc : s.pc = .free left)
    (hs : s.control tidHashFn = some s') : s'.TickInv tidHashFn := by
  simp only [TickSys.control, hpc, Option.some.injEq] at hs
  subst hs
  have hleft : s.pc.left = some left := by rw [hpc]; rfl
  obtain ⟨before, i, hbefore⟩ := h.exists_left hleft
  have hlogout : ∀ ctl, (if left.inst.regState = .regThrdRing then
      s.ctl.handleInstLogoutForRegThrdRing tidHashFn left.inst else s.ctl) = ctl →
      ctl.StackInv tidHashFn ∧ ctl.mgr = s.ctl.mgr ∧
        ∀ stack ∈ ctl.stackHtable.toList, stack ∈ s.ctl.stackHtable.toList := by
    intro ctl hctl
    split at hctl
    · exact hbefore.logout h.ctl hctl
    · subst hctl
      exact ⟨h.ctl, rfl, fun _ hstack => hstack⟩
  generalize (if left.inst.regState = .regThrdRing then
    s.ctl.handleInstLogoutForRegThrdRing tidHashFn left.inst else s.ctl) = ctl at hlogout
  obtain ⟨hctl, hmgr, hmem⟩ := hlogout ctl rfl
  have hslots := h.slots
  obtain ⟨mgr, stackHtable, nextAddr, connPid, freed, staleReads⟩ := ctl
  dsimp only at hmgr hmem
  subst hmgr
  refine ⟨⟨hctl.toTableInv.congr rfl rfl rfl rfl, hctl.slots, hctl.array, hctl.own⟩,
    ⟨hslots.cell, hslots.below, hslots.few, hslots.attached, hslots.number, hslots.unique,
      fun k x hx _ => hslots.alive k x hx fun conn heq => ?_,
      fun _ _ _ heq => absurd heq ControlPc.noConfusion, hslots.old, hslots.owner⟩,
    fun stack hstack => h.stack stack (hmem stack hstack), ⟨h.entries.sock, h.entries.conn⟩,
    fun t p hp => ?_, trivial, fun t _ _ hn => ?_⟩
  · rw [hpc] at heq
    cases heq
  · rcases h.held t p hp with hslot | ⟨other, hother, hof⟩
    · exact .inl hslot
    · -- both threads have ended an iteration since the slot was cleared
      rw [hleft] at hother
      obtain rfl := Option.some.inj hother
      exact absurd hof (h.clear_of_free hpc t p hp)
  · cases t <;> cases hn

/-- The control thread goes on. -/
theorem TickInv.control (h : s.TickInv tidHashFn) (hs : s.control tidHashFn = some s')
    (hbelow : s'.TicksBelow) : s'.TickInv tidHashFn := by
  cases hpc : s.pc with
  | idle =>
    rw [TickSys.control, hpc] at hs
    cases hs
  | procMem conn next ok => exact h.procMemDone hpc hs
  | regTick i addr => exact h.regTick hpc hs
  | curTick i addr => exact h.curTick hpc hs
  | endConn conn => exact h.endConn hpc hs hbelow
  | setNull conn i => exact h.setNull hpc hs
  | readRx left => exact h.readRx hpc hs
  | readTx left rx => exact h.readTx hpc hs
  | waitTx left rx tx => exact h.waitTx hpc hs
  | waitRx left rx tx => exact h.waitRx hpc hs
  | free left => exact h.free hpc hs

/-- Every step that meets the condition and leaves the ticks below their bound keeps the
invariant. -/
theorem TickInv.step (h : s.TickInv tidHashFn) {a : TickAct} (hfresh : s.FreshTid tidHashFn a)
    (hs : s.step hash tidHashFn config a = some s') (hbelow : s'.TicksBelow) :
    s'.TickInv tidHashFn := by
  cases a with
  | request conn msg env =>
    -- requests are handled one at a time, by the thread that reads the socket
    unfold TickSys.step at hs
    dsimp only at hs
    split at hs
    case h_2 => cases hs
    next hidle =>
    obtain rfl := Option.some.inj hs
    cases msg with
    | procMem conf => exact h.procMem hidle hbelow
    | procAtt conf => exact h.procAtt hidle conn conf env
    | thrdRing conf => exact h.thrdRing hidle hfresh
    | other => exact h
  | fail conn =>
    -- a connection ends the way it is answered, with nothing written yet
    unfold TickSys.step at hs
    dsimp only at hs
    split at hs
    case h_2 => cases hs
    next hidle =>
    obtain rfl := Option.some.inj hs
    refine h.setPc (by rw [hidle]; rfl) (fun conn' i heq => ?_) (fun _ _ => ControlPc.noConfusion)
      trivial fun t _ _ hn => ?_
    · rw [hidle] at heq
      cases heq
    · cases t <;> cases hn
  | control => exact h.control hs hbelow
  | fetchInst t i =>
    -- the instance in the slot may be off already
    obtain ⟨inst, hinst, rfl⟩ := Option.map_eq_some_iff.1 hs
    exact h.holdSlot ⟨i, inst, hinst, rfl⟩
  | fetchStack t no j =>
    -- the stack is fetched through the instance that was fetched before
    unfold TickSys.step at hs
    dsimp only at hs
    split at hs
    case isFalse => cases hs
    next hno =>
    obtain ⟨addr, haddr, rfl⟩ := Option.map_eq_some_iff.1 hs
    obtain ⟨inst, hinst, hplace⟩ := Option.bind_eq_some_iff.1 haddr
    exact h.fetchStack hno hinst hplace
  | check t addr =>
    -- a pointer that passes the check is one that is on at this point
    unfold TickSys.step at hs
    dsimp only at hs
    split at hs
    case isFalse => cases hs
    next hcheck =>
    obtain rfl := Option.some.inj hs
    exact h.check hcheck.1
  | message addr msg alloc =>
    -- the message comes from a stack that is read under the check
    unfold TickSys.step at hs
    dsimp only at hs
    split at hs
    case isFalse => cases hs
    obtain ⟨stack, hread, rfl⟩ := Option.map_eq_some_iff.1 hs
    exact h.message hread msg alloc
  | packet q malloc =>
    obtain rfl := Option.some.inj hs
    exact h.packet q malloc
  | deleteAgingConn locked =>
    -- with the lock held the tables are swept, else this round is skipped
    obtain rfl := Option.some.inj hs
    split
    · exact h.setTables h.entries.gazelleDeleteAgingConn
    · exact h
  | detectConnLogout locked =>
    obtain rfl := Option.some.inj hs
    split
    · exact h.setTables h.entries.gazelleDetectConnLogout
    · exact h
  | detectSockLogout locked =>
    obtain rfl := Option.some.inj hs
    split
    · exact h.setTables h.entries.gazelleDetectSockLogout
    · exact h
  | finish t =>
    obtain rfl := Option.some.inj hs
    exact h.finish t

/-! ## The ticks along a run -/

/-- Each tick is the same in `s'`, or was incremented once. -/
def TicksStep (s s' : TickSys) : Prop :=
  ∀ i, s'.ctl.mgr.instanceCurTick i = s.ctl.mgr.instanceCurTick i ∨
    s'.ctl.mgr.instanceCurTick i = s.ctl.mgr.instanceCurTick i + 1

theorem TicksStep.of_eq (heq : s'.ctl.mgr.instanceCurTick = s.ctl.mgr.instanceCurTick) :
    TicksStep s s' := fun i => .inl (congrFun heq i)

theorem TicksStep.of_update {i : Fin gazelleMaxInstanceNum}
    (heq : s'.ctl.mgr.instanceCurTick =
      Function.update s.ctl.mgr.instanceCurTick i (s.ctl.mgr.instanceCurTick i + 1)) :
    TicksStep s s' := by
  intro k
  rw [heq]
  by_cases hk : k = i
  · subst hk
    exact .inr (Function.update_self ..)
  · exact .inl (Function.update_of_ne hk ..)

/-- A request increments the tick of the slot it fills, if it fills one. -/
theorem TickInv.ticksStep_request (h : s.TickInv tidHashFn) {conn : ℕ} {msg : RegRequestMsg}
    {env : RegEnv} (hfresh : s.FreshTid tidHashFn (.request conn msg env)) :
    TicksStep s (s.request tidHashFn config conn msg env) := by
  cases msg with
  | procMem conf =>
    have hreg : s.ctl.registry.handleRegMsgProcMem config conn conn conf env = (_, _) := rfl
    rcases LtranRegistry.handleRegMsgProcMem_cases hreg with ⟨htick, -⟩ | ⟨k, -, -, htick, -⟩
    · exact .of_eq htick
    · exact .of_update htick
  | procAtt conf =>
    have hreg : s.ctl.registry.handleRegMsgProcAtt conf env = (_, _) := rfl
    rcases LtranRegistry.handleRegMsgProcAtt_cases hreg with
      ⟨heq, -⟩ | ⟨_, _, _, -, hmgr, -⟩
    · exact .of_eq (congrArg (fun reg => reg.mgr.instanceCurTick) heq)
    · exact .of_eq ((congrArg InstanceMgr.instanceCurTick hmgr).trans rfl)
  | thrdRing conf =>
    have hcases := StackCtl.handleRegMsgThrdRing_cases h.ctl.toTableInv hfresh rfl
    rcases hcases with ⟨hmgr, -⟩ | ⟨_, _, _, -, -, hmgr, -⟩
    · exact .of_eq (congrArg InstanceMgr.instanceCurTick hmgr)
    · exact .of_eq ((congrArg InstanceMgr.instanceCurTick hmgr).trans rfl)
  | other => exact .of_eq rfl

/-- Of the steps of a logout the first one increments the tick of the instance. -/
theorem TickInv.ticksStep_control (h : s.TickInv tidHashFn)
    (hs : s.control tidHashFn = some s') : TicksStep s s' := by
  have hinv := h.pc
  unfold PcInv at hinv
  unfold TickSys.control at hs
  cases hpc : s.pc <;> simp only [hpc] at hs hinv
  case idle => cases hs
  case procMem =>
    -- the tick of the slot was incremented with the request
    obtain rfl := Option.some.inj hs
    exact .of_eq hinv.2.2.1
  case regTick | curTick =>
    obtain ⟨_, -, rfl⟩ := Option.map_eq_some_iff.1 hs
    exact .of_eq rfl
  case endConn conn =>
    split at hs
    · obtain rfl := Option.some.inj hs
      exact .of_eq rfl
    · obtain rfl := Option.some.inj hs
      exact .of_update rfl
  case setNull conn i =>
    obtain ⟨_, -, rfl⟩ := Option.map_eq_some_iff.1 hs
    refine .of_eq ?_
    dsimp only [InstanceMgr.gazelleSetInstanceNullByPid]
    split <;> rfl
  case readRx | readTx | waitTx | waitRx =>
    obtain rfl := Option.some.inj hs
    exact .of_eq rfl
  case free left =>
    -- the stacks are deleted, which leaves the slots alone
    obtain ⟨before, i, hbefore⟩ := hinv
    obtain rfl := Option.some.inj hs
    refine .of_eq (congrArg InstanceMgr.instanceCurTick ?_)
    dsimp only
    split
    · exact (hbefore.logout h.ctl rfl).2.1
    · rfl

theorem ctl_setReader {t : ForwardThread} {r : LoopReader ForwardPtr} :
    (s.setReader r t).ctl = s.ctl := by
  cases t <;> rfl

theorem ctl_packet {q : GazelleQuintuple} {malloc : Option ℕ} :
    (s.packet hash q malloc).ctl = s.ctl := by
  unfold TickSys.packet
  split <;> rfl

theorem ctl_scan (locked : Bool) (t : LtranTables) :
    (if locked then s.setTables t else s).ctl = s.ctl := by
  split <;> rfl

/-- What a step does to the ticks: those of the forwarding threads do not write them. -/
theorem TickInv.ticksStep (h : s.TickInv tidHashFn) {a : TickAct}
    (hfresh : s.FreshTid tidHashFn a) (hs : s.step hash tidHashFn config a = some s') :
    TicksStep s s' := by
  -- the forwarding threads write to their tables only
  have hctl : s'.ctl = s.ctl → TicksStep s s' := fun heq =>
    .of_eq (congrArg (fun ctl => ctl.mgr.instanceCurTick) heq)
  cases a with
  | request conn msg env =>
    unfold TickSys.step at hs
    dsimp only at hs
    split at hs
    · obtain rfl := Option.some.inj hs
      exact h.ticksStep_request hfresh
    · cases hs
  | fail conn =>
    unfold TickSys.step at hs
    dsimp only at hs
    split at hs
    · obtain rfl := Option.some.inj hs
      exact hctl rfl
    · cases hs
  | control => exact h.ticksStep_control hs
  | fetchInst t i =>
    obtain ⟨_, -, rfl⟩ := Option.map_eq_some_iff.1 hs
    exact hctl ctl_setReader
  | fetchStack t no j =>
    obtain ⟨-, hs⟩ := Option.ite_none_right_eq_some.1 hs
    obtain ⟨_, -, rfl⟩ := Option.map_eq_some_iff.1 hs
    exact hctl ctl_setReader
  | check t addr =>
    obtain ⟨-, hs⟩ := Option.ite_none_right_eq_some.1 hs
    obtain rfl := Option.some.inj hs
    exact hctl ctl_setReader
  | message addr msg alloc =>
    obtain ⟨-, hs⟩ := Option.ite_none_right_eq_some.1 hs
    obtain ⟨_, -, rfl⟩ := Option.map_eq_some_iff.1 hs
    exact hctl rfl
  | packet q malloc =>
    obtain rfl := Option.some.inj hs
    exact hctl ctl_packet
  | deleteAgingConn locked | detectConnLogout locked | detectSockLogout locked =>
    obtain rfl := Option.some.inj hs
    exact hctl (ctl_scan locked _)
  | finish t =>
    obtain rfl := Option.some.inj hs
    exact hctl ctl_setReader

/-- No tick gets smaller. -/
theorem TicksStep.le (hstep : TicksStep s s') (hbelow : s.TicksBelow)
    (i : Fin gazelleMaxInstanceNum) :
    (s.ctl.mgr.instanceCurTick i).toNat ≤ (s'.ctl.mgr.instanceCurTick i).toNat := by
  rcases hstep i with heq | heq
  · rw [heq]
  · rw [heq, toNat_tick_add (hbelow i)]
    exact Nat.le_succ _

/-- After few increments there is room for another one. -/
theorem TicksStep.below (hstep : TicksStep s s') (hfew : s.FewTicks) : s'.TicksBelow := by
  intro i
  have hi := hfew i
  rcases hstep i with heq | heq
  · rw [heq]
    exact Nat.lt_of_succ_lt hi
  · rw [heq, toNat_tick_add (Nat.lt_of_succ_lt hi)]
    exact hi

/-- Along a run that leaves the ticks below their bound the invariant is kept, and no tick gets
smaller. -/
theorem TickInv.run {acts : List TickAct} (h : s.TicksBelow → s.TickInv tidHashFn)
    (hrun : (system hash tidHashFn config).run s acts = some s')
    (hmeet : (system hash tidHashFn config).stepsMeet
      (fun s a => s.TicksBelow ∧ s.FreshTid tidHashFn a) s acts)
    (hbelow : s'.TicksBelow) : s'.TickInv tidHashFn ∧
      ∀ i, (s.ctl.mgr.instanceCurTick i).toNat ≤ (s'.ctl.mgr.instanceCurTick i).toNat := by
  induction acts generalizing s with
  | nil =>
    obtain rfl := Option.some.inj hrun
    exact ⟨h hbelow, fun _ => le_rfl⟩
  | cons a acts ih =>
    rw [Transition.System.run_cons, Option.bind_eq_some_iff] at hrun
    obtain ⟨t, hstep, hrest⟩ := hrun
    -- the condition on the step bounds the ticks before it, the rest of the run those after it
    obtain ⟨⟨hs, hfresh⟩, hmeet⟩ := hmeet t hstep
    have hinv := h hs
    obtain ⟨hinv', hle⟩ := ih (hinv.step hfresh hstep) hrest hmeet
    exact ⟨hinv', fun i => ((hinv.ticksStep hfresh hstep).le hs i).trans (hle i)⟩

/-- The invariant holds when ltran starts. -/
theorem TickInv.create {maxInstanceNum maxStackNum maxSockNum maxConnNum : BitVec 32}
    (hlimit : 1 ≤ maxInstanceNum.toNat ∧ maxInstanceNum.toNat ≤ gazelleMaxInstanceNum) :
    (create maxInstanceNum maxStackNum maxSockNum maxConnNum).TickInv tidHashFn where
  ctl := .create hlimit
  slots := by
    have hnone : ∀ {i : Fin gazelleMaxInstanceNum} {inst : GazelleInstance} {p : Prop},
        (none : Option GazelleInstance) = some inst → p := fun heq =>
      absurd heq (Option.some_ne_none _).symm
    exact ⟨fun i _ h => hnone (i := i) h, fun i _ h => hnone (i := i) h,
      fun _ => Nat.two_pow_pos 31, fun i _ h _ => hnone (i := i) h, fun i _ h => hnone (i := i) h,
      fun i _ _ _ h _ _ => hnone (i := i) h, fun i _ h _ => hnone (i := i) h,
      fun _ i _ _ h => hnone (i := i) h, fun _ hmem => absurd hmem List.not_mem_nil,
      fun i _ _ _ h _ => hnone (i := i) h⟩
  stack _ hmem := by simp [TickSys.create, StackCtl.create] at hmem
  entries := ⟨fun _ hmem => by simp [TickSys.tables, TickSys.create] at hmem,
    fun _ hmem => by simp [TickSys.tables, TickSys.create] at hmem⟩
  held t p hp := by cases t <;> exact absurd hp List.not_mem_nil
  pc := trivial
  waits t _ _ hn := by cases t <;> cases hn

/-! ## The theorem -/

/-- While the ticks are small and no request links a second stack of a tid: what is on belongs to an
instance that has attached and not logged out, and the forwarding threads have no pointer to what
was freed, in any order of the steps. -/
theorem ticks_protect
    (hs : (system hash tidHashFn config).ReachableUnder
      (fun s a => s.FewTicks ∧ s.FreshTid tidHashFn a) s) : s.Protected := by
  have hinv : s.TickInv tidHashFn := Transition.System.invariant_under
    (I := fun s => s.TickInv tidHashFn) (fun s hinit => ?_)
    (fun _ _ _ h hc hstep => h.step hc.2 hstep ((h.ticksStep hc.2 hstep).below hc.1)) hs
  · exact hinv.protected
  obtain ⟨maxInstanceNum, maxStackNum, maxSockNum, maxConnNum, hone, hle, rfl⟩ := hinit
  exact .create ⟨hone, hle⟩

/-- All keys in one chain. -/
private def oneChain : LtranJhash := ⟨fun _ _ => 0, fun _ _ _ _ => 0⟩

/-- A process registers and attaches. -/
private def attach (conn : ℕ) (pid : Pid) : List TickAct :=
  [.request conn (.procMem (StackCtl.procConf pid)) (StackCtl.regEnv true), .control,
    .request conn (.procAtt (StackCtl.procConf pid)) (StackCtl.regEnv true)]

/-- The upstream thread finds the first stack of an instance on and adds its listener. -/
private def listen (i : Fin gazelleMaxInstanceNum) (no addr : ℕ) : List TickAct :=
  [.fetchInst .upstream i, .fetchStack .upstream no ⟨0, gazelleMaxInstanceNum_pos⟩,
    .check .upstream addr,
    .message addr (LtranTables.listenMsg ⟨0x0a01a8c0, 80, 7⟩) (some 100)]

/-- A connection ends, with the ends of the iterations that are waited for. -/
private def logout (conn : ℕ) : List TickAct :=
  [.fail conn, .control, .control, .control, .control, .finish .upstream, .finish .downstream,
    .control, .control, .control]

/-- Of two processes the one without a listener is logged out. -/
theorem ticks_protect_two_processes :
    ∃ s, (system oneChain (fun _ => 0) StackCtl.onePort).ReachableUnder
        (fun s a => s.FewTicks ∧ s.FreshTid (fun _ => 0) a) s ∧
      s.ctl.freed = [⟨0, []⟩] ∧ s.sockHtable.toList.any s.tables.sockIsOn = true ∧
      s.Protected := by
  let acts : List TickAct := attach 1 7 ++ attach 2 8 ++
    [.request 3 (.thrdRing ⟨70, 7⟩) (StackCtl.regEnv true), .control, .control,
      .request 4 (.thrdRing ⟨80, 8⟩) (StackCtl.regEnv true), .control, .control] ++
    listen 1 1 1 ++ logout 1
  have hinit : (system oneChain (fun _ => 0) StackCtl.onePort).Init (create 2 32 4096 1024) :=
    ⟨2, 32, 4096, 1024, by decide, by decide, rfl⟩
  have hmeet : (system oneChain (fun _ => 0) StackCtl.onePort).stepsMeet
      (fun s a => s.FewTicks ∧ s.FreshTid (fun _ => 0) a) (create 2 32 4096 1024) acts := by
    decide +kernel
  have hrun : ((system oneChain (fun _ => 0) StackCtl.onePort).run (create 2 32 4096 1024)
      acts).any (fun s => decide (s.ctl.freed = [⟨0, []⟩] ∧
        s.sockHtable.toList.any s.tables.sockIsOn = true)) = true := by
    decide +kernel
  obtain ⟨s, hs, hfreed⟩ := (Option.any_eq_true _ _).1 hrun
  have hreach := Transition.System.reachableUnder_of_run (.init hinit) hs hmeet
  obtain ⟨hfreed, hon⟩ := of_decide_eq_true hfreed
  exact ⟨s, hreach, hfreed, hon, ticks_protect hreach⟩

/-- While each tick is incremented less than `2 ^ 31` times and no request links a second stack of a
tid, the ticks guard what a logout frees, in any order of the steps; and whatever is done after an
instance has logged out, no entry of it becomes on again. -/
theorem generation_ticks {acts : List TickAct}
    (hs : (system hash tidHashFn config).ReachableUnder
      (fun s a => s.TicksBelow ∧ s.FreshTid tidHashFn a) s)
    (hrun : (system hash tidHashFn config).run s acts = some s')
    (hmeet : (system hash tidHashFn config).stepsMeet
      (fun s a => s.TicksBelow ∧ s.FreshTid tidHashFn a) s acts)
    (hbelow : s'.TicksBelow) : s.Guarded s' := by
  -- the invariant holds in `s` as soon as its own ticks are below the bound
  have hinv : s.TicksBelow → s.TickInv tidHashFn := Transition.System.invariant_under
    (I := fun s => s.TicksBelow → s.TickInv tidHashFn) (fun s hinit _ => ?_)
    (fun _ _ _ h hc hstep => (h hc.1).step hc.2 hstep) hs
  · obtain ⟨hinv', hle⟩ := TickInv.run hinv hrun hmeet hbelow
    -- which they are, for none is greater than at the end of the run
    have h := hinv fun i => (hle i).trans_lt (hbelow i)
    exact ⟨hinv'.protected, fun cur reg addr no hentry howner hout =>
      (h.ticked hentry).off_mono (h.off_of_loggedOut hentry howner hout) hle,
      fun left hpc => hinv'.clear_of_free hpc⟩
  obtain ⟨maxInstanceNum, maxStackNum, maxSockNum, maxConnNum, hone, hle, rfl⟩ := hinit
  exact .create ⟨hone, hle⟩

/-- The first of two processes is logged out while the upstream thread has its stack, and a third
process takes its slot and gets a stack that is on. The listener of the first one, which is in the
table still, is off. -/
theorem generation_ticks_slot_reused :
    ∃ s acts s', (system oneChain (fun _ => 0) StackCtl.onePort).run s acts = some s' ∧
      (∃ sock ∈ s.sockHtable.toList, sock ∈ s'.sockHtable.toList ∧ sock.stack = some 0 ∧
        sock.instanceCurTick = some ⟨0, gazelleMaxInstanceNum_pos⟩) ∧
      s.owner 0 = some 0 ∧ 0 ∈ s.loggedOut ∧
      (∃ stack ∈ s'.ctl.stackHtable.toList, s'.ctl.mgr.stackIsOn stack.toGazelleStack = true ∧
        stack.addr = 2 ∧ stack.instanceCurTick = some ⟨0, gazelleMaxInstanceNum_pos⟩) ∧
      s.Guarded s' := by
  let before : List TickAct := attach 1 7 ++ attach 2 8 ++
    [.request 3 (.thrdRing ⟨70, 7⟩) (StackCtl.regEnv true), .control, .control,
      .request 4 (.thrdRing ⟨80, 8⟩) (StackCtl.regEnv true), .control, .control] ++
    listen 0 0 0 ++ logout 1
  let acts : List TickAct := attach 5 9 ++
    [.request 6 (.thrdRing ⟨90, 9⟩) (StackCtl.regEnv true), .control, .control]
  -- two processes, a listener of the first, and its logout
  have hinit : (system oneChain (fun _ => 0) StackCtl.onePort).Init (create 3 32 4096 1024) :=
    ⟨3, 32, 4096, 1024, by decide, by decide, rfl⟩
  have hmeet : (system oneChain (fun _ => 0) StackCtl.onePort).stepsMeet
      (fun s a => s.TicksBelow ∧ s.FreshTid (fun _ => 0) a) (create 3 32 4096 1024) before := by
    decide +kernel
  have hrun : ((system oneChain (fun _ => 0) StackCtl.onePort).run (create 3 32 4096 1024)
      before).any (fun s => decide (s.owner 0 = some 0 ∧ 0 ∈ s.loggedOut ∧
        (system oneChain (fun _ => 0) StackCtl.onePort).stepsMeet
          (fun s a => s.TicksBelow ∧ s.FreshTid (fun _ => 0) a) s acts) &&
        ((system oneChain (fun _ => 0) StackCtl.onePort).run s acts).any fun s' =>
          decide (s'.TicksBelow ∧
            (∃ sock ∈ s.sockHtable.toList, sock ∈ s'.sockHtable.toList ∧ sock.stack = some 0 ∧
              sock.instanceCurTick = some ⟨0, gazelleMaxInstanceNum_pos⟩) ∧
            ∃ stack ∈ s'.ctl.stackHtable.toList,
              s'.ctl.mgr.stackIsOn stack.toGazelleStack = true ∧ stack.addr = 2 ∧
                stack.instanceCurTick = some ⟨0, gazelleMaxInstanceNum_pos⟩)) = true := by
    decide +kernel
  obtain ⟨s, hs, hand⟩ := (Option.any_eq_true _ _).1 hrun
  obtain ⟨hleft, hrest⟩ := Bool.and_eq_true_iff.1 hand
  obtain ⟨s', hs', hstate⟩ := (Option.any_eq_true _ _).1 hrest
  obtain ⟨howner, hout, hmeet'⟩ := of_decide_eq_true hleft
  obtain ⟨hbelow, hsock, hstack⟩ := of_decide_eq_true hstate
  have hreach := Transition.System.reachableUnder_of_run (.init hinit) hs hmeet
  exact ⟨s, acts, s', hs', hsock, howner, hout, hstack,
    generation_ticks hreach hs' hmeet' hbelow⟩

/-- A thread of a first process registers and the response is not written; a thread of a second one
has the same tid. When the first process is logged out, the stack of the second one is freed, and
its listener stays on. -/
theorem ticks_free_other_instance :
    ¬ ∀ s, (system oneChain (fun _ => 0) StackCtl.onePort).ReachableUnder
      (fun s _ => s.TicksBelow) s → s.TicksBelow → s.Protected := by
  intro h
  have hinit : (system oneChain (fun _ => 0) StackCtl.onePort).Init (create 2 32 4096 1024) :=
    ⟨2, 32, 4096, 1024, by decide, by decide, rfl⟩
  let acts : List TickAct := attach 1 7 ++ attach 2 8 ++
    [.request 3 (.thrdRing ⟨70, 7⟩) (StackCtl.regEnv false), .control,
      .request 4 (.thrdRing ⟨70, 8⟩) (StackCtl.regEnv true), .control, .control] ++
    listen 1 1 1 ++ logout 1
  have hmeet : (system oneChain (fun _ => 0) StackCtl.onePort).stepsMeet
      (fun s _ => s.TicksBelow) (create 2 32 4096 1024) acts := by
    decide +kernel
  have hrun : ((system oneChain (fun _ => 0) StackCtl.onePort).run (create 2 32 4096 1024)
      acts).any (fun s => decide s.TicksBelow && s.sockHtable.toList.any fun sock =>
        s.tables.sockIsOn sock && sock.stack == some 1 && s.ctl.stackHtable.toList.all
          fun stack => stack.addr != 1) = true := by
    decide +kernel
  obtain ⟨s, hs, hstate⟩ := (Option.any_eq_true _ _).1 hrun
  obtain ⟨hbelow, hsock⟩ := Bool.and_eq_true_iff.1 hstate
  obtain ⟨sock, hmem, hand⟩ := List.any_eq_true.1 hsock
  obtain ⟨hand, hgone⟩ := Bool.and_eq_true_iff.1 hand
  obtain ⟨hon, hstack⟩ := Bool.and_eq_true_iff.1 hand
  have hreach := Transition.System.reachableUnder_of_run (.init hinit) hs hmeet
  obtain ⟨addr, haddr, ⟨stack, hin, heq⟩, -⟩ :=
    (h s hreach (of_decide_eq_true hbelow)).sockOn sock hmem hon
  rw [eq_of_beq hstack] at haddr
  have hne := List.all_eq_true.1 hgone stack hin
  rw [heq, ← Option.some.inj haddr] at hne
  exact absurd hne (by decide)

end TickSys

end Gazelle
