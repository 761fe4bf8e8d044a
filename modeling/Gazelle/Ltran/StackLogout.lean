import Gazelle.HashTable.LiveMap
import Gazelle.Ltran.InstanceSlots
import Gazelle.Ltran.Monitor
import Gazelle.Ltran.RxPipeline

/-!
# Freeing the stacks of an instance

The stack table of `ltran_stack.c` with its chains and its counters, and what a logout frees. A
thread registers on a connection of its own, so a registration whose response is not written leaves
its stack linked and off; the search for duplicates passes over it, while `gazelle_stack_del_by_tid`
takes the newest stack of a tid.

* `StackCtl.system`: all orders of requests, failures of connections and forwarded packets;
* `StackCtl.LogoutRight`: what a logout of any instance frees, and what it leaves;
* `StackCtl.FreshTid`: the condition on a registration that links a stack;
* `StackCtl.logout_frees_own_stacks`: under it every logout is right;
* `StackCtl.logout_skips_after_procAtt`: `handle_instance_logout` does not come to it when the
  registration of the process was repeated.
-/

namespace Gazelle

/-- `GAZELLE_MAX_STACK_HTABLE_SIZE`. -/
abbrev gazelleMaxStackHtableSize : ℕ := 32

/-- The packets that a `struct gazelle_stack` holds, as addresses of mbufs. -/
structure StackPkts where
  /-- `pkt_buf`. -/
  pktBuf : ℕ → Option ℕ
  /-- `pkt_cnt`. -/
  pktCnt : U32
  /-- `backup_pkt_buf`. -/
  backupPktBuf : ℕ → Option ℕ
  /-- `backup_pkt_cnt`. -/
  backupPktCnt : U32
  /-- `backup_start`. -/
  backupStart : U32

/-- `struct gazelle_stack` in a chain of the table. -/
structure LinkedStack extends GazelleStack, StackPkts

/-- A stack that was freed, with the mbufs that were freed with it. -/
structure StackFree where
  /-- The address of the stack. -/
  addr : ℕ
  /-- The mbufs, in the order of the calls of `rte_pktmbuf_free`. -/
  mbufs : List ℕ
  deriving DecidableEq

namespace StackPkts

variable (pkts : StackPkts)

/-- No packets, as after `calloc`. -/
def empty : StackPkts := ⟨fun _ => none, 0, fun _ => none, 0, 0⟩

/-- The mbufs that the two loops of `gazelle_stack_del_by_tid` free. -/
def freedMbufs : List ℕ :=
  (List.range pkts.pktCnt.toNat).filterMap pkts.pktBuf ++
    (List.range pkts.backupPktCnt.toNat).filterMap fun i =>
      pkts.backupPktBuf (RxStack.backupIndex pkts.backupStart i)

/-- The mbufs that a stack holds: those of the batch, and those of the segment of the backup buffer
from `backup_start` on. -/
def heldMbufs : List ℕ :=
  (List.range pkts.pktCnt.toNat).filterMap pkts.pktBuf ++
    (List.range' pkts.backupStart.toNat pkts.backupPktCnt.toNat).filterMap fun k =>
      pkts.backupPktBuf (k % 32768)

/-- The counters of the loop may wrap, the places do not. -/
theorem backupIndex_wraps (start : U32) (j : ℕ) :
    RxStack.backupIndex start j = (start.toNat + j) % 32768 := by
  have hsize : backupMbufSize.toNat = 32768 := rfl
  rw [RxStack.backupIndex, BitVec.toNat_umod, hsize, BitVec.toNat_add, BitVec.toNat_ofNat,
    Nat.add_mod_mod, Nat.mod_mod_of_dvd _ (by decide)]

/-- The loops free what the stack holds. -/
theorem freedMbufs_eq : pkts.freedMbufs = pkts.heldMbufs := by
  rw [freedMbufs, heldMbufs, List.range'_eq_map_range, List.filterMap_map]
  refine congrArg _ (List.filterMap_congr fun i _ => ?_)
  rw [backupIndex_wraps]
  rfl

end StackPkts

/-- What the control thread of ltran keeps, with the history of what it freed. -/
structure StackCtl where
  /-- `g_instance_mgr`. -/
  mgr : InstanceMgr
  /-- `g_stack_htable`. -/
  stackHtable : HTable gazelleMaxStackHtableSize LinkedStack
  /-- The address of the next stack. Addresses are not used again, so they tell stacks apart. -/
  nextAddr : ℕ
  /-- The pid that each connection carries, `0` for a connection that never asked for one. -/
  connPid : ℕ → Pid
  /-- The stacks freed so far; nothing reads this. -/
  freed : List StackFree
  /-- The stacks that were read after they were freed; nothing reads this. -/
  staleReads : List ℕ

/-- What happens to the stacks. -/
inductive StackAct
  /-- A request on a connection. -/
  | request (conn : ℕ) (msg : RegRequestMsg) (env : RegEnv)
  /-- An error, a hang-up or a failed read on a connection. -/
  | fail (conn : ℕ)
  /-- The forwarding threads change the packets that a stack holds. -/
  | forward (addr : ℕ) (pkts : StackPkts)

/-- The first two statements of `handle_instance_logout`: the tick of the instance is incremented
and its slot cleared. -/
def InstanceMgr.offAndNull (mgr : InstanceMgr) (inst : GazelleInstance) (pid : Pid) : InstanceMgr :=
  { mgr with
    instanceCurTick := Function.update mgr.instanceCurTick inst.instanceCurTick
      (mgr.instanceCurTick inst.instanceCurTick + 1) }.gazelleSetInstanceNullByPid pid

namespace StackCtl

variable (tidHashFn : Tid → BitVec 32) (config : LtranConfig) (s : StackCtl)

/-! ## The stack table -/

/-- `gazelle_stack_hbucket_get_by_tid`. -/
def gazelleStackHbucketGetByTid (tid : Tid) : Fin gazelleMaxStackHtableSize :=
  ⟨(tidHashFn tid).toNat % gazelleMaxStackHtableSize, Nat.mod_lt _ (by decide)⟩

/-- `gazelle_stack_get_by_tid`. -/
def gazelleStackGetByTid (tid : Tid) : Option LinkedStack :=
  (s.stackHtable.chain (gazelleStackHbucketGetByTid tidHashFn tid)).find? fun stack =>
    stack.tid = tid && s.mgr.stackIsOn stack.toGazelleStack

/-- The stack that `gazelle_stack_add_by_tid` makes. -/
def newStack (tid : Tid) : LinkedStack where
  addr := s.nextAddr
  index := -1
  tid := tid
  instanceCurTick := none
  instanceRegTick := instanceRegTickInitVal
  toStackPkts := .empty

/-- `gazelle_stack_add_by_tid`. -/
def gazelleStackAddByTid (tid : Tid) (calloc : Bool) : Option StackCtl :=
  if s.stackHtable.curNum = s.stackHtable.maxNum then none
  else if calloc then
    some
      { s with
        stackHtable :=
          s.stackHtable.insertHead (gazelleStackHbucketGetByTid tidHashFn tid) (s.newStack tid)
        nextAddr := s.nextAddr + 1 }
  else none

/-- `gazelle_stack_del_by_tid`: the first stack of its chain with the tid is freed. -/
def gazelleStackDelByTid (tid : Tid) : StackCtl :=
  let b := gazelleStackHbucketGetByTid tidHashFn tid
  match (s.stackHtable.chain b).find? fun stack => stack.tid = tid with
  | none => s
  | some stack =>
    { s with
      stackHtable := s.stackHtable.eraseFirst b fun stack => stack.tid = tid
      freed := s.freed ++ [⟨stack.addr, stack.freedMbufs⟩] }

/-- Write to the stack at an address. -/
def modify (addr : ℕ) (f : LinkedStack → LinkedStack) : StackCtl :=
  { s with
    stackHtable := s.stackHtable.map fun stack => if stack.addr = addr then f stack else stack }

/-- Read the stack at an address, `none` when it was freed. -/
def readStack (addr : ℕ) : Option LinkedStack :=
  s.stackHtable.toList.find? fun stack => stack.addr = addr

/-! ## The requests -/

/-- The registry with the stack table as one list. -/
def registry : LtranRegistry where
  mgr := s.mgr
  stackTable :=
    ⟨s.stackHtable.maxNum, s.stackHtable.toList.map fun stack => stack.toGazelleStack, s.nextAddr⟩

/-- `handle_reg_msg_thrd_ring` from the place of the new stack in `stack_array` on. -/
def linkStack (stack : LinkedStack) (i : Fin gazelleMaxInstanceNum) (inst : GazelleInstance)
    (idx : Fin gazelleMaxInstanceNum) (responded : Bool) : StackCtl × Bool :=
  let inst :=
    { inst with
      stackArray := Function.update inst.stackArray idx (some stack.addr)
      stackCnt := inst.stackCnt + 1
      regState := .regThrdRing }
  let s := { s with mgr := s.mgr.setInstance i inst }.modify stack.addr fun stack =>
    { stack with index := idx.val }
  if responded then
    (s.modify stack.addr fun stack =>
      { stack with
        instanceRegTick := inst.instanceRegTick
        instanceCurTick := some inst.instanceCurTick }, true)
  else (s, false)

/-- `handle_reg_msg_thrd_ring`. -/
def handleRegMsgThrdRing (conf : ClientThrdConf) (env : RegEnv) : StackCtl × Bool :=
  if (s.gazelleStackGetByTid tidHashFn conf.tid).isSome then (s, env.responded)
  else
    match s.mgr.gazelleInstanceGetByPid conf.pid with
    | none => (s, false)
    | some (i, inst) =>
      if gazelleMaxInstanceNum - 1 < inst.stackCnt.toNat then (s, false)
      else
        match s.gazelleStackAddByTid tidHashFn conf.tid env.calloc with
        | none => (s, false)
        | some s' =>
          match LtranRegistry.gazelleGetFreeStackIdx inst with
          | none => (s'.gazelleStackDelByTid tidHashFn conf.tid, false)
          | some idx => s'.linkStack (s.newStack conf.tid) i inst idx env.responded

/-- `handle_stack_logout`. -/
def handleStackLogout (inst : GazelleInstance) (stack : LinkedStack) : GazelleInstance × StackCtl :=
  ({ inst with
      stackArray := fun j => if (j.val : ℤ) = stack.index then none else inst.stackArray j
      stackCnt := inst.stackCnt - 1 },
    s.gazelleStackDelByTid tidHashFn stack.tid)

/-- One place of the loop of `handle_inst_logout_for_reg_thrd_ring`. A stack that was freed is read
all the same; what the loop finds there is undefined, and only the reading is recorded. -/
def logoutPlace (acc : GazelleInstance × StackCtl) (i : Fin gazelleMaxInstanceNum) :
    GazelleInstance × StackCtl :=
  if acc.1.stackCnt = 0 then acc
  else
    match acc.1.stackArray i with
    | none => acc
    | some addr =>
      match acc.2.readStack addr with
      | none => (acc.1, { acc.2 with staleReads := addr :: acc.2.staleReads })
      | some stack => acc.2.handleStackLogout tidHashFn acc.1 stack

/-- `handle_inst_logout_for_reg_thrd_ring`. -/
def handleInstLogoutForRegThrdRing (inst : GazelleInstance) : StackCtl :=
  ((List.finRange gazelleMaxInstanceNum).foldl (logoutPlace tidHashFn) (inst, s)).2

/-- `handle_instance_logout`. -/
def handleInstanceLogout (pid : Pid) : StackCtl :=
  match s.mgr.gazelleInstanceGetByPid pid with
  | none => s
  | some (_, inst) =>
    let s := { s with mgr := s.mgr.offAndNull inst pid }
    if inst.regState = .regThrdRing then s.handleInstLogoutForRegThrdRing tidHashFn inst else s

/-- The `END` of `reg_conn_msg_proc`. -/
def endConn (conn : ℕ) : StackCtl :=
  let s' := if s.connPid conn = 0 then s else s.handleInstanceLogout tidHashFn (s.connPid conn)
  { s' with connPid := Function.update s'.connPid conn 0 }

/-- The `switch` of `reg_conn_msg_proc`. -/
def handleRequest (conn : ℕ) (msg : RegRequestMsg) (env : RegEnv) : StackCtl × Bool :=
  match msg with
  | .procMem conf =>
    let (reg, ok) := s.registry.handleRegMsgProcMem config conn conn conf env
    ({ s with mgr := reg.mgr, connPid := Function.update s.connPid conn conf.pid }, ok)
  | .procAtt conf =>
    let (reg, ok) := s.registry.handleRegMsgProcAtt conf env
    ({ s with mgr := reg.mgr }, ok)
  | .thrdRing conf => s.handleRegMsgThrdRing tidHashFn conf env
  | .other => (s, true)

/-- `reg_conn_msg_proc` for a request that was read. -/
def regConnMsgProc (conn : ℕ) (msg : RegRequestMsg) (env : RegEnv) : StackCtl :=
  match s.handleRequest tidHashFn config conn msg env with
  | (s, true) => s
  | (s, false) => s.endConn tidHashFn conn

/-- One event. -/
def step : StackAct → Option StackCtl
  | .request conn msg env => some (s.regConnMsgProc tidHashFn config conn msg env)
  | .fail conn => some (s.endConn tidHashFn conn)
  | .forward addr pkts => some (s.modify addr fun stack => { stack with toStackPkts := pkts })

/-- ltran after its start. -/
def create (maxInstanceNum maxStackNum : BitVec 32) : StackCtl where
  mgr := ⟨0, maxInstanceNum, fun _ => 0, fun _ => none⟩
  stackHtable := .create maxStackNum
  nextAddr := 0
  connPid := fun _ => 0
  freed := []
  staleReads := []

/-- All orders of events, for any limits that fit into the array of instances. -/
def system : Transition.System StackCtl StackAct where
  Init s := ∃ maxInstanceNum maxStackNum : BitVec 32, 1 ≤ maxInstanceNum.toNat ∧
    maxInstanceNum.toNat ≤ gazelleMaxInstanceNum ∧ s = create maxInstanceNum maxStackNum
  step := step tidHashFn config

/-! ## The property and the condition -/

/-- What `handle_inst_logout_for_reg_thrd_ring` has to do when it takes the state `s` to `s'` for
the instance in slot `i`. -/
structure LogoutOf (s : StackCtl) (i : Fin gazelleMaxInstanceNum) (inst : GazelleInstance)
    (s' : StackCtl) : Prop where
  /-- The stacks of the instance are freed, one after the other, each with what it holds. -/
  frees : ∃ own : List LinkedStack, (∀ stack ∈ own, stack ∈ s.stackHtable.toList) ∧
    (own.map fun stack => stack.addr) =
      (List.finRange gazelleMaxInstanceNum).filterMap inst.stackArray ∧
    s'.freed = s.freed ++ own.map fun stack => ⟨stack.addr, stack.heldMbufs⟩
  /-- They are linked no more. -/
  gone : ∀ j addr, inst.stackArray j = some addr →
    ∀ stack ∈ s'.stackHtable.toList, stack.addr ≠ addr
  /-- The stacks of the other instances stay linked. -/
  others : ∀ k other j addr, k ≠ i → s.mgr.instances k = some other →
    other.stackArray j = some addr → ∃ stack ∈ s'.stackHtable.toList, stack.addr = addr
  /-- No stack is freed twice. -/
  once : (s'.freed.map fun free => free.addr).Nodup
  /-- None is read after it was freed. -/
  reads : s'.staleReads = []
  /-- The counters are right. -/
  counted : s'.stackHtable.Counted

/-- The stacks of the instances are linked, the counters are right, nothing was freed twice or read
after it was freed, and a logout of any instance does what it has to do. -/
structure LogoutRight : Prop where
  /-- Every stack of an instance is linked. -/
  linked : ∀ i inst j addr, s.mgr.instances i = some inst → inst.stackArray j = some addr →
    ∃ stack ∈ s.stackHtable.toList, stack.addr = addr
  /-- The counters are right. -/
  counted : s.stackHtable.Counted
  /-- No stack was freed twice. -/
  once : (s.freed.map fun free => free.addr).Nodup
  /-- None was read after it was freed. -/
  reads : s.staleReads = []
  /-- A logout of an instance. -/
  logout : ∀ i inst, s.mgr.instances i = some inst →
    LogoutOf s i inst (s.handleInstLogoutForRegThrdRing tidHashFn inst)

/-- The request links a stack: its tid is not on, and there is an instance with room, room in the
table and memory. -/
def LinksStack (conf : ClientThrdConf) (env : RegEnv) : Prop :=
  (s.gazelleStackGetByTid tidHashFn conf.tid).isNone = true ∧
    (s.mgr.gazelleInstanceGetByPid conf.pid).any
      (fun found => found.2.stackCnt.toNat ≤ gazelleMaxInstanceNum - 1) = true ∧
    s.stackHtable.curNum ≠ s.stackHtable.maxNum ∧ env.calloc = true

/-- Whether a request links a stack is decidable. -/
instance (conf : ClientThrdConf) (env : RegEnv) : Decidable (s.LinksStack tidHashFn conf env) := by
  unfold LinksStack
  infer_instance

/-- The condition on an event: a request that links a stack has a tid that no linked stack has, be
it on or off. -/
def FreshTid : StackAct → Prop
  | .request _ (.thrdRing conf) env =>
    s.LinksStack tidHashFn conf env → ∀ stack ∈ s.stackHtable.toList, stack.tid ≠ conf.tid
  | _ => True

/-- The condition on an event is decidable. -/
instance (a : StackAct) : Decidable (s.FreshTid tidHashFn a) := by
  unfold FreshTid
  split <;> infer_instance

/-! ## The invariant -/

/-- The invariant of the table and the history. -/
structure TableInv : Prop where
  /-- The table is a map of the tids. -/
  table : s.stackHtable.LiveMap (fun _ => true) (fun stack => stack.tid) (fun stack => stack.addr)
    (gazelleStackHbucketGetByTid tidHashFn)
  /-- New addresses are new. -/
  fresh : ∀ stack ∈ s.stackHtable.toList, stack.addr < s.nextAddr
  /-- No stack was freed twice. -/
  once : (s.freed.map fun free => free.addr).Nodup
  /-- What was freed was allocated before. -/
  freedOld : ∀ free ∈ s.freed, free.addr < s.nextAddr
  /-- What was freed is not linked. -/
  freedGone : ∀ free ∈ s.freed, ∀ stack ∈ s.stackHtable.toList, stack.addr ≠ free.addr
  /-- No stack was read after it was freed. -/
  reads : s.staleReads = []

/-- The invariant. -/
structure StackInv : Prop extends TableInv tidHashFn s where
  /-- The slots of the instances. -/
  slots : s.mgr.SlotsInv
  /-- Every stack of an instance is linked and knows its place. -/
  array : ∀ i inst j addr, s.mgr.instances i = some inst → inst.stackArray j = some addr →
    ∃ stack ∈ s.stackHtable.toList, stack.addr = addr ∧ stack.index = (j.val : ℤ)
  /-- No two instances have one stack. -/
  own : ∀ i k inst other j l addr, s.mgr.instances i = some inst →
    s.mgr.instances k = some other → inst.stackArray j = some addr →
      other.stackArray l = some addr → i = k

variable {tidHashFn} {config} {s} {s' : StackCtl}

/-! ## Freeing one stack -/

/-- A linked stack is the one that its tid finds. -/
theorem TableInv.find?_tid (h : TableInv tidHashFn s) {stack : LinkedStack}
    (hmem : stack ∈ s.stackHtable.toList) :
    (s.stackHtable.chain (gazelleStackHbucketGetByTid tidHashFn stack.tid)).find?
      (fun other => other.tid = stack.tid) = some stack := by
  obtain ⟨b, hb⟩ := HTable.mem_toList.1 hmem
  obtain rfl := h.table.inBucket b stack hb
  exact h.table.liveFirst.find?_key hb rfl

/-- A linked stack is the one at its address. -/
theorem TableInv.readStack (h : TableInv tidHashFn s) {stack : LinkedStack}
    (hmem : stack ∈ s.stackHtable.toList) : s.readStack stack.addr = some stack := by
  unfold StackCtl.readStack
  cases hfind : s.stackHtable.toList.find? fun other => other.addr = stack.addr with
  | none => exact absurd (List.find?_eq_none.1 hfind stack hmem) (by simp)
  | some other =>
    have haddr : other.addr = stack.addr := by simpa using List.find?_some hfind
    rw [h.table.eq_of_addr (List.mem_of_find?_eq_some hfind) hmem haddr]

/-- `gazelle_stack_del_by_tid` frees the one stack with the tid, and what it holds. -/
theorem TableInv.gazelleStackDelByTid (h : TableInv tidHashFn s) {stack : LinkedStack}
    (hmem : stack ∈ s.stackHtable.toList)
    (hs' : s.gazelleStackDelByTid tidHashFn stack.tid = s') :
    TableInv tidHashFn s' ∧ s'.freed = s.freed ++ [⟨stack.addr, stack.heldMbufs⟩] ∧
      (∀ u, u ∈ s'.stackHtable.toList ↔ u ∈ s.stackHtable.toList ∧ u ≠ stack) ∧
      s'.mgr = s.mgr ∧ s'.nextAddr = s.nextAddr := by
  classical
  -- no other stack has the tid, so the search ends at this one
  have hfind := h.find?_tid hmem
  simp only [StackCtl.gazelleStackDelByTid, hfind] at hs'
  subst hs'
  have hmemIff : ∀ u, u ∈ (s.stackHtable.eraseFirst
      (gazelleStackHbucketGetByTid tidHashFn stack.tid)
      fun other => decide (other.tid = stack.tid)).toList ↔
        u ∈ s.stackHtable.toList ∧ u ≠ stack := fun u =>
    HTable.mem_eraseFirst hfind (h.table.once stack)
  refine ⟨⟨h.table.eraseFirst, fun u hu => h.fresh u ((hmemIff u).1 hu).1, ?_, ?_, ?_, h.reads⟩,
    by rw [StackPkts.freedMbufs_eq], hmemIff, rfl, rfl⟩
  · -- its address is not among those freed before, as it was linked until now
    rw [List.map_append, List.nodup_append]
    refine ⟨h.once, List.nodup_singleton _, fun a ha b hb => ?_⟩
    obtain ⟨free, hfree, rfl⟩ := List.mem_map.1 ha
    obtain rfl := List.mem_singleton.1 hb
    exact fun heq => h.freedGone free hfree stack hmem heq.symm
  · intro free hfree
    rcases List.mem_append.1 hfree with hfree | hfree
    · exact h.freedOld free hfree
    · obtain rfl := List.mem_singleton.1 hfree
      exact h.fresh stack hmem
  · -- and those that stay linked are none of the freed
    intro free hfree u hu
    obtain ⟨hu, hne⟩ := (hmemIff u).1 hu
    rcases List.mem_append.1 hfree with hfree | hfree
    · exact h.freedGone free hfree u hu
    · obtain rfl := List.mem_singleton.1 hfree
      exact fun heq => hne (h.table.eq_of_addr hu hmem heq)

/-! ## The loop of a logout -/

/-- The instance after the stack in a place was logged out. -/
def clearPlace (inst : GazelleInstance) (i : Fin gazelleMaxInstanceNum) : GazelleInstance :=
  { inst with
    stackArray := Function.update inst.stackArray i none
    stackCnt := inst.stackCnt - 1 }

/-- A place without a stack is passed over. -/
theorem logoutPlace_none {inst : GazelleInstance} {i : Fin gazelleMaxInstanceNum}
    (hplace : inst.stackArray i = none) : logoutPlace tidHashFn (inst, s) i = (inst, s) := by
  unfold logoutPlace
  split
  · rfl
  · simp only [hplace]

/-- A place with a linked stack is emptied and the stack freed. -/
theorem TableInv.logoutPlace_some (h : TableInv tidHashFn s) {inst : GazelleInstance}
    {i : Fin gazelleMaxInstanceNum} {stack : LinkedStack} (hmem : stack ∈ s.stackHtable.toList)
    (hindex : stack.index = (i.val : ℤ)) (hplace : inst.stackArray i = some stack.addr)
    (hcnt : inst.stackCnt ≠ 0) : logoutPlace tidHashFn (inst, s) i =
      (clearPlace inst i, s.gazelleStackDelByTid tidHashFn stack.tid) := by
  have harray : (fun j : Fin gazelleMaxInstanceNum =>
      if (j.val : ℤ) = stack.index then none else inst.stackArray j) =
        Function.update inst.stackArray i none := by
    funext j
    rw [hindex]
    by_cases hj : j = i
    · rw [hj, Function.update_self, if_pos rfl]
    · rw [Function.update_of_ne hj, if_neg fun heq => hj (Fin.ext (by exact_mod_cast heq))]
  unfold logoutPlace
  rw [if_neg hcnt]
  simp only [hplace, h.readStack hmem, handleStackLogout, harray, clearPlace]

/-- The loop over the places `l` frees the stacks that are there, when the other places are empty
or were emptied before. -/
theorem TableInv.foldl_logoutPlace {l : List (Fin gazelleMaxInstanceNum)} (hl : l.Nodup) :
    ∀ {s : StackCtl} {inst : GazelleInstance}, TableInv tidHashFn s →
      inst.stackCnt.toNat = l.countP (fun j => (inst.stackArray j).isSome) →
      (∀ j ∈ l, ∀ addr, inst.stackArray j = some addr →
        ∃ stack ∈ s.stackHtable.toList, stack.addr = addr ∧ stack.index = (j.val : ℤ)) →
      ∀ {s' : StackCtl}, (l.foldl (logoutPlace tidHashFn) (inst, s)).2 = s' →
        TableInv tidHashFn s' ∧ s'.mgr = s.mgr ∧ ∃ own : List LinkedStack,
          (∀ stack ∈ own, stack ∈ s.stackHtable.toList) ∧
          (own.map fun stack => stack.addr) = l.filterMap inst.stackArray ∧
          s'.freed = s.freed ++ (own.map fun stack => ⟨stack.addr, stack.heldMbufs⟩) ∧
          ∀ u, u ∈ s'.stackHtable.toList ↔ u ∈ s.stackHtable.toList ∧ u ∉ own := by
  induction l with
  | nil =>
    intro s inst h _ _ s' hs'
    subst hs'
    exact ⟨h, rfl, [], by simp, rfl, by simp, by simp⟩
  | cons i l ih =>
    intro s inst h hcnt harray s' hs'
    obtain ⟨hi, hl⟩ := List.nodup_cons.1 hl
    rw [List.foldl_cons] at hs'
    cases hplace : inst.stackArray i with
    | none =>
      rw [List.countP_cons_of_neg (by simp [hplace])] at hcnt
      rw [logoutPlace_none hplace] at hs'
      obtain ⟨hinv, hmgr, own, hmem, haddr, hrest⟩ :=
        ih hl h hcnt (fun j hj => harray j (List.mem_cons_of_mem i hj)) hs'
      exact ⟨hinv, hmgr, own, hmem, by rw [haddr, List.filterMap_cons_none hplace], hrest⟩
    | some addr =>
      obtain ⟨stack, hmem, rfl, hindex⟩ := harray i List.mem_cons_self addr hplace
      rw [List.countP_cons_of_pos (by simp [hplace])] at hcnt
      have hone : (1 : BitVec 32).toNat = 1 := rfl
      have hle : (1 : BitVec 32) ≤ inst.stackCnt := by
        rw [BitVec.le_def, hone, hcnt]
        omega
      have hpos : inst.stackCnt ≠ 0 := fun hzero => by simp [hzero] at hcnt
      obtain ⟨hinv₁, hfreed₁, hmem₁, hmgr₁, -⟩ := h.gazelleStackDelByTid hmem rfl
      -- the places that are left still hold what they held
      have hkept : ∀ j ∈ l, (clearPlace inst i).stackArray j = inst.stackArray j := by
        intro j hj
        have hne : j ≠ i := fun heq => hi (heq ▸ hj)
        exact Function.update_of_ne hne _ _
      have hcnt₁ : (clearPlace inst i).stackCnt.toNat =
          l.countP fun j => ((clearPlace inst i).stackArray j).isSome := by
        have hsub : (clearPlace inst i).stackCnt.toNat = inst.stackCnt.toNat - 1 :=
          BitVec.toNat_sub_of_le hle
        rw [hsub, hcnt, Nat.add_sub_cancel]
        exact List.countP_congr fun j hj => by rw [hkept j hj]
      have harray₁ : ∀ j ∈ l, ∀ addr, (clearPlace inst i).stackArray j = some addr →
          ∃ u ∈ (s.gazelleStackDelByTid tidHashFn stack.tid).stackHtable.toList,
            u.addr = addr ∧ u.index = (j.val : ℤ) := by
        intro j hj addr haddr
        rw [hkept j hj] at haddr
        obtain ⟨u, hu, huaddr, huindex⟩ := harray j (List.mem_cons_of_mem i hj) addr haddr
        refine ⟨u, (hmem₁ u).2 ⟨hu, ?_⟩, huaddr, huindex⟩
        rintro rfl
        have heq : i = j := Fin.ext (by exact_mod_cast hindex.symm.trans huindex)
        exact hi (heq ▸ hj)
      rw [h.logoutPlace_some hmem hindex hplace hpos] at hs'
      obtain ⟨hinv, hmgr, own, hown, haddr, hfreed, hleft⟩ := ih hl hinv₁ hcnt₁ harray₁ hs'
      refine ⟨hinv, hmgr.trans hmgr₁, stack :: own, ?_, ?_, ?_, fun u => ?_⟩
      · rintro u (_ | ⟨_, hu⟩)
        · exact hmem
        · exact ((hmem₁ u).1 (hown u hu)).1
      · rw [List.map_cons, haddr, List.filterMap_cons_some hplace]
        exact congrArg _ (List.filterMap_congr hkept)
      · rw [hfreed, hfreed₁, List.map_cons, List.append_assoc]
        rfl
      · rw [hleft, hmem₁, List.mem_cons, not_or, and_assoc]

/-- The places that are taken are counted by `stack_cnt`. -/
theorem countP_stackArray {inst : GazelleInstance} (h : inst.StacksInv) :
    inst.stackCnt.toNat =
      (List.finRange gazelleMaxInstanceNum).countP fun j => (inst.stackArray j).isSome := by
  have hlt : (List.finRange gazelleMaxInstanceNum).countP (fun j => (inst.stackArray j).isSome) =
      (List.finRange gazelleMaxInstanceNum).countP fun j => decide (j.val < inst.stackCnt.toNat) :=
    List.countP_congr fun j _ => by rw [h.taken j, decide_eq_true_iff]
  have hle := h.le
  rw [hlt]
  generalize inst.stackCnt.toNat = n at hle
  decide +revert

/-- `handle_inst_logout_for_reg_thrd_ring` on a state with the table of `s`: the stacks of the
instance are freed and gone, those of the others stay in their places. -/
theorem StackInv.handleInstLogoutForRegThrdRing (h : StackInv tidHashFn s)
    {i : Fin gazelleMaxInstanceNum} {inst : GazelleInstance} (hinst : s.mgr.instances i = some inst)
    {t : StackCtl} (ht : TableInv tidHashFn t) (htable : t.stackHtable = s.stackHtable)
    (hs' : t.handleInstLogoutForRegThrdRing tidHashFn inst = s') :
    TableInv tidHashFn s' ∧ s'.mgr = t.mgr ∧
      (∃ own : List LinkedStack, (∀ stack ∈ own, stack ∈ s.stackHtable.toList) ∧
        (own.map fun stack => stack.addr) =
          (List.finRange gazelleMaxInstanceNum).filterMap inst.stackArray ∧
        s'.freed = t.freed ++ own.map fun stack => ⟨stack.addr, stack.heldMbufs⟩) ∧
      (∀ j addr, inst.stackArray j = some addr →
        ∀ stack ∈ s'.stackHtable.toList, stack.addr ≠ addr) ∧
      ∀ k other j addr, k ≠ i → s.mgr.instances k = some other → other.stackArray j = some addr →
        ∃ stack ∈ s'.stackHtable.toList, stack.addr = addr ∧ stack.index = (j.val : ℤ) := by
  obtain ⟨hinv, hmgr, own, hown, haddr, hfreed, hleft⟩ :=
    ht.foldl_logoutPlace (List.nodup_finRange _)
      (countP_stackArray (h.slots.stackArray i inst hinst))
      (fun j _ addr => by rw [htable]; exact h.array i inst j addr hinst) hs'
  rw [htable] at hown hleft
  refine ⟨hinv, hmgr, ⟨own, hown, haddr, hfreed⟩, fun j addr hplace stack hmem heq => ?_,
    fun k other j addr hk hother hplace => ?_⟩
  · obtain ⟨hmem, hnot⟩ := (hleft stack).1 hmem
    have hin : addr ∈ own.map fun stack => stack.addr :=
      haddr ▸ List.mem_filterMap.2 ⟨j, List.mem_finRange j, hplace⟩
    obtain ⟨u, hu, huaddr⟩ := List.mem_map.1 hin
    exact hnot (h.table.eq_of_addr hmem (hown u hu) (heq.trans huaddr.symm) ▸ hu)
  · obtain ⟨stack, hmem, rfl, hindex⟩ := h.array k other j addr hother hplace
    refine ⟨stack, (hleft stack).2 ⟨hmem, fun hin => hk ?_⟩, rfl, hindex⟩
    have hin' : stack.addr ∈ (List.finRange gazelleMaxInstanceNum).filterMap inst.stackArray :=
      haddr ▸ List.mem_map_of_mem hin
    obtain ⟨l, -, hl⟩ := List.mem_filterMap.1 hin'
    exact h.own k i other inst j l stack.addr hother hinst hplace hl

/-- The invariant entails the property. -/
theorem StackInv.logoutRight (h : StackInv tidHashFn s) : s.LogoutRight tidHashFn where
  linked i inst j addr hinst hplace := by
    obtain ⟨stack, hmem, haddr, -⟩ := h.array i inst j addr hinst hplace
    exact ⟨stack, hmem, haddr⟩
  counted := h.table.counted
  once := h.once
  reads := h.reads
  logout i inst hinst := by
    obtain ⟨hinv, -, hfrees, hgone, hothers⟩ :=
      h.handleInstLogoutForRegThrdRing hinst h.toTableInv rfl rfl
    refine ⟨hfrees, hgone, fun k other j addr hk hother hplace => ?_, hinv.once, hinv.reads,
      hinv.table.counted⟩
    obtain ⟨stack, hmem, haddr, -⟩ := hothers k other j addr hk hother hplace
    exact ⟨stack, hmem, haddr⟩

/-! ## The steps -/

/-- The instances of `mgr'` are instances of `mgr`, in their slots and with the same stacks, or have
no stack. -/
def ArraysKept (mgr mgr' : InstanceMgr) : Prop :=
  ∀ i inst', mgr'.instances i = some inst' → (∃ inst, mgr.instances i = some inst ∧
    inst'.stackArray = inst.stackArray) ∨ ∀ j, inst'.stackArray j = none

/-- One instance is written back. -/
theorem ArraysKept.setInstance {mgr : InstanceMgr} {i : Fin gazelleMaxInstanceNum}
    {inst : GazelleInstance} (hinst : (∃ old, mgr.instances i = some old ∧
      inst.stackArray = old.stackArray) ∨ ∀ j, inst.stackArray j = none) :
    ArraysKept mgr (mgr.setInstance i inst) := by
  intro k x hx
  have hx' : Function.update mgr.instances i (some inst) k = some x := hx
  by_cases hk : k = i
  · subst hk
    rw [Function.update_self] at hx'
    rwa [← Option.some.inj hx']
  · rw [Function.update_of_ne hk] at hx'
    exact .inl ⟨x, hx', rfl⟩

theorem ArraysKept.rfl {mgr : InstanceMgr} : ArraysKept mgr mgr :=
  fun _ inst hinst => .inl ⟨inst, hinst, Eq.refl _⟩

theorem ArraysKept.trans {mgr mgr' mgr'' : InstanceMgr} (h : ArraysKept mgr mgr')
    (h' : ArraysKept mgr' mgr'') : ArraysKept mgr mgr'' := by
  intro i inst hinst
  rcases h' i inst hinst with ⟨old, hold, heq⟩ | hnone
  · rw [heq]
    exact h i old hold
  · exact .inr hnone

/-- `handle_reg_msg_proc_mem` adds an instance without stacks at most. -/
theorem arraysKept_handleRegMsgProcMem {reg reg' : LtranRegistry} {fd : ℤ} {creator : ℕ}
    {conf : ClientProcConf} {env : RegEnv} {ok : Bool}
    (h : reg.handleRegMsgProcMem config fd creator conf env = (reg', ok)) :
    ArraysKept reg.mgr reg'.mgr := by
  unfold LtranRegistry.handleRegMsgProcMem at h
  split at h
  · next hcheck =>
    have hnew := LtranRegistry.getByPid_of_instanceInfoCheck hcheck
    -- what is added has no stacks, and none is added later
    have hadd : ∀ mgr found, reg.mgr.gazelleInstanceAddByPid conf.pid env.calloc creator =
        (mgr, found) → ArraysKept reg.mgr mgr ∧
          ∀ i inst, found = some (i, inst) → ∀ j, inst.stackArray j = none := by
      intro mgr found hfound
      unfold InstanceMgr.gazelleInstanceAddByPid at hfound
      rw [hnew] at hfound
      dsimp only at hfound
      split at hfound
      · obtain ⟨rfl, rfl⟩ := Prod.mk.inj hfound
        exact ⟨.rfl, fun _ _ hsome => nomatch hsome⟩
      · split at hfound
        · obtain ⟨rfl, rfl⟩ := Prod.mk.inj hfound
          exact ⟨.rfl, fun _ _ hsome => nomatch hsome⟩
        · next i _ =>
          split at hfound
          · obtain ⟨rfl, rfl⟩ := Prod.mk.inj hfound
            exact ⟨.rfl, fun _ _ hsome => nomatch hsome⟩
          · obtain ⟨rfl, rfl⟩ := Prod.mk.inj hfound
            refine ⟨ArraysKept.setInstance (.inr fun _ => Eq.refl _),
              fun k inst hsome => ?_⟩
            obtain ⟨rfl, rfl⟩ := Prod.mk.inj (Option.some.inj hsome)
            exact fun _ => Eq.refl _
    split at h
    · next mgr hfound =>
      obtain ⟨rfl, -⟩ := Prod.mk.inj h
      exact (hadd mgr none hfound).1
    · next mgr i inst hfound =>
      obtain ⟨hkept, hempty⟩ := hadd mgr (some (i, inst)) hfound
      have hset : ∀ inst' : GazelleInstance, (∀ j, inst'.stackArray j = none) →
          ArraysKept reg.mgr (mgr.setInstance i inst') := fun inst' hnone =>
        hkept.trans (ArraysKept.setInstance (.inr hnone))
      split at h
      · obtain ⟨rfl, -⟩ := Prod.mk.inj h
        exact hset _ (hempty i inst (Eq.refl _))
      · cases hcopied : env.copied <;> simp only [instanceInfoSet, hcopied] at h <;>
          obtain ⟨rfl, -⟩ := Prod.mk.inj h
        · exact hset _ (hempty i inst (Eq.refl _))
        · exact hset _ fun _ => Eq.refl _
  · obtain ⟨rfl, -⟩ := Prod.mk.inj h
    exact .rfl

/-- `handle_reg_msg_proc_att` keeps the stacks. -/
theorem arraysKept_handleRegMsgProcAtt {reg reg' : LtranRegistry} {conf : ClientProcConf}
    {env : RegEnv} {ok : Bool} (h : reg.handleRegMsgProcAtt conf env = (reg', ok)) :
    ArraysKept reg.mgr reg'.mgr := by
  unfold LtranRegistry.handleRegMsgProcAtt at h
  split at h
  · obtain ⟨rfl, -⟩ := Prod.mk.inj h
    exact .rfl
  · next i inst hget =>
    obtain ⟨hinst, -⟩ := InstanceMgr.gazelleInstanceGetByPid_some hget
    split at h
    · obtain ⟨rfl, -⟩ := Prod.mk.inj h
      exact .rfl
    · split at h <;> obtain ⟨rfl, -⟩ := Prod.mk.inj h <;>
        exact ArraysKept.setInstance (.inl ⟨inst, hinst, Eq.refl _⟩)

/-- The manager changes, without new stacks. -/
theorem StackInv.of_mgr (h : StackInv tidHashFn s) (htable : TableInv tidHashFn s')
    (hlinked : ∀ i inst j addr, s'.mgr.instances i = some inst → inst.stackArray j = some addr →
      ∀ stack ∈ s.stackHtable.toList, stack.addr = addr → stack.index = (j.val : ℤ) →
        ∃ stack ∈ s'.stackHtable.toList, stack.addr = addr ∧ stack.index = (j.val : ℤ))
    (hkept : ArraysKept s.mgr s'.mgr) (hslots : s'.mgr.SlotsInv) : StackInv tidHashFn s' := by
  have hold : ∀ i inst j addr, s'.mgr.instances i = some inst → inst.stackArray j = some addr →
      ∃ old, s.mgr.instances i = some old ∧ old.stackArray j = some addr := by
    intro i inst j addr hinst hplace
    rcases hkept i inst hinst with ⟨old, hold, heq⟩ | hnone
    · exact ⟨old, hold, heq ▸ hplace⟩
    · rw [hnone j] at hplace
      cases hplace
  refine ⟨htable, hslots, fun i inst j addr hinst hplace => ?_,
    fun i k inst other j l addr hinst hother hplace hplace' => ?_⟩
  · obtain ⟨old, hold, hplace'⟩ := hold i inst j addr hinst hplace
    obtain ⟨stack, hmem, haddr, hindex⟩ := h.array i old j addr hold hplace'
    exact hlinked i inst j addr hinst hplace stack hmem haddr hindex
  · obtain ⟨old, hold₁, hplace₁⟩ := hold i inst j addr hinst hplace
    obtain ⟨old', hold₂, hplace₂⟩ := hold k other l addr hother hplace'
    exact h.own i k old old' j l addr hold₁ hold₂ hplace₁ hplace₂

/-- A change that leaves the table alone. -/
theorem TableInv.congr (h : TableInv tidHashFn s) (htable : s'.stackHtable = s.stackHtable)
    (hnext : s'.nextAddr = s.nextAddr) (hfreed : s'.freed = s.freed)
    (hreads : s'.staleReads = s.staleReads) : TableInv tidHashFn s' := by
  refine ⟨?_, ?_, ?_, ?_, ?_, hreads.trans h.reads⟩
  · rw [htable]
    exact h.table
  · rw [htable, hnext]
    exact h.fresh
  · rw [hfreed]
    exact h.once
  · rw [hfreed, hnext]
    exact h.freedOld
  · rw [hfreed, htable]
    exact h.freedGone

/-- The slot of the instance is cleared, the others stay. -/
theorem instances_offAndNull {mgr : InstanceMgr} {pid : Pid} {i : Fin gazelleMaxInstanceNum}
    {inst : GazelleInstance} (hget : mgr.gazelleInstanceGetByPid pid = some (i, inst)) :
    (mgr.offAndNull inst pid).instances = Function.update mgr.instances i none := by
  have hget' : InstanceMgr.gazelleInstanceGetByPid { mgr with
      instanceCurTick := Function.update mgr.instanceCurTick inst.instanceCurTick
        (mgr.instanceCurTick inst.instanceCurTick + 1) } pid = some (i, inst) := hget
  rw [InstanceMgr.offAndNull, InstanceMgr.gazelleSetInstanceNullByPid, hget']

theorem slotsInv_offAndNull {mgr : InstanceMgr} (h : mgr.SlotsInv) (inst : GazelleInstance)
    (pid : Pid) : (mgr.offAndNull inst pid).SlotsInv := by
  have htick : InstanceMgr.SlotsInv { mgr with
      instanceCurTick := Function.update mgr.instanceCurTick inst.instanceCurTick
        (mgr.instanceCurTick inst.instanceCurTick + 1) } :=
    ⟨h.limit, h.count, h.unique, h.below, h.stackArray⟩
  exact htick.gazelleSetInstanceNullByPid pid

/-- `handle_instance_logout` keeps the invariant. -/
theorem StackInv.handleInstanceLogout (h : StackInv tidHashFn s) (pid : Pid) :
    StackInv tidHashFn (s.handleInstanceLogout tidHashFn pid) := by
  unfold StackCtl.handleInstanceLogout
  cases hget : s.mgr.gazelleInstanceGetByPid pid with
  | none => exact h
  | some found =>
    obtain ⟨i, inst⟩ := found
    -- with its slot cleared the instance is found no more; the others are as before
    obtain ⟨hinst, -⟩ := InstanceMgr.gazelleInstanceGetByPid_some hget
    dsimp only
    have hinstances := instances_offAndNull hget
    have hslots := slotsInv_offAndNull h.slots inst pid
    generalize s.mgr.offAndNull inst pid = mgr at hinstances hslots
    have hother : ∀ k other, mgr.instances k = some other →
        k ≠ i ∧ s.mgr.instances k = some other := by
      intro k other hk
      rw [hinstances] at hk
      by_cases hki : k = i
      · subst hki
        rw [Function.update_self] at hk
        cases hk
      · rw [Function.update_of_ne hki] at hk
        exact ⟨hki, hk⟩
    have hkept : ArraysKept s.mgr mgr := fun k other hk => .inl ⟨other, (hother k other hk).2, rfl⟩
    have hcongr : TableInv tidHashFn { s with mgr := mgr } := h.toTableInv.congr rfl rfl rfl rfl
    split
    · -- the stacks of the instance are freed, those of the others stay in their places
      generalize hs' : StackCtl.handleInstLogoutForRegThrdRing tidHashFn { s with mgr := mgr } inst
        = s'
      obtain ⟨hinv, hmgr', -, -, hothers⟩ :=
        h.handleInstLogoutForRegThrdRing hinst hcongr rfl hs'
      refine h.of_mgr hinv ?_ (hmgr'.symm ▸ hkept) (hmgr'.symm ▸ hslots)
      intro k other j addr hk hplace _ _ _ _
      rw [hmgr'] at hk
      exact hothers k other j addr (hother k other hk).1 (hother k other hk).2 hplace
    · exact h.of_mgr hcongr (fun _ _ _ _ _ _ stack hmem haddr hindex =>
        ⟨stack, hmem, haddr, hindex⟩) hkept hslots

/-- A closed connection keeps the invariant. -/
theorem StackInv.endConn (h : StackInv tidHashFn s) (conn : ℕ) :
    StackInv tidHashFn (s.endConn tidHashFn conn) := by
  unfold StackCtl.endConn
  have hlogout : StackInv tidHashFn (if s.connPid conn = 0 then s
      else s.handleInstanceLogout tidHashFn (s.connPid conn)) := by
    split
    · exact h
    · exact h.handleInstanceLogout _
  generalize (if s.connPid conn = 0 then s
      else s.handleInstanceLogout tidHashFn (s.connPid conn)) = t at hlogout
  exact ⟨hlogout.toTableInv.congr rfl rfl rfl rfl, hlogout.slots, hlogout.array, hlogout.own⟩

/-- The entries after one was written to. -/
theorem mem_modify {addr : ℕ} {f : LinkedStack → LinkedStack} {u : LinkedStack} :
    u ∈ (s.modify addr f).stackHtable.toList ↔
      ∃ t ∈ s.stackHtable.toList, (if t.addr = addr then f t else t) = u := by
  rw [modify, HTable.toList_map, List.mem_map]

theorem mem_modify_self {addr : ℕ} {f : LinkedStack → LinkedStack} {t : LinkedStack}
    (ht : t ∈ s.stackHtable.toList) (haddr : t.addr = addr) :
    f t ∈ (s.modify addr f).stackHtable.toList := mem_modify.2 ⟨t, ht, if_pos haddr⟩

theorem mem_modify_other {addr : ℕ} {f : LinkedStack → LinkedStack} {t : LinkedStack}
    (ht : t ∈ s.stackHtable.toList) (haddr : t.addr ≠ addr) :
    t ∈ (s.modify addr f).stackHtable.toList := mem_modify.2 ⟨t, ht, if_neg haddr⟩

/-- Writing to a stack, but not to its tid. -/
theorem TableInv.modify (h : TableInv tidHashFn s) (addr : ℕ) {f : LinkedStack → LinkedStack}
    (hf : ∀ t, (f t).tid = t.tid ∧ (f t).addr = t.addr) :
    TableInv tidHashFn (s.modify addr f) := by
  have hkeep : ∀ t : LinkedStack, (if t.addr = addr then f t else t).tid = t.tid ∧
      (if t.addr = addr then f t else t).addr = t.addr := by
    intro t
    split
    · exact hf t
    · exact ⟨rfl, rfl⟩
  refine ⟨h.table.map hkeep fun _ _ _ => rfl, fun u hu => ?_, h.once, h.freedOld,
    fun free hfree u hu => ?_, h.reads⟩
  all_goals
    obtain ⟨t, ht, rfl⟩ := mem_modify.1 hu
    rw [(hkeep t).2]
  · exact h.fresh t ht
  · exact h.freedGone free hfree t ht

/-- `gazelle_stack_add_by_tid` of a tid that is not linked. -/
theorem TableInv.gazelleStackAddByTid (h : TableInv tidHashFn s) {tid : Tid} {calloc : Bool}
    (hfresh : ∀ u ∈ s.stackHtable.toList, u.tid ≠ tid)
    (hs' : s.gazelleStackAddByTid tidHashFn tid calloc = some s') :
    TableInv tidHashFn s' ∧ s'.mgr = s.mgr ∧ s'.nextAddr = s.nextAddr + 1 ∧
      ∀ u, u ∈ s'.stackHtable.toList ↔ u = s.newStack tid ∨ u ∈ s.stackHtable.toList := by
  unfold StackCtl.gazelleStackAddByTid at hs'
  split at hs'
  · cases hs'
  · next hroom =>
    split at hs'
    · obtain rfl := Option.some.inj hs'
      have hmem : ∀ u, u ∈ (s.stackHtable.insertHead (gazelleStackHbucketGetByTid tidHashFn tid)
          (s.newStack tid)).toList ↔ u = s.newStack tid ∨ u ∈ s.stackHtable.toList := fun _ =>
        HTable.mem_insertHead
      refine ⟨⟨?_, fun u hu => ?_, h.once,
        fun free hfree => Nat.lt_succ_of_lt (h.freedOld free hfree),
        fun free hfree u hu => ?_, h.reads⟩, rfl, rfl, hmem⟩
      · exact h.table.insertHead (t := s.newStack tid) (fun u hu => (h.fresh u hu).ne) hroom
          fun u hu _ => hfresh u hu
      · rcases (hmem u).1 hu with rfl | hu
        · exact Nat.lt_succ_self _
        · exact Nat.lt_succ_of_lt (h.fresh u hu)
      · rcases (hmem u).1 hu with rfl | hu
        · exact (h.freedOld free hfree).ne'
        · exact h.freedGone free hfree u hu
    · cases hs'

/-- An instance gets a stack that is linked and new. -/
theorem StackInv.of_link (h : StackInv tidHashFn s) {i : Fin gazelleMaxInstanceNum}
    {inst inst' : GazelleInstance} (hinst : s.mgr.instances i = some inst)
    (hpid : inst'.pid = inst.pid) {idx : Fin gazelleMaxInstanceNum}
    (hidx : LtranRegistry.gazelleGetFreeStackIdx inst = some idx)
    (hcnt : inst'.stackCnt = inst.stackCnt + 1)
    (harray : inst'.stackArray = Function.update inst.stackArray idx (some s.nextAddr))
    (hmgr : s'.mgr = s.mgr.setInstance i inst') (htable : TableInv tidHashFn s')
    (hold : ∀ u ∈ s.stackHtable.toList, u ∈ s'.stackHtable.toList)
    (hnew : ∃ u ∈ s'.stackHtable.toList, u.addr = s.nextAddr ∧ u.index = (idx.val : ℤ)) :
    StackInv tidHashFn s' := by
  -- a stack of an instance is an old one in its place, or the new one
  have hcases : ∀ k x j addr, s'.mgr.instances k = some x → x.stackArray j = some addr →
      (∃ y, s.mgr.instances k = some y ∧ y.stackArray j = some addr) ∨
        (k = i ∧ j = idx ∧ addr = s.nextAddr) := by
    intro k x j addr hx hplace
    have hx' : Function.update s.mgr.instances i (some inst') k = some x := by
      rw [hmgr] at hx
      exact hx
    by_cases hk : k = i
    · subst hk
      rw [Function.update_self] at hx'
      rw [← Option.some.inj hx', harray] at hplace
      by_cases hj : j = idx
      · rw [hj, Function.update_self] at hplace
        exact .inr ⟨rfl, hj, (Option.some.inj hplace).symm⟩
      · rw [Function.update_of_ne hj] at hplace
        exact .inl ⟨inst, hinst, hplace⟩
    · rw [Function.update_of_ne hk] at hx'
      exact .inl ⟨x, hx', hplace⟩
  have hlt : ∀ k y j addr, s.mgr.instances k = some y → y.stackArray j = some addr →
      addr < s.nextAddr := by
    intro k y j addr hy hplace
    obtain ⟨u, hu, rfl, -⟩ := h.array k y j addr hy hplace
    exact h.fresh u hu
  refine ⟨htable, ?_, fun k x j addr hx hplace => ?_,
    fun k l x y j m addr hx hy hplace hplace' => ?_⟩
  · rw [hmgr]
    exact h.slots.setInstance hinst hpid
      (LtranRegistry.stacksInv_addStack (h.slots.stackArray i inst hinst) hidx hcnt harray)
  · rcases hcases k x j addr hx hplace with ⟨y, hy, hyplace⟩ | ⟨-, rfl, rfl⟩
    · obtain ⟨u, hu, huaddr, huindex⟩ := h.array k y j addr hy hyplace
      exact ⟨u, hold u hu, huaddr, huindex⟩
    · exact hnew
  · rcases hcases k x j addr hx hplace with ⟨x', hx', hxplace⟩ | ⟨rfl, -, rfl⟩ <;>
      rcases hcases l y m _ hy hplace' with ⟨y', hy', hyplace⟩ | ⟨rfl, -, heq⟩
    · exact h.own k l x' y' j m addr hx' hy' hxplace hyplace
    · exact absurd heq (hlt k x' j addr hx' hxplace).ne
    · exact absurd (hlt l y' m _ hy' hyplace) (lt_irrefl _)
    · rfl

/-- `handle_reg_msg_thrd_ring` keeps the invariant when a stack is linked with a tid that is new. -/
theorem StackInv.handleRegMsgThrdRing (h : StackInv tidHashFn s) {conf : ClientThrdConf}
    {env : RegEnv} (hfresh : s.LinksStack tidHashFn conf env →
      ∀ stack ∈ s.stackHtable.toList, stack.tid ≠ conf.tid) :
    StackInv tidHashFn (s.handleRegMsgThrdRing tidHashFn conf env).1 := by
  unfold StackCtl.handleRegMsgThrdRing
  split
  · exact h
  next hoff =>
  cases hget : s.mgr.gazelleInstanceGetByPid conf.pid with
  | none => exact h
  | some found =>
    obtain ⟨i, inst⟩ := found
    obtain ⟨hinst, -⟩ := InstanceMgr.gazelleInstanceGetByPid_some hget
    dsimp only
    split
    · exact h
    next hroom =>
    cases hadd : s.gazelleStackAddByTid tidHashFn conf.tid env.calloc with
    | none => exact h
    | some s₁ =>
      -- a stack is linked, so by the condition its tid is new
      have hlinks : s.LinksStack tidHashFn conf env := by
        unfold StackCtl.gazelleStackAddByTid at hadd
        refine ⟨by simpa using hoff, by simpa [hget] using Nat.not_lt.1 hroom, ?_⟩
        split at hadd
        · cases hadd
        · next hnum =>
          split at hadd
          · next hcalloc => exact ⟨hnum, hcalloc⟩
          · cases hadd
      obtain ⟨htable, hmgr, hnext, hmem⟩ :=
        h.toTableInv.gazelleStackAddByTid (hfresh hlinks) hadd
      -- the new stack is in the table, and the others have other addresses
      have hin : s.newStack conf.tid ∈ s₁.stackHtable.toList := (hmem _).2 (.inl rfl)
      have hne : ∀ u ∈ s.stackHtable.toList, u.addr ≠ (s.newStack conf.tid).addr := fun u hu =>
        (h.fresh u hu).ne
      dsimp only
      cases hidx : LtranRegistry.gazelleGetFreeStackIdx inst with
      | none =>
        -- no place is free, and the stack is deleted again
        generalize hdel : s₁.gazelleStackDelByTid tidHashFn conf.tid = s₂
        obtain ⟨hinv, -, hleft, hmgr', -⟩ := htable.gazelleStackDelByTid hin hdel
        refine ⟨hinv, ?_, ?_, ?_⟩ <;> dsimp only <;> rw [hmgr', hmgr]
        · exact h.slots
        · -- no place had the new stack, so those that have one still have it
          intro k x j addr hx hplace
          obtain ⟨u, hu, huaddr, huindex⟩ := h.array k x j addr hx hplace
          refine ⟨u, (hleft u).2 ⟨(hmem u).2 (.inr hu), fun heq => hne u hu ?_⟩, huaddr, huindex⟩
          rw [heq]
        · exact h.own
      | some idx =>
        -- the first free place gets its address, and the stack the index of the place
        let inst' : GazelleInstance :=
          { inst with
            stackArray := Function.update inst.stackArray idx (some s.nextAddr)
            stackCnt := inst.stackCnt + 1
            regState := .regThrdRing }
        have hset : s₁.mgr.setInstance i inst' = s.mgr.setInstance i inst' := by rw [hmgr]
        have hcongr : TableInv tidHashFn { s₁ with mgr := s₁.mgr.setInstance i inst' } :=
          htable.congr rfl rfl rfl rfl
        have hindexed := hcongr.modify (s.newStack conf.tid).addr
          (f := fun stack => { stack with index := idx.val }) fun _ => ⟨rfl, rfl⟩
        unfold StackCtl.linkStack
        -- with an answer its tick is written as well
        cases env.responded with
        | true =>
          refine h.of_link hinst (show inst'.pid = inst.pid from rfl) hidx rfl rfl hset
            (TableInv.modify hindexed _ fun _ => ⟨rfl, rfl⟩) (fun u hu => ?_) ?_
          · exact mem_modify_other (mem_modify_other ((hmem u).2 (.inr hu)) (hne u hu)) (hne u hu)
          · exact ⟨_, mem_modify_self (mem_modify_self hin rfl) rfl, rfl, rfl⟩
        | false =>
          refine h.of_link hinst (show inst'.pid = inst.pid from rfl) hidx rfl rfl hset hindexed
            (fun u hu => ?_) ?_
          · exact mem_modify_other ((hmem u).2 (.inr hu)) (hne u hu)
          · exact ⟨_, mem_modify_self hin rfl, rfl, rfl⟩

/-- The registration of a process keeps the invariant, at its first and at any later time. -/
theorem StackInv.handleRegMsgProcAtt (h : StackInv tidHashFn s) (conn : ℕ) (conf : ClientProcConf)
    (env : RegEnv) :
    StackInv tidHashFn (s.handleRequest tidHashFn config conn (.procAtt conf) env).1 :=
  h.of_mgr (h.toTableInv.congr rfl rfl rfl rfl)
    (fun _ _ _ _ _ _ stack hmem haddr hindex => ⟨stack, hmem, haddr, hindex⟩)
    (arraysKept_handleRegMsgProcAtt rfl) (LtranRegistry.slotsInv_handleRegMsgProcAtt h.slots rfl)

/-- Every event that meets the condition keeps the invariant. -/
theorem StackInv.step (h : StackInv tidHashFn s) {a : StackAct} (hc : s.FreshTid tidHashFn a)
    (hstep : s.step tidHashFn config a = some s') : StackInv tidHashFn s' := by
  cases a with
  | fail conn =>
    obtain rfl := Option.some.inj hstep
    -- the mbufs of a stack do not matter for its tid and its place
    exact h.endConn conn
  | forward addr pkts =>
    obtain rfl := Option.some.inj hstep
    refine ⟨h.toTableInv.modify addr fun _ => ⟨rfl, rfl⟩, h.slots,
      fun i inst j a hinst hplace => ?_, h.own⟩
    obtain ⟨u, hu, huaddr, huindex⟩ := h.array i inst j a hinst hplace
    refine ⟨_, mem_modify.2 ⟨u, hu, rfl⟩, ?_⟩
    split <;> exact ⟨huaddr, huindex⟩
  | request conn msg env =>
    obtain rfl := Option.some.inj hstep
    -- what a request writes, whatever is answered
    have hrequest : StackInv tidHashFn (s.handleRequest tidHashFn config conn msg env).1 := by
      cases msg with
      | procMem conf =>
        exact h.of_mgr (h.toTableInv.congr rfl rfl rfl rfl)
          (fun _ _ _ _ _ _ stack hmem haddr hindex => ⟨stack, hmem, haddr, hindex⟩)
          (arraysKept_handleRegMsgProcMem rfl)
          (LtranRegistry.slotsInv_handleRegMsgProcMem h.slots rfl)
      | procAtt conf => exact h.handleRegMsgProcAtt conn conf env
      | thrdRing conf => exact h.handleRegMsgThrdRing hc
      | other => exact h
    unfold StackCtl.regConnMsgProc
    split
    · next t heq =>
      rw [heq] at hrequest
      exact hrequest
    · next t heq =>
      rw [heq] at hrequest
      -- a request that fails ends its connection
      exact hrequest.endConn conn

/-- The invariant holds when ltran starts. -/
theorem StackInv.create {maxInstanceNum maxStackNum : BitVec 32}
    (hlimit : 1 ≤ maxInstanceNum.toNat ∧ maxInstanceNum.toNat ≤ gazelleMaxInstanceNum) :
    StackInv tidHashFn (create maxInstanceNum maxStackNum) where
  table := .create
  fresh _ hmem := by simp [StackCtl.create] at hmem
  once := List.nodup_nil
  freedOld _ hmem := nomatch hmem
  freedGone _ hmem := nomatch hmem
  reads := rfl
  slots := by
    have hempty : (StackCtl.create maxInstanceNum maxStackNum).mgr.registered = ∅ := by
      ext i
      rw [InstanceMgr.mem_registered]
      exact iff_of_false Bool.false_ne_true (Finset.notMem_empty i)
    exact ⟨hlimit, by rw [hempty]; rfl, fun _ _ _ _ hinst => (nomatch hinst),
      fun _ _ hinst => (nomatch hinst), fun _ _ hinst => (nomatch hinst)⟩
  array _ _ _ _ hinst := nomatch hinst
  own _ _ _ _ _ _ _ hinst := nomatch hinst

/-- The invariant holds in every run whose steps meet the condition. -/
theorem StackInv.of_reachableUnder
    (hs : (system tidHashFn config).ReachableUnder (fun s a => s.FreshTid tidHashFn a) s) :
    StackInv tidHashFn s := by
  refine Transition.System.invariant_under (I := fun s => StackInv tidHashFn s) (fun s hinit => ?_)
    (fun _ _ _ h hc hstep => h.step hc hstep) hs
  obtain ⟨maxInstanceNum, maxStackNum, hone, hle, rfl⟩ := hinit
  exact .create ⟨hone, hle⟩

/-! ## The logout as a whole -/

/-- `handle_instance_logout` frees the stacks of the instance when its last request was one for a
thread. After another request it leaves the table of the stacks alone. -/
theorem StackInv.logoutOf_handleInstanceLogout (h : StackInv tidHashFn s) {pid : Pid}
    {i : Fin gazelleMaxInstanceNum} {inst : GazelleInstance}
    (hget : s.mgr.gazelleInstanceGetByPid pid = some (i, inst)) :
    (inst.regState = .regThrdRing → LogoutOf s i inst (s.handleInstanceLogout tidHashFn pid)) ∧
      (inst.regState ≠ .regThrdRing →
        (s.handleInstanceLogout tidHashFn pid).stackHtable = s.stackHtable ∧
          (s.handleInstanceLogout tidHashFn pid).freed = s.freed ∧
          (s.handleInstanceLogout tidHashFn pid).staleReads = s.staleReads) := by
  obtain ⟨hinst, -⟩ := InstanceMgr.gazelleInstanceGetByPid_some hget
  simp only [StackCtl.handleInstanceLogout, hget]
  refine ⟨fun hstate => ?_, fun hstate => ?_⟩
  · rw [if_pos hstate]
    -- the slot of the instance is cleared before its stacks are freed
    have hcongr : TableInv tidHashFn { s with mgr := s.mgr.offAndNull inst pid } :=
      h.toTableInv.congr rfl rfl rfl rfl
    obtain ⟨hinv, -, hfrees, hgone, hothers⟩ :=
      h.handleInstLogoutForRegThrdRing hinst hcongr rfl rfl
    refine ⟨hfrees, hgone, fun k other j addr hk hother hplace => ?_, hinv.once, hinv.reads,
      hinv.table.counted⟩
    obtain ⟨stack, hmem, haddr, -⟩ := hothers k other j addr hk hother hplace
    exact ⟨stack, hmem, haddr⟩
  · rw [if_neg hstate]
    exact ⟨rfl, rfl, rfl⟩

/-- A logout frees exactly the stacks of its instance if and only if the last request of the
instance was one for a thread, or it has no stacks. -/
theorem StackInv.logoutOf_handleInstanceLogout_iff (h : StackInv tidHashFn s) {pid : Pid}
    {i : Fin gazelleMaxInstanceNum} {inst : GazelleInstance}
    (hget : s.mgr.gazelleInstanceGetByPid pid = some (i, inst)) :
    LogoutOf s i inst (s.handleInstanceLogout tidHashFn pid) ↔
      inst.regState = .regThrdRing ∨ ∀ j, inst.stackArray j = none := by
  obtain ⟨hinst, -⟩ := InstanceMgr.gazelleInstanceGetByPid_some hget
  obtain ⟨hfrees, hskips⟩ := h.logoutOf_handleInstanceLogout hget
  by_cases hstate : inst.regState = .regThrdRing
  · exact iff_of_true (hfrees hstate) (.inl hstate)
  obtain ⟨htable, hfreed, hreads⟩ := hskips hstate
  rw [or_iff_right hstate]
  constructor
  · -- a stack of the instance would still be linked
    intro hlogout j
    by_contra hsome
    obtain ⟨addr, hplace⟩ := Option.ne_none_iff_exists'.1 hsome
    obtain ⟨stack, hmem, haddr, -⟩ := h.array i inst j addr hinst hplace
    exact hlogout.gone j addr hplace stack (htable ▸ hmem) haddr
  · intro hnone
    have hempty : (List.finRange gazelleMaxInstanceNum).filterMap inst.stackArray = [] :=
      List.filterMap_eq_nil_iff.2 fun j _ => hnone j
    refine ⟨⟨[], fun _ hmem => absurd hmem List.not_mem_nil, hempty.symm, ?_⟩,
      fun j addr hplace => ?_, fun k other j addr _ hother hplace => ?_, ?_, ?_, ?_⟩
    · rw [hfreed, List.map_nil, List.append_nil]
    · rw [hnone j] at hplace
      cases hplace
    · obtain ⟨stack, hmem, haddr, -⟩ := h.array k other j addr hother hplace
      exact ⟨stack, htable ▸ hmem, haddr⟩
    · exact hfreed ▸ h.once
    · exact hreads.trans h.reads
    · exact htable ▸ h.table.counted

/-- `handle_reg_msg_proc_att` sets `reg_state` also when the instance has stacks already, whether it
succeeds or not. So a logout after a repeated `RQT_REG_PROC_ATT` skips the stacks: none is freed. -/
theorem logout_skips_after_procAtt
    (hs : (system tidHashFn config).ReachableUnder (fun s a => s.FreshTid tidHashFn a) s)
    {conn : ℕ} {conf : ClientProcConf} {env : RegEnv} {i j : Fin gazelleMaxInstanceNum}
    {inst : GazelleInstance} {addr : ℕ}
    (hget : s.mgr.gazelleInstanceGetByPid conf.pid = some (i, inst))
    (hargc : ¬ (conf.argc.toInt < 0 ∨ gazelleMaxRegArgs < conf.argc.toInt))
    (hplace : inst.stackArray j = some addr)
    (hs' : (s.handleRequest tidHashFn config conn (.procAtt conf) env).1 = s') :
    (s'.handleInstanceLogout tidHashFn conf.pid).stackHtable = s.stackHtable ∧
      (s'.handleInstanceLogout tidHashFn conf.pid).freed = s.freed ∧
      ∃ inst', s'.mgr.gazelleInstanceGetByPid conf.pid = some (i, inst') ∧
        inst'.stackArray = inst.stackArray ∧
        ¬ LogoutOf s' i inst' (s'.handleInstanceLogout tidHashFn conf.pid) := by
  have h' : StackInv tidHashFn s' := hs' ▸ (StackInv.of_reachableUnder hs).handleRegMsgProcAtt _ _ _
  obtain ⟨-, hpid⟩ := InstanceMgr.gazelleInstanceGetByPid_some hget
  -- the instance is written back with its stacks
  obtain ⟨inst', hmgr, hstate, harray, hpid'⟩ : ∃ inst', s'.mgr = s.mgr.setInstance i inst' ∧
      inst'.regState = .regProcAtt ∧ inst'.stackArray = inst.stackArray ∧ inst'.pid = inst.pid := by
    subst hs'
    have hget' : s.registry.mgr.gazelleInstanceGetByPid conf.pid = some (i, inst) := hget
    simp only [handleRequest, LtranRegistry.handleRegMsgProcAtt, hget', if_neg hargc]
    split <;> exact ⟨_, rfl, rfl, rfl, rfl⟩
  have hget' : s'.mgr.gazelleInstanceGetByPid conf.pid = some (i, inst') := by
    refine (h'.slots.get _ _ _).2 ⟨?_, hpid'.trans hpid⟩
    rw [hmgr]
    exact Function.update_self ..
  have hne : inst'.regState ≠ .regThrdRing := by
    rw [hstate]
    decide
  obtain ⟨htable, hfreed, -⟩ := (h'.logoutOf_handleInstanceLogout hget').2 hne
  refine ⟨htable.trans (hs' ▸ rfl), hfreed.trans (hs' ▸ rfl), inst', hget', harray, ?_⟩
  rw [h'.logoutOf_handleInstanceLogout_iff hget', or_iff_right hne]
  intro hnone
  have hempty := hnone j
  rw [harray, hplace] at hempty
  cases hempty

/-! ## The theorem -/

/-- While no request links a second stack of a tid, the stacks of every instance are linked, and a
logout frees exactly them, each once and with exactly what it holds. -/
theorem logout_frees_own_stacks
    (hs : (system tidHashFn config).ReachableUnder (fun s a => s.FreshTid tidHashFn a) s) :
    s.LogoutRight tidHashFn :=
  (StackInv.of_reachableUnder hs).logoutRight

/-- A network whose only bond port has this mac address. -/
def onePort : LtranConfig := ⟨0x00ffffff, 0x01000000, [1]⟩

/-- The process `pid`. -/
def procConf (pid : Pid) : ClientProcConf := ⟨pid, 0, 0, "", 1, 0x02000001, 0⟩

/-- Nothing fails, but for the response when `responded` is `false`. -/
def regEnv (responded : Bool) : RegEnv := ⟨true, some (0, 0), true, true, responded⟩

/-- Two processes with a thread each, whose tids are in one chain; the stack of the first holds two
packets when the first is logged out. -/
theorem logout_frees_own_stacks_shared_chain :
    ∃ s, (system (fun _ => 0) onePort).ReachableUnder (fun s a => s.FreshTid (fun _ => 0) a) s ∧
      s.freed = [⟨0, [5, 6]⟩] ∧ s.LogoutRight (fun _ => 0) := by
  let acts : List StackAct :=
    [.request 1 (.procMem (procConf 7)) (regEnv true),
      .request 1 (.procAtt (procConf 7)) (regEnv true),
      .request 2 (.procMem (procConf 8)) (regEnv true),
      .request 2 (.procAtt (procConf 8)) (regEnv true),
      .request 3 (.thrdRing ⟨70, 7⟩) (regEnv true),
      .request 4 (.thrdRing ⟨80, 8⟩) (regEnv true),
      .forward 0 ⟨fun i => if i = 0 then some 5 else none, 1,
        fun i => if i = 0 then some 6 else none, 1, 0⟩,
      .fail 1]
  have hinit : (system (fun _ => 0) onePort).Init (create 2 32) :=
    ⟨2, 32, by decide, by decide, rfl⟩
  have hmeet : (system (fun _ => 0) onePort).stepsMeet (fun s a => s.FreshTid (fun _ => 0) a)
      (create 2 32) acts := by decide +kernel
  have hrun : ((system (fun _ => 0) onePort).run (create 2 32) acts).any
      (fun s => decide (s.freed = [⟨0, [5, 6]⟩])) = true := by decide +kernel
  obtain ⟨s, hs, hfreed⟩ := (Option.any_eq_true _ _).1 hrun
  have hreach := Transition.System.reachableUnder_of_run (.init hinit) hs hmeet
  exact ⟨s, hreach, of_decide_eq_true hfreed, logout_frees_own_stacks hreach⟩

/-- A thread registers, its response is not written, and it registers again: when its process is
logged out, the older of its two stacks takes the newer one out of the table, and the newer one is
read after it was freed. -/
theorem logout_reads_freed_stack :
    ¬ ∀ s, (system (fun _ => 0) onePort).Reachable s → s.LogoutRight (fun _ => 0) := by
  intro h
  have hinit : (system (fun _ => 0) onePort).Init (create 2 32) :=
    ⟨2, 32, by decide, by decide, rfl⟩
  have hrun : ((system (fun _ => 0) onePort).run (create 2 32)
      [.request 1 (.procMem (procConf 7)) (regEnv true),
        .request 1 (.procAtt (procConf 7)) (regEnv true),
        .request 2 (.thrdRing ⟨70, 7⟩) (regEnv false),
        .request 2 (.thrdRing ⟨70, 7⟩) (regEnv true),
        .fail 1]).any (fun s => decide (s.staleReads = [1] ∧ s.freed = [⟨1, []⟩])) = true := by
    decide +kernel
  obtain ⟨s, hs, hread⟩ := (Option.any_eq_true _ _).1 hrun
  have hreach := Transition.System.reachable_of_run (.init hinit) hs
  have hreads := (h s hreach).reads
  rw [(of_decide_eq_true hread).1] at hreads
  cases hreads

end StackCtl

end Gazelle
