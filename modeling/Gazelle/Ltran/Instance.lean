import Mathlib.Data.List.FinRange
import Mathlib.Logic.Function.Basic

/-!
# The instances registered with ltran

The instance manager of `ltran_instance.c` with the three registration requests and the logout,
and the part of the stack table (`ltran_stack.c`) that they use. What the operating system and
the DPDK calls return is an argument (`RegEnv`).

Each instance remembers the connection whose `RQT_REG_PROC_MEM` created it, which no function
reads. `InstanceMgr.owners` keeps of every slot the pid and this connection, and the theorems
say what each function does to it.
-/

namespace Gazelle

/-- A process id. -/
abbrev Pid := BitVec 32

/-- A thread id. -/
abbrev Tid := BitVec 32

/-- A generation tick, an `int32_t` that wraps. -/
abbrev Tick := BitVec 32

/-- An IPv4 address. -/
abbrev Ipv4 := BitVec 32

/-- `GAZELLE_MAX_INSTANCE_NUM`, which is also `GAZELLE_MAX_STACK_ARRAY_SIZE`. -/
abbrev gazelleMaxInstanceNum : ℕ := 32

theorem gazelleMaxInstanceNum_pos : 0 < gazelleMaxInstanceNum := by decide

/-- `GAZELLE_MAX_REG_ARGS`. -/
def gazelleMaxRegArgs : ℕ := 32

/-- `INSTANCE_CUR_TICK_INIT_VAL`. -/
def instanceCurTickInitVal : Tick := BitVec.ofInt 32 (-1)

/-- `INSTANCE_REG_TICK_INIT_VAL`. -/
def instanceRegTickInitVal : Tick := 0

/-- `enum request_type`. -/
inductive RequestType
  | check
  | stop
  | regProcMem
  | regProcAtt
  | regThrdRing
  deriving DecidableEq

/-- `struct client_proc_conf`. -/
structure ClientProcConf where
  /-- The process. -/
  pid : Pid
  /-- The address the process asks for, `0` for any. -/
  baseVirtaddr : BitVec 64
  /-- The size of its memory. -/
  socketSize : BitVec 64
  /-- The prefix of its DPDK files. -/
  filePrefix : String
  /-- The mac address of its port. -/
  macAddr : BitVec 48
  /-- Its address in network byte order. -/
  ipv4 : Ipv4
  /-- The number of its arguments. -/
  argc : BitVec 32
  deriving DecidableEq

/-- `struct client_thrd_conf`. -/
structure ClientThrdConf where
  /-- The stack thread. -/
  tid : Tid
  /-- Its process. -/
  pid : Pid
  deriving DecidableEq

/-- `struct gazelle_stack`, as far as the registration uses it. -/
structure GazelleStack where
  /-- The address of the structure. -/
  addr : ℕ
  /-- The place in `stack_array` of its instance, `-1` before it has one. -/
  index : ℤ
  /-- The stack thread. -/
  tid : Tid
  /-- `instance_cur_tick`: a cell of the manager, or the cell that is never on. -/
  instanceCurTick : Option (Fin gazelleMaxInstanceNum)
  /-- `instance_reg_tick`. -/
  instanceRegTick : Tick
  deriving DecidableEq

/-- `struct gazelle_instance`. -/
structure GazelleInstance where
  /-- The process. -/
  pid : Pid
  /-- Its address in network byte order. -/
  ipAddr : Ipv4
  /-- `instance_cur_tick`: the cell of the manager. -/
  instanceCurTick : Fin gazelleMaxInstanceNum
  /-- `instance_reg_tick`. -/
  instanceRegTick : Tick
  /-- The number of its stacks. -/
  stackCnt : BitVec 32
  /-- The addresses of its stacks. -/
  stackArray : Fin gazelleMaxInstanceNum → Option ℕ
  /-- The descriptor of the connection that registered it. -/
  sockfd : ℤ
  /-- How far the registration got. -/
  regState : RequestType
  /-- The virtual area reserved for it. -/
  baseVirtaddr : BitVec 64
  /-- The size of that area. -/
  socketSize : BitVec 64
  /-- The mac address of its port. -/
  macAddr : BitVec 48
  /-- The prefix of its DPDK files. -/
  filePrefix : String
  /-- The connection whose `RQT_REG_PROC_MEM` created it; nothing reads this. -/
  creator : ℕ

/-- `struct gazelle_instance_mgr`. -/
structure InstanceMgr where
  /-- The number of instances. -/
  curInstanceNum : BitVec 32
  /-- The configured limit. -/
  maxInstanceNum : BitVec 32
  /-- The tick of every slot. -/
  instanceCurTick : Fin gazelleMaxInstanceNum → Tick
  /-- The slots. -/
  instances : Fin gazelleMaxInstanceNum → Option GazelleInstance

/-- The stack table. The chains of the hash buckets are one list here: entries of one tid are in
one chain, the newest first. -/
structure StackTable where
  /-- The limit of the table. -/
  maxStackNum : BitVec 32
  /-- The entries. -/
  entries : List GazelleStack
  /-- The address the next entry will have. -/
  nextAddr : ℕ

/-- What ltran keeps of the registered processes. -/
structure LtranRegistry where
  /-- `g_instance_mgr`. -/
  mgr : InstanceMgr
  /-- `g_stack_htable`. -/
  stackTable : StackTable

/-- The configuration of ltran that the registration reads. -/
structure LtranConfig where
  /-- `dispatcher.ipv4_net_mask`, in host byte order. -/
  ipv4NetMask : Ipv4
  /-- `dispatcher.ipv4_subnet_addr`, in host byte order. -/
  ipv4SubnetAddr : Ipv4
  /-- The mac addresses of the bond ports. -/
  bondMac : List (BitVec 48)
  deriving DecidableEq

/-- What the calls outside ltran return while a request is handled. -/
structure RegEnv where
  /-- `calloc` returns memory. -/
  calloc : Bool
  /-- The area that `get_virtual_area` reserves. -/
  virtualArea : Option (BitVec 64 × BitVec 64)
  /-- The copies of `instance_info_set` succeed. -/
  copied : Bool
  /-- `rte_eal_sec_attach` succeeds. -/
  attached : Bool
  /-- The response is written. -/
  responded : Bool
  deriving DecidableEq

/-- `INSTANCE_IS_ON` of an entry with these two ticks, given the ticks of the instance manager. -/
def instanceIsOn (ticks : Fin gazelleMaxInstanceNum → Tick)
    (instanceCurTick : Option (Fin gazelleMaxInstanceNum)) (instanceRegTick : Tick) : Bool :=
  instanceRegTick = (instanceCurTick.map ticks).getD instanceCurTickInitVal

/-- `ntohl`. -/
def ntohl (x : Ipv4) : Ipv4 :=
  x.extractLsb' 0 8 ++ x.extractLsb' 8 8 ++ x.extractLsb' 16 8 ++ x.extractLsb' 24 8

namespace InstanceMgr

variable (mgr : InstanceMgr)

/-- `gazelle_instance_get_by_pid`: the slot and the instance. -/
def gazelleInstanceGetByPid (pid : Pid) :
    Option (Fin gazelleMaxInstanceNum × GazelleInstance) :=
  (List.finRange gazelleMaxInstanceNum).findSome? fun i =>
    (mgr.instances i).bind fun inst => if inst.pid = pid then some (i, inst) else none

/-- The first free slot. -/
def freeSlot : Option (Fin gazelleMaxInstanceNum) :=
  (List.finRange gazelleMaxInstanceNum).find? fun i => (mgr.instances i).isNone

/-- Write back the instance of a slot. -/
def setInstance (i : Fin gazelleMaxInstanceNum) (inst : GazelleInstance) : InstanceMgr :=
  { mgr with instances := Function.update mgr.instances i (some inst) }

/-- The instance that `gazelle_instance_add_by_pid` puts into slot `i`. Its tick differs from the
one of the slot, so that the instance is off. -/
def newInstance (i : Fin gazelleMaxInstanceNum) (pid : Pid) (creator : ℕ) : GazelleInstance where
  pid := pid
  ipAddr := 0
  instanceCurTick := i
  instanceRegTick := mgr.instanceCurTick i
  stackCnt := 0
  stackArray := fun _ => none
  sockfd := 0
  regState := .check
  baseVirtaddr := 0
  socketSize := 0
  macAddr := 0
  filePrefix := ""
  creator := creator

/-- `gazelle_instance_add_by_pid` for the connection `creator`. -/
def gazelleInstanceAddByPid (pid : Pid) (calloc : Bool) (creator : ℕ) :
    InstanceMgr × Option (Fin gazelleMaxInstanceNum × GazelleInstance) :=
  match mgr.gazelleInstanceGetByPid pid with
  | some found => (mgr, some found)
  | none =>
    if mgr.maxInstanceNum ≤ mgr.curInstanceNum then (mgr, none)
    else
      match mgr.freeSlot with
      | none => (mgr, none)
      | some i =>
        if !calloc then (mgr, none)
        else
          ({ mgr with
              curInstanceNum := mgr.curInstanceNum + 1
              instanceCurTick :=
                Function.update mgr.instanceCurTick i (mgr.instanceCurTick i + 1)
              instances := Function.update mgr.instances i (some (mgr.newInstance i pid creator)) },
            some (i, mgr.newInstance i pid creator))

/-- `gazelle_set_instance_null_by_pid`. -/
def gazelleSetInstanceNullByPid (pid : Pid) : InstanceMgr :=
  match mgr.gazelleInstanceGetByPid pid with
  | none => mgr
  | some (i, _) =>
    { mgr with
      curInstanceNum := mgr.curInstanceNum - 1
      instances := Function.update mgr.instances i none }

/-- `INSTANCE_IS_ON` of a stack. -/
def stackIsOn (stack : GazelleStack) : Bool :=
  instanceIsOn mgr.instanceCurTick stack.instanceCurTick stack.instanceRegTick

end InstanceMgr

namespace StackTable

variable (table : StackTable)

/-- `gazelle_stack_get_by_tid`. -/
def gazelleStackGetByTid (mgr : InstanceMgr) (tid : Tid) : Option GazelleStack :=
  table.entries.find? fun stack => stack.tid = tid && mgr.stackIsOn stack

/-- `gazelle_stack_add_by_tid`. -/
def gazelleStackAddByTid (tid : Tid) (calloc : Bool) : StackTable × Option GazelleStack :=
  if table.entries.length = table.maxStackNum.toNat ∨ calloc = false then (table, none)
  else
    let stack : GazelleStack :=
      { addr := table.nextAddr
        index := -1
        tid := tid
        instanceCurTick := none
        instanceRegTick := instanceRegTickInitVal }
    ({ table with entries := stack :: table.entries, nextAddr := table.nextAddr + 1 }, some stack)

/-- `gazelle_stack_del_by_tid`. -/
def gazelleStackDelByTid (tid : Tid) : StackTable :=
  { table with entries := table.entries.eraseP fun stack => stack.tid = tid }

/-- Write to the fields of the entry at an address. -/
def modify (addr : ℕ) (f : GazelleStack → GazelleStack) : StackTable :=
  { table with entries := table.entries.map fun s => if s.addr = addr then f s else s }

end StackTable

/-- `instance_match_bond_port`. -/
def instanceMatchBondPort (config : LtranConfig) (macAddr : BitVec 48) : Option ℕ :=
  config.bondMac.findIdx? (· = macAddr)

/-- `instance_info_check`. -/
def instanceInfoCheck (config : LtranConfig) (mgr : InstanceMgr) (conf : ClientProcConf) : Bool :=
  let inIpv4 := ntohl conf.ipv4
  if inIpv4 = BitVec.allOnes 32 then false
  else if inIpv4 &&& config.ipv4NetMask = BitVec.allOnes 32 &&& config.ipv4NetMask then false
  else if inIpv4 &&& config.ipv4NetMask = 0 then false
  else if inIpv4 &&& ~~~config.ipv4NetMask ≠ config.ipv4SubnetAddr then false
  else if (mgr.gazelleInstanceGetByPid conf.pid).isSome then false
  else (instanceMatchBondPort config conf.macAddr).isSome

/-- `instance_info_set`, which fails after its first fields when a copy fails. -/
def instanceInfoSet (inst : GazelleInstance) (conf : ClientProcConf) (copied : Bool) :
    GazelleInstance × Bool :=
  let inst :=
    { inst with
      ipAddr := conf.ipv4
      pid := conf.pid
      baseVirtaddr := conf.baseVirtaddr
      socketSize := conf.socketSize
      stackCnt := 0 }
  if copied then
    ({ inst with
        filePrefix := conf.filePrefix
        stackArray := fun _ => none
        macAddr := conf.macAddr }, true)
  else (inst, false)

namespace LtranRegistry

variable (reg : LtranRegistry)

/-- `handle_reg_msg_proc_mem` for the connection `creator` with descriptor `fd`: the registry
afterwards and whether the request succeeded. -/
def handleRegMsgProcMem (config : LtranConfig) (fd : ℤ) (creator : ℕ) (conf : ClientProcConf)
    (env : RegEnv) : LtranRegistry × Bool :=
  if instanceInfoCheck config reg.mgr conf then
    match reg.mgr.gazelleInstanceAddByPid conf.pid env.calloc creator with
    | (mgr, none) => ({ reg with mgr := mgr }, false)
    | (mgr, some (i, inst)) =>
      let inst := { inst with regState := .regProcMem }
      match env.virtualArea with
      | none => ({ reg with mgr := mgr.setInstance i inst }, false)
      | some (base, size) =>
        let conf := { conf with baseVirtaddr := base, socketSize := size }
        match instanceInfoSet inst conf env.copied with
        | (inst, false) => ({ reg with mgr := mgr.setInstance i inst }, false)
        | (inst, true) =>
          ({ reg with mgr := mgr.setInstance i { inst with sockfd := fd } }, env.responded)
  else (reg, false)

/-- `handle_reg_msg_proc_att`. -/
def handleRegMsgProcAtt (conf : ClientProcConf) (env : RegEnv) : LtranRegistry × Bool :=
  match reg.mgr.gazelleInstanceGetByPid conf.pid with
  | none => (reg, false)
  | some (i, inst) =>
    if conf.argc.toInt < 0 ∨ gazelleMaxRegArgs < conf.argc.toInt then (reg, false)
    else
      let inst := { inst with regState := .regProcAtt }
      if !env.attached ∨ !env.responded then ({ reg with mgr := reg.mgr.setInstance i inst }, false)
      else
        ({ reg with
            mgr := reg.mgr.setInstance i
              { inst with instanceRegTick := reg.mgr.instanceCurTick inst.instanceCurTick } },
          true)

/-- `gazelle_get_free_stack_idx`. -/
def gazelleGetFreeStackIdx (inst : GazelleInstance) : Option (Fin gazelleMaxInstanceNum) :=
  (List.finRange gazelleMaxInstanceNum).find? fun i => (inst.stackArray i).isNone

/-- `handle_reg_msg_thrd_ring`. -/
def handleRegMsgThrdRing (conf : ClientThrdConf) (env : RegEnv) : LtranRegistry × Bool :=
  if (reg.stackTable.gazelleStackGetByTid reg.mgr conf.tid).isSome then (reg, env.responded)
  else
    match reg.mgr.gazelleInstanceGetByPid conf.pid with
    | none => (reg, false)
    | some (i, inst) =>
      if gazelleMaxInstanceNum - 1 < inst.stackCnt.toNat then (reg, false)
      else
        match reg.stackTable.gazelleStackAddByTid conf.tid env.calloc with
        | (table, none) => ({ reg with stackTable := table }, false)
        | (table, some stack) =>
          match gazelleGetFreeStackIdx inst with
          | none => ({ reg with stackTable := table.gazelleStackDelByTid conf.tid }, false)
          | some idx =>
            let inst :=
              { inst with
                stackArray := Function.update inst.stackArray idx (some stack.addr)
                stackCnt := inst.stackCnt + 1
                regState := .regThrdRing }
            let table := table.modify stack.addr fun s => { s with index := idx.val }
            let mgr := reg.mgr.setInstance i inst
            if env.responded then
              ({ reg with
                  mgr := mgr
                  stackTable := table.modify stack.addr fun s =>
                    { s with
                      instanceRegTick := inst.instanceRegTick
                      instanceCurTick := some inst.instanceCurTick } }, true)
            else ({ reg with mgr := mgr, stackTable := table }, false)

/-- `handle_inst_logout_for_reg_thrd_ring`: the stacks of the instance leave the table. -/
def handleInstLogoutForRegThrdRing (inst : GazelleInstance) (table : StackTable) : StackTable :=
  ((List.finRange gazelleMaxInstanceNum).foldl
    (fun (acc : GazelleInstance × StackTable) i =>
      if acc.1.stackCnt = 0 then acc
      else
        match acc.1.stackArray i with
        | none => acc
        | some addr =>
          match acc.2.entries.find? (·.addr = addr) with
          | none => acc
          | some stack =>
            ({ acc.1 with
                stackArray := fun j =>
                  if (j.val : ℤ) = stack.index then none else acc.1.stackArray j
                stackCnt := acc.1.stackCnt - 1 },
              acc.2.gazelleStackDelByTid stack.tid))
    (inst, table)).2

/-- `handle_instance_logout`. -/
def handleInstanceLogout (pid : Pid) : LtranRegistry :=
  match reg.mgr.gazelleInstanceGetByPid pid with
  | none => reg
  | some (_, inst) =>
    let mgr :=
      { reg.mgr with
        instanceCurTick := Function.update reg.mgr.instanceCurTick inst.instanceCurTick
          (reg.mgr.instanceCurTick inst.instanceCurTick + 1) }
    { mgr := mgr.gazelleSetInstanceNullByPid pid
      stackTable := if inst.regState = .regThrdRing then
          handleInstLogoutForRegThrdRing inst reg.stackTable
        else reg.stackTable }

end LtranRegistry

/-! ## What the functions do to the owners -/

namespace InstanceMgr

/-- Of every slot the pid of its instance and the connection that created it. -/
def owners (mgr : InstanceMgr) (i : Fin gazelleMaxInstanceNum) : Option (Pid × ℕ) :=
  (mgr.instances i).map fun inst => (inst.pid, inst.creator)

variable {mgr : InstanceMgr} {pid : Pid}

/-- The instance found by `gazelle_instance_get_by_pid` is in its slot and has the pid. -/
theorem gazelleInstanceGetByPid_some {i : Fin gazelleMaxInstanceNum} {inst : GazelleInstance}
    (h : mgr.gazelleInstanceGetByPid pid = some (i, inst)) :
    mgr.instances i = some inst ∧ inst.pid = pid := by
  obtain ⟨j, -, hj⟩ := List.exists_of_findSome?_eq_some h
  obtain ⟨found, hfound, hpid⟩ := Option.bind_eq_some_iff.1 hj
  split at hpid
  · rename_i heq
    simp only [Option.some.injEq, Prod.mk.injEq] at hpid
    obtain ⟨rfl, rfl⟩ := hpid
    exact ⟨hfound, heq⟩
  · cases hpid

/-- When `gazelle_instance_get_by_pid` finds nothing, no instance has the pid. -/
theorem gazelleInstanceGetByPid_none (h : mgr.gazelleInstanceGetByPid pid = none)
    {i : Fin gazelleMaxInstanceNum} {c : ℕ} : mgr.owners i ≠ some (pid, c) := by
  intro howner
  obtain ⟨inst, hinst, heq⟩ := Option.map_eq_some_iff.1 howner
  rw [Prod.mk.injEq] at heq
  have hnone := List.findSome?_eq_none_iff.1 h i (List.mem_finRange i)
  simp [hinst, heq.1] at hnone

/-- `gazelle_instance_get_by_pid` finds nothing exactly when no instance has the pid. -/
theorem gazelleInstanceGetByPid_eq_none :
    mgr.gazelleInstanceGetByPid pid = none ↔ ∀ i c, mgr.owners i ≠ some (pid, c) := by
  refine ⟨fun h i c => gazelleInstanceGetByPid_none h, fun h => ?_⟩
  cases hget : mgr.gazelleInstanceGetByPid pid with
  | none => rfl
  | some found =>
    obtain ⟨i, inst⟩ := found
    obtain ⟨hinst, rfl⟩ := gazelleInstanceGetByPid_some hget
    exact absurd (by rw [owners, hinst, Option.map_some]) (h i inst.creator)

/-- The slot found by `gazelle_instance_get_by_pid` has the pid. -/
theorem owners_of_getByPid {i : Fin gazelleMaxInstanceNum} {inst : GazelleInstance}
    (h : mgr.gazelleInstanceGetByPid pid = some (i, inst)) :
    mgr.owners i = some (pid, inst.creator) := by
  obtain ⟨hinst, hpid⟩ := gazelleInstanceGetByPid_some h
  rw [owners, hinst, Option.map_some, hpid]

/-- Writing back an instance with the same pid and creator leaves the owners alone. -/
theorem owners_setInstance {i : Fin gazelleMaxInstanceNum} {inst : GazelleInstance}
    (h : mgr.owners i = some (inst.pid, inst.creator)) :
    (mgr.setInstance i inst).owners = mgr.owners := by
  funext j
  by_cases hj : j = i
  · subst hj
    rw [h]
    simp [owners, setInstance]
  · simp [owners, setInstance, Function.update_of_ne hj]

/-- A free slot has no owner. -/
theorem owners_freeSlot {i : Fin gazelleMaxInstanceNum} (h : mgr.freeSlot = some i) :
    mgr.owners i = none := by
  have hnone := List.find?_some h
  rw [owners, Option.map_eq_none_iff]
  exact Option.isNone_iff_eq_none.1 hnone

/-- `gazelle_instance_add_by_pid` of a new pid fails, or puts it into a slot that was free. -/
theorem owners_addByPid (hnew : mgr.gazelleInstanceGetByPid pid = none) {calloc : Bool}
    {creator : ℕ} {mgr' : InstanceMgr}
    {found : Option (Fin gazelleMaxInstanceNum × GazelleInstance)}
    (h : mgr.gazelleInstanceAddByPid pid calloc creator = (mgr', found)) :
    (found = none ∧ mgr'.owners = mgr.owners) ∨
      ∃ i inst, found = some (i, inst) ∧ inst.pid = pid ∧ inst.creator = creator ∧
        mgr.owners i = none ∧ mgr'.owners = Function.update mgr.owners i (some (pid, creator)) := by
  unfold gazelleInstanceAddByPid at h
  rw [hnew] at h
  simp only at h
  split at h
  · cases h
    exact .inl ⟨rfl, rfl⟩
  · split at h
    · cases h
      exact .inl ⟨rfl, rfl⟩
    · rename_i i hfree
      split at h <;> cases h
      · exact .inl ⟨rfl, rfl⟩
      · refine .inr ⟨i, _, rfl, rfl, rfl, owners_freeSlot hfree, ?_⟩
        funext j
        by_cases hj : j = i
        · subst hj
          simp [owners, newInstance]
        · simp [owners, Function.update_of_ne hj]

end InstanceMgr

namespace LtranRegistry

variable {reg reg' : LtranRegistry} {ok : Bool}

/-- A refused request changes nothing. -/
theorem handleRegMsgProcMem_refused {config : LtranConfig} {fd : ℤ} {creator : ℕ}
    {conf : ClientProcConf} {env : RegEnv} (h : instanceInfoCheck config reg.mgr conf = false) :
    reg.handleRegMsgProcMem config fd creator conf env = (reg, false) := by
  rw [handleRegMsgProcMem, h]
  rfl

/-- An accepted request has a pid that is not registered. -/
theorem getByPid_of_instanceInfoCheck {config : LtranConfig} {mgr : InstanceMgr}
    {conf : ClientProcConf} (h : instanceInfoCheck config mgr conf = true) :
    mgr.gazelleInstanceGetByPid conf.pid = none := by
  unfold instanceInfoCheck at h
  by_contra hsome
  have hisSome : (mgr.gazelleInstanceGetByPid conf.pid).isSome = true :=
    Option.isSome_iff_ne_none.2 hsome
  simp [hisSome] at h

/-- A request that is not refused fails early, or puts the pid into a slot that was free. -/
theorem owners_handleRegMsgProcMem {config : LtranConfig} {fd : ℤ} {creator : ℕ}
    {conf : ClientProcConf} {env : RegEnv} (hcheck : instanceInfoCheck config reg.mgr conf = true)
    (h : reg.handleRegMsgProcMem config fd creator conf env = (reg', ok)) :
    (ok = false ∧ reg'.mgr.owners = reg.mgr.owners) ∨
      ∃ i, reg.mgr.owners i = none ∧
        reg'.mgr.owners = Function.update reg.mgr.owners i (some (conf.pid, creator)) := by
  rw [handleRegMsgProcMem, if_pos hcheck] at h
  split at h
  · rename_i mgr hadd
    cases h
    rcases InstanceMgr.owners_addByPid (getByPid_of_instanceInfoCheck hcheck) hadd with
      ⟨-, howners⟩ | ⟨i, inst, hfound, -⟩
    · exact .inl ⟨rfl, howners⟩
    · cases hfound
  · rename_i mgr i inst hadd
    rcases InstanceMgr.owners_addByPid (getByPid_of_instanceInfoCheck hcheck) hadd with
      ⟨hfound, -⟩ | ⟨i', inst', hfound, hpid, hcreator, hfree, howners⟩
    · cases hfound
    · cases hfound
      right
      refine ⟨i, hfree, ?_⟩
      rw [← howners]
      -- what is written afterwards is an instance with this pid and creator
      have hset : ∀ inst' : GazelleInstance, inst'.pid = conf.pid → inst'.creator = creator →
          (mgr.setInstance i inst').owners = mgr.owners := by
        intro inst' hpid' hcreator'
        apply InstanceMgr.owners_setInstance
        rw [howners, Function.update_self, hpid', hcreator']
      split at h
      · cases h
        exact hset _ hpid hcreator
      · cases hcopied : env.copied <;> simp only [instanceInfoSet, hcopied] at h <;> cases h <;>
          exact hset _ rfl hcreator

/-- `handle_reg_msg_proc_att` leaves the owners alone. -/
theorem owners_handleRegMsgProcAtt {conf : ClientProcConf} {env : RegEnv}
    (h : reg.handleRegMsgProcAtt conf env = (reg', ok)) : reg'.mgr.owners = reg.mgr.owners := by
  unfold handleRegMsgProcAtt at h
  split at h
  · cases h
    rfl
  · rename_i i inst hget
    have howner := InstanceMgr.owners_of_getByPid hget
    rw [← (InstanceMgr.gazelleInstanceGetByPid_some hget).2] at howner
    split at h
    · cases h
      rfl
    · split at h <;> cases h <;> exact InstanceMgr.owners_setInstance howner

/-- `handle_reg_msg_thrd_ring` leaves the owners alone. -/
theorem owners_handleRegMsgThrdRing {conf : ClientThrdConf} {env : RegEnv}
    (h : reg.handleRegMsgThrdRing conf env = (reg', ok)) : reg'.mgr.owners = reg.mgr.owners := by
  unfold handleRegMsgThrdRing at h
  split at h
  · cases h
    rfl
  split at h
  · cases h
    rfl
  rename_i i inst hget
  have howner := InstanceMgr.owners_of_getByPid hget
  rw [← (InstanceMgr.gazelleInstanceGetByPid_some hget).2] at howner
  split at h
  · cases h
    rfl
  split at h
  · cases h
    rfl
  split at h
  · cases h
    rfl
  · split at h <;> cases h <;> exact InstanceMgr.owners_setInstance howner

variable (reg) in
/-- `handle_instance_logout` clears the slot of the pid, if there is one. -/
theorem owners_handleInstanceLogout (pid : Pid) :
    (reg.mgr.gazelleInstanceGetByPid pid = none ∧
        (reg.handleInstanceLogout pid).mgr.owners = reg.mgr.owners) ∨
      ∃ i inst, reg.mgr.gazelleInstanceGetByPid pid = some (i, inst) ∧
        (reg.handleInstanceLogout pid).mgr.owners = Function.update reg.mgr.owners i none := by
  unfold handleInstanceLogout
  cases hget : reg.mgr.gazelleInstanceGetByPid pid with
  | none => exact .inl ⟨rfl, rfl⟩
  | some found =>
    obtain ⟨i, inst⟩ := found
    refine .inr ⟨i, inst, rfl, ?_⟩
    simp only
    -- the tick does not matter for the search
    have hget' : InstanceMgr.gazelleInstanceGetByPid
        { reg.mgr with
          instanceCurTick := Function.update reg.mgr.instanceCurTick inst.instanceCurTick
            (reg.mgr.instanceCurTick inst.instanceCurTick + 1) } pid = some (i, inst) := hget
    unfold InstanceMgr.gazelleSetInstanceNullByPid
    rw [hget']
    funext j
    by_cases hj : j = i
    · subst hj
      simp [InstanceMgr.owners]
    · simp [InstanceMgr.owners, Function.update_of_ne hj]

end LtranRegistry

end Gazelle
