import Mathlib.Data.Nat.Notation
import Mathlib.Data.Int.Notation
import Mathlib.Algebra.Order.Ring.Int
import Mathlib.Algebra.Order.Ring.Nat
import Mathlib.Tactic.Common

/-!
# The settings and the arrays of the stacks

The numbers of cores, processes, connections and mbufs come from the configuration.
`init_protocol_stack`, `init_stack_value` and `dpdk_ethdev_start` use them as indexes of arrays with
`PROTOCOL_STACK_MAX` entries, and multiply them in integers of fixed width.

* `parseConfFile`: the settings that are accepted, and the parameters that they give;
* `startUp`: the indexes that are used when a process starts, for any outcome of the calls it makes;
* `safe_iff`: the parameters with which a process stays inside the arrays;
* `deployment_iff`: the processes that stay inside the arrays and use queues of their own, for any
  accepted configurations;
* `not_right_four_processes`: four processes of nine queues.
-/

namespace Gazelle

namespace StackArrays

/-- `PROTOCOL_STACK_MAX`. -/
def protocolStackMax : ℕ := 32

/-- `CFG_MAX_CPUS`. -/
def cfgMaxCpus : ℤ := 512

/-! ## The configuration -/

/-- The settings that are read; a number is `none` if it is missing. -/
structure Settings where
  /-- `use_ltran`. -/
  useLtran : Option ℤ
  /-- `primary` is among the arguments for DPDK. -/
  isPrimary : Bool
  /-- `seperate_send_recv`. -/
  seperateSendRecv : Option ℤ
  /-- What `separate_str_to_array` returns for `num_cpus`. -/
  numCpus : Option ℤ
  /-- What it returns for `send_num_cpus`. -/
  sendNumCpus : Option ℤ
  /-- What it returns for `recv_num_cpus`. -/
  recvNumCpus : Option ℤ
  /-- `tcp_conn_count`. -/
  tcpConnCount : Option ℤ
  /-- `mbuf_count_per_conn`. -/
  mbufCountPerConn : Option ℤ
  /-- `num_process`. -/
  numProcess : Option ℤ
  /-- What `separate_str_to_array` returns for `process_numa`. -/
  processNuma : Option ℤ
  /-- `process_idx`. -/
  processIdx : Option ℤ

/-- The parameters in `struct cfg_params`. -/
structure Params where
  /-- `use_ltran`. -/
  useLtran : Bool
  /-- `is_primary`. -/
  isPrimary : Bool
  /-- `seperate_send_recv`. -/
  seperateSendRecv : Bool
  /-- `num_cpu`. -/
  numCpu : ℕ
  /-- `num_queue`. -/
  numQueue : ℕ
  /-- `tot_queue_num`. -/
  totQueueNum : ℕ
  /-- `tcp_conn_count`. -/
  tcpConnCount : ℕ
  /-- `mbuf_count_per_conn`. -/
  mbufCountPerConn : ℕ
  /-- `num_process`. -/
  numProcess : ℕ
  /-- `process_idx`. -/
  processIdx : ℕ
  deriving DecidableEq

/-- `PARSE_ARG`. -/
def parseArg (val : Option ℤ) (default min max : ℤ) : Option ℤ :=
  match val with
  | none => some default
  | some val => if val < min ∨ val > max then none else some val

/-- `(uint8_t)`. -/
def toUint8 (n : ℤ) : ℕ := (n % 2 ^ 8).toNat

/-- `(uint16_t)`. -/
def toUint16 (n : ℕ) : ℕ := n % 2 ^ 16

/-- `(uint32_t)`. -/
def toUint32 (n : ℕ) : ℕ := n % 2 ^ 32

/-- `parse_stack_cpu_number`: `num_cpu` and `num_queue`. -/
def parseStackCpuNumber (s : Settings) (seperate : Bool) : Option (ℕ × ℕ) :=
  if seperate = false then
    match s.numCpus with
    | none => none
    | some cnt =>
      if cnt ≤ 0 ∨ cnt > cfgMaxCpus then none
      else some (toUint16 cnt.toNat, toUint16 cnt.toNat)
  else
    match s.sendNumCpus, s.recvNumCpus with
    | some sendCnt, some recvCnt =>
      if sendCnt ≤ 0 ∨ sendCnt > cfgMaxCpus / 2 ∨ sendCnt ≠ recvCnt then none
      else some (toUint16 sendCnt.toNat, toUint16 (toUint16 sendCnt.toNat * 2))
    | _, _ => none

/-- `parse_num_process`: `num_process` and `tot_queue_num`. With ltran neither is set here. -/
def parseNumProcess (s : Settings) (useLtran : Bool) (numQueue : ℕ) : ℕ × ℕ :=
  if useLtran then (0, numQueue)
  else
    let numProcess := s.numProcess.elim 1 toUint8
    (numProcess, toUint16 (numQueue * numProcess))

/-- `parse_process_numa` accepts its setting. -/
def processNumaOk (s : Settings) : Bool := s.processNuma.all fun ret => 0 < ret

/-- `parse_process_index`. -/
def parseProcessIndex (s : Settings) (useLtran : Bool) (numProcess : ℕ) : Option ℕ :=
  if useLtran then some 0
  else
    match s.processIdx with
    | none => if numProcess = 1 then some 0 else none
    | some idx =>
      if s.isPrimary = true ∧ toUint8 idx ≠ 0 ∨ s.isPrimary = false ∧ toUint8 idx = 0 then none
      else some (toUint8 idx)

/-- `parse_conf_file`: the parameters, if the settings are accepted. -/
def parseConfFile (s : Settings) : Option Params := do
  let useLtran ← parseArg s.useLtran 1 0 1
  let seperate ← parseArg s.seperateSendRecv 0 0 1
  let (numCpu, numQueue) ← parseStackCpuNumber s (seperate ≠ 0)
  let tcpConnCount ← parseArg s.tcpConnCount 1500 1 1500
  let mbufCountPerConn ← parseArg s.mbufCountPerConn 170 1 (2 ^ 31 - 1)
  let (numProcess, totQueueNum) := parseNumProcess s (useLtran ≠ 0) numQueue
  if processNumaOk s then
    let processIdx ← parseProcessIndex s (useLtran ≠ 0) numProcess
    some {
      useLtran := useLtran ≠ 0, isPrimary := s.isPrimary, seperateSendRecv := seperate ≠ 0,
      numCpu, numQueue, totQueueNum, tcpConnCount := tcpConnCount.toNat,
      mbufCountPerConn := mbufCountPerConn.toNat, numProcess, processIdx }
  else none

/-! ## The start of a process -/

/-- The outcomes of the calls that are made. -/
structure Env where
  /-- `create_pktmbuf_mempool` for a queue. -/
  pool : ℕ → Bool
  /-- `pthread_create` for a thread. -/
  thread : ℕ → Bool
  /-- `pthread_setname_np` for it. -/
  named : ℕ → Bool
  /-- `epoll_create` in a thread. -/
  epoll : ℕ → Bool
  /-- Everything between `init_protocol_stack` and `dpdk_ethdev_start`. -/
  ethdev : Bool
  /-- `rte_eth_rx_queue_setup` and `rte_eth_tx_queue_setup`. -/
  queue : ℕ → Bool

/-- An index that is used. -/
inductive Use
  /-- An entry of `total_rxtx_pktmbuf_pool`. -/
  | pool (idx : ℕ)
  /-- An entry of `stacks`. -/
  | stack (idx : ℕ)
  /-- An entry of `process_numa`. -/
  | numa (idx : ℕ)
  /-- An entry of `cpus`. -/
  | cpu (idx : ℕ)
  /-- An entry of `send_cpus`. -/
  | sendCpu (idx : ℕ)
  /-- An entry of `recv_cpus`. -/
  | recvCpu (idx : ℕ)
  /-- `queue_id` of the thread with this `idx`. -/
  | queueId (idx queueId : ℕ)
  deriving DecidableEq

/-- The loop over the mempools: `k` rounds from `idx` on. -/
def poolLoop (env : Env) : ℕ → ℕ → List Use × Bool
  | 0, _ => ([], true)
  | k + 1, idx =>
    if env.pool idx then
      let rest := poolLoop env k (idx + 1)
      (.pool idx :: rest.1, rest.2)
    else ([], false)

/-- `init_stack_value`. -/
def initStackValue (p : Params) (env : Env) (idx : ℕ) : List Use :=
  .stack idx ::
    if env.epoll idx = false then []
    else if p.seperateSendRecv then
      if idx % 2 = 0 then [.recvCpu (idx / 2)] else [.sendCpu (idx / 2)]
    else [.cpu idx]

/-- The queue of the first thread, before it is cut off. -/
def Params.firstQueue (p : Params) : ℕ := p.processIdx * p.numQueue

/-- `queue_id` of a thread. -/
def queueIdOf (p : Params) (i : ℕ) : ℕ := toUint16 (p.firstQueue + i)

/-- The loop over the threads: `k` rounds from `i` on. `create_thread` refuses a queue from
`PROTOCOL_STACK_MAX` on. It also fails if the thread has been created but gets no name. -/
def threadLoop (p : Params) (env : Env) : ℕ → ℕ → List Use × Bool
  | 0, _ => ([], true)
  | k + 1, i =>
    if queueIdOf p i ≥ protocolStackMax then ([.queueId i (queueIdOf p i)], false)
    else if env.thread i then
      let rest := if env.named i then threadLoop p env k (i + 1) else ([], false)
      (.queueId i (queueIdOf p i) :: (initStackValue p env i ++ rest.1), rest.2)
    else ([.queueId i (queueIdOf p i)], false)

/-- `total_mbufs`. -/
def totalMbufs (p : Params) : ℕ := toUint32 (p.mbufCountPerConn * p.tcpConnCount)

/-- `init_protocol_stack`. -/
def initProtocolStack (p : Params) (env : Env) : List Use × Bool :=
  let pools := if p.isPrimary then poolLoop env p.totQueueNum 0 else ([], true)
  if pools.2 then
    let threads := threadLoop p env p.numQueue 0
    (pools.1 ++ threads.1, threads.2)
  else pools

/-- `dpdk_ethdev_setup`. -/
def dpdkEthdevSetup (p : Params) (idx : ℕ) : List Use :=
  [.pool idx, if p.useLtran = false ∧ p.numProcess = 1 then .cpu idx else .numa idx]

/-- The loop of `dpdk_ethdev_start`: `k` rounds from `i` on. -/
def ethdevLoop (p : Params) (env : Env) : ℕ → ℕ → List Use
  | 0, _ => []
  | k + 1, i => dpdkEthdevSetup p i ++ if env.queue i then ethdevLoop p env k (i + 1) else []

/-- `dpdk_ethdev_start`. -/
def dpdkEthdevStart (p : Params) (env : Env) : List Use := ethdevLoop p env p.totQueueNum 0

/-- The indexes that are used when a process starts; without ltran, the primary process sets up the
device. -/
def startUp (p : Params) (env : Env) : List Use :=
  let init := initProtocolStack p env
  init.1 ++
    if init.2 = true ∧ p.useLtran = false ∧ p.isPrimary = true ∧ env.ethdev = true then
      dpdkEthdevStart p env
    else []

/-! ## What is asked of a configuration -/

/-- An index is inside its array: below `PROTOCOL_STACK_MAX`, or below the number of configured
values. A queue id is not cut off. -/
def Use.Inside (p : Params) : Use → Prop
  | .pool idx => idx < protocolStackMax
  | .stack idx => idx < protocolStackMax
  | .numa idx => idx < protocolStackMax
  | .cpu idx => idx < if p.seperateSendRecv then 0 else p.numCpu
  | .sendCpu idx => idx < if p.seperateSendRecv then p.numCpu else 0
  | .recvCpu idx => idx < if p.seperateSendRecv then p.numCpu else 0
  | .queueId i q => q = p.firstQueue + i

/-- A process stays inside the arrays, and no product is cut off. -/
structure Safe (p : Params) : Prop where
  /-- The indexes. -/
  inside : ∀ env, ∀ u ∈ startUp p env, u.Inside p
  /-- `tot_queue_num`. -/
  totQueueNum : p.useLtran = false → p.totQueueNum = p.numQueue * p.numProcess
  /-- `total_mbufs`. -/
  totalMbufs : p.isPrimary = true → totalMbufs p = p.mbufCountPerConn * p.tcpConnCount

/-- When a process is safe. -/
structure Fits (p : Params) : Prop where
  /-- There are fewer than `2 ^ 16` queues of all processes. -/
  queues : p.useLtran = false → p.numQueue * p.numProcess < 2 ^ 16
  /-- The first queue of the process is below `2 ^ 16`. -/
  firstQueue : p.firstQueue < 2 ^ 16
  /-- The primary process has mempools for at most `PROTOCOL_STACK_MAX` queues. -/
  pools : p.isPrimary = true → p.totQueueNum ≤ protocolStackMax
  /-- It has fewer than `2 ^ 32` mbufs. -/
  mbufs : p.isPrimary = true → p.mbufCountPerConn * p.tcpConnCount < 2 ^ 32
  /-- A single process without ltran does not separate the threads. -/
  single : p.isPrimary = true → p.useLtran = false → p.numProcess = 1 → p.seperateSendRecv = false

/-! ## The parameters that are accepted -/

/-- What is known about the parameters of settings that are accepted. -/
structure Accepted (s : Settings) (p : Params) : Prop where
  /-- The numbers of cores and queues come from the settings for the cores. -/
  cores : parseStackCpuNumber s p.seperateSendRecv = some (p.numCpu, p.numQueue)
  /-- `seperate_send_recv` comes from its setting. -/
  seperate : (parseArg s.seperateSendRecv 0 0 1).map (fun val => decide (val ≠ 0)) =
    some p.seperateSendRecv
  /-- `use_ltran` comes from its setting. -/
  ltran : (parseArg s.useLtran 1 0 1).map (fun val => decide (val ≠ 0)) = some p.useLtran
  /-- The numbers of processes and queues. -/
  processes : parseNumProcess s p.useLtran p.numQueue = (p.numProcess, p.totQueueNum)
  /-- The index of the process. -/
  index : parseProcessIndex s p.useLtran p.numProcess = some p.processIdx
  /-- `is_primary`. -/
  isPrimary : p.isPrimary = s.isPrimary

theorem accepted_of_parseConfFile {s : Settings} {p : Params} (h : parseConfFile s = some p) :
    Accepted s p := by
  unfold parseConfFile at h
  simp only [Option.bind_eq_bind, Option.bind_eq_some_iff] at h
  obtain ⟨ltran, hltran, seperate, hseperate, ⟨numCpu, numQueue⟩, hcores, tcp, -, mbuf, -, h⟩ := h
  dsimp only at h
  split at h
  · obtain ⟨idx, hidx, hp⟩ := Option.bind_eq_some_iff.1 h
    obtain rfl := Option.some.inj hp
    refine ⟨hcores, ?_, ?_, rfl, hidx, rfl⟩
    · rw [hseperate]
      rfl
    · rw [hltran]
      rfl
  · exact absurd h (by simp)

section Accepted

variable {s : Settings} {p : Params}

/-- The cores of an accepted configuration: a queue for each core, or two. -/
theorem Accepted.numQueue (h : Accepted s p) : 1 ≤ p.numCpu ∧ p.numQueue ≤ 512 ∧
    p.numQueue = if p.seperateSendRecv then 2 * p.numCpu else p.numCpu := by
  have hcores := h.cores
  unfold parseStackCpuNumber cfgMaxCpus toUint16 at hcores
  by_cases hsep : p.seperateSendRecv = false
  · rw [if_pos hsep] at hcores
    cases hnum : s.numCpus with
    | none => simp [hnum] at hcores
    | some cnt =>
      rw [hnum] at hcores
      dsimp only at hcores
      split at hcores
      · exact absurd hcores (by simp)
      · obtain ⟨hcpu, hqueue⟩ := Prod.mk.inj (Option.some.inj hcores)
        rw [hsep, if_neg (by decide)]
        omega
  · rw [if_neg hsep] at hcores
    rw [Bool.not_eq_false] at hsep
    cases hsend : s.sendNumCpus with
    | none => simp [hsend] at hcores
    | some sendCnt =>
      cases hrecv : s.recvNumCpus with
      | none => simp [hsend, hrecv] at hcores
      | some recvCnt =>
        rw [hsend, hrecv] at hcores
        dsimp only at hcores
        split at hcores
        · exact absurd hcores (by simp)
        · obtain ⟨hcpu, hqueue⟩ := Prod.mk.inj (Option.some.inj hcores)
          rw [hsep, if_pos rfl]
          omega

/-- With ltran there is one process, with index 0. -/
theorem Accepted.of_ltran (h : Accepted s p) (hltran : p.useLtran = true) :
    p.totQueueNum = p.numQueue ∧ p.processIdx = 0 := by
  have hproc := h.processes
  have hidx := h.index
  rw [parseNumProcess, if_pos hltran] at hproc
  rw [parseProcessIndex, if_pos hltran] at hidx
  exact ⟨(Prod.mk.inj hproc).2.symm, (Option.some.inj hidx).symm⟩

/-- Without ltran the number of all queues is a product, and the primary process has index 0. -/
theorem Accepted.of_not_ltran (h : Accepted s p) (hltran : p.useLtran = false) :
    p.totQueueNum = toUint16 (p.numQueue * p.numProcess) ∧
      (p.isPrimary = true → p.processIdx = 0) := by
  have hproc := h.processes
  have hidx := h.index
  rw [parseNumProcess, hltran, if_neg (by decide)] at hproc
  obtain ⟨hnum, htot⟩ := Prod.mk.inj hproc
  refine ⟨by rw [← htot, ← hnum], fun hprimary => ?_⟩
  rw [parseProcessIndex, hltran, if_neg (by decide)] at hidx
  cases hset : s.processIdx with
  | none =>
    rw [hset] at hidx
    dsimp only at hidx
    split at hidx
    · exact (Option.some.inj hidx).symm
    · exact absurd hidx (by simp)
  | some idx =>
    rw [hset] at hidx
    dsimp only at hidx
    split at hidx
    · exact absurd hidx (by simp)
    · next hnot =>
      rw [← Option.some.inj hidx]
      rw [h.isPrimary] at hprimary
      exact not_not.1 fun hne => hnot (.inl ⟨hprimary, hne⟩)

/-- The primary process has index 0. -/
theorem Accepted.primary (h : Accepted s p) (hprimary : p.isPrimary = true) :
    p.processIdx = 0 := by
  cases hltran : p.useLtran with
  | true => exact (h.of_ltran hltran).2
  | false => exact (h.of_not_ltran hltran).2 hprimary

end Accepted

/-! ## The loops -/

section Loops

variable {p : Params} {env : Env} {u : Use}

/-- All calls succeed. -/
def Env.ok : Env where
  pool _ := true
  thread _ := true
  named _ := true
  epoll _ := true
  ethdev := true
  queue _ := true

theorem mem_poolLoop (k idx : ℕ) (h : u ∈ (poolLoop env k idx).1) :
    ∃ j, u = .pool j ∧ j < idx + k := by
  induction k generalizing idx with
  | zero => exact absurd h (by simp [poolLoop])
  | succ k ih =>
    rw [poolLoop] at h
    split at h
    · rcases List.mem_cons.1 h with rfl | hmem
      · exact ⟨idx, rfl, by omega⟩
      · obtain ⟨j, rfl, hj⟩ := ih (idx + 1) hmem
        exact ⟨j, rfl, by omega⟩
    · exact absurd h (by simp)

/-- If all mempools can be created, all entries are used. -/
theorem poolLoop_ok (k idx : ℕ) :
    (poolLoop Env.ok k idx).2 = true ∧
      ∀ j, idx ≤ j → j < idx + k → .pool j ∈ (poolLoop Env.ok k idx).1 := by
  induction k generalizing idx with
  | zero => exact ⟨rfl, fun j hge hlt => absurd hlt (by omega)⟩
  | succ k ih =>
    obtain ⟨hdone, hmem⟩ := ih (idx + 1)
    rw [poolLoop, if_pos (by rfl)]
    refine ⟨hdone, fun j hge hlt => ?_⟩
    by_cases hj : j = idx
    · rw [hj]
      exact List.mem_cons_self
    · exact List.mem_cons_of_mem _ (hmem j (by omega) (by omega))

/-- What the threads use: the loop comes to thread `i` only if it is the first one, or if the queue
of the thread before it is below `PROTOCOL_STACK_MAX`. -/
theorem mem_threadLoop (hfits : p.firstQueue < 2 ^ 16) (k i : ℕ) (hk : i + k ≤ 512)
    (hstart : i = 0 ∨ p.firstQueue + i ≤ protocolStackMax)
    (h : u ∈ (threadLoop p env k i).1) :
    (∃ j, j < i + k ∧ (j = 0 ∨ p.firstQueue + j ≤ protocolStackMax) ∧
      u = .queueId j (p.firstQueue + j)) ∨
      ∃ j, j < i + k ∧ j < protocolStackMax ∧ u ∈ initStackValue p env j := by
  induction k generalizing i with
  | zero => exact absurd h (by simp [threadLoop])
  | succ k ih =>
    have hqueue : queueIdOf p i = p.firstQueue + i := by
      unfold protocolStackMax at hstart
      exact Nat.mod_eq_of_lt (by omega)
    rw [threadLoop, hqueue] at h
    split at h
    · rw [List.mem_singleton.1 h]
      exact .inl ⟨i, by omega, hstart, rfl⟩
    split at h
    · next hlt _ =>
      rcases List.mem_cons.1 h with rfl | hmem
      · exact .inl ⟨i, by omega, hstart, rfl⟩
      rcases List.mem_append.1 hmem with hinit | hrest
      · exact .inr ⟨i, by omega, by omega, hinit⟩
      -- without a name for this thread there is no next one
      split at hrest
      · rcases ih (i + 1) (by omega) (.inr (by omega)) hrest with ⟨j, hj, hu⟩ | ⟨j, hj, hu⟩
        · exact .inl ⟨j, by omega, hu⟩
        · exact .inr ⟨j, by omega, hu⟩
      · exact absurd hrest (by simp)
    · rw [List.mem_singleton.1 h]
      exact .inl ⟨i, by omega, hstart, rfl⟩

/-- If all threads can be created and their queues are below `PROTOCOL_STACK_MAX`, all are. -/
theorem threadLoop_ok (hzero : p.processIdx = 0) (k i : ℕ) (hk : i + k ≤ protocolStackMax) :
    (threadLoop p Env.ok k i).2 = true := by
  induction k generalizing i with
  | zero => rfl
  | succ k ih =>
    have hqueue : queueIdOf p i = i := by
      unfold protocolStackMax at hk
      rw [queueIdOf, Params.firstQueue, hzero, Nat.zero_mul, Nat.zero_add]
      exact Nat.mod_eq_of_lt (by omega)
    rw [threadLoop, hqueue, if_neg (by omega), if_pos (by rfl), if_pos (by rfl)]
    exact ih (i + 1) (by omega)

/-- The thread with this `idx` gets its queue, if it is the first one or the queue before it is
below `PROTOCOL_STACK_MAX`. -/
theorem queueId_mem_threadLoop {i : ℕ} (k m : ℕ) (hge : m ≤ i) (hlt : i < m + k)
    (hi : i = m ∨ p.firstQueue + i ≤ protocolStackMax) :
    .queueId i (queueIdOf p i) ∈ (threadLoop p Env.ok k m).1 := by
  induction k generalizing m with
  | zero => omega
  | succ k ih =>
    rw [threadLoop]
    by_cases hm : i = m
    · rw [hm]
      split
      · exact List.mem_cons_self
      split
      · exact List.mem_cons_self
      · exact List.mem_cons_self
    · have hnext := hi.resolve_left hm
      have hqueue : queueIdOf p m = p.firstQueue + m := by
        unfold protocolStackMax at hnext
        exact Nat.mod_eq_of_lt (by omega)
      rw [hqueue, if_neg (by omega), if_pos (by rfl), if_pos (by rfl)]
      exact List.mem_cons_of_mem _
        (List.mem_append_right _ (ih (m + 1) (by omega) (by omega) (.inr hnext)))

theorem mem_ethdevLoop (k i : ℕ) (h : u ∈ ethdevLoop p env k i) :
    ∃ j, j < i + k ∧ u ∈ dpdkEthdevSetup p j := by
  induction k generalizing i with
  | zero => exact absurd h (by simp [ethdevLoop])
  | succ k ih =>
    rw [ethdevLoop] at h
    rcases List.mem_append.1 h with hsetup | hrest
    · exact ⟨i, by omega, hsetup⟩
    · split at hrest
      · obtain ⟨j, hj, hu⟩ := ih (i + 1) hrest
        exact ⟨j, by omega, hu⟩
      · exact absurd hrest (by simp)

/-- What is used when a process starts comes from one of the loops. -/
theorem mem_startUp (h : u ∈ startUp p env) :
    (p.isPrimary = true ∧ u ∈ (poolLoop env p.totQueueNum 0).1) ∨
      u ∈ (threadLoop p env p.numQueue 0).1 ∨
      (p.useLtran = false ∧ p.isPrimary = true ∧ u ∈ dpdkEthdevStart p env) := by
  rw [startUp] at h
  rcases List.mem_append.1 h with hinit | hdev
  · unfold initProtocolStack at hinit
    dsimp only at hinit
    cases hprimary : p.isPrimary with
    | false =>
      simp only [hprimary, Bool.false_eq_true, if_false, if_true, List.nil_append] at hinit
      exact .inr (.inl hinit)
    | true =>
      simp only [hprimary, if_true] at hinit
      split at hinit
      · rcases List.mem_append.1 hinit with hpool | hthread
        · exact .inl ⟨rfl, hpool⟩
        · exact .inr (.inl hthread)
      · exact .inl ⟨rfl, hinit⟩
  · split at hdev
    · next hcond => exact .inr (.inr ⟨hcond.2.1, hcond.2.2.1, hdev⟩)
    · exact absurd hdev (by simp)

/-- If everything succeeds, all mempools are used, and the queues of all threads that the loop comes
to. -/
theorem startUp_ok (p : Params) : (p.isPrimary = true →
    ∀ j, j < p.totQueueNum → .pool j ∈ startUp p Env.ok) ∧
      ∀ i, i < p.numQueue → i = 0 ∨ p.firstQueue + i ≤ protocolStackMax →
        .queueId i (queueIdOf p i) ∈ startUp p Env.ok := by
  have hpools := poolLoop_ok p.totQueueNum 0
  have hinit : (initProtocolStack p Env.ok).1 =
      (if p.isPrimary then (poolLoop Env.ok p.totQueueNum 0).1 else []) ++
        (threadLoop p Env.ok p.numQueue 0).1 := by
    unfold initProtocolStack
    cases p.isPrimary with
    | false => rfl
    | true => simp only [if_true, hpools.1]
  rw [startUp, hinit]
  constructor
  · intro hprimary j hj
    rw [if_pos hprimary]
    exact List.mem_append_left _ (List.mem_append_left _
      (hpools.2 j (Nat.zero_le _) (by omega)))
  · intro i hlt hi
    exact List.mem_append_left _ (List.mem_append_right _
      (queueId_mem_threadLoop _ _ (Nat.zero_le _) (by omega) hi))

end Loops

/-! ## When a process is safe -/

section Safe

variable {s : Settings} {p : Params}

/-- What a thread uses is inside the arrays. -/
theorem inside_initStackValue (h : Accepted s p) {env : Env} {u : Use} {j : ℕ}
    (hqueue : j < p.numQueue) (hlt : j < protocolStackMax) (hu : u ∈ initStackValue p env j) :
    u.Inside p := by
  have hnum := h.numQueue.2.2
  unfold initStackValue at hu
  rcases List.mem_cons.1 hu with rfl | hu
  · exact hlt
  cases hsep : p.seperateSendRecv with
  | false =>
    rw [hsep] at hu hnum
    simp only [Bool.false_eq_true, if_false] at hu hnum
    split at hu
    · exact absurd hu (by simp)
    · rw [List.mem_singleton.1 hu]
      show j < if p.seperateSendRecv then 0 else p.numCpu
      rw [hsep, if_neg (by decide)]
      omega
  | true =>
    rw [hsep] at hu hnum
    simp only [if_true] at hu hnum
    split at hu
    · exact absurd hu (by simp)
    split at hu
    · rw [List.mem_singleton.1 hu]
      show j / 2 < if p.seperateSendRecv then p.numCpu else 0
      rw [hsep, if_pos rfl]
      omega
    · rw [List.mem_singleton.1 hu]
      show j / 2 < if p.seperateSendRecv then p.numCpu else 0
      rw [hsep, if_pos rfl]
      omega

/-- What is used for a queue of the device is inside the arrays. -/
theorem inside_dpdkEthdevSetup (h : Accepted s p) (hfits : Fits p) (hltran : p.useLtran = false)
    (hprimary : p.isPrimary = true) {u : Use} {j : ℕ} (hj : j < p.totQueueNum)
    (hu : u ∈ dpdkEthdevSetup p j) : u.Inside p := by
  have hpools := hfits.pools hprimary
  unfold dpdkEthdevSetup at hu
  rcases List.mem_cons.1 hu with rfl | hu
  · exact Nat.lt_of_lt_of_le hj hpools
  rw [List.mem_singleton] at hu
  by_cases hone : p.numProcess = 1
  · rw [if_pos ⟨hltran, hone⟩] at hu
    rw [hu]
    have hsep := hfits.single hprimary hltran hone
    have htot := (h.of_not_ltran hltran).1
    have hnum := h.numQueue
    have hlt := Nat.mod_le (p.numQueue * p.numProcess) (2 ^ 16)
    rw [toUint16, hone, Nat.mul_one] at htot
    rw [hone, Nat.mul_one] at hlt
    rw [hsep, if_neg (by decide)] at hnum
    show j < if p.seperateSendRecv then 0 else p.numCpu
    rw [hsep, if_neg (by decide)]
    omega
  · rw [if_neg fun hboth => hone hboth.2] at hu
    rw [hu]
    exact Nat.lt_of_lt_of_le hj hpools

/-- A process with fitting parameters is safe. -/
theorem safe_of_fits (h : Accepted s p) (hfits : Fits p) : Safe p := by
  constructor
  · intro env u hu
    have hnum := h.numQueue.2.1
    rcases mem_startUp hu with ⟨hprimary, hpool⟩ | hthread | ⟨hltran, hprimary, hdev⟩
    · obtain ⟨j, rfl, hj⟩ := mem_poolLoop _ _ hpool
      have hpools := hfits.pools hprimary
      show j < protocolStackMax
      omega
    · rcases mem_threadLoop hfits.firstQueue _ _ (by omega) (.inl rfl) hthread with
        ⟨j, -, -, rfl⟩ | ⟨j, hj, hlt, hinit⟩
      · rfl
      · exact inside_initStackValue h (by omega) hlt hinit
    · obtain ⟨j, hj, hsetup⟩ := mem_ethdevLoop _ _ hdev
      exact inside_dpdkEthdevSetup h hfits hltran hprimary (by omega) hsetup
  · intro hltran
    rw [(h.of_not_ltran hltran).1]
    exact Nat.mod_eq_of_lt (hfits.queues hltran)
  · exact fun hprimary => Nat.mod_eq_of_lt (hfits.mbufs hprimary)

/-- A primary process of its own, without ltran, uses the first entry of `cpus`. -/
theorem cpu_zero_mem (hltran : p.useLtran = false) (hprimary : p.isPrimary = true)
    (hone : p.numProcess = 1) (hzero : p.processIdx = 0) (hqueue : p.numQueue ≤ protocolStackMax)
    (htot : 1 ≤ p.totQueueNum) : .cpu 0 ∈ startUp p Env.ok := by
  have hinit : (initProtocolStack p Env.ok).2 = true := by
    unfold initProtocolStack
    rw [hprimary, if_pos rfl]
    dsimp only
    rw [if_pos (poolLoop_ok _ _).1]
    exact threadLoop_ok hzero _ _ (by omega)
  obtain ⟨k, hk⟩ := Nat.exists_eq_add_one_of_ne_zero (Nat.ne_zero_of_lt htot)
  rw [startUp, if_pos ⟨hinit, hltran, hprimary, rfl⟩, dpdkEthdevStart, hk, ethdevLoop,
    dpdkEthdevSetup, if_pos ⟨hltran, hone⟩]
  exact List.mem_append_right _ (List.mem_append_left _ (by simp))

/-- There is a queue. -/
theorem Accepted.numQueue_pos (h : Accepted s p) : 1 ≤ p.numQueue := by
  obtain ⟨hcpu, -, hnum⟩ := h.numQueue
  rw [hnum]
  split <;> omega

/-- A process is safe exactly if its parameters fit. -/
theorem safe_iff (h : Accepted s p) : Safe p ↔ Fits p := by
  refine ⟨fun hsafe => ?_, safe_of_fits h⟩
  obtain ⟨hcpu, hle, hnum⟩ := h.numQueue
  obtain ⟨hpools, hids⟩ := startUp_ok p
  have hpos := h.numQueue_pos
  have hfirst : queueIdOf p 0 = p.firstQueue + 0 :=
    hsafe.inside _ _ (hids 0 hpos (.inl rfl))
  have hpool : p.isPrimary = true → p.totQueueNum ≤ protocolStackMax := by
    intro hprimary
    by_contra hlong
    exact absurd (hsafe.inside _ _ (hpools hprimary protocolStackMax (by omega)))
      (Nat.lt_irrefl protocolStackMax)
  refine ⟨fun hltran => ?_, ?_, hpool, fun hprimary => ?_, fun hprimary hltran hone => ?_⟩
  · rw [← hsafe.totQueueNum hltran, (h.of_not_ltran hltran).1]
    exact Nat.mod_lt _ (by decide)
  · rw [Nat.add_zero] at hfirst
    rw [← hfirst]
    exact Nat.mod_lt _ (by decide)
  · rw [← hsafe.totalMbufs hprimary]
    exact Nat.mod_lt _ (by decide)
  · by_contra hsep
    rw [Bool.not_eq_false] at hsep
    have htot := hsafe.totQueueNum hltran
    rw [hone, Nat.mul_one] at htot
    have hbound := hpool hprimary
    have hmem := cpu_zero_mem hltran hprimary hone (h.primary hprimary) (by omega) (by omega)
    have hlt : 0 < if p.seperateSendRecv then 0 else p.numCpu := hsafe.inside _ _ hmem
    rw [hsep, if_pos rfl] at hlt
    exact absurd hlt (Nat.lt_irrefl 0)

end Safe

/-! ## Several processes -/

/-- Every accepted process is safe, and two of them never have a queue id in common. The processes
may have any settings. -/
structure Right (processes : List Settings) : Prop where
  /-- The indexes and products. -/
  safe : ∀ s ∈ processes, ∀ p, parseConfFile s = some p → Safe p
  /-- The queue ids. -/
  apart : processes.Pairwise fun s s' =>
    ∀ p p', parseConfFile s = some p → parseConfFile s' = some p' →
      ∀ env env' i j q, .queueId i q ∈ startUp p env → .queueId j q ∉ startUp p' env'

/-- The first queue of the second process is one that the first process comes to: the same first
queue, or one that is not above `PROTOCOL_STACK_MAX`, where `create_thread` stops. -/
def RunsInto (p p' : Params) : Prop :=
  p.firstQueue ≤ p'.firstQueue ∧ p'.firstQueue < p.firstQueue + p.numQueue ∧
    (p'.firstQueue = p.firstQueue ∨ p'.firstQueue ≤ protocolStackMax)

/-- When processes are right: their parameters fit, and none of two runs into the queues of the
other one. -/
structure Fitting (processes : List Settings) : Prop where
  /-- The parameters. -/
  fits : ∀ s ∈ processes, ∀ p, parseConfFile s = some p → Fits p
  /-- The queues. -/
  apart : processes.Pairwise fun s s' =>
    ∀ p p', parseConfFile s = some p → parseConfFile s' = some p' →
      ¬ RunsInto p p' ∧ ¬ RunsInto p' p

section Processes

variable {s s' : Settings} {p p' : Params}

/-- The queue ids of a process. -/
theorem queueId_of_mem (h : Accepted s p) (hfits : Fits p) {env : Env} {i q : ℕ}
    (hmem : .queueId i q ∈ startUp p env) :
    i < p.numQueue ∧ (i = 0 ∨ p.firstQueue + i ≤ protocolStackMax) ∧ q = p.firstQueue + i := by
  have hnum := h.numQueue.2.1
  rcases mem_startUp hmem with ⟨-, hpool⟩ | hthread | ⟨-, -, hdev⟩
  · obtain ⟨j, hu, -⟩ := mem_poolLoop _ _ hpool
    exact absurd hu (by simp)
  · rcases mem_threadLoop hfits.firstQueue _ _ (by omega) (.inl rfl) hthread with
      ⟨j, hj, hcome, hu⟩ | ⟨j, -, -, hu⟩
    · obtain ⟨rfl, rfl⟩ := Use.queueId.inj hu
      exact ⟨by omega, hcome, rfl⟩
    · unfold initStackValue at hu
      rcases List.mem_cons.1 hu with hu | hu
      · exact absurd hu (by simp)
      · split at hu
        · exact absurd hu (by simp)
        split at hu
        · split at hu <;> exact absurd hu (by simp)
        · exact absurd hu (by simp)
  · obtain ⟨j, -, hsetup⟩ := mem_ethdevLoop _ _ hdev
    unfold dpdkEthdevSetup at hsetup
    split at hsetup <;> exact absurd hsetup (by simp)

/-- A process that is run into shares the first queue of the other one. -/
theorem RunsInto.common (h : RunsInto p p') (hfits : Fits p') (hpos : 1 ≤ p'.numQueue) :
    ∃ i q, .queueId i q ∈ startUp p Env.ok ∧ .queueId 0 q ∈ startUp p' Env.ok := by
  obtain ⟨hle, hlt, hcome⟩ := h
  have hfirst := hfits.firstQueue
  refine ⟨p'.firstQueue - p.firstQueue, p'.firstQueue, ?_, ?_⟩
  · have hqueue : queueIdOf p (p'.firstQueue - p.firstQueue) = p'.firstQueue := by
      rw [queueIdOf, Nat.add_sub_cancel' hle]
      exact Nat.mod_eq_of_lt hfirst
    have hmem := (startUp_ok p).2 (p'.firstQueue - p.firstQueue) (by omega) (by omega)
    rwa [hqueue] at hmem
  · have hqueue : queueIdOf p' 0 = p'.firstQueue := Nat.mod_eq_of_lt hfirst
    have hmem := (startUp_ok p').2 0 hpos (.inl rfl)
    rwa [hqueue] at hmem

/-- Two processes have a queue id in common exactly if one of them runs into the other one. -/
theorem common_iff (h : Accepted s p) (h' : Accepted s' p') (hfits : Fits p) (hfits' : Fits p') :
    (∃ env env' i j q, .queueId i q ∈ startUp p env ∧ .queueId j q ∈ startUp p' env') ↔
      RunsInto p p' ∨ RunsInto p' p := by
  constructor
  · rintro ⟨env, env', i, j, q, hmem, hmem'⟩
    obtain ⟨hi, hcome, hq⟩ := queueId_of_mem h hfits hmem
    obtain ⟨hj, hcome', hq'⟩ := queueId_of_mem h' hfits' hmem'
    unfold RunsInto
    -- the process that starts first comes to the first queue of the other one
    omega
  · rintro (hruns | hruns)
    · obtain ⟨i, q, hmem, hmem'⟩ := hruns.common hfits' h'.numQueue_pos
      exact ⟨Env.ok, Env.ok, i, 0, q, hmem, hmem'⟩
    · obtain ⟨i, q, hmem, hmem'⟩ := hruns.common hfits h.numQueue_pos
      exact ⟨Env.ok, Env.ok, 0, i, q, hmem', hmem⟩

/-- Processes with the same number of queues are apart if their indexes are different. -/
theorem not_runsInto_of_processIdx_ne (hnum : p'.numQueue = p.numQueue)
    (hidx : p.processIdx ≠ p'.processIdx) : ¬ RunsInto p p' := by
  rintro ⟨hle, hlt, -⟩
  rw [Params.firstQueue, Params.firstQueue, hnum] at hle hlt
  have hle' : p.processIdx ≤ p'.processIdx := Nat.le_of_mul_le_mul_right hle (by omega)
  have hlt' : p'.processIdx < p.processIdx + 1 :=
    Nat.lt_of_mul_lt_mul_right (by rwa [Nat.add_mul, Nat.one_mul])
  omega

/-- Processes are right exactly if they are fitting. -/
theorem deployment_iff (processes : List Settings) : Right processes ↔ Fitting processes := by
  constructor
  · intro h
    have hfits : ∀ s ∈ processes, ∀ p, parseConfFile s = some p → Fits p := fun s hs p hp =>
      (safe_iff (accepted_of_parseConfFile hp)).1 (h.safe s hs p hp)
    refine ⟨hfits, h.apart.imp_of_mem ?_⟩
    intro s s' hs hs' hapart p p' hp hp'
    have hcommon := common_iff (accepted_of_parseConfFile hp) (accepted_of_parseConfFile hp')
      (hfits s hs p hp) (hfits s' hs' p' hp')
    rw [← not_or, ← hcommon]
    rintro ⟨env, env', i, j, q, hmem, hmem'⟩
    exact hapart p p' hp hp' env env' i j q hmem hmem'
  · intro h
    refine ⟨fun s hs p hp => safe_of_fits (accepted_of_parseConfFile hp) (h.fits s hs p hp),
      h.apart.imp_of_mem ?_⟩
    intro s s' hs hs' hapart p p' hp hp' env env' i j q hmem hmem'
    have hcommon := common_iff (accepted_of_parseConfFile hp) (accepted_of_parseConfFile hp')
      (h.fits s hs p hp) (h.fits s' hs' p' hp')
    rcases hcommon.1 ⟨env, env', i, j, q, hmem, hmem'⟩ with hruns | hruns
    · exact (hapart p p' hp hp').1 hruns
    · exact (hapart p p' hp hp').2 hruns

/-- The primary process of four, with nine cores each. -/
def fourProcesses : Settings where
  useLtran := some 0
  isPrimary := true
  seperateSendRecv := none
  numCpus := some 9
  sendNumCpus := none
  recvNumCpus := none
  tcpConnCount := none
  mbufCountPerConn := none
  numProcess := some 4
  processNuma := some 4
  processIdx := some 0

/-- There are mempools for 36 queues. -/
theorem not_right_four_processes : ¬ Right [fourProcesses] := by
  intro h
  obtain ⟨p, hp, hprimary, htot⟩ : ∃ p, parseConfFile fourProcesses = some p ∧
      p.isPrimary = true ∧ protocolStackMax < p.totQueueNum := ⟨_, rfl, rfl, by decide⟩
  have hsafe := h.safe fourProcesses List.mem_cons_self p hp
  have hmem := (startUp_ok p).1 hprimary protocolStackMax htot
  exact absurd (hsafe.inside _ _ hmem) (Nat.lt_irrefl protocolStackMax)

end Processes

end StackArrays

end Gazelle
