import Gazelle.Ltran.Tables
import Mathlib.Data.List.Perm.Subperm

/-!
# Registering again after a reconnection

When lstack has connected to a new ltran, `client_reg_proc_reconnect` (`lstack_control_plane.c`)
registers the rings and the connections of all stacks, and then the listeners of all stacks. For
each it takes a snapshot of the lists of lwIP by `rpc_call_conntable`, which has room for
`GAZELLE_LSTACK_MAX_CONN` entries. The number of entries is `-1` when there is no memory for the
call.

* `reconnect_complete`: when exactly everything is registered and the snapshot is not left;
* `reconnect_overrun`: the loop over the snapshot leaves it.
-/

namespace Gazelle

/-- `GAZELLE_LSTACK_MAX_CONN`. -/
def gazelleLstackMaxConn : BitVec 32 := 20000 + 2000

/-- `ENQUEUE_RING_RETRY_TIMEOUT`. -/
def enqueueRingRetryTimeout : BitVec 32 := 500

/-- `enum tcp_list_state`. -/
inductive TcpListState
  /-- `ACTIVE_LIST`. -/
  | activeList
  /-- `LISTEN_LIST`. -/
  | listenList
  /-- `TIME_WAIT_LIST`. -/
  | timeWaitList
  deriving DecidableEq

/-- `struct tcp_pcb`. -/
structure TcpPcb where
  /-- `local_ip`. -/
  localIp : Ipv4
  /-- `remote_ip`. -/
  remoteIp : Ipv4
  /-- `local_port`. -/
  localPort : BitVec 16
  /-- `remote_port`. -/
  remotePort : BitVec 16
  deriving DecidableEq

/-- `struct tcp_pcb_listen`. -/
structure TcpPcbListen where
  /-- `local_ip`. -/
  localIp : Ipv4
  /-- `local_port`. -/
  localPort : BitVec 16
  deriving DecidableEq

/-- The lists of lwIP. -/
structure PcbLists where
  /-- `tcp_active_pcbs`. -/
  tcpActivePcbs : List TcpPcb
  /-- `tcp_tw_pcbs`. -/
  tcpTwPcbs : List TcpPcb
  /-- `tcp_listen_pcbs`. -/
  tcpListenPcbs : List TcpPcbListen

/-- The connections, as `get_lwip_conntable` finds them. -/
def PcbLists.connections (lists : PcbLists) : List TcpPcb := lists.tcpActivePcbs ++ lists.tcpTwPcbs

/-- `struct gazelle_stat_lstack_conn_info`. -/
structure ConnInfo where
  /-- The list it comes from. -/
  state : TcpListState
  /-- The remote address. -/
  rip : Ipv4
  /-- The local address. -/
  lip : Ipv4
  /-- The remote port. -/
  rPort : BitVec 16
  /-- The local port. -/
  lPort : BitVec 16

/-- What happens when a stack is registered in one of the two phases. -/
structure StackCalls where
  /-- `rpc_msg_alloc` of `rpc_call_conntable` succeeds. -/
  conntableMsg : Bool
  /-- The lists when `get_lwip_conntable` runs. -/
  snapshot : PcbLists
  /-- `rpc_msg_alloc` of `rpc_call_thread_regphase1` or `rpc_call_thread_regphase2` succeeds. -/
  regphaseMsg : Bool
  /-- What `client_reg_thrd_ring` returns. -/
  clientRegThrdRing : BitVec 32
  /-- The lists when the phase runs. -/
  lists : PcbLists
  /-- The tries of `reg_conn` for an entry: the time at the start, and for each try whether
  `vdev_reg_xmit` returns 1 and the time after it. -/
  tries : TcpListState → ℕ → BitVec 32 × List (Bool × BitVec 32)

/-- What happens in a reconnection. -/
structure ReconnectCalls where
  /-- The socket, when `control_init_client` returns 0. -/
  controlInitClient : Option ℕ
  /-- `calloc` succeeds. -/
  calloc : Bool
  /-- `stack_num`. -/
  stackNum : ℕ
  /-- The threads of the stacks. -/
  tid : ℕ → Tid
  /-- `host_addr`. -/
  hostAddr : Ipv4
  /-- The first phase of each stack. -/
  phase1 : ℕ → StackCalls
  /-- The second phase of each stack. -/
  phase2 : ℕ → StackCalls
  /-- `epoll_ctl` succeeds. -/
  epollCtl : Bool

/-- `conn_list`, and the messages that the rings of the stacks have accepted. -/
structure RegisterState where
  /-- `conn_list`. -/
  connList : ℕ → ConnInfo
  /-- The messages, with the number of the stack. -/
  accepted : List (ℕ × RegRingMsg)

/-! ## The snapshot -/

/-- `copy_pcb_to_conn`, after `state` is written. -/
def copyPcbToConn (state : TcpListState) (_ : ConnInfo) (pcb : TcpPcb) : ConnInfo where
  state := state
  rip := pcb.remoteIp
  lip := pcb.localIp
  rPort := pcb.remotePort
  lPort := pcb.localPort

/-- What `get_lwip_conntable` writes for a listener; the remote end stays what it was. -/
def copyListenToConn (conn : ConnInfo) (pcbl : TcpPcbListen) : ConnInfo :=
  { conn with state := .listenList, lip := pcbl.localIp, lPort := pcbl.localPort }

/-- A loop of `get_lwip_conntable`. -/
def copyPcbs {α : Type*} (copy : ConnInfo → α → ConnInfo) (maxNum : BitVec 32) :
    List α → (ℕ → ConnInfo) × BitVec 32 → (ℕ → ConnInfo) × BitVec 32
  | [], conns => conns
  | pcb :: rest, (conn, connNum) =>
    if connNum < maxNum then
      copyPcbs copy maxNum rest
        (Function.update conn connNum.toNat (copy (conn connNum.toNat) pcb), connNum + 1)
    else (conn, connNum)

/-- `get_lwip_conntable`, with the result of the message. -/
def getLwipConntable (lists : PcbLists) (conn : ℕ → ConnInfo) (maxNum : BitVec 32) :
    (ℕ → ConnInfo) × BitVec 32 :=
  let conns := copyPcbs (copyPcbToConn .activeList) maxNum lists.tcpActivePcbs (conn, 0)
  let conns := copyPcbs (copyPcbToConn .timeWaitList) maxNum lists.tcpTwPcbs conns
  copyPcbs copyListenToConn maxNum lists.tcpListenPcbs conns

/-- `rpc_call_conntable`. -/
def rpcCallConntable (calls : StackCalls) (conn : ℕ → ConnInfo) (maxConn : BitVec 32) :
    (ℕ → ConnInfo) × BitVec 32 :=
  if calls.conntableMsg then getLwipConntable calls.snapshot conn maxConn else (conn, -1)

/-! ## The messages -/

/-- `lwip_htons`. -/
def lwipHtons (n : BitVec 16) : Port := (n <<< 8) ||| (n >>> 8)

/-- `match_host_addr`. -/
def matchHostAddr (hostAddr addr : Ipv4) : Bool := addr = hostAddr

/-- The quintuple that `reg_conn` makes of an entry. -/
def connQtuple (conn : ConnInfo) : GazelleQuintuple where
  protocol := 0
  srcPort := lwipHtons conn.lPort
  dstPort := lwipHtons conn.rPort
  srcIp := conn.lip
  dstIp := conn.rip

/-- The tries of `reg_conn`, until one succeeds or the time is up. -/
def tryRegXmit (tbegin : BitVec 32) : List (Bool × BitVec 32) → Bool
  | [] => false
  | (sent, now) :: rest =>
    if sent then true
    else if enqueueRingRetryTimeout > now - tbegin then tryRegXmit tbegin rest
    else false

/-- The loop of `reg_conn` from the entry `i` on; `none` when it leaves `conn_list`. -/
def regConnLoop (hostAddr : Ipv4) (tableState : TcpListState)
    (tries : ℕ → BitVec 32 × List (Bool × BitVec 32)) (msg : GazelleQuintuple → ℕ × RegRingMsg)
    (connList : ℕ → ConnInfo) :
    ℕ → ℕ → List (ℕ × RegRingMsg) → Option (List (ℕ × RegRingMsg) × BitVec 32)
  | 0, _, accepted => some (accepted, 0)
  | left + 1, i, accepted =>
    if i < gazelleLstackMaxConn.toNat then
      if (connList i).state ≠ tableState then
        regConnLoop hostAddr tableState tries msg connList left (i + 1) accepted
      else if tableState = .listenList ∧
          ¬ matchHostAddr hostAddr (connQtuple (connList i)).srcIp then
        regConnLoop hostAddr tableState tries msg connList left (i + 1) accepted
      else if tryRegXmit (tries i).1 (tries i).2 then
        regConnLoop hostAddr tableState tries msg connList left (i + 1)
          (accepted ++ [msg (connQtuple (connList i))])
      else some (accepted, -1)
    else none

namespace ReconnectCalls

variable (env : ReconnectCalls)

/-- `reg_conn` of a stack. -/
def regConn (stack : ℕ) (calls : StackCalls) (tableState : TcpListState) (regType : RegRingType)
    (conn : (ℕ → ConnInfo) × BitVec 32) (accepted : List (ℕ × RegRingMsg)) :
    Option (List (ℕ × RegRingMsg) × BitVec 32) :=
  regConnLoop env.hostAddr tableState (calls.tries tableState)
    (fun qtuple => (stack, ⟨regType, qtuple, env.tid stack⟩)) conn.1 conn.2.toNat 0 accepted

/-- `thread_register_phase1`, with the result of the message. -/
def threadRegisterPhase1 (stack : ℕ) (calls : StackCalls) (conn : (ℕ → ConnInfo) × BitVec 32)
    (accepted : List (ℕ × RegRingMsg)) : Option (List (ℕ × RegRingMsg) × BitVec 32) :=
  if calls.clientRegThrdRing ≠ 0 then some (accepted, calls.clientRegThrdRing)
  else
    (env.regConn stack calls .activeList .tcpConnect conn accepted).bind fun (accepted, ret) =>
      if ret ≠ 0 then some (accepted, ret)
      else env.regConn stack calls .timeWaitList .tcpConnect conn accepted

/-- `thread_register_phase2`, with the result of the message. -/
def threadRegisterPhase2 (stack : ℕ) (calls : StackCalls) (conn : (ℕ → ConnInfo) × BitVec 32)
    (accepted : List (ℕ × RegRingMsg)) : Option (List (ℕ × RegRingMsg) × BitVec 32) :=
  env.regConn stack calls .listenList .tcpListen conn accepted

/-- A loop of `thread_register`, with whether it goes on after it. -/
def registerStacks (phase : ℕ → StackCalls → (ℕ → ConnInfo) × BitVec 32 → List (ℕ × RegRingMsg) →
    Option (List (ℕ × RegRingMsg) × BitVec 32)) (calls : ℕ → StackCalls) :
    List ℕ → RegisterState → Option (RegisterState × Bool)
  | [], s => some (s, true)
  | stack :: rest, s =>
    let conn := rpcCallConntable (calls stack) s.connList gazelleLstackMaxConn
    (if (calls stack).regphaseMsg then phase stack (calls stack) conn s.accepted
      else some (s.accepted, -1)).bind fun (accepted, ret) =>
        if ret ≠ 0 then some (⟨conn.1, accepted⟩, false)
        else registerStacks phase calls rest ⟨conn.1, accepted⟩

/-- The entries that `calloc` returns. `ACTIVE_LIST` is 0. -/
def zeroedConn : ConnInfo := ⟨.activeList, 0, 0, 0, 0⟩

/-- `thread_register`, with whether it returns 0. -/
def threadRegister : Option (List (ℕ × RegRingMsg) × Bool) :=
  if env.calloc then
    (registerStacks env.threadRegisterPhase1 env.phase1 (List.range env.stackNum)
      ⟨fun _ => zeroedConn, []⟩).bind fun (s, ok) =>
        if ok then
          (registerStacks env.threadRegisterPhase2 env.phase2 (List.range env.stackNum) s).map
            fun (s, ok) => (s.accepted, ok)
        else some (s.accepted, false)
  else some ([], false)

/-- `client_reg_proc_reconnect`: the messages that were accepted, and the descriptor unless it
returns -1; `none` when `conn_list` is left. -/
def clientRegProcReconnect : Option (List (ℕ × RegRingMsg) × Option ℕ) :=
  match env.controlInitClient with
  | none => some ([], none)
  | some sockfd =>
    env.threadRegister.map fun (accepted, ok) =>
      (accepted, if ok && env.epollCtl then some sockfd else none)

/-! ## What is to be shown -/

/-- The message for a connection. -/
def connectMsg (stack : ℕ) (pcb : TcpPcb) : ℕ × RegRingMsg :=
  (stack, ⟨.tcpConnect, connQtuple (copyPcbToConn .activeList zeroedConn pcb), env.tid stack⟩)

/-- The listeners of a stack on the host address. -/
def hostListeners (pcbls : List TcpPcbListen) : List TcpPcbListen :=
  pcbls.filter fun pcbl => matchHostAddr env.hostAddr pcbl.localIp

/-- What a message says about a listener. -/
def listenKey (stack : ℕ) (pcbl : TcpPcbListen) : ℕ × Ipv4 × Port :=
  (stack, pcbl.localIp, lwipHtons pcbl.localPort)

/-- The listener of a message. -/
def listenerOf (m : ℕ × RegRingMsg) : Option (ℕ × Ipv4 × Port) :=
  if m.2.type = .tcpListen then some (m.1, m.2.qtuple.srcIp, m.2.qtuple.srcPort) else none

/-- Everything was registered, the connections first. -/
structure Complete (accepted : List (ℕ × RegRingMsg)) : Prop where
  /-- Each connection of a stack has had a message of its own. -/
  connects : ∀ stack < env.stackNum,
    ((env.phase1 stack).lists.connections.map (env.connectMsg stack)).Subperm accepted
  /-- Each listener on the host address has had a message of its own. -/
  listens : ∀ stack < env.stackNum,
    ((env.hostListeners (env.phase2 stack).lists.tcpListenPcbs).map (listenKey stack)).Subperm
      (accepted.filterMap listenerOf)
  /-- The connections of all stacks come before the listeners of all stacks. -/
  order : ∃ connects listens, accepted = connects ++ listens ∧
    (∀ m ∈ connects, m.2.type = .tcpConnect) ∧ ∀ m ∈ listens, m.2.type = .tcpListen

/-- `conn_list` is not left, and everything is registered when a descriptor is returned. -/
def Registers : Prop :=
  ∃ accepted fd, env.clientRegProcReconnect = some (accepted, fd) ∧
    (fd.isSome → env.Complete accepted)

/-! ## The condition -/

/-- Whether `reg_conn` sends a message for an entry. -/
def wanted (tableState : TcpListState) (conn : ConnInfo) : Bool :=
  conn.state = tableState && (tableState ≠ .listenList || matchHostAddr env.hostAddr conn.lip)

/-- The rings accept the messages for the first `n` entries in time. -/
def Sends (calls : StackCalls) (tableState : TcpListState) (connList : ℕ → ConnInfo) (n : ℕ) :
    Prop :=
  ∀ i < n, env.wanted tableState (connList i) →
    tryRegXmit (calls.tries tableState i).1 (calls.tries tableState i).2 = true

/-- The loops of `thread_register`. -/
inductive RegPhase
  /-- `thread_register_phase1`. -/
  | phase1
  /-- `thread_register_phase2`. -/
  | phase2

namespace RegPhase

/-- What happens in the phase. -/
def calls : RegPhase → ℕ → StackCalls
  | phase1 => env.phase1
  | phase2 => env.phase2

/-- The function that the stacks execute. -/
def run : RegPhase → ℕ → StackCalls → (ℕ → ConnInfo) × BitVec 32 → List (ℕ × RegRingMsg) →
    Option (List (ℕ × RegRingMsg) × BitVec 32)
  | phase1 => env.threadRegisterPhase1
  | phase2 => env.threadRegisterPhase2

/-- The list that `reg_conn` is called for first. -/
def first : RegPhase → TcpListState
  | phase1 => .activeList
  | phase2 => .listenList

/-- The lists that `reg_conn` is called for. -/
def states : RegPhase → List TcpListState
  | phase1 => [.activeList, .timeWaitList]
  | phase2 => [.listenList]

/-- The first phase registers the rings. -/
def RingOk : RegPhase → StackCalls → Prop
  | phase1, calls => calls.clientRegThrdRing = 0
  | phase2, _ => True

end RegPhase

/-- A stack is registered: both calls get a message, and all others succeed. -/
def Passes (phase : RegPhase) (calls : StackCalls) (connList : ℕ → ConnInfo) : Prop :=
  calls.conntableMsg = true ∧ calls.regphaseMsg = true ∧ phase.RingOk calls ∧
    ∀ tableState ∈ phase.states,
      env.Sends calls tableState (rpcCallConntable calls connList gazelleLstackMaxConn).1
        (rpcCallConntable calls connList gazelleLstackMaxConn).2.toNat

/-- The first call gets no message, and nothing else stops `reg_conn` at what is in `conn_list`. -/
def Overruns (phase : RegPhase) (calls : StackCalls) (connList : ℕ → ConnInfo) : Prop :=
  calls.conntableMsg = false ∧ calls.regphaseMsg = true ∧ phase.RingOk calls ∧
    env.Sends calls phase.first connList gazelleLstackMaxConn.toNat

/-- `conn_list` after the snapshots of stacks. -/
def connListAfter (calls : ℕ → StackCalls) (connList : ℕ → ConnInfo) (stacks' : List ℕ) :
    ℕ → ConnInfo :=
  stacks'.foldl (fun connList stack =>
    (rpcCallConntable (calls stack) connList gazelleLstackMaxConn).1) connList

/-- All stacks are registered in a phase. -/
def AllPass (phase : RegPhase) (connList : ℕ → ConnInfo) (n : ℕ) : Prop :=
  ∀ stack < n, env.Passes phase (phase.calls env stack)
    (connListAfter (phase.calls env) connList (List.range stack))

/-- No stack that the loop comes to overruns. -/
def NoneOverruns (phase : RegPhase) (connList : ℕ → ConnInfo) : Prop :=
  ∀ stack < env.stackNum, env.AllPass phase connList stack →
    ¬ env.Overruns phase (phase.calls env stack)
      (connListAfter (phase.calls env) connList (List.range stack))

/-- `conn_list` after the first phase. -/
def connListPhase2 : ℕ → ConnInfo :=
  connListAfter env.phase1 (fun _ => zeroedConn) (List.range env.stackNum)

/-- The snapshots had room for what the lists have when it is registered. -/
structure Covered : Prop where
  /-- The connections. -/
  connections : ∀ stack < env.stackNum,
    (env.phase1 stack).lists.connections.Subperm
      ((env.phase1 stack).snapshot.connections.take gazelleLstackMaxConn.toNat)
  /-- The listeners. -/
  listeners : ∀ stack < env.stackNum,
    (env.hostListeners (env.phase2 stack).lists.tcpListenPcbs).Subperm
      (env.hostListeners ((env.phase2 stack).snapshot.tcpListenPcbs.take
        (gazelleLstackMaxConn.toNat - (env.phase2 stack).snapshot.connections.length)))

/-- Wherever the loops of `thread_register` come to, `rpc_call_conntable` gets its message or the
stack is not registered anyway; and when all stacks are registered, the snapshots have all
connections and listeners. -/
def Condition : Prop :=
  env.controlInitClient.isSome → env.calloc = true →
    env.NoneOverruns .phase1 (fun _ => zeroedConn) ∧
    (env.AllPass .phase1 (fun _ => zeroedConn) env.stackNum →
      env.NoneOverruns .phase2 env.connListPhase2 ∧
      (env.AllPass .phase2 env.connListPhase2 env.stackNum → env.epollCtl = true → env.Covered))

variable {env}

/-! ## One call of `reg_conn` -/

/-- The messages for entries. -/
def messages (tableState : TcpListState) (msg : GazelleQuintuple → ℕ × RegRingMsg)
    (conns : List ConnInfo) : List (ℕ × RegRingMsg) :=
  (conns.filter (env.wanted tableState)).map (msg ∘ connQtuple)

/-- A step of the loop of `reg_conn`. -/
private theorem regConnLoop_succ {tableState : TcpListState}
    {tries : ℕ → BitVec 32 × List (Bool × BitVec 32)} {msg : GazelleQuintuple → ℕ × RegRingMsg}
    {connList : ℕ → ConnInfo} {left i : ℕ} {accepted : List (ℕ × RegRingMsg)} :
    regConnLoop env.hostAddr tableState tries msg connList (left + 1) i accepted =
      if i < gazelleLstackMaxConn.toNat then
        if env.wanted tableState (connList i) then
          if tryRegXmit (tries i).1 (tries i).2 then
            regConnLoop env.hostAddr tableState tries msg connList left (i + 1)
              (accepted ++ [msg (connQtuple (connList i))])
          else some (accepted, -1)
        else regConnLoop env.hostAddr tableState tries msg connList left (i + 1) accepted
      else none := by
  rw [regConnLoop]
  by_cases hstate : (connList i).state = tableState
  · by_cases hlisten : tableState = .listenList
    · by_cases hhost : matchHostAddr env.hostAddr (connList i).lip
      · simp [wanted, hstate, hlisten, hhost, connQtuple]
      · simp [wanted, hstate, hlisten, hhost, connQtuple]
    · simp [wanted, hstate, hlisten]
  · simp [wanted, hstate]

variable (env) in
/-- The rings accept the messages for the entries from `i` to `n`. -/
def SendsFrom (tableState : TcpListState) (tries : ℕ → BitVec 32 × List (Bool × BitVec 32))
    (connList : ℕ → ConnInfo) (i n : ℕ) : Prop :=
  ∀ j, i ≤ j → j < n → env.wanted tableState (connList j) →
    tryRegXmit (tries j).1 (tries j).2 = true

/-- The first entry and the others. -/
private theorem sendsFrom_iff {tableState : TcpListState}
    {tries : ℕ → BitVec 32 × List (Bool × BitVec 32)} {connList : ℕ → ConnInfo} {i n : ℕ}
    (hi : i < n) :
    env.SendsFrom tableState tries connList i n ↔
      (env.wanted tableState (connList i) → tryRegXmit (tries i).1 (tries i).2 = true) ∧
        env.SendsFrom tableState tries connList (i + 1) n := by
  constructor
  · intro h
    exact ⟨h i (Nat.le_refl i) hi, fun j hj => h j (by omega)⟩
  · rintro ⟨hfirst, hrest⟩ j hj
    rcases Nat.eq_or_lt_of_le hj with rfl | hlt
    · exact fun _ => hfirst
    · exact hrest j hlt

variable (env) in
/-- The loop of `reg_conn` stops at a message that is not accepted. Else it sends all messages, or
leaves `conn_list`. -/
theorem regConnLoop_spec (tableState : TcpListState)
    (tries : ℕ → BitVec 32 × List (Bool × BitVec 32)) (msg : GazelleQuintuple → ℕ × RegRingMsg)
    (connList : ℕ → ConnInfo) (left i : ℕ) (hi : i ≤ gazelleLstackMaxConn.toNat)
    (accepted : List (ℕ × RegRingMsg)) :
    (env.SendsFrom tableState tries connList i (min (i + left) gazelleLstackMaxConn.toNat) →
      regConnLoop env.hostAddr tableState tries msg connList left i accepted =
        if i + left ≤ gazelleLstackMaxConn.toNat then
          some (accepted ++ env.messages tableState msg ((List.range' i left).map connList), 0)
        else none) ∧
    (¬ env.SendsFrom tableState tries connList i (min (i + left) gazelleLstackMaxConn.toNat) →
      ∃ accepted', regConnLoop env.hostAddr tableState tries msg connList left i accepted =
        some (accepted', -1)) := by
  -- by induction on the entries that are left
  induction left generalizing i accepted with
  | zero =>
    refine ⟨fun _ => ?_, fun h => absurd (fun j hj hlt => ?_) h⟩
    · simp [regConnLoop, hi, messages]
    · omega
  | succ left ih =>
    rw [regConnLoop_succ]
    by_cases hlt : i < gazelleLstackMaxConn.toNat
    · have hsum : i + (left + 1) = i + 1 + left := by omega
      rw [if_pos hlt, sendsFrom_iff (by omega), hsum, List.range'_succ, List.map_cons]
      by_cases hwanted : env.wanted tableState (connList i)
      · by_cases htry : tryRegXmit (tries i).1 (tries i).2 = true
        · obtain ⟨hall, hnot⟩ := ih (i + 1) hlt (accepted ++ [msg (connQtuple (connList i))])
          rw [if_pos hwanted, if_pos htry]
          refine ⟨fun h => ?_, fun h => hnot fun hrest => h ⟨fun _ => htry, hrest⟩⟩
          rw [hall h.2]
          simp [messages, hwanted]
        · rw [if_pos hwanted, if_neg htry]
          exact ⟨fun h => absurd (h.1 hwanted) htry, fun _ => ⟨accepted, rfl⟩⟩
      · obtain ⟨hall, hnot⟩ := ih (i + 1) hlt accepted
        rw [if_neg hwanted]
        refine ⟨fun h => ?_, fun h => hnot fun hrest => h ⟨fun hw => absurd hw hwanted, hrest⟩⟩
        rw [hall h.2]
        simp [messages, hwanted]
    · -- all entries of `conn_list` are done
      rw [if_neg hlt, if_neg (by omega)]
      exact ⟨fun _ => rfl, fun h => absurd (fun j hj hlt' => by omega) h⟩

variable (env) in
/-- `reg_conn` within `conn_list`. -/
theorem regConn_of_le (stack : ℕ) (calls : StackCalls) (tableState : TcpListState)
    (regType : RegRingType) {conn : (ℕ → ConnInfo) × BitVec 32}
    (hle : conn.2.toNat ≤ gazelleLstackMaxConn.toNat) (accepted : List (ℕ × RegRingMsg)) :
    (env.Sends calls tableState conn.1 conn.2.toNat →
      env.regConn stack calls tableState regType conn accepted =
        some (accepted ++ env.messages tableState
          (fun qtuple => (stack, ⟨regType, qtuple, env.tid stack⟩))
          ((List.range conn.2.toNat).map conn.1), 0)) ∧
    (¬ env.Sends calls tableState conn.1 conn.2.toNat →
      ∃ accepted', env.regConn stack calls tableState regType conn accepted =
        some (accepted', -1)) := by
  obtain ⟨hall, hnot⟩ := regConnLoop_spec env tableState
    (calls.tries tableState) (fun qtuple => (stack, ⟨regType, qtuple, env.tid stack⟩))
    conn.1 conn.2.toNat 0 (Nat.zero_le _) accepted
  rw [Nat.zero_add, Nat.min_eq_left hle] at hall hnot
  rw [if_pos hle, ← List.range_eq_range'] at hall
  exact ⟨fun h => hall fun j _ => h j, fun h => hnot fun hall => h fun j => hall j (Nat.zero_le j)⟩

variable (env) in
/-- `reg_conn` with more entries than `conn_list` has. -/
theorem regConn_of_lt (stack : ℕ) (calls : StackCalls) (tableState : TcpListState)
    (regType : RegRingType) {conn : (ℕ → ConnInfo) × BitVec 32}
    (hlt : gazelleLstackMaxConn.toNat < conn.2.toNat) (accepted : List (ℕ × RegRingMsg)) :
    (env.Sends calls tableState conn.1 gazelleLstackMaxConn.toNat →
      env.regConn stack calls tableState regType conn accepted = none) ∧
    (¬ env.Sends calls tableState conn.1 gazelleLstackMaxConn.toNat →
      ∃ accepted', env.regConn stack calls tableState regType conn accepted =
        some (accepted', -1)) := by
  obtain ⟨hall, hnot⟩ := regConnLoop_spec env tableState
    (calls.tries tableState) (fun qtuple => (stack, ⟨regType, qtuple, env.tid stack⟩))
    conn.1 conn.2.toNat 0 (Nat.zero_le _) accepted
  rw [Nat.zero_add, Nat.min_eq_right (Nat.le_of_lt hlt)] at hall hnot
  rw [if_neg (Nat.not_le.2 hlt)] at hall
  exact ⟨fun h => hall fun j _ => h j, fun h => hnot fun hall => h fun j => hall j (Nat.zero_le j)⟩

/-! ## The snapshot -/

/-- An entry of the lists of lwIP. -/
inductive PcbEntry
  /-- An active connection. -/
  | active (pcb : TcpPcb)
  /-- A connection in the state time-wait. -/
  | timeWait (pcb : TcpPcb)
  /-- A listener. -/
  | listen (pcbl : TcpPcbListen)

/-- The connection of an entry of one of the two lists of connections. -/
def PcbEntry.connection (tableState : TcpListState) : PcbEntry → Option TcpPcb
  | .active pcb => if tableState = .activeList then some pcb else none
  | .timeWait pcb => if tableState = .timeWaitList then some pcb else none
  | .listen _ => none

/-- The listener of an entry. -/
def PcbEntry.listener : PcbEntry → Option TcpPcbListen
  | .listen pcbl => some pcbl
  | _ => none

/-- What is in an entry of `conn_list`. -/
def entryOf (conn : ConnInfo) : PcbEntry :=
  match conn.state with
  | .activeList => .active ⟨conn.lip, conn.rip, conn.lPort, conn.rPort⟩
  | .timeWaitList => .timeWait ⟨conn.lip, conn.rip, conn.lPort, conn.rPort⟩
  | .listenList => .listen ⟨conn.lip, conn.lPort⟩

/-- The entries of `conn_list`. -/
def entries (conn : (ℕ → ConnInfo) × BitVec 32) : List PcbEntry :=
  (List.range conn.2.toNat).map fun i => entryOf (conn.1 i)

/-- A loop of `get_lwip_conntable` appends as many entries as there is room for. -/
theorem entries_copyPcbs {α : Type*} (copy : ConnInfo → α → ConnInfo) (entry : α → PcbEntry)
    (hcopy : ∀ conn pcb, entryOf (copy conn pcb) = entry pcb) (maxNum : BitVec 32) (pcbs : List α)
    (conn : (ℕ → ConnInfo) × BitVec 32) (hle : conn.2.toNat ≤ maxNum.toNat) :
    entries (copyPcbs copy maxNum pcbs conn) =
        entries conn ++ (pcbs.take (maxNum.toNat - conn.2.toNat)).map entry ∧
      (copyPcbs copy maxNum pcbs conn).2.toNat = min maxNum.toNat (conn.2.toNat + pcbs.length) := by
  -- along the list of pcbs, for every place to begin at
  induction pcbs generalizing conn with
  | nil => simp [copyPcbs, hle]
  | cons pcb rest ih =>
    obtain ⟨conn, connNum⟩ := conn
    rw [copyPcbs]
    -- there is room, and the count does not wrap below `max_num`
    by_cases hlt : connNum < maxNum
    · have hlt' : connNum.toNat < maxNum.toNat := hlt
      have hsucc : (connNum + 1).toNat = connNum.toNat + 1 := by
        have := maxNum.isLt
        rw [BitVec.toNat_add]
        exact Nat.mod_eq_of_lt (by simp; omega)
      obtain ⟨hentries, hnum⟩ := ih (Function.update conn connNum.toNat
        (copy (conn connNum.toNat) pcb), connNum + 1) (by dsimp only; omega)
      -- the entry is put behind those that are there
      have hput : entries (Function.update conn connNum.toNat (copy (conn connNum.toNat) pcb),
          connNum + 1) = entries (conn, connNum) ++ [entry pcb] := by
        simp only [entries, hsucc, List.range_succ, List.map_append, List.map_cons, List.map_nil,
          Function.update_self, hcopy]
        congr 1
        refine List.map_congr_left fun i hi => ?_
        rw [Function.update_of_ne (Nat.ne_of_lt (List.mem_range.1 hi))]
      have hroom : maxNum.toNat - connNum.toNat = maxNum.toNat - (connNum.toNat + 1) + 1 := by omega
      rw [if_pos hlt]
      refine ⟨?_, ?_⟩
      · rw [hentries, hput]
        dsimp only
        rw [hsucc, hroom, List.take_succ_cons, List.map_cons, List.append_assoc]
        rfl
      · rw [hnum]
        dsimp only
        rw [hsucc, List.length_cons]
        omega
    · -- the array is full and the rest of the list is passed over
      have hge : ¬ connNum.toNat < maxNum.toNat := hlt
      have hfull : maxNum.toNat - connNum.toNat = 0 := by omega
      rw [if_neg hlt]
      refine ⟨?_, ?_⟩
      · dsimp only
        rw [hfull]
        simp
      · dsimp only at hle ⊢
        omega

/-- The snapshot has the first entries of the lists. -/
theorem entries_getLwipConntable (lists : PcbLists) (conn : ℕ → ConnInfo) :
    entries (getLwipConntable lists conn gazelleLstackMaxConn) =
        (lists.tcpActivePcbs.take gazelleLstackMaxConn.toNat).map .active ++
          (lists.tcpTwPcbs.take
            (gazelleLstackMaxConn.toNat - lists.tcpActivePcbs.length)).map .timeWait ++
          (lists.tcpListenPcbs.take
            (gazelleLstackMaxConn.toNat - lists.connections.length)).map .listen ∧
      (getLwipConntable lists conn gazelleLstackMaxConn).2.toNat ≤ gazelleLstackMaxConn.toNat := by
  obtain ⟨hactive, hnum⟩ := entries_copyPcbs (copyPcbToConn .activeList) .active (fun _ _ => rfl)
    gazelleLstackMaxConn lists.tcpActivePcbs (conn, 0) (Nat.zero_le _)
  rw [getLwipConntable]
  generalize copyPcbs (copyPcbToConn .activeList) gazelleLstackMaxConn lists.tcpActivePcbs
    (conn, 0) = conns at hactive hnum ⊢
  have hzero : ((0 : BitVec 32)).toNat = 0 := rfl
  rw [hzero] at hactive hnum
  obtain ⟨htw, hnum'⟩ := entries_copyPcbs (copyPcbToConn .timeWaitList) .timeWait
    (fun _ _ => rfl) gazelleLstackMaxConn lists.tcpTwPcbs conns (by omega)
  generalize copyPcbs (copyPcbToConn .timeWaitList) gazelleLstackMaxConn lists.tcpTwPcbs conns =
    conns' at htw hnum' ⊢
  obtain ⟨hlisten, hnum''⟩ := entries_copyPcbs copyListenToConn .listen (fun _ _ => rfl)
    gazelleLstackMaxConn lists.tcpListenPcbs conns' (by omega)
  have hroom : gazelleLstackMaxConn.toNat - conns.2.toNat =
      gazelleLstackMaxConn.toNat - lists.tcpActivePcbs.length := by omega
  have hroom' : gazelleLstackMaxConn.toNat - conns'.2.toNat =
      gazelleLstackMaxConn.toNat - lists.connections.length := by
    rw [PcbLists.connections, List.length_append]
    omega
  refine ⟨?_, by omega⟩
  rw [hlisten, htw, hactive, hroom, hroom', Nat.sub_zero]
  rfl

/-! ## The messages of a stack -/

/-- The connections in a snapshot. -/
def snapConnections (lists : PcbLists) : List TcpPcb :=
  lists.connections.take gazelleLstackMaxConn.toNat

/-- The listeners in a snapshot. -/
def snapListeners (lists : PcbLists) : List TcpPcbListen :=
  lists.tcpListenPcbs.take (gazelleLstackMaxConn.toNat - lists.connections.length)

/-- The messages for connections are made from the entries. -/
private theorem messages_of_state {stack : ℕ} {tableState : TcpListState}
    (hstate : tableState ≠ .listenList) (conns : List ConnInfo) :
    env.messages tableState (fun qtuple => (stack, ⟨.tcpConnect, qtuple, env.tid stack⟩)) conns =
      (conns.filterMap (PcbEntry.connection tableState ∘ entryOf)).map (env.connectMsg stack) := by
  induction conns with
  | nil => rfl
  | cons conn conns ih =>
    rw [messages] at ih ⊢
    by_cases heq : conn.state = tableState
    · obtain ⟨pcb, hentry, hmsg⟩ : ∃ pcb,
          (PcbEntry.connection tableState ∘ entryOf) conn = some pcb ∧ env.connectMsg stack pcb =
            (stack, ⟨.tcpConnect, connQtuple conn, env.tid stack⟩) := by
        refine ⟨⟨conn.lip, conn.rip, conn.lPort, conn.rPort⟩, ?_, rfl⟩
        cases hconn : conn.state with
        | activeList => simp [entryOf, hconn, PcbEntry.connection, ← heq]
        | timeWaitList => simp [entryOf, hconn, PcbEntry.connection, ← heq]
        | listenList => exact absurd (heq.symm.trans hconn) hstate
      have hwanted : env.wanted tableState conn = true := by simp [wanted, heq, hstate]
      rw [List.filter_cons_of_pos hwanted, List.map_cons, ih,
        List.filterMap_cons_some hentry, List.map_cons, hmsg]
      rfl
    · have hnone : (PcbEntry.connection tableState ∘ entryOf) conn = none := by
        rw [Function.comp_apply]
        cases hconn : conn.state with
        | activeList =>
          simp only [entryOf, hconn, PcbEntry.connection, if_neg (hconn ▸ Ne.symm heq)]
        | timeWaitList =>
          simp only [entryOf, hconn, PcbEntry.connection, if_neg (hconn ▸ Ne.symm heq)]
        | listenList => simp only [entryOf, hconn, PcbEntry.connection]
      have hwanted : ¬ env.wanted tableState conn = true := by simp [wanted, heq]
      rw [List.filter_cons_of_neg hwanted, ih,
        List.filterMap_cons_none hnone]

/-- The messages for listeners are made from the entries. -/
private theorem messages_of_listen {stack : ℕ} (conns : List ConnInfo) :
    (env.messages .listenList (fun qtuple => (stack, ⟨.tcpListen, qtuple, env.tid stack⟩))
        conns).filterMap listenerOf =
      (env.hostListeners (conns.filterMap (PcbEntry.listener ∘ entryOf))).map
        (listenKey stack) := by
  induction conns with
  | nil => rfl
  | cons conn conns ih =>
    rw [messages, hostListeners] at ih ⊢
    by_cases heq : conn.state = .listenList
    · have hentry : (PcbEntry.listener ∘ entryOf) conn = some ⟨conn.lip, conn.lPort⟩ := by
        simp only [Function.comp_apply, entryOf, heq, PcbEntry.listener]
      rw [List.filterMap_cons_some hentry]
      by_cases hhost : matchHostAddr env.hostAddr conn.lip = true
      · have hwanted : env.wanted .listenList conn = true := by simp [wanted, heq, hhost]
        have hmsg : listenerOf (stack, ⟨.tcpListen, connQtuple conn, env.tid stack⟩) =
            some (listenKey stack ⟨conn.lip, conn.lPort⟩) := rfl
        rw [List.filter_cons_of_pos hwanted, List.filter_cons, if_pos hhost, List.map_cons,
          List.map_cons, Function.comp_apply, List.filterMap_cons_some hmsg, ih]
      · have hwanted : ¬ env.wanted .listenList conn = true := by simp [wanted, heq, hhost]
        rw [List.filter_cons_of_neg hwanted, List.filter_cons, if_neg hhost, ih]
    · have hentry : (PcbEntry.listener ∘ entryOf) conn = none := by
        cases hconn : conn.state with
        | activeList => simp only [Function.comp_apply, entryOf, hconn, PcbEntry.listener]
        | timeWaitList => simp only [Function.comp_apply, entryOf, hconn, PcbEntry.listener]
        | listenList => exact absurd hconn heq
      have hwanted : ¬ env.wanted .listenList conn = true := by simp [wanted, heq]
      rw [List.filter_cons_of_neg hwanted, List.filterMap_cons_none hentry, ih]

/-- The entries of a snapshot, list by list. -/
private theorem filterMap_entries (a t : List TcpPcb) (l : List TcpPcbListen) :
    (a.map PcbEntry.active ++ t.map PcbEntry.timeWait ++ l.map PcbEntry.listen).filterMap
        (PcbEntry.connection .activeList) = a ∧
      (a.map PcbEntry.active ++ t.map PcbEntry.timeWait ++ l.map PcbEntry.listen).filterMap
        (PcbEntry.connection .timeWaitList) = t ∧
      (a.map PcbEntry.active ++ t.map PcbEntry.timeWait ++ l.map PcbEntry.listen).filterMap
        PcbEntry.listener = l := by
  simp [List.filterMap_append, List.filterMap_map, Function.comp_def, PcbEntry.connection,
    PcbEntry.listener]

/-- The first phase sends a message for each connection in the snapshot. -/
theorem messages_connections (stack : ℕ) {lists : PcbLists} {conn : ℕ → ConnInfo}
    {conns : (ℕ → ConnInfo) × BitVec 32}
    (hconns : getLwipConntable lists conn gazelleLstackMaxConn = conns) :
    env.messages .activeList (fun qtuple => (stack, ⟨.tcpConnect, qtuple, env.tid stack⟩))
        ((List.range conns.2.toNat).map conns.1) ++
      env.messages .timeWaitList (fun qtuple => (stack, ⟨.tcpConnect, qtuple, env.tid stack⟩))
        ((List.range conns.2.toNat).map conns.1) =
      (snapConnections lists).map (env.connectMsg stack) := by
  have hentries := (entries_getLwipConntable lists conn).1
  rw [hconns, entries, ← Function.comp_def, ← List.map_map] at hentries
  rw [messages_of_state (by decide), messages_of_state (by decide), ← List.filterMap_map,
    ← List.filterMap_map, hentries,
    (filterMap_entries _ _ _).1, (filterMap_entries _ _ _).2.1, ← List.map_append, snapConnections,
    PcbLists.connections, List.take_append]

/-- The second phase sends a message for each listener on the host address in the snapshot. -/
theorem messages_listeners (stack : ℕ) {lists : PcbLists} {conn : ℕ → ConnInfo}
    {conns : (ℕ → ConnInfo) × BitVec 32}
    (hconns : getLwipConntable lists conn gazelleLstackMaxConn = conns) :
    (env.messages .listenList (fun qtuple => (stack, ⟨.tcpListen, qtuple, env.tid stack⟩))
        ((List.range conns.2.toNat).map conns.1)).filterMap listenerOf =
      (env.hostListeners (snapListeners lists)).map (listenKey stack) := by
  have hentries := (entries_getLwipConntable lists conn).1
  rw [hconns, entries, ← Function.comp_def, ← List.map_map] at hentries
  rw [messages_of_listen, ← List.filterMap_map, hentries, (filterMap_entries _ _ _).2.2,
    snapListeners]

/-! ## The loops of `thread_register` -/

variable (env) in
/-- The messages of a stack that passes a phase. -/
def RegPhase.sent (phase : RegPhase) (stack : ℕ) (connList : ℕ → ConnInfo) :
    List (ℕ × RegRingMsg) :=
  match phase with
  | phase1 => (snapConnections (env.phase1 stack).snapshot).map (env.connectMsg stack)
  | phase2 =>
    let conns := getLwipConntable (env.phase2 stack).snapshot connList gazelleLstackMaxConn
    env.messages .listenList (fun qtuple => (stack, ⟨.tcpListen, qtuple, env.tid stack⟩))
      ((List.range conns.2.toNat).map conns.1)

/-- `-1` is not `0`. -/
private theorem neg_one_ne_zero : (-1 : BitVec 32) ≠ 0 := by decide

/-- The phases with a snapshot. -/
theorem run_of_conntable (phase : RegPhase) (stack : ℕ) {connList : ℕ → ConnInfo}
    (hmsg : (phase.calls env stack).conntableMsg = true) (accepted : List (ℕ × RegRingMsg)) :
    let calls := phase.calls env stack
    let conns := rpcCallConntable calls connList gazelleLstackMaxConn
    (phase.RingOk calls →
        (∀ tableState ∈ phase.states, env.Sends calls tableState conns.1 conns.2.toNat) →
      phase.run env stack calls conns accepted =
        some (accepted ++ phase.sent env stack connList, 0)) ∧
    (¬ (phase.RingOk calls ∧
        ∀ tableState ∈ phase.states, env.Sends calls tableState conns.1 conns.2.toNat) →
      ∃ accepted' ret, phase.run env stack calls conns accepted = some (accepted', ret) ∧
        ret ≠ 0) := by
  intro calls conns
  have hconns : conns = getLwipConntable calls.snapshot connList gazelleLstackMaxConn := by
    simp only [conns, rpcCallConntable, calls, hmsg, if_true]
  have hle : conns.2.toNat ≤ gazelleLstackMaxConn.toNat :=
    hconns ▸ (entries_getLwipConntable calls.snapshot connList).2
  -- from here on only the bound of the count matters
  clear_value conns
  cases phase with
  | phase2 =>
    -- one list is sent in the second phase
    obtain ⟨hall, hnot⟩ := regConn_of_le env stack calls .listenList .tcpListen hle accepted
    refine ⟨fun _ hsends => ?_, fun hnone => ?_⟩
    · subst hconns
      exact hall (hsends _ (List.mem_singleton_self _))
    · obtain ⟨accepted', h⟩ := hnot fun hsends => hnone ⟨trivial, fun tableState hmem => by
        rw [List.mem_singleton.1 hmem]
        exact hsends⟩
      exact ⟨accepted', -1, h, neg_one_ne_zero⟩
  | phase1 =>
    -- in the first one the ring is registered, then two lists are sent
    have hrun : RegPhase.run env .phase1 stack calls conns accepted =
        if calls.clientRegThrdRing ≠ 0 then some (accepted, calls.clientRegThrdRing)
        else (env.regConn stack calls .activeList .tcpConnect conns accepted).bind
          fun (accepted, ret) => if ret ≠ 0 then some (accepted, ret)
            else env.regConn stack calls .timeWaitList .tcpConnect conns accepted := rfl
    rw [hrun]
    obtain ⟨hactive, hactive'⟩ := regConn_of_le env stack calls .activeList .tcpConnect hle accepted
    by_cases hring : calls.clientRegThrdRing = 0
    · rw [if_neg (not_not_intro hring)]
      -- the second list is only sent when all of the first was taken
      by_cases hsends : env.Sends calls .activeList conns.1 conns.2.toNat
      · obtain ⟨htw, htw'⟩ := regConn_of_le env stack calls .timeWaitList .tcpConnect hle
          (accepted ++ env.messages .activeList
            (fun qtuple => (stack, ⟨.tcpConnect, qtuple, env.tid stack⟩))
            ((List.range conns.2.toNat).map conns.1))
        rw [hactive hsends, Option.bind_some]
        dsimp only
        rw [if_neg (not_not_intro rfl)]
        refine ⟨fun _ hall => ?_, fun hnone => ?_⟩
        · rw [htw (hall _ (by decide)), List.append_assoc, messages_connections stack hconns.symm]
          rfl
        · obtain ⟨accepted', h⟩ := htw' fun htw => hnone ⟨hring, fun tableState hmem => by
            rcases List.mem_pair.1 hmem with rfl | rfl
            · exact hsends
            · exact htw⟩
          exact ⟨accepted', -1, h, neg_one_ne_zero⟩
      · -- the first list already fails
        obtain ⟨accepted', h⟩ := hactive' hsends
        rw [h, Option.bind_some]
        dsimp only
        rw [if_pos neg_one_ne_zero]
        exact ⟨fun _ hall => absurd (hall _ (by decide)) hsends,
          fun _ => ⟨accepted', -1, rfl, neg_one_ne_zero⟩⟩
    · -- and nothing is sent when the ring was not registered
      rw [if_pos hring]
      exact ⟨fun h => absurd h hring, fun _ => ⟨accepted, _, rfl, hring⟩⟩

/-- The phases without a snapshot. -/
theorem run_of_not_conntable (phase : RegPhase) (stack : ℕ) {connList : ℕ → ConnInfo}
    (hmsg : (phase.calls env stack).conntableMsg = false) (accepted : List (ℕ × RegRingMsg)) :
    let calls := phase.calls env stack
    let conns := rpcCallConntable calls connList gazelleLstackMaxConn
    (phase.RingOk calls → env.Sends calls phase.first connList gazelleLstackMaxConn.toNat →
      phase.run env stack calls conns accepted = none) ∧
    (¬ (phase.RingOk calls ∧
        env.Sends calls phase.first connList gazelleLstackMaxConn.toNat) →
      ∃ accepted' ret, phase.run env stack calls conns accepted = some (accepted', ret) ∧
        ret ≠ 0) := by
  intro calls conns
  -- without a snapshot the count is -1, which the loop takes as an unsigned number
  have hconns : conns = (connList, -1) := by
    simp only [conns, rpcCallConntable, calls, hmsg]
    rfl
  -- so the loop only stops at an error, or never inside of the array
  have hmax : gazelleLstackMaxConn.toNat < (-1 : BitVec 32).toNat := by decide
  have hlt : gazelleLstackMaxConn.toNat < (connList, (-1 : BitVec 32)).2.toNat := hmax
  rw [hconns]
  cases phase with
  | phase2 =>
    obtain ⟨hall, hnot⟩ := regConn_of_lt env stack calls .listenList .tcpListen hlt accepted
    refine ⟨fun _ hsends => hall hsends, fun hnone => ?_⟩
    obtain ⟨accepted', h⟩ := hnot fun hsends => hnone ⟨trivial, hsends⟩
    exact ⟨accepted', -1, h, neg_one_ne_zero⟩
  | phase1 =>
    have hrun : RegPhase.run env .phase1 stack calls (connList, -1) accepted =
        if calls.clientRegThrdRing ≠ 0 then some (accepted, calls.clientRegThrdRing)
        else (env.regConn stack calls .activeList .tcpConnect (connList, -1) accepted).bind
          fun (accepted, ret) => if ret ≠ 0 then some (accepted, ret)
            else env.regConn stack calls .timeWaitList .tcpConnect (connList, -1) accepted := rfl
    obtain ⟨hall, hnot⟩ := regConn_of_lt env stack calls .activeList .tcpConnect hlt accepted
    rw [hrun]
    by_cases hring : calls.clientRegThrdRing = 0
    · rw [if_neg (not_not_intro hring)]
      refine ⟨fun _ hsends => by rw [hall hsends]; rfl, fun hnone => ?_⟩
      -- an error before the end of the array ends it
      obtain ⟨accepted', h⟩ := hnot fun hsends => hnone ⟨hring, hsends⟩
      rw [h, Option.bind_some]
      dsimp only
      rw [if_pos neg_one_ne_zero]
      exact ⟨accepted', -1, rfl, neg_one_ne_zero⟩
    · rw [if_pos hring]
      exact ⟨fun h => absurd h hring, fun _ => ⟨accepted, _, rfl, hring⟩⟩

variable (env) in
/-- A stack that passes is registered. One that overruns leaves `conn_list`, and any other ends
`thread_register`. -/
theorem registerStacks_cons (phase : RegPhase) (stack : ℕ) (rest : List ℕ) (s : RegisterState) :
    let calls := phase.calls env
    (env.Passes phase (calls stack) s.connList →
      registerStacks (phase.run env) calls (stack :: rest) s =
        registerStacks (phase.run env) calls rest
          ⟨(rpcCallConntable (calls stack) s.connList gazelleLstackMaxConn).1,
            s.accepted ++ phase.sent env stack s.connList⟩) ∧
    (env.Overruns phase (calls stack) s.connList →
      registerStacks (phase.run env) calls (stack :: rest) s = none) ∧
    (¬ env.Passes phase (calls stack) s.connList → ¬ env.Overruns phase (calls stack) s.connList →
      ∃ s', registerStacks (phase.run env) calls (stack :: rest) s = some (s', false)) := by
  intro calls
  -- one round of the loop over the stacks
  have hcons : registerStacks (phase.run env) calls (stack :: rest) s =
      (if (calls stack).regphaseMsg then
        phase.run env stack (calls stack)
          (rpcCallConntable (calls stack) s.connList gazelleLstackMaxConn) s.accepted
        else some (s.accepted, -1)).bind fun (accepted, ret) =>
          if ret ≠ 0 then
            some (⟨(rpcCallConntable (calls stack) s.connList gazelleLstackMaxConn).1, accepted⟩,
              false)
          else registerStacks (phase.run env) calls rest
            ⟨(rpcCallConntable (calls stack) s.connList gazelleLstackMaxConn).1, accepted⟩ := rfl
  -- any other result than zero ends the loop
  have hfails : ∀ {res : Option (List (ℕ × RegRingMsg) × BitVec 32)},
      (∃ accepted' ret, res = some (accepted', ret) ∧ ret ≠ 0) →
      ∃ s', (res.bind fun (accepted, ret) =>
        if ret ≠ 0 then
          some (⟨(rpcCallConntable (calls stack) s.connList gazelleLstackMaxConn).1, accepted⟩,
            false)
        else registerStacks (phase.run env) calls rest
          ⟨(rpcCallConntable (calls stack) s.connList gazelleLstackMaxConn).1, accepted⟩) =
        some (s', false) := by
    rintro res ⟨accepted', ret, rfl, hret⟩
    rw [Option.bind_some]
    dsimp only
    rw [if_pos hret]
    exact ⟨_, rfl⟩
  -- the three outcomes of a round exclude each other
  rw [hcons]
  refine ⟨?_, ?_, ?_⟩
  · rintro ⟨hconntable, hregphase, hring, hsends⟩
    rw [if_pos hregphase, (run_of_conntable phase stack hconntable s.accepted).1 hring hsends,
      Option.bind_some]
    dsimp only
    rw [if_neg (not_not_intro rfl)]
  · rintro ⟨hconntable, hregphase, hring, hsends⟩
    rw [if_pos hregphase, (run_of_not_conntable phase stack hconntable s.accepted).1 hring hsends]
    rfl
  · intro hpass hover
    by_cases hregphase : (calls stack).regphaseMsg = true
    · rw [if_pos hregphase]
      refine hfails ?_
      -- which case applies is decided by the snapshot
      cases hconntable : (calls stack).conntableMsg with
      | true =>
        exact (run_of_conntable phase stack hconntable s.accepted).2 fun h =>
          hpass ⟨hconntable, hregphase, h⟩
      | false =>
        exact (run_of_not_conntable phase stack hconntable s.accepted).2 fun h =>
          hover ⟨hconntable, hregphase, h⟩
    · -- the call of `rpc_call_regphase` fails
      rw [if_neg hregphase]
      exact hfails ⟨s.accepted, -1, rfl, neg_one_ne_zero⟩

/-- A stack does not both pass and overrun. -/
theorem Passes.not_overruns {phase : RegPhase} {calls : StackCalls} {connList : ℕ → ConnInfo}
    (h : env.Passes phase calls connList) : ¬ env.Overruns phase calls connList := fun h' =>
  Bool.false_ne_true (h'.1.symm.trans h.1)

variable (env) in
/-- The loop over the stacks from `a` to `a + k`. -/
theorem registerStacks_spec (phase : RegPhase) (connList : ℕ → ConnInfo) (k a : ℕ)
    (accepted : List (ℕ × RegRingMsg)) :
    let calls := phase.calls env
    let before := fun stack => connListAfter calls connList (List.range stack)
    ((∀ stack, a ≤ stack → stack < a + k → env.Passes phase (calls stack) (before stack)) →
      registerStacks (phase.run env) calls (List.range' a k) ⟨before a, accepted⟩ =
        some (⟨before (a + k), accepted ++ (List.range' a k).flatMap fun stack =>
          phase.sent env stack (before stack)⟩, true)) ∧
    ((∃ stack, a ≤ stack ∧ stack < a + k ∧ env.Overruns phase (calls stack) (before stack) ∧
        ∀ j, a ≤ j → j < stack → env.Passes phase (calls j) (before j)) →
      registerStacks (phase.run env) calls (List.range' a k) ⟨before a, accepted⟩ = none) ∧
    ((¬ ∀ stack, a ≤ stack → stack < a + k → env.Passes phase (calls stack) (before stack)) →
      (¬ ∃ stack, a ≤ stack ∧ stack < a + k ∧ env.Overruns phase (calls stack) (before stack) ∧
        ∀ j, a ≤ j → j < stack → env.Passes phase (calls j) (before j)) →
      ∃ s', registerStacks (phase.run env) calls (List.range' a k) ⟨before a, accepted⟩ =
        some (s', false)) := by
  intro calls before
  -- by induction on the stacks that are left
  induction k generalizing a accepted with
  | zero =>
    refine ⟨fun _ => ?_, ?_, fun h => absurd (fun stack h h' => by omega) h⟩
    · simp [registerStacks]
    · rintro ⟨stack, h, h', -⟩
      omega
  | succ k ih =>
    have hsucc : before (a + 1) =
        (rpcCallConntable (calls a) (before a) gazelleLstackMaxConn).1 := by
      simp only [before, connListAfter, List.range_succ, List.foldl_append, List.foldl_cons,
        List.foldl_nil]
    obtain ⟨hpass, hover, hfail⟩ := registerStacks_cons env phase a (List.range' (a + 1) k)
      ⟨before a, accepted⟩
    dsimp only at hpass hover hfail
    rw [List.range'_succ]
    have hsum : a + (k + 1) = a + 1 + k := by omega
    by_cases hpassa : env.Passes phase (calls a) (before a)
    · obtain ⟨hall, hnone, hfails⟩ := ih (a + 1) (accepted ++ phase.sent env a (before a))
      rw [hpass hpassa, ← hsucc, hsum]
      refine ⟨fun h => ?_, ?_, fun h h' => ?_⟩
      · rw [hall fun stack hle => h stack (by omega), List.flatMap_cons, List.append_assoc]
      · rintro ⟨stack, hle, hlt, hstack, hbefore⟩
        have hne : a ≠ stack := by
          rintro rfl
          exact hpassa.not_overruns hstack
        exact hnone ⟨stack, by omega, hlt, hstack, fun j hj => hbefore j (by omega)⟩
      · refine hfails (fun hrest => h fun stack hle hlt => ?_) ?_
        · rcases Nat.eq_or_lt_of_le hle with rfl | hlt'
          · exact hpassa
          · exact hrest stack hlt' hlt
        · rintro ⟨stack, hle, hlt, hstack, hbefore⟩
          refine h' ⟨stack, by omega, hlt, hstack, fun j hj hj' => ?_⟩
          rcases Nat.eq_or_lt_of_le hj with rfl | hlt'
          · exact hpassa
          · exact hbefore j hlt' hj'
    · refine ⟨fun h => absurd (h a (Nat.le_refl a) (by omega)) hpassa, ?_, fun _ h' => ?_⟩
      · rintro ⟨stack, hle, -, hstack, hbefore⟩
        rcases Nat.eq_or_lt_of_le hle with rfl | hlt'
        · exact hover hstack
        · exact absurd (hbefore a (Nat.le_refl a) hlt') hpassa
      · refine hfail hpassa fun hstack =>
          h' ⟨a, Nat.le_refl a, by omega, hstack, fun j hj hj' => ?_⟩
        omega

variable (env) in
/-- A loop over all stacks. -/
theorem registerStacks_range (phase : RegPhase) (connList : ℕ → ConnInfo)
    (accepted : List (ℕ × RegRingMsg)) :
    let run := registerStacks (phase.run env) (phase.calls env) (List.range env.stackNum)
      ⟨connList, accepted⟩
    (env.AllPass phase connList env.stackNum →
      run = some (⟨connListAfter (phase.calls env) connList (List.range env.stackNum),
        accepted ++ (List.range env.stackNum).flatMap fun stack => phase.sent env stack
          (connListAfter (phase.calls env) connList (List.range stack))⟩, true)) ∧
    (¬ env.NoneOverruns phase connList → run = none) ∧
    (¬ env.AllPass phase connList env.stackNum → env.NoneOverruns phase connList →
      ∃ s', run = some (s', false)) := by
  intro run
  obtain ⟨hall, hnone, hfails⟩ :=
    registerStacks_spec env phase connList env.stackNum 0 accepted
  simp only [Nat.zero_add, ← List.range_eq_range'] at hall hnone hfails
  refine ⟨fun h => hall fun stack _ => h stack, fun h => hnone ?_, fun h h' => hfails ?_ ?_⟩
  · simp only [NoneOverruns] at h
    push Not at h
    obtain ⟨stack, hlt, hpass, hover⟩ := h
    exact ⟨stack, Nat.zero_le stack, hlt, hover, fun j _ => hpass j⟩
  · exact fun hall => h fun stack => hall stack (Nat.zero_le stack)
  · rintro ⟨stack, -, hlt, hover, hpass⟩
    exact h' stack hlt (fun j => hpass j (Nat.zero_le j)) hover

/-- A phase that all stacks pass overruns at none of them. -/
theorem AllPass.noneOverruns {phase : RegPhase} {connList : ℕ → ConnInfo}
    (h : env.AllPass phase connList env.stackNum) : env.NoneOverruns phase connList :=
  fun stack hlt _ => (h stack hlt).not_overruns

/-! ## What was registered -/

/-- Each member of a list of lists is marked with the number of its list. -/
private theorem count_flatMap_range {α : Type*} [DecidableEq α] {f : ℕ → List α} (key : α → ℕ)
    (hkey : ∀ j, ∀ x ∈ f j, key x = j) (x : α) (n : ℕ) :
    ((List.range n).flatMap f).count x = if key x < n then (f (key x)).count x else 0 := by
  induction n with
  | zero => simp
  | succ n ih =>
    rw [List.range_succ, List.flatMap_append, List.count_append, ih, List.flatMap_singleton]
    by_cases hlt : key x < n
    · have hnot : x ∉ f n := fun hmem => absurd (hkey n x hmem) (by omega)
      rw [if_pos hlt, if_pos (by omega), List.count_eq_zero.2 hnot, Nat.add_zero]
    · rw [if_neg hlt, Nat.zero_add]
      by_cases heq : key x = n
      · rw [if_pos (by omega), heq]
      · have hnot : x ∉ f n := fun hmem => heq (hkey n x hmem)
        rw [if_neg (by omega), List.count_eq_zero.2 hnot]

/-- What is marked with one number is in the list of that number. -/
private theorem subperm_flatMap_range_iff {α : Type*} [DecidableEq α] {f : ℕ → List α}
    (key : α → ℕ) (hkey : ∀ j, ∀ x ∈ f j, key x = j) {i n : ℕ} (hi : i < n) {l : List α}
    (hl : ∀ x ∈ l, key x = i) : l.Subperm ((List.range n).flatMap f) ↔ l.Subperm (f i) := by
  rw [List.subperm_ext_iff, List.subperm_ext_iff]
  refine forall₂_congr fun x hx => ?_
  rw [count_flatMap_range key hkey, hl x hx, if_pos hi]

/-- Swapping bytes twice changes nothing. -/
theorem lwipHtons_injective : Function.Injective lwipHtons := by
  have hswap : ∀ n : BitVec 16, lwipHtons (lwipHtons n) = n := by
    intro n
    refine BitVec.eq_of_getLsbD_eq fun i hi => ?_
    simp only [lwipHtons, BitVec.getLsbD_or, BitVec.getLsbD_shiftLeft,
      BitVec.getLsbD_ushiftRight]
    by_cases hlow : i < 8
    · have hup : 8 + i < 16 := by omega
      have hout : n.getLsbD (8 + (8 + i)) = false := BitVec.getLsbD_of_ge n _ (by omega)
      simp [hlow, hup, hout]
    · have hdown : i - 8 < 8 := by omega
      have hback : 8 + (i - 8) = i := by omega
      have hup : ¬ 8 + i < 16 := by omega
      have hout : n.getLsbD (8 + (8 + i)) = false := BitVec.getLsbD_of_ge n _ (by omega)
      simp [hlow, hdown, hback, hup, hout, hi]
  exact Function.LeftInverse.injective hswap

variable (env) in
/-- The message tells the connection. -/
theorem connectMsg_injective (stack : ℕ) : Function.Injective (env.connectMsg stack) := by
  rintro ⟨lip, rip, lPort, rPort⟩ ⟨lip', rip', lPort', rPort'⟩ h
  simp only [connectMsg, connQtuple, copyPcbToConn, Prod.mk.injEq, RegRingMsg.mk.injEq,
    GazelleQuintuple.mk.injEq, true_and, and_true] at h
  obtain ⟨hlPort, hrPort, hlip, hrip⟩ := h
  rw [lwipHtons_injective hlPort, lwipHtons_injective hrPort, hlip, hrip]

/-- What a message says about a listener tells the listener. -/
theorem listenKey_injective (stack : ℕ) : Function.Injective (listenKey stack) := by
  rintro ⟨lip, lPort⟩ ⟨lip', lPort'⟩ h
  simp only [listenKey, Prod.mk.injEq, true_and] at h
  rw [h.1, lwipHtons_injective h.2]

variable (env) in
/-- The messages of all stacks for connections. -/
def allConnects : List (ℕ × RegRingMsg) :=
  (List.range env.stackNum).flatMap fun stack =>
    (snapConnections (env.phase1 stack).snapshot).map (env.connectMsg stack)

variable (env) in
/-- The messages of all stacks for listeners. -/
def allListens : List (ℕ × RegRingMsg) :=
  (List.range env.stackNum).flatMap fun stack => RegPhase.sent env .phase2 stack
    (connListAfter env.phase2 env.connListPhase2 (List.range stack))

/-- Messages for connections. -/
theorem type_allConnects : ∀ m ∈ env.allConnects, m.2.type = .tcpConnect := by
  intro m hm
  obtain ⟨stack, -, hm⟩ := List.mem_flatMap.1 hm
  obtain ⟨pcb, -, rfl⟩ := List.mem_map.1 hm
  rfl

/-- Messages for listeners. -/
theorem type_allListens : ∀ m ∈ env.allListens, m.2.type = .tcpListen := by
  intro m hm
  obtain ⟨stack, -, hm⟩ := List.mem_flatMap.1 hm
  obtain ⟨conn, -, rfl⟩ := List.mem_map.1 hm
  rfl

/-- The messages register everything when the snapshots had everything. -/
theorem complete_iff_covered : env.Complete (env.allConnects ++ env.allListens) ↔ env.Covered := by
  -- the messages of a stack carry its tid, so they can be counted stack by stack
  have hconnects : ∀ stack < env.stackNum,
      ((env.phase1 stack).lists.connections.map (env.connectMsg stack)).Subperm
          (env.allConnects ++ env.allListens) ↔
        (env.phase1 stack).lists.connections.Subperm
          (snapConnections (env.phase1 stack).snapshot) := by
    intro stack hstack
    have happend : ((env.phase1 stack).lists.connections.map (env.connectMsg stack)).Subperm
          (env.allConnects ++ env.allListens) ↔
        ((env.phase1 stack).lists.connections.map (env.connectMsg stack)).Subperm
          env.allConnects := by
      rw [List.subperm_ext_iff, List.subperm_ext_iff]
      refine forall₂_congr fun x hx => ?_
      obtain ⟨pcb, -, rfl⟩ := List.mem_map.1 hx
      -- a listen message is no connect message
      have hnot : env.connectMsg stack pcb ∉ env.allListens := fun hmem =>
        absurd (type_allListens _ hmem) (by simp [connectMsg])
      rw [List.count_append, List.count_eq_zero.2 hnot, Nat.add_zero]
    rw [happend, ← List.map_subperm_map_iff (connectMsg_injective env stack)]
    refine subperm_flatMap_range_iff Prod.fst (fun j x hx => ?_) hstack fun x hx => ?_
    · obtain ⟨pcb, -, rfl⟩ := List.mem_map.1 hx
      rfl
    · obtain ⟨pcb, -, rfl⟩ := List.mem_map.1 hx
      rfl
  -- a listener is compared by what the host keeps of it
  have hlistens : ∀ stack < env.stackNum,
      ((env.hostListeners (env.phase2 stack).lists.tcpListenPcbs).map (listenKey stack)).Subperm
          ((env.allConnects ++ env.allListens).filterMap listenerOf) ↔
        (env.hostListeners (env.phase2 stack).lists.tcpListenPcbs).Subperm
          (env.hostListeners (snapListeners (env.phase2 stack).snapshot)) := by
    intro stack hstack
    -- the connect messages have no listener in them
    have hnone : env.allConnects.filterMap listenerOf = [] := by
      refine List.filterMap_eq_nil_iff.2 fun m hm => ?_
      simp [listenerOf, type_allConnects m hm]
    have hall : env.allListens.filterMap listenerOf = (List.range env.stackNum).flatMap
        fun stack => (env.hostListeners (snapListeners (env.phase2 stack).snapshot)).map
          (listenKey stack) := by
      rw [allListens, List.filterMap_flatMap]
      exact List.flatMap_congr fun stack _ => messages_listeners stack rfl
    rw [List.filterMap_append, hnone, hall, List.nil_append,
      ← List.map_subperm_map_iff (listenKey_injective stack)]
    refine subperm_flatMap_range_iff Prod.fst (fun j x hx => ?_) hstack fun x hx => ?_
    · obtain ⟨pcb, -, rfl⟩ := List.mem_map.1 hx
      rfl
    · obtain ⟨pcb, -, rfl⟩ := List.mem_map.1 hx
      rfl
  constructor
  · intro h
    exact ⟨fun stack hstack => (hconnects stack hstack).1 (h.connects stack hstack),
      fun stack hstack => (hlistens stack hstack).1 (h.listens stack hstack)⟩
  · intro h
    exact ⟨fun stack hstack => (hconnects stack hstack).2 (h.connections stack hstack),
      fun stack hstack => (hlistens stack hstack).2 (h.listeners stack hstack),
      ⟨_, _, rfl, type_allConnects, type_allListens⟩⟩

/-! ## The reconnection -/

/-- A reconnection that leaves `conn_list`. -/
private theorem not_registers (h : env.clientRegProcReconnect = none) : ¬ env.Registers := by
  rintro ⟨accepted, fd, hres, -⟩
  rw [h] at hres
  cases hres

/-- A reconnection that returns no descriptor. -/
private theorem registers_of_none {accepted : List (ℕ × RegRingMsg)}
    (h : env.clientRegProcReconnect = some (accepted, none)) : env.Registers :=
  ⟨accepted, none, h, fun hsome => absurd hsome (by decide)⟩

/-- A reconnection that returns a descriptor. -/
private theorem registers_iff_of_some {accepted : List (ℕ × RegRingMsg)} {fd : ℕ}
    (h : env.clientRegProcReconnect = some (accepted, some fd)) :
    env.Registers ↔ env.Complete accepted := by
  constructor
  · rintro ⟨accepted', fd', hres, hcomplete⟩
    obtain ⟨rfl, rfl⟩ := Prod.mk.inj (Option.some.inj (h.symm.trans hres))
    exact hcomplete rfl
  · exact fun hcomplete => ⟨accepted, some fd, h, fun _ => hcomplete⟩

/-- `thread_register` with memory for `conn_list`. -/
private theorem threadRegister_of_calloc (hcalloc : env.calloc = true) :
    env.threadRegister =
      (registerStacks (RegPhase.run env .phase1) (RegPhase.calls env .phase1)
        (List.range env.stackNum) ⟨fun _ => zeroedConn, []⟩).bind fun (s, ok) =>
          if ok then
            (registerStacks (RegPhase.run env .phase2) (RegPhase.calls env .phase2)
              (List.range env.stackNum) s).map fun (s, ok) => (s.accepted, ok)
          else some (s.accepted, false) := by
  rw [threadRegister, if_pos hcalloc]
  rfl

variable (env) in
/-- `thread_register` leaves `conn_list` when a stack overruns. Else it returns 0 when all stacks
pass both phases, after the messages of the snapshots. -/
theorem threadRegister_spec (hcalloc : env.calloc = true) :
    let pass1 := env.AllPass .phase1 (fun _ => zeroedConn) env.stackNum
    let pass2 := env.AllPass .phase2 env.connListPhase2 env.stackNum
    let none1 := env.NoneOverruns .phase1 (fun _ => zeroedConn)
    let none2 := env.NoneOverruns .phase2 env.connListPhase2
    (pass1 ∧ pass2 ∧ env.threadRegister = some (env.allConnects ++ env.allListens, true)) ∨
    (¬ none1 ∨ pass1 ∧ ¬ none2) ∧ env.threadRegister = none ∨
    (none1 ∧ ¬ pass1 ∨ none1 ∧ pass1 ∧ none2 ∧ ¬ pass2) ∧
      ∃ accepted, env.threadRegister = some (accepted, false) := by
  intro pass1 pass2 none1 none2
  obtain ⟨hall1, hnone1, hfails1⟩ := registerStacks_range env .phase1 (fun _ => zeroedConn) []
  rw [threadRegister_of_calloc hcalloc]
  by_cases h1 : none1
  · by_cases hp1 : pass1
    · rw [hall1 hp1, Option.bind_some]
      dsimp only
      rw [if_pos rfl, List.nil_append]
      obtain ⟨hall2, hnone2, hfails2⟩ :=
        registerStacks_range env .phase2 env.connListPhase2 env.allConnects
      by_cases h2 : none2
      · by_cases hp2 : pass2
        · exact .inl ⟨hp1, hp2, (congrArg _ (hall2 hp2)).trans rfl⟩
        · obtain ⟨s', h⟩ := hfails2 hp2 h2
          exact .inr (.inr ⟨.inr ⟨h1, hp1, h2, hp2⟩, s'.accepted, (congrArg _ h).trans rfl⟩)
      · exact .inr (.inl ⟨.inr ⟨hp1, h2⟩, (congrArg _ (hnone2 h2)).trans rfl⟩)
    · obtain ⟨s', h⟩ := hfails1 hp1 h1
      rw [h]
      exact .inr (.inr ⟨.inl ⟨h1, hp1⟩, s'.accepted, rfl⟩)
  · rw [hnone1 h1]
    exact .inr (.inl ⟨.inl h1, rfl⟩)

/-- `client_reg_proc_reconnect` keeps within `conn_list`, and registers everything when it returns a
descriptor, exactly when, wherever `thread_register` comes to, `rpc_call_conntable` gets its message
or the stack is not registered anyway, and, if all stacks are registered, the snapshots have all
connections and listeners. -/
theorem reconnect_complete (env : ReconnectCalls) : env.Registers ↔ env.Condition := by
  unfold Condition
  cases hcontrol : env.controlInitClient with
  | none =>
    -- the connection to ltran is not made, so nothing is promised
    have hres : env.clientRegProcReconnect = some ([], none) := by
      rw [clientRegProcReconnect, hcontrol]
    exact ⟨fun _ h => absurd h (by decide), fun _ => registers_of_none hres⟩
  | some sockfd =>
    have hres : env.clientRegProcReconnect = env.threadRegister.map fun (accepted, ok) =>
        (accepted, if ok && env.epollCtl then some sockfd else none) := by
      rw [clientRegProcReconnect, hcontrol]
    cases hcalloc : env.calloc with
    | false =>
      rw [threadRegister, hcalloc] at hres
      exact ⟨fun _ _ h => absurd h (by decide), fun _ => registers_of_none hres⟩
    | true =>
      simp only [Option.isSome_some, forall_const]
      -- `thread_register` goes through, overruns an array, or gives up before
      rcases threadRegister_spec env hcalloc with ⟨hp1, hp2, h⟩ | ⟨hover, h⟩ | ⟨hnot, accepted, h⟩
      · rw [h, Option.map_some] at hres
        -- a failure of `epoll_ctl` returns no descriptor
        cases hepoll : env.epollCtl with
        | false =>
          rw [hepoll] at hres
          exact ⟨fun _ => ⟨hp1.noneOverruns, fun _ => ⟨hp2.noneOverruns, fun _ he =>
            absurd he (by decide)⟩⟩, fun _ => registers_of_none hres⟩
        | true =>
          rw [hepoll] at hres
          rw [registers_iff_of_some hres, complete_iff_covered]
          exact ⟨fun hc => ⟨hp1.noneOverruns, fun _ => ⟨hp2.noneOverruns, fun _ _ => hc⟩⟩,
            fun hc => (hc.2 hp1).2 hp2 rfl⟩
      · rw [h, Option.map_none] at hres
        refine ⟨fun hreg => absurd hreg (not_registers hres), fun hc => ?_⟩
        -- the overrun is in the first phase, or in the second one after a complete first one
        rcases hover with h1 | ⟨hp1, h2⟩
        · exact absurd hc.1 h1
        · exact absurd (hc.2 hp1).1 h2
      · rw [h, Option.map_some] at hres
        refine ⟨fun _ => ?_, fun _ => registers_of_none hres⟩
        -- giving up is no overrun, and no descriptor is returned
        rcases hnot with ⟨h1, hp1⟩ | ⟨h1, -, h2, hp2⟩
        · exact ⟨h1, fun hp => absurd hp hp1⟩
        · exact ⟨h1, fun _ => ⟨h2, fun hp => absurd hp hp2⟩⟩

/-- A stack without connections and listeners, for which one call gets no message perhaps. -/
private def emptyStack (conntableMsg : Bool) : StackCalls where
  conntableMsg := conntableMsg
  snapshot := ⟨[], [], []⟩
  regphaseMsg := true
  clientRegThrdRing := 0
  lists := ⟨[], [], []⟩
  tries _ _ := (0, [])

/-- One stack, whose second `rpc_call_conntable` gets no message. -/
private def oneStack : ReconnectCalls where
  controlInitClient := some 3
  calloc := true
  stackNum := 1
  tid _ := 7
  hostAddr := 1
  phase1 _ := emptyStack true
  phase2 _ := emptyStack false
  epollCtl := true

/-- The number of entries is `-1` in the second phase, and `reg_conn` leaves `conn_list`. -/
theorem reconnect_overrun : oneStack.clientRegProcReconnect = none ∧ ¬ oneStack.Registers := by
  have hpass : oneStack.AllPass .phase1 (fun _ => zeroedConn) oneStack.stackNum := fun _ _ =>
    ⟨rfl, rfl, rfl, fun _ _ i hi => absurd hi (Nat.not_lt_zero i)⟩
  have hlist : oneStack.connListPhase2 = fun _ => zeroedConn := rfl
  have hsends : oneStack.Sends (emptyStack false) .listenList oneStack.connListPhase2
      gazelleLstackMaxConn.toNat := fun _ _ hwanted => by
    rw [hlist] at hwanted
    exact absurd hwanted Bool.false_ne_true
  have hover : ¬ oneStack.NoneOverruns .phase2 oneStack.connListPhase2 := fun h =>
    h 0 (Nat.zero_lt_one) (fun _ hlt => absurd hlt (Nat.not_lt_zero _)) ⟨rfl, rfl, trivial, hsends⟩
  have hregister : oneStack.threadRegister = none := by
    rcases threadRegister_spec oneStack rfl with ⟨-, hpass2, -⟩ | ⟨-, h⟩ | ⟨hnot, -⟩
    · exact absurd hpass2.noneOverruns hover
    · exact h
    · rcases hnot with ⟨-, hnot⟩ | ⟨-, -, hnone, -⟩
      · exact absurd hpass hnot
      · exact absurd hnone hover
  have hres : oneStack.clientRegProcReconnect = none := by
    rw [clientRegProcReconnect, hregister]
    rfl
  exact ⟨hres, not_registers hres⟩

end ReconnectCalls

end Gazelle
