import Gazelle.Ethdev.RuleMessages
import Gazelle.Ltran.Tables
import Gazelle.Registers.Pending

/-!
# The port tables of process 0

In `tuple_filter` mode process 0 looks up in `g_listen_ports` and `g_user_ports` which process a
packet is for. `vdev_reg_xmit` keeps the tables: process 0 writes to them at once, and the other
processes send it a message and wait for the reply, except when a connection is closed. Then
process 0 clears the entry of the port, also when other connections use it, while the message of
another process clears none.

* `PortSys.system`: all orders of the calls and of the messages that process 0 handles;
* `PortInv`: the tables settle at the processes that use the ports;
* `port_tables_follow`: with the last use of a port its entry goes, under which condition;
* `port_tables_stale`: the entry of a port that has a live connection is cleared.
-/

namespace Gazelle

/-- `UNIX_TCP_PORT_MAX`, the length of the tables. -/
def unixTcpPortMax : ℕ := 65535

/-- `INVAILD_PROCESS_IDX`. -/
def invaildProcessIdx : BitVec 8 := 255

/-- `enum port_type`. -/
inductive PortType
  /-- `PORT_LISTEN`. -/
  | listen
  /-- `PORT_CONNECT`. -/
  | connect

/-- The tables. -/
structure PortTables where
  /-- `g_listen_ports`. -/
  gListenPorts : Port → BitVec 8
  /-- `g_user_ports`. -/
  gUserPorts : Port → BitVec 8
  /-- Whether there was a write behind the end of a table. -/
  outOfBounds : Bool

/-- What a process sends to process 0. -/
structure ProcessPkt where
  /-- The text. -/
  buf : List Char
  /-- The number of bytes that are written, by which the receiver knows the kind. -/
  writeLen : ℕ
  /-- The queue of the thread that sends it. -/
  queueId : BitVec 16
  deriving DecidableEq

namespace PortTables

variable (t : PortTables)

/-- `add_user_process_port`. -/
def addUserProcessPort (dstPort : Port) (processIdx : BitVec 8) (type : PortType) : PortTables :=
  if dstPort.toNat < unixTcpPortMax then
    match type with
    | .listen => { t with gListenPorts := Function.update t.gListenPorts dstPort processIdx }
    | .connect => { t with gUserPorts := Function.update t.gUserPorts dstPort processIdx }
  else { t with outOfBounds := true }

/-- `delete_user_process_port`. -/
def deleteUserProcessPort (dstPort : Port) (type : PortType) : PortTables :=
  t.addUserProcessPort dstPort invaildProcessIdx type

variable {t} in
theorem addUserProcessPort_listen {dstPort : Port} (h : dstPort.toNat < unixTcpPortMax)
    {processIdx : BitVec 8} : t.addUserProcessPort dstPort processIdx .listen =
      ⟨Function.update t.gListenPorts dstPort processIdx, t.gUserPorts, t.outOfBounds⟩ := if_pos h

variable {t} in
theorem addUserProcessPort_connect {dstPort : Port} (h : dstPort.toNat < unixTcpPortMax)
    {processIdx : BitVec 8} : t.addUserProcessPort dstPort processIdx .connect =
      ⟨t.gListenPorts, Function.update t.gUserPorts dstPort processIdx, t.outOfBounds⟩ := if_pos h

/-- `parse_and_create_rule`, without the flow rule. -/
def parseAndCreateRule (buf : List Char) : PortTables :=
  let r := parseCreateRule buf
  t.addUserProcessPort r.dstPort r.processIdx .connect

/-- `parse_and_add_or_delete_listen_port`. -/
def parseAndAddOrDeleteListenPort (buf : List Char) : PortTables :=
  let r := parseListenPort buf
  if r.isAdd = 1 then t.addUserProcessPort r.listenPort r.processIdx .listen
  else t.deleteUserProcessPort r.listenPort .listen

/-- The inner loop of `recv_pkts_from_other_process` for these messages. Deleting a flow rule leaves
the tables alone. -/
def recvPkt (m : ProcessPkt) : PortTables :=
  if m.writeLen = deleteFlowsParamsLength then t
  else if m.writeLen = createFlowsParamsLength then t.parseAndCreateRule m.buf
  else t.parseAndAddOrDeleteListenPort m.buf

/-- `vdev_reg_xmit` in `tuple_filter` mode without ltran, called by the thread of `queueId` in
process `processIdx`: the tables, and the message that is sent to process 0. -/
def vdevRegXmit (processIdx : BitVec 8) (queueId : BitVec 16) (type : RegRingType)
    (qtuple : GazelleQuintuple) : Option (PortTables × Option ProcessPkt) :=
  let isPrimary := processIdx = 0
  match type with
  | .tcpListenClose =>
    if isPrimary then some (t.deleteUserProcessPort qtuple.srcPort .listen, none)
    else (transferAddOrDeleteListenPort qtuple.srcPort processIdx 0).map fun buf =>
      (t, some ⟨buf, addOrDeleteListenPortParamsLength, queueId⟩)
  | .tcpConnectClose =>
    -- the primary process deletes its flow rule itself
    if isPrimary then some (t.deleteUserProcessPort qtuple.srcPort .connect, none)
    else (transferDeleteRuleInfo qtuple.dstIp qtuple.srcPort qtuple.dstPort).map fun buf =>
      (t, some ⟨buf, deleteFlowsParamsLength, queueId⟩)
  | .tcpConnect =>
    let t := if isPrimary then t.addUserProcessPort qtuple.srcPort processIdx .connect else t
    if isPrimary ∧ queueId = 0 then some (t, none)
    else (transferCreateRuleInfo queueId qtuple.srcIp qtuple.dstIp qtuple.srcPort qtuple.dstPort
      processIdx).map fun buf => (t, some ⟨buf, createFlowsParamsLength, queueId⟩)
  | .tcpListen =>
    if isPrimary then some (t.addUserProcessPort qtuple.srcPort processIdx .listen, none)
    else (transferAddOrDeleteListenPort qtuple.srcPort processIdx 1).map fun buf =>
      (t, some ⟨buf, addOrDeleteListenPortParamsLength, queueId⟩)
  | .unknown => some (t, none)

end PortTables

/-- A listener or a connection of a process. -/
structure PortUse where
  /-- The process. -/
  processIdx : BitVec 8
  /-- The queue of its thread. -/
  queueId : BitVec 16
  /-- The addresses and ports. -/
  qtuple : GazelleQuintuple
  deriving DecidableEq

/-- The local port. -/
def PortUse.port (u : PortUse) : Port := u.qtuple.srcPort

/-- The tables, the messages that are in flight, and the listeners and connections. -/
structure PortSys where
  /-- The tables. -/
  tables : PortTables
  /-- The messages that each process has sent and that are not handled yet. -/
  inFlight : BitVec 8 → List ProcessPkt
  /-- The open listeners. -/
  listeners : List PortUse
  /-- The live connections. -/
  conns : List PortUse

/-- What happens. -/
inductive PortAct
  /-- A thread of a process calls `vdev_reg_xmit`. -/
  | regXmit (processIdx : BitVec 8) (queueId : BitVec 16) (type : RegRingType)
    (qtuple : GazelleQuintuple)
  /-- Process 0 handles the first message of a process. -/
  | recv (processIdx : BitVec 8)

/-- The process that uses a port. -/
def portOwner (uses : List PortUse) (p : Port) : BitVec 8 :=
  ((uses.find? (·.port = p)).map PortUse.processIdx).getD invaildProcessIdx

namespace PortSys

variable (s : PortSys)

/-- A thread waits for a reply; only the message that deletes a rule gets none. -/
def Waits (processIdx : BitVec 8) (queueId : BitVec 16) : Prop :=
  ∃ m ∈ s.inFlight processIdx, m.queueId = queueId ∧ m.writeLen ≠ deleteFlowsParamsLength

/-- Whether a thread waits for a reply is decidable. -/
instance (processIdx : BitVec 8) (queueId : BitVec 16) :
    Decidable (s.Waits processIdx queueId) := by
  unfold Waits
  infer_instance

/-- Another process uses the port. -/
def UsedByOther (processIdx : BitVec 8) (p : Port) : Prop :=
  ∃ u ∈ s.listeners ++ s.conns, u.port = p ∧ u.processIdx ≠ processIdx

/-- Whether another process uses the port is decidable. -/
instance (processIdx : BitVec 8) (p : Port) : Decidable (s.UsedByOther processIdx p) := by
  unfold UsedByOther
  infer_instance

/-- What the call is about: a listener or connection that is opened, on a port that no other process
uses, or one that is closed. -/
def use (type : RegRingType) (u : PortUse) : Option PortSys :=
  match type with
  | .tcpListen =>
    if s.UsedByOther u.processIdx u.port then none
    else some { s with listeners := u :: s.listeners }
  | .tcpListenClose =>
    if u ∈ s.listeners then some { s with listeners := s.listeners.erase u } else none
  | .tcpConnect =>
    if s.UsedByOther u.processIdx u.port then none else some { s with conns := u :: s.conns }
  | .tcpConnectClose => if u ∈ s.conns then some { s with conns := s.conns.erase u } else none
  | .unknown => some s

/-- A thread that does not wait makes its call. -/
def regXmit (processIdx : BitVec 8) (queueId : BitVec 16) (type : RegRingType)
    (qtuple : GazelleQuintuple) : Option PortSys :=
  if s.Waits processIdx queueId then none
  else (s.use type ⟨processIdx, queueId, qtuple⟩).bind fun s =>
    (s.tables.vdevRegXmit processIdx queueId type qtuple).map fun (tables, sent) =>
      { s with
        tables
        inFlight := Function.update s.inFlight processIdx
          (s.inFlight processIdx ++ sent.toList) }

/-- Process 0 handles the first message of a process, and replies. -/
def recv (processIdx : BitVec 8) : Option PortSys :=
  match s.inFlight processIdx with
  | [] => none
  | m :: rest =>
    some { s with
      tables := s.tables.recvPkt m
      inFlight := Function.update s.inFlight processIdx rest }

/-- All orders, from the tables as `init_listen_and_user_ports` leaves them. -/
def system : Transition.System PortSys PortAct where
  Init s :=
    s = ⟨⟨fun _ => invaildProcessIdx, fun _ => invaildProcessIdx, false⟩, fun _ => [], [], []⟩
  step s
    | .regXmit processIdx queueId type qtuple => s.regXmit processIdx queueId type qtuple
    | .recv processIdx => s.recv processIdx

/-- A table has the processes that use the ports. -/
def Follows (ports : Port → BitVec 8) (uses : List PortUse) : Prop :=
  ∀ p : Port, p.toNat < unixTcpPortMax →
    (∀ u ∈ uses, u.port = p → ports p = u.processIdx) ∧
    ((∀ u ∈ uses, u.port ≠ p) → ports p = invaildProcessIdx)

/-- All writes are within the tables, and without messages in flight the tables have the processes
that use the ports. -/
def PortsFollow : Prop :=
  s.tables.outOfBounds = false ∧ ((∀ i, s.inFlight i = []) →
    Follows s.tables.gListenPorts s.listeners ∧ Follows s.tables.gUserPorts s.conns)

/-- The write to `g_listen_ports` that a message will cause. -/
def listenWrite (m : ProcessPkt) : Option (Port × BitVec 8) :=
  if m.writeLen = deleteFlowsParamsLength ∨ m.writeLen = createFlowsParamsLength then none
  else
    let r := parseListenPort m.buf
    some (r.listenPort, if r.isAdd = 1 then r.processIdx else invaildProcessIdx)

/-- The write to `g_user_ports` that a message will cause. -/
def userWrite (m : ProcessPkt) : Option (Port × BitVec 8) :=
  if m.writeLen = createFlowsParamsLength then
    let r := parseCreateRule m.buf
    some (r.dstPort, r.processIdx)
  else none

/-- The port is in the table and, when it is about to be listened on, no message of another process
about it is in flight. The addresses of a message are below `2 ^ 31`. A listener, or a connection of
the primary process, is closed as the last one on its port, and a connection of another process is
not. -/
def Condition : PortAct → Prop
  | .regXmit processIdx queueId type qtuple =>
    let u : PortUse := ⟨processIdx, queueId, qtuple⟩
    match type with
    | .tcpListen => u.port.toNat < unixTcpPortMax ∧
      ∀ j, j ≠ processIdx → ∀ m ∈ s.inFlight j, ∀ w ∈ listenWrite m, w.1 ≠ u.port
    | .tcpListenClose => ∀ u' ∈ s.listeners.erase u, u'.port ≠ u.port
    | .tcpConnect => u.port.toNat < unixTcpPortMax ∧ (processIdx = 0 ∧ queueId = 0 ∨
      qtuple.srcIp.toNat < 2 ^ 31 ∧ qtuple.dstIp.toNat < 2 ^ 31)
    | .tcpConnectClose =>
      if processIdx = 0 then ∀ u' ∈ s.conns.erase u, u'.port ≠ u.port
      else ∃ u' ∈ s.conns.erase u, u'.port = u.port
    | .unknown => True
  | .recv _ => True

end PortSys

namespace PortSys

/-- Whether a message writes another port than `p` can be computed. -/
instance decidableListenWrite (m : ProcessPkt) (p : Port) :
    Decidable (∀ w ∈ listenWrite m, w.1 ≠ p) :=
  Option.decidableForallMem (listenWrite m)

/-- The condition on an action is decidable. -/
instance (s : PortSys) (a : PortAct) : Decidable (s.Condition a) := by
  cases a with
  | recv i => exact isTrue trivial
  | regXmit i queueId type qtuple =>
    cases type with
    | tcpListen | tcpListenClose | tcpConnect => unfold Condition; infer_instance
    | tcpConnectClose => unfold Condition; infer_instance
    | unknown => exact isTrue trivial

end PortSys

/-! ## The process that uses a port -/

/-- Uses of one port are of one process. -/
def OneProcess (uses : List PortUse) : Prop :=
  ∀ u ∈ uses, ∀ u' ∈ uses, u.port = u'.port → u.processIdx = u'.processIdx

variable {uses uses' : List PortUse} {u : PortUse} {p : Port}

theorem portOwner_cons :
    portOwner (u :: uses) = Function.update (portOwner uses) u.port u.processIdx := by
  funext p
  by_cases hp : p = u.port
  · subst hp
    rw [Function.update_self, portOwner, List.find?_cons_of_pos (by simp)]
    rfl
  · rw [Function.update_of_ne hp, portOwner, List.find?_cons_of_neg (by simpa using Ne.symm hp),
      portOwner]

theorem portOwner_of_forall_ne (h : ∀ u ∈ uses, u.port ≠ p) :
    portOwner uses p = invaildProcessIdx := by
  rw [portOwner, List.find?_eq_none.2 (by simpa using h)]
  rfl

theorem portOwner_of_mem (h : OneProcess uses) (hu : u ∈ uses) :
    portOwner uses u.port = u.processIdx := by
  rw [portOwner]
  cases hfind : uses.find? (·.port = u.port) with
  | none => exact absurd (List.find?_eq_none.1 hfind u hu) (by simp)
  | some u' =>
    have hport : u'.port = u.port := by simpa using List.find?_some hfind
    exact h u' (List.mem_of_find?_eq_some hfind) u hu hport

/-- The same uses of a port, the same process. -/
theorem portOwner_congr (h : OneProcess uses) (h' : OneProcess uses')
    (hiff : ∀ u : PortUse, u.port = p → (u ∈ uses ↔ u ∈ uses')) :
    portOwner uses p = portOwner uses' p := by
  by_cases hex : ∃ u ∈ uses, u.port = p
  · obtain ⟨u, hu, rfl⟩ := hex
    rw [portOwner_of_mem h hu, portOwner_of_mem h' ((hiff u rfl).1 hu)]
  · have hne : ∀ u ∈ uses, u.port ≠ p := fun u hu hup => hex ⟨u, hu, hup⟩
    rw [portOwner_of_forall_ne hne,
      portOwner_of_forall_ne fun u hu hup => hne u ((hiff u hup).2 hu) hup]

theorem OneProcess.erase (h : OneProcess uses) (u : PortUse) : OneProcess (uses.erase u) :=
  fun _ hu₁ _ hu₂ => h _ (List.mem_of_mem_erase hu₁) _ (List.mem_of_mem_erase hu₂)

theorem OneProcess.cons (h : OneProcess uses)
    (hu : ∀ u' ∈ uses, u'.port = u.port → u'.processIdx = u.processIdx) :
    OneProcess (u :: uses) := by
  intro u₁ hu₁ u₂ hu₂ hport
  rcases List.mem_cons.1 hu₁ with rfl | hmem₁ <;> rcases List.mem_cons.1 hu₂ with rfl | hmem₂
  · rfl
  · exact (hu u₂ hmem₂ hport.symm).symm
  · exact hu u₁ hmem₁ hport
  · exact h u₁ hmem₁ u₂ hmem₂ hport

/-- When the last use of a port goes, no process uses it. -/
theorem portOwner_erase_last (h : OneProcess uses) (hlast : ∀ u' ∈ uses.erase u, u'.port ≠ u.port) :
    portOwner (uses.erase u) = Function.update (portOwner uses) u.port invaildProcessIdx := by
  funext p
  by_cases hp : p = u.port
  · subst hp
    rw [Function.update_self, portOwner_of_forall_ne hlast]
  · rw [Function.update_of_ne hp]
    refine portOwner_congr (h.erase u) h fun u' hu' => ?_
    exact List.mem_erase_of_ne fun heq => hp (hu' ▸ heq ▸ rfl)

/-- When another use of the port stays, its process does. -/
theorem portOwner_erase_of_mem (h : OneProcess uses) {u' : PortUse} (hu' : u' ∈ uses.erase u)
    (hport : u'.port = u.port) : portOwner (uses.erase u) = portOwner uses := by
  funext p
  by_cases hp : p = u.port
  · rw [hp, ← hport, portOwner_of_mem (h.erase u) hu',
      portOwner_of_mem h (List.mem_of_mem_erase hu')]
  · refine portOwner_congr (h.erase u) h fun u'' hu'' => ?_
    exact List.mem_erase_of_ne fun heq => hp (hu'' ▸ heq ▸ rfl)

/-! ## A table with its writes -/

/-- A table settles at the processes that use the ports, and all ports are in it. -/
structure TableInv (ports : Port → BitVec 8) (writes : BitVec 8 → List (Port × BitVec 8))
    (uses : List PortUse) : Prop where
  /-- The writes that are in flight lead to the processes that use the ports. -/
  settles : Pending.Settles ports writes (portOwner uses)
  /-- A port is used by one process. -/
  single : OneProcess uses
  /-- The ports that are used are in the table. -/
  uses_lt : ∀ u ∈ uses, u.port.toNat < unixTcpPortMax
  /-- The ports that will be written are. -/
  writes_lt : ∀ j, ∀ w ∈ writes j, w.1.toNat < unixTcpPortMax

namespace TableInv

variable {ports : Port → BitVec 8} {writes : BitVec 8 → List (Port × BitVec 8)}
  (h : TableInv ports writes uses)

include h

/-- A message about a port is sent. -/
private theorem writes_lt_send (hp : p.toNat < unixTcpPortMax) (i v : BitVec 8) :
    ∀ j, ∀ w ∈ Function.update writes i (writes i ++ [(p, v)]) j, w.1.toNat < unixTcpPortMax := by
  intro j w hw
  by_cases hj : j = i
  · subst hj
    rw [Function.update_self, List.mem_append, List.mem_singleton] at hw
    rcases hw with hw | rfl
    · exact h.writes_lt j w hw
    · exact hp
  · rw [Function.update_of_ne hj] at hw
    exact h.writes_lt j w hw

/-- A port is used, and its process sends the message. -/
theorem openBySend (hone : ∀ u' ∈ uses, u'.port = u.port → u'.processIdx = u.processIdx)
    (hlt : u.port.toNat < unixTcpPortMax)
    (hpend : ∀ j, j ≠ u.processIdx → ∀ w ∈ writes j, w.1 ≠ u.port) :
    TableInv ports (Function.update writes u.processIdx
      (writes u.processIdx ++ [(u.port, u.processIdx)])) (u :: uses) where
  settles := portOwner_cons ▸ h.settles.send _ hpend _
  single := h.single.cons hone
  uses_lt := List.forall_mem_cons.2 ⟨hlt, h.uses_lt⟩
  writes_lt := h.writes_lt_send hlt _ _

/-- A port is used, and its entry is written at once. -/
theorem openByWrite (hone : ∀ u' ∈ uses, u'.port = u.port → u'.processIdx = u.processIdx)
    (hlt : u.port.toNat < unixTcpPortMax)
    (hpend : ∀ j, ∀ w ∈ writes j, w.1 = u.port → w.2 = u.processIdx) :
    TableInv (Function.update ports u.port u.processIdx) writes (u :: uses) where
  settles := portOwner_cons ▸ h.settles.write hpend
  single := h.single.cons hone
  uses_lt := List.forall_mem_cons.2 ⟨hlt, h.uses_lt⟩
  writes_lt := h.writes_lt

/-- The entry of a port is written with the process that uses it. -/
theorem writeOwner (hu : u ∈ uses)
    (hpend : ∀ j, ∀ w ∈ writes j, w.1 = u.port → w.2 = u.processIdx) :
    TableInv (Function.update ports u.port u.processIdx) writes uses where
  settles := by
    have hsettles := h.settles.write hpend
    rwa [← portOwner_of_mem h.single hu, Function.update_eq_self,
      portOwner_of_mem h.single hu] at hsettles
  single := h.single
  uses_lt := h.uses_lt
  writes_lt := h.writes_lt

/-- The last use of a port ends, and its process sends the message. -/
theorem closeBySend (hu : u ∈ uses) (hlast : ∀ u' ∈ uses.erase u, u'.port ≠ u.port)
    (hpend : ∀ j, j ≠ u.processIdx → ∀ w ∈ writes j, w.1 ≠ u.port) :
    TableInv ports (Function.update writes u.processIdx
      (writes u.processIdx ++ [(u.port, invaildProcessIdx)])) (uses.erase u) where
  settles := portOwner_erase_last h.single hlast ▸ h.settles.send _ hpend _
  single := h.single.erase u
  uses_lt u' hu' := h.uses_lt u' (List.mem_of_mem_erase hu')
  writes_lt := h.writes_lt_send (h.uses_lt u hu) _ _

/-- The last use of a port ends, and its entry is cleared at once. -/
theorem closeByWrite (hlast : ∀ u' ∈ uses.erase u, u'.port ≠ u.port)
    (hpend : ∀ j, ∀ w ∈ writes j, w.1 ≠ u.port) :
    TableInv (Function.update ports u.port invaildProcessIdx) writes (uses.erase u) where
  settles := portOwner_erase_last h.single hlast ▸
    h.settles.write fun j w hw hport => absurd hport (hpend j w hw)
  single := h.single.erase u
  uses_lt u' hu' := h.uses_lt u' (List.mem_of_mem_erase hu')
  writes_lt := h.writes_lt

/-- One of several uses of a port ends. -/
theorem closeOne {u' : PortUse} (hu' : u' ∈ uses.erase u) (hport : u'.port = u.port) :
    TableInv ports writes (uses.erase u) where
  settles := portOwner_erase_of_mem h.single hu' hport ▸ h.settles
  single := h.single.erase u
  uses_lt u' hu' := h.uses_lt u' (List.mem_of_mem_erase hu')
  writes_lt := h.writes_lt

/-- The first write of a process is carried out. -/
theorem handle {i : BitVec 8} {w : Port × BitVec 8} {rest : List (Port × BitVec 8)}
    (hi : writes i = w :: rest) :
    TableInv (Function.update ports w.1 w.2) (Function.update writes i rest) uses where
  settles := h.settles.handle hi
  single := h.single
  uses_lt := h.uses_lt
  writes_lt j w' hw' := by
    by_cases hj : j = i
    · subst hj
      rw [Function.update_self] at hw'
      exact h.writes_lt j w' (hi ▸ List.mem_cons_of_mem _ hw')
    · rw [Function.update_of_ne hj] at hw'
      exact h.writes_lt j w' hw'

/-- Without messages in flight the table has the processes that use the ports. -/
theorem follows (hnil : ∀ i, writes i = []) : PortSys.Follows ports uses := by
  intro p _
  rw [h.settles.eq_of_forall_nil hnil]
  exact ⟨fun u hu hup => hup ▸ portOwner_of_mem h.single hu, portOwner_of_forall_ne⟩

end TableInv

/-! ## What the messages write -/

namespace PortSys

/-- The message about a listen port. -/
def listenPkt (processIdx : BitVec 8) (queueId : BitVec 16) (p : Port) (isAdd : BitVec 8) :
    ProcessPkt :=
  ⟨CText.joined ',' [p.toNat, processIdx.toNat, isAdd.toNat], addOrDeleteListenPortParamsLength,
    queueId⟩

/-- The message about a rule that is created. -/
def createPkt (processIdx : BitVec 8) (queueId : BitVec 16) (qtuple : GazelleQuintuple) :
    ProcessPkt :=
  ⟨CText.joined ',' [qtuple.dstIp.toNat, qtuple.srcIp.toNat, qtuple.dstPort.toNat,
    qtuple.srcPort.toNat, queueId.toNat, processIdx.toNat], createFlowsParamsLength, queueId⟩

/-- The message about a rule that is deleted. -/
def deletePkt (queueId : BitVec 16) (qtuple : GazelleQuintuple) : ProcessPkt :=
  ⟨CText.joined ',' [qtuple.dstIp.toNat, qtuple.srcPort.toNat, qtuple.dstPort.toNat],
    deleteFlowsParamsLength, queueId⟩

section Writes

variable (processIdx isAdd : BitVec 8) (queueId : BitVec 16) (qtuple : GazelleQuintuple)

theorem listenWrite_listenPkt (p : Port) : listenWrite (listenPkt processIdx queueId p isAdd) =
    some (p, if isAdd = 1 then processIdx else invaildProcessIdx) := by
  have hlen : ¬ (addOrDeleteListenPortParamsLength = deleteFlowsParamsLength ∨
      addOrDeleteListenPortParamsLength = createFlowsParamsLength) := by decide
  rw [listenWrite, listenPkt, if_neg hlen, parseListenPort_joined]

theorem userWrite_listenPkt (p : Port) :
    userWrite (listenPkt processIdx queueId p isAdd) = none := by
  have hlen : addOrDeleteListenPortParamsLength ≠ createFlowsParamsLength := by decide
  exact if_neg hlen

theorem listenWrite_createPkt : listenWrite (createPkt processIdx queueId qtuple) = none :=
  if_pos (.inr rfl)

theorem userWrite_createPkt (hsrc : qtuple.srcIp.toNat < 2 ^ 31)
    (hdst : qtuple.dstIp.toNat < 2 ^ 31) :
    userWrite (createPkt processIdx queueId qtuple) = some (qtuple.srcPort, processIdx) := by
  rw [userWrite, createPkt, if_pos rfl, parseCreateRule_joined _ _ _ _ _ _ hsrc hdst]

theorem listenWrite_deletePkt : listenWrite (deletePkt queueId qtuple) = none := if_pos (.inl rfl)

theorem userWrite_deletePkt : userWrite (deletePkt queueId qtuple) = none := by
  have hlen : deleteFlowsParamsLength ≠ createFlowsParamsLength := by decide
  exact if_neg hlen

end Writes

/-- A message that will write to a table is handled: its write is carried out. -/
theorem recvPkt_eq (t : PortTables) (m : ProcessPkt)
    (hlisten : ∀ w ∈ listenWrite m, w.1.toNat < unixTcpPortMax)
    (huser : ∀ w ∈ userWrite m, w.1.toNat < unixTcpPortMax) :
    t.recvPkt m = ⟨(listenWrite m).elim t.gListenPorts fun w =>
        Function.update t.gListenPorts w.1 w.2, (userWrite m).elim t.gUserPorts fun w =>
        Function.update t.gUserPorts w.1 w.2, t.outOfBounds⟩ := by
  unfold PortTables.recvPkt listenWrite userWrite at *
  by_cases hdelete : m.writeLen = deleteFlowsParamsLength
  · have hcreate : m.writeLen ≠ createFlowsParamsLength := by rw [hdelete]; decide
    rw [if_pos hdelete, if_pos (.inl hdelete), if_neg hcreate]
    rfl
  by_cases hcreate : m.writeLen = createFlowsParamsLength
  · rw [if_pos hcreate] at huser
    have hlt : (parseCreateRule m.buf).dstPort.toNat < unixTcpPortMax := huser _ rfl
    rw [if_neg hdelete, if_pos hcreate, if_pos (.inr hcreate), if_pos hcreate]
    exact PortTables.addUserProcessPort_connect hlt
  · rw [if_neg (not_or.2 ⟨hdelete, hcreate⟩)] at hlisten
    have hlt : (parseListenPort m.buf).listenPort.toNat < unixTcpPortMax := hlisten _ rfl
    rw [if_neg hdelete, if_neg hcreate, if_neg (not_or.2 ⟨hdelete, hcreate⟩), if_neg hcreate]
    simp only [PortTables.parseAndAddOrDeleteListenPort, PortTables.deleteUserProcessPort,
      PortTables.addUserProcessPort_listen hlt]
    split <;> rfl

/-- What the processes will write to a table. -/
def pendingWrites (write : ProcessPkt → Option (Port × BitVec 8))
    (inFlight : BitVec 8 → List ProcessPkt) (j : BitVec 8) : List (Port × BitVec 8) :=
  (inFlight j).filterMap write

section Pending

variable {write : ProcessPkt → Option (Port × BitVec 8)} {inFlight : BitVec 8 → List ProcessPkt}
  {i : BitVec 8} {m : ProcessPkt} {rest : List ProcessPkt} {w : Port × BitVec 8}
  {ports : Port → BitVec 8} {uses : List PortUse}

theorem pendingWrites_send_some (hm : write m = some w) :
    pendingWrites write (Function.update inFlight i (inFlight i ++ [m])) =
      Function.update (pendingWrites write inFlight) i (pendingWrites write inFlight i ++ [w]) := by
  have hsend : (inFlight i ++ [m]).filterMap write = pendingWrites write inFlight i ++ [w] := by
    rw [List.filterMap_append, List.filterMap_cons_some hm, List.filterMap_nil]
    rfl
  rw [← hsend]
  exact Function.comp_update (List.filterMap write) inFlight i _

theorem pendingWrites_send_none (hm : write m = none) :
    pendingWrites write (Function.update inFlight i (inFlight i ++ [m])) =
      pendingWrites write inFlight := by
  have hsend : (inFlight i ++ [m]).filterMap write = pendingWrites write inFlight i := by
    rw [List.filterMap_append, List.filterMap_cons_none hm, List.filterMap_nil, List.append_nil]
    rfl
  refine (Function.comp_update (List.filterMap write) inFlight i _).trans ?_
  rw [hsend]
  exact Function.update_eq_self i _

/-- The first message of a process is handled. -/
theorem tableInv_recv (h : TableInv ports (pendingWrites write inFlight) uses)
    (hi : inFlight i = m :: rest) :
    TableInv ((write m).elim ports fun w => Function.update ports w.1 w.2)
      (pendingWrites write (Function.update inFlight i rest)) uses := by
  have hrest : pendingWrites write (Function.update inFlight i rest) =
      Function.update (pendingWrites write inFlight) i (rest.filterMap write) :=
    Function.comp_update (List.filterMap write) inFlight i rest
  rw [hrest]
  cases hm : write m with
  | none =>
    have hsame : rest.filterMap write = pendingWrites write inFlight i := by
      rw [pendingWrites, hi, List.filterMap_cons_none hm]
    rw [hsame, Function.update_eq_self]
    exact h
  | some w => exact h.handle (by rw [pendingWrites, hi, List.filterMap_cons_some hm])

/-- What holds of all messages in flight holds after one more is sent. -/
theorem forall_send {P : BitVec 8 → ProcessPkt → Prop} (h : ∀ j, ∀ m ∈ inFlight j, P j m)
    (hm : P i m) : ∀ j, ∀ m' ∈ Function.update inFlight i (inFlight i ++ [m]) j, P j m' := by
  intro j m' hm'
  by_cases hj : j = i
  · subst hj
    rw [Function.update_self, List.mem_append, List.mem_singleton] at hm'
    rcases hm' with hm' | rfl
    · exact h j m' hm'
    · exact hm
  · rw [Function.update_of_ne hj] at hm'
    exact h j m' hm'

end Pending

/-! ## The invariant -/

/-- The tables settle at the processes that use the ports, the primary process sends no message
about a listen port, and a message about a connection is of a live one, whose thread waits. -/
structure PortInv (s : PortSys) : Prop where
  /-- The writes are within the tables. -/
  bound : s.tables.outOfBounds = false
  /-- `g_listen_ports`. -/
  listen : TableInv s.tables.gListenPorts (pendingWrites listenWrite s.inFlight) s.listeners
  /-- The listeners of a port of which a message is in flight are of its process. -/
  listenPend : ∀ j, ∀ m ∈ s.inFlight j, ∀ w ∈ listenWrite m, j ≠ 0 ∧
    ∀ u ∈ s.listeners, u.port = w.1 → u.processIdx = j
  /-- `g_user_ports`. -/
  user : TableInv s.tables.gUserPorts (pendingWrites userWrite s.inFlight) s.conns
  /-- The connection of a message. -/
  call : ∀ j, ∀ m ∈ s.inFlight j, ∀ w ∈ userWrite m, w.2 = j ∧
    ∃ u ∈ s.conns, u.processIdx = j ∧ u.queueId = m.queueId ∧ u.port = w.1

/-- Opening and closing leave the tables and the messages. -/
theorem use_frame {s s₁ : PortSys} {type : RegRingType} {u : PortUse} (h : s.use type u = some s₁) :
    s₁.tables = s.tables ∧ s₁.inFlight = s.inFlight := by
  cases type <;> simp only [use, Option.ite_none_left_eq_some, Option.ite_none_right_eq_some,
    Option.some.injEq] at h
  case unknown => exact h ▸ ⟨rfl, rfl⟩
  all_goals exact h.2 ▸ ⟨rfl, rfl⟩

/-- What a call does. -/
theorem regXmit_cases {s s' : PortSys} {i : BitVec 8} {queueId : BitVec 16} {type : RegRingType}
    {qtuple : GazelleQuintuple} (hs : s.regXmit i queueId type qtuple = some s') :
    ¬ s.Waits i queueId ∧ ∃ s₁, s.use type ⟨i, queueId, qtuple⟩ = some s₁ ∧
      ∃ tables sent, s.tables.vdevRegXmit i queueId type qtuple = some (tables, sent) ∧
      s' = ⟨tables, Function.update s.inFlight i (s.inFlight i ++ sent.toList), s₁.listeners,
        s₁.conns⟩ := by
  simp only [regXmit] at hs
  split at hs
  · cases hs
  rename_i hwait
  obtain ⟨s₁, huse, hs⟩ := Option.bind_eq_some_iff.1 hs
  obtain ⟨⟨tables, sent⟩, hxmit, rfl⟩ := Option.map_eq_some_iff.1 hs
  obtain ⟨htables, hflight⟩ := use_frame huse
  rw [htables] at hxmit
  exact ⟨hwait, s₁, huse, tables, sent, hxmit, by rw [hflight]⟩

/-- The message that writes to `g_user_ports` has a reply. -/
theorem writeLen_of_userWrite {m : ProcessPkt} {w : Port × BitVec 8} (h : userWrite m = some w) :
    m.writeLen ≠ deleteFlowsParamsLength := by
  intro hlen
  have hne : deleteFlowsParamsLength ≠ createFlowsParamsLength := by decide
  rw [userWrite, if_neg (by rw [hlen]; exact hne)] at h
  cases h

/-- Nothing is sent. -/
private theorem update_append_nil (inFlight : BitVec 8 → List ProcessPkt) (i : BitVec 8) :
    Function.update inFlight i (inFlight i ++ (none : Option ProcessPkt).toList) = inFlight := by
  rw [Option.toList_none, List.append_nil, Function.update_eq_self]

namespace PortInv

variable {s s' : PortSys} (h : s.PortInv)

include h

/-- What the messages of a process are about. -/
theorem listenPend_of_mem {j : BitVec 8} {w : Port × BitVec 8}
    (hw : w ∈ pendingWrites listenWrite s.inFlight j) :
    j ≠ 0 ∧ ∀ u ∈ s.listeners, u.port = w.1 → u.processIdx = j := by
  obtain ⟨m, hm, hwrite⟩ := List.mem_filterMap.1 hw
  exact h.listenPend j m hm w hwrite

/-- The messages about a connection are of its process, and of a thread that waits. -/
theorem call_of_mem {j : BitVec 8} {w : Port × BitVec 8}
    (hw : w ∈ pendingWrites userWrite s.inFlight j) :
    w.2 = j ∧ ∃ u ∈ s.conns, u.processIdx = j ∧ u.port = w.1 ∧ s.Waits j u.queueId := by
  obtain ⟨m, hm, hwrite⟩ := List.mem_filterMap.1 hw
  obtain ⟨hval, u, hu, hproc, hqueue, hport⟩ := h.call j m hm w hwrite
  exact ⟨hval, u, hu, hproc, hport, m, hm, hqueue.symm, writeLen_of_userWrite hwrite⟩

/-- Process 0 handles a message. -/
theorem recv {i : BitVec 8} (hs : s.recv i = some s') : s'.PortInv := by
  simp only [PortSys.recv] at hs
  split at hs
  · cases hs
  rename_i m rest hi
  obtain rfl := Option.some.inj hs
  have hm : m ∈ s.inFlight i := hi ▸ List.mem_cons_self
  have hlisten : ∀ w ∈ listenWrite m, w.1.toNat < unixTcpPortMax := fun w hw =>
    h.listen.writes_lt i w (List.mem_filterMap.2 ⟨m, hm, hw⟩)
  have huser : ∀ w ∈ userWrite m, w.1.toNat < unixTcpPortMax := fun w hw =>
    h.user.writes_lt i w (List.mem_filterMap.2 ⟨m, hm, hw⟩)
  have hmem : ∀ j, ∀ m' ∈ Function.update s.inFlight i rest j, m' ∈ s.inFlight j := by
    intro j m' hm'
    by_cases hj : j = i
    · subst hj
      rw [Function.update_self] at hm'
      exact hi ▸ List.mem_cons_of_mem _ hm'
    · rwa [Function.update_of_ne hj] at hm'
  have htables := recvPkt_eq s.tables m hlisten huser
  exact {
    bound := by rw [htables]; exact h.bound
    listen := by rw [htables]; exact tableInv_recv h.listen hi
    listenPend := fun j m' hm' => h.listenPend j m' (hmem j m' hm')
    user := by rw [htables]; exact tableInv_recv h.user hi
    call := fun j m' hm' => h.call j m' (hmem j m' hm') }

/-- The listeners change, and nothing is sent. -/
private theorem listeners {tables : PortTables} {uses : List PortUse}
    (hbound : tables.outOfBounds = false) (huser : tables.gUserPorts = s.tables.gUserPorts)
    (hlisten : TableInv tables.gListenPorts (pendingWrites listenWrite s.inFlight) uses)
    (hpend : ∀ j, ∀ w ∈ pendingWrites listenWrite s.inFlight j, ∀ u ∈ uses, u.port = w.1 →
      u.processIdx = j) : PortInv ⟨tables, s.inFlight, uses, s.conns⟩ where
  bound := hbound
  listen := hlisten
  listenPend j m hm w hw := ⟨(h.listenPend j m hm w hw).1,
    hpend j w (List.mem_filterMap.2 ⟨m, hm, hw⟩)⟩
  user := by rw [huser]; exact h.user
  call := h.call

/-- The listeners change, and a message about them is sent. -/
private theorem listenersSend {i isAdd : BitVec 8} {queueId : BitVec 16} {p : Port}
    {uses : List PortUse} (hi : i ≠ 0)
    (hlisten : TableInv s.tables.gListenPorts
      (Function.update (pendingWrites listenWrite s.inFlight) i
        (pendingWrites listenWrite s.inFlight i ++
          [(p, if isAdd = 1 then i else invaildProcessIdx)])) uses)
    (hpend : ∀ j, ∀ w ∈ pendingWrites listenWrite s.inFlight j, ∀ u ∈ uses, u.port = w.1 →
      u.processIdx = j) (hnew : ∀ u ∈ uses, u.port = p → u.processIdx = i) :
    PortInv ⟨s.tables, Function.update s.inFlight i
      (s.inFlight i ++ [listenPkt i queueId p isAdd]), uses, s.conns⟩ where
  bound := h.bound
  listen := by
    show TableInv _ (pendingWrites listenWrite (Function.update s.inFlight i _)) _
    rw [pendingWrites_send_some (listenWrite_listenPkt i isAdd queueId p)]
    exact hlisten
  listenPend := by
    refine forall_send (fun j m hm w hw => ⟨(h.listenPend j m hm w hw).1,
      hpend j w (List.mem_filterMap.2 ⟨m, hm, hw⟩)⟩) fun w hw => ⟨hi, ?_⟩
    rw [listenWrite_listenPkt] at hw
    obtain rfl := Option.some.inj hw
    exact hnew
  user := by
    show TableInv _ (pendingWrites userWrite (Function.update s.inFlight i _)) _
    rw [pendingWrites_send_none (userWrite_listenPkt i isAdd queueId p)]
    exact h.user
  call := forall_send h.call fun w hw => by
    rw [userWrite_listenPkt] at hw
    cases hw

/-- A listener is opened. -/
theorem openListen {i : BitVec 8} {queueId : BitVec 16} {qtuple : GazelleQuintuple}
    (hc : s.Condition (.regXmit i queueId .tcpListen qtuple))
    (hs : s.regXmit i queueId .tcpListen qtuple = some s') : s'.PortInv := by
  obtain ⟨-, s₁, huse, tables, sent, hxmit, rfl⟩ := regXmit_cases hs
  obtain ⟨hlt, hpend⟩ := hc
  set u : PortUse := ⟨i, queueId, qtuple⟩ with hu
  simp only [use] at huse
  split at huse
  · cases huse
  rename_i hother
  obtain rfl := Option.some.inj huse
  have hone : ∀ u' ∈ s.listeners, u'.port = u.port → u'.processIdx = u.processIdx := by
    intro u' hu' hport
    by_contra hne
    exact hother ⟨u', List.mem_append_left _ hu', hport, hne⟩
  have hwrites : ∀ j, j ≠ i → ∀ w ∈ pendingWrites listenWrite s.inFlight j, w.1 ≠ u.port := by
    intro j hj w hw
    obtain ⟨m, hm, hwrite⟩ := List.mem_filterMap.1 hw
    exact hpend j hj m hm w hwrite
  have huses : ∀ j, ∀ w ∈ pendingWrites listenWrite s.inFlight j, ∀ u' ∈ u :: s.listeners,
      u'.port = w.1 → u'.processIdx = j := by
    intro j w hw u' hu' hport
    rcases List.mem_cons.1 hu' with rfl | hu'
    · by_contra hne
      exact hwrites j (Ne.symm hne) w hw hport.symm
    · exact (h.listenPend_of_mem hw).2 u' hu' hport
  by_cases hi : i = 0
  · -- the primary process writes
    have htables : s.tables.vdevRegXmit i queueId .tcpListen qtuple =
        some (s.tables.addUserProcessPort u.port i .listen, none) := if_pos hi
    obtain ⟨rfl, rfl⟩ := Prod.mk.inj (Option.some.inj (htables.symm.trans hxmit))
    rw [update_append_nil, PortTables.addUserProcessPort_listen hlt]
    refine h.listeners h.bound rfl (h.listen.openByWrite hone hlt fun j w hw hport => ?_) huses
    by_cases hj : j = i
    · exact absurd (hj.trans hi) (h.listenPend_of_mem hw).1
    · exact absurd hport (hwrites j hj w hw)
  · have htables : s.tables.vdevRegXmit i queueId .tcpListen qtuple =
        some (s.tables, some (listenPkt i queueId u.port 1)) := by
      simp only [PortTables.vdevRegXmit, if_neg hi, transferAddOrDeleteListenPort_eq]
      rfl
    obtain ⟨rfl, rfl⟩ := Prod.mk.inj (Option.some.inj (htables.symm.trans hxmit))
    refine h.listenersSend hi ?_ huses fun u' hu' hport => ?_
    · exact h.listen.openBySend hone hlt hwrites
    · rcases List.mem_cons.1 hu' with rfl | hu'
      · rfl
      · exact hone u' hu' hport

/-- The last listener on a port is closed. -/
theorem closeListen {i : BitVec 8} {queueId : BitVec 16} {qtuple : GazelleQuintuple}
    (hlast : s.Condition (.regXmit i queueId .tcpListenClose qtuple))
    (hs : s.regXmit i queueId .tcpListenClose qtuple = some s') : s'.PortInv := by
  obtain ⟨-, s₁, huse, tables, sent, hxmit, rfl⟩ := regXmit_cases hs
  set u : PortUse := ⟨i, queueId, qtuple⟩ with hu
  simp only [use] at huse
  split at huse
  swap
  · cases huse
  rename_i hmem
  obtain rfl := Option.some.inj huse
  have hwrites : ∀ j, j ≠ i → ∀ w ∈ pendingWrites listenWrite s.inFlight j, w.1 ≠ u.port :=
    fun j hj w hw hport => hj ((h.listenPend_of_mem hw).2 u hmem hport.symm).symm
  have huses : ∀ j, ∀ w ∈ pendingWrites listenWrite s.inFlight j, ∀ u' ∈ s.listeners.erase u,
      u'.port = w.1 → u'.processIdx = j :=
    fun j w hw u' hu' => (h.listenPend_of_mem hw).2 u' (List.mem_of_mem_erase hu')
  by_cases hi : i = 0
  · have htables : s.tables.vdevRegXmit i queueId .tcpListenClose qtuple =
        some (s.tables.addUserProcessPort u.port invaildProcessIdx .listen, none) := if_pos hi
    obtain ⟨rfl, rfl⟩ := Prod.mk.inj (Option.some.inj (htables.symm.trans hxmit))
    rw [update_append_nil, PortTables.addUserProcessPort_listen (h.listen.uses_lt u hmem)]
    refine h.listeners h.bound rfl (h.listen.closeByWrite hlast fun j w hw => ?_) huses
    exact hwrites j (fun hj => (h.listenPend_of_mem hw).1 (hj.trans hi)) w hw
  · have htables : s.tables.vdevRegXmit i queueId .tcpListenClose qtuple =
        some (s.tables, some (listenPkt i queueId u.port 0)) := by
      simp only [PortTables.vdevRegXmit, if_neg hi, transferAddOrDeleteListenPort_eq]
      rfl
    obtain ⟨rfl, rfl⟩ := Prod.mk.inj (Option.some.inj (htables.symm.trans hxmit))
    exact h.listenersSend hi (h.listen.closeBySend hmem hlast hwrites) huses
      fun u' hu' hport => absurd hport (hlast u' hu')

/-- The messages about a port of a process are its own. -/
theorem userWrites_ne {u : PortUse}
    (hone : ∀ u' ∈ s.conns, u'.port = u.port → u'.processIdx = u.processIdx) {j : BitVec 8}
    (hj : j ≠ u.processIdx) : ∀ w ∈ pendingWrites userWrite s.inFlight j, w.1 ≠ u.port := by
  intro w hw hport
  obtain ⟨-, u', hu', hproc, hport', -⟩ := h.call_of_mem hw
  exact hj (hproc.symm.trans (hone u' hu' (hport'.trans hport)))

/-- A connection is opened. -/
theorem openConnect {i : BitVec 8} {queueId : BitVec 16} {qtuple : GazelleQuintuple}
    (hc : s.Condition (.regXmit i queueId .tcpConnect qtuple))
    (hs : s.regXmit i queueId .tcpConnect qtuple = some s') : s'.PortInv := by
  obtain ⟨-, s₁, huse, tables, sent, hxmit, rfl⟩ := regXmit_cases hs
  obtain ⟨hlt, haddr⟩ := hc
  set u : PortUse := ⟨i, queueId, qtuple⟩ with hu
  simp only [use] at huse
  split at huse
  · cases huse
  rename_i hother
  obtain rfl := Option.some.inj huse
  have hone : ∀ u' ∈ s.conns, u'.port = u.port → u'.processIdx = u.processIdx := by
    intro u' hu' hport
    by_contra hne
    exact hother ⟨u', List.mem_append_right _ hu', hport, hne⟩
  have hcall : ∀ j, ∀ m ∈ s.inFlight j, ∀ w ∈ userWrite m, w.2 = j ∧
      ∃ u' ∈ u :: s.conns, u'.processIdx = j ∧ u'.queueId = m.queueId ∧ u'.port = w.1 := by
    intro j m hm w hw
    obtain ⟨hval, u', hu', hrest⟩ := h.call j m hm w hw
    exact ⟨hval, u', List.mem_cons_of_mem _ hu', hrest⟩
  -- all messages about the port have the process
  have hvals : ∀ j, ∀ w ∈ pendingWrites userWrite s.inFlight j, w.1 = u.port → w.2 = i := by
    intro j w hw hport
    by_cases hj : j = i
    · exact hj ▸ (h.call_of_mem hw).1
    · exact absurd hport (h.userWrites_ne hone hj w hw)
  set tables₁ := if i = 0 then s.tables.addUserProcessPort u.port i .connect else s.tables
    with htables₁
  by_cases hself : i = 0 ∧ queueId = 0
  · have htables : s.tables.vdevRegXmit i queueId .tcpConnect qtuple = some (tables₁, none) :=
      if_pos hself
    obtain ⟨rfl, rfl⟩ := Prod.mk.inj (Option.some.inj (htables.symm.trans hxmit))
    rw [update_append_nil, htables₁, if_pos hself.1, PortTables.addUserProcessPort_connect hlt]
    exact {
      bound := h.bound
      listen := h.listen
      listenPend := h.listenPend
      user := h.user.openByWrite hone hlt hvals
      call := hcall }
  obtain ⟨hsrc, hdst⟩ := haddr.resolve_left hself
  have htables : s.tables.vdevRegXmit i queueId .tcpConnect qtuple =
      some (tables₁, some (createPkt i queueId qtuple)) := by
    simp only [PortTables.vdevRegXmit, if_neg hself, transferCreateRuleInfo_eq]
    rfl
  obtain ⟨rfl, rfl⟩ := Prod.mk.inj (Option.some.inj (htables.symm.trans hxmit))
  have hsent : ∀ w ∈ userWrite (createPkt i queueId qtuple), w = (u.port, i) := by
    intro w hw
    rw [userWrite_createPkt i queueId qtuple hsrc hdst] at hw
    exact (Option.some.inj hw).symm
  have huser := h.user.openBySend hone hlt fun j hj => h.userWrites_ne hone hj
  have hwrites : pendingWrites userWrite (Function.update s.inFlight i
      (s.inFlight i ++ [createPkt i queueId qtuple])) =
        Function.update (pendingWrites userWrite s.inFlight) i
          (pendingWrites userWrite s.inFlight i ++ [(u.port, i)]) :=
    pendingWrites_send_some (userWrite_createPkt i queueId qtuple hsrc hdst)
  have hlisten : pendingWrites listenWrite (Function.update s.inFlight i
      (s.inFlight i ++ [createPkt i queueId qtuple])) = pendingWrites listenWrite s.inFlight :=
    pendingWrites_send_none (listenWrite_createPkt i queueId qtuple)
  have htables₂ : tables₁.outOfBounds = false ∧ tables₁.gListenPorts = s.tables.gListenPorts ∧
      TableInv tables₁.gUserPorts (Function.update (pendingWrites userWrite s.inFlight) i
        (pendingWrites userWrite s.inFlight i ++ [(u.port, i)])) (u :: s.conns) := by
    by_cases hi : i = 0
    · -- the primary process writes as well
      rw [htables₁, if_pos hi, PortTables.addUserProcessPort_connect hlt]
      refine ⟨h.bound, rfl, huser.writeOwner List.mem_cons_self fun j w hw hport => ?_⟩
      by_cases hj : j = u.processIdx
      · subst hj
        rw [Function.update_self, List.mem_append, List.mem_singleton] at hw
        rcases hw with hw | rfl
        · exact hvals _ w hw hport
        · rfl
      · rw [Function.update_of_ne hj] at hw
        exact hvals j w hw hport
    · rw [htables₁, if_neg hi]
      exact ⟨h.bound, rfl, huser⟩
  obtain ⟨hbound, hlistenPorts, huser⟩ := htables₂
  exact {
    bound := hbound
    listen := by
      show TableInv tables₁.gListenPorts (pendingWrites listenWrite (Function.update _ i _)) _
      rw [hlistenPorts, Option.toList_some, hlisten]
      exact h.listen
    listenPend := forall_send h.listenPend fun w hw => by
      rw [listenWrite_createPkt] at hw
      cases hw
    user := by
      show TableInv tables₁.gUserPorts (pendingWrites userWrite (Function.update _ i _)) _
      rw [Option.toList_some, hwrites]
      exact huser
    call := forall_send hcall fun w hw => by
      rw [hsent w hw]
      exact ⟨rfl, u, List.mem_cons_self, rfl, rfl, rfl⟩ }

/-- The last connection of the primary process on a port is closed, or one of several of another
process. -/
theorem closeConnect {i : BitVec 8} {queueId : BitVec 16} {qtuple : GazelleQuintuple}
    (hc : s.Condition (.regXmit i queueId .tcpConnectClose qtuple))
    (hs : s.regXmit i queueId .tcpConnectClose qtuple = some s') : s'.PortInv := by
  obtain ⟨hwait, s₁, huse, tables, sent, hxmit, rfl⟩ := regXmit_cases hs
  simp only [PortSys.Condition] at hc
  set u : PortUse := ⟨i, queueId, qtuple⟩ with hu
  simp only [use] at huse
  split at huse
  swap
  · cases huse
  rename_i hmem
  obtain rfl := Option.some.inj huse
  -- a connection of which a message is in flight is another one, since its thread waits
  have hother : ∀ j, ∀ u' ∈ s.conns, u'.processIdx = j → s.Waits j u'.queueId →
      u' ∈ s.conns.erase u := by
    intro j u' hu' hproc hwait'
    refine (List.mem_erase_of_ne fun heq => hwait ?_).2 hu'
    rw [heq] at hproc hwait'
    obtain rfl : i = j := hproc
    exact hwait'
  have hcall : ∀ j, ∀ m ∈ s.inFlight j, ∀ w ∈ userWrite m, w.2 = j ∧
      ∃ u' ∈ s.conns.erase u, u'.processIdx = j ∧ u'.queueId = m.queueId ∧ u'.port = w.1 := by
    intro j m hm w hw
    obtain ⟨hval, u', hu', hproc, hqueue, hport⟩ := h.call j m hm w hw
    have hwait' : s.Waits j u'.queueId := ⟨m, hm, hqueue.symm, writeLen_of_userWrite hw⟩
    exact ⟨hval, u', hother j u' hu' hproc hwait', hproc, hqueue, hport⟩
  by_cases hi : i = 0
  · rw [if_pos hi] at hc
    have htables : s.tables.vdevRegXmit i queueId .tcpConnectClose qtuple =
        some (s.tables.addUserProcessPort u.port invaildProcessIdx .connect, none) := if_pos hi
    obtain ⟨rfl, rfl⟩ := Prod.mk.inj (Option.some.inj (htables.symm.trans hxmit))
    rw [update_append_nil, PortTables.addUserProcessPort_connect (h.user.uses_lt u hmem)]
    exact {
      bound := h.bound
      listen := h.listen
      listenPend := h.listenPend
      user := h.user.closeByWrite hc fun j w hw hport => by
        obtain ⟨-, u', hu', hproc, hport', hwait'⟩ := h.call_of_mem hw
        exact hc u' (hother j u' hu' hproc hwait') (hport'.trans hport)
      call := hcall }
  · rw [if_neg hi] at hc
    obtain ⟨u', hu', hport⟩ := hc
    have htables : s.tables.vdevRegXmit i queueId .tcpConnectClose qtuple =
        some (s.tables, some (deletePkt queueId qtuple)) := by
      simp only [PortTables.vdevRegXmit, if_neg hi, transferDeleteRuleInfo_eq]
      rfl
    obtain ⟨rfl, rfl⟩ := Prod.mk.inj (Option.some.inj (htables.symm.trans hxmit))
    exact {
      bound := h.bound
      listen := by
        show TableInv _ (pendingWrites listenWrite (Function.update _ i _)) _
        rw [Option.toList_some, pendingWrites_send_none (listenWrite_deletePkt queueId qtuple)]
        exact h.listen
      listenPend := forall_send h.listenPend fun w hw => by
        rw [listenWrite_deletePkt] at hw
        cases hw
      user := by
        show TableInv _ (pendingWrites userWrite (Function.update _ i _)) _
        rw [Option.toList_some, pendingWrites_send_none (userWrite_deletePkt queueId qtuple)]
        exact h.user.closeOne hu' hport
      call := forall_send hcall fun w hw => by
        rw [userWrite_deletePkt] at hw
        cases hw }

/-- A step under the condition keeps the invariant. -/
theorem step {a : PortAct} (hc : s.Condition a) (hs : system.step s a = some s') : s'.PortInv := by
  cases a with
  | recv i => exact h.recv hs
  | regXmit i queueId type qtuple =>
    cases type with
    | tcpListen => exact h.openListen hc hs
    | tcpListenClose => exact h.closeListen hc hs
    | tcpConnect => exact h.openConnect hc hs
    | tcpConnectClose => exact h.closeConnect hc hs
    | unknown =>
      obtain ⟨-, s₁, huse, tables, sent, hxmit, rfl⟩ := regXmit_cases hs
      obtain rfl := Option.some.inj huse
      obtain ⟨rfl, rfl⟩ := Prod.mk.inj (Option.some.inj hxmit)
      rw [update_append_nil]
      exact h

/-- The tables follow. -/
theorem portsFollow : s.PortsFollow := by
  refine ⟨h.bound, fun hnil => ⟨h.listen.follows fun i => ?_, h.user.follows fun i => ?_⟩⟩ <;>
    rw [pendingWrites, hnil, List.filterMap_nil]

end PortInv

/-- Empty tables settle at no uses. -/
theorem tableInv_init (write : ProcessPkt → Option (Port × BitVec 8)) :
    TableInv (fun _ => invaildProcessIdx) (pendingWrites write fun _ => []) [] where
  settles _ := ⟨0, fun _ _ _ hw => (List.not_mem_nil hw).elim, rfl⟩
  single _ hu := (List.not_mem_nil hu).elim
  uses_lt _ hu := (List.not_mem_nil hu).elim
  writes_lt _ _ hw := (List.not_mem_nil hw).elim

/-- The initial state has the invariant. -/
theorem PortInv.init {s : PortSys} (h : system.Init s) : s.PortInv := by
  obtain rfl : s = _ := h
  exact {
    bound := rfl
    listen := tableInv_init listenWrite
    listenPend := fun _ _ hm => (List.not_mem_nil hm).elim
    user := tableInv_init userWrite
    call := fun _ _ hm => (List.not_mem_nil hm).elim }

/-- In runs whose calls meet the condition the tables have the processes that use the ports
whenever no message is in flight. -/
theorem port_tables_follow (s : PortSys) (hs : system.ReachableUnder Condition s) :
    s.PortsFollow :=
  (Transition.System.invariant_under (fun _ => PortInv.init) (fun _ _ _ h hc hs => h.step hc hs)
    hs).portsFollow

/-- The state before any call. -/
private def start : PortSys :=
  ⟨⟨fun _ => invaildProcessIdx, fun _ => invaildProcessIdx, false⟩, fun _ => [], [], []⟩

/-- A connection from the local port 5000 to a port. -/
private def toPort (dstPort : Port) : GazelleQuintuple := ⟨0, 5000, dstPort, 0x0a01a8c0, 0x0b01a8c0⟩

/-- Process 1 listens, opens two connections from one port and closes one of them. -/
private def secondaryRun : List PortAct :=
  [.regXmit 1 3 .tcpListen ⟨0, 80, 0, 0, 0⟩, .recv 1, .regXmit 1 3 .tcpConnect (toPort 1000),
    .regXmit 1 4 .tcpConnect (toPort 1001), .recv 1, .recv 1,
    .regXmit 1 3 .tcpConnectClose (toPort 1000), .recv 1]

/-- The entries of process 1 stay. -/
theorem port_tables_follow_secondary :
    ∃ s, system.Reachable s ∧ s.tables.gListenPorts 80 = 1 ∧ s.tables.gUserPorts 5000 = 1 ∧
      s.PortsFollow := by
  have hrun : (system.run start secondaryRun).any (fun s =>
      s.tables.gListenPorts 80 = 1 ∧ s.tables.gUserPorts 5000 = 1) = true := by
    decide +kernel
  have hmeet : system.stepsMeet Condition start secondaryRun := by decide +kernel
  obtain ⟨s, hs, hstate⟩ := (Option.any_eq_true _ _).1 hrun
  obtain ⟨hlisten, huser⟩ := of_decide_eq_true hstate
  have hreach := Transition.System.reachableUnder_of_run (.init rfl) hs hmeet
  exact ⟨s, hreach.reachable, hlisten, huser, port_tables_follow s hreach⟩

/-- The primary process opens two connections from one port and closes one of them. -/
private def primaryRun : List PortAct :=
  [.regXmit 0 0 .tcpConnect (toPort 1000), .regXmit 0 0 .tcpConnect (toPort 1001),
    .regXmit 0 0 .tcpConnectClose (toPort 1000)]

/-- The entry of a live connection is cleared. -/
theorem port_tables_stale : ¬ ∀ s, system.Reachable s → s.PortsFollow := by
  intro hclaim
  have hrun : (system.run start primaryRun).any (fun s =>
      (∀ i, s.inFlight i = []) ∧ s.tables.gUserPorts 5000 = invaildProcessIdx ∧
        (⟨0, 0, toPort 1001⟩ : PortUse) ∈ s.conns) = true := by
    decide +kernel
  obtain ⟨s, hs, hstate⟩ := (Option.any_eq_true _ _).1 hrun
  obtain ⟨hnil, hentry, hconn⟩ := of_decide_eq_true hstate
  have hreach := Transition.System.reachable_of_run (.init (M := system) rfl) hs
  have huser := ((hclaim s hreach).2 hnil).2 5000 (by decide)
  have howner := huser.1 _ hconn rfl
  rw [hentry] at howner
  exact absurd howner (by decide)

end PortSys

end Gazelle
