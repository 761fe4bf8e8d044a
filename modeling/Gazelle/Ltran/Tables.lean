import Gazelle.HashTable.Chains
import Gazelle.Ltran.Instance

/-!
# The listener table and the connection table of ltran

The two hash tables of `ltran_tcp_sock.c` and `ltran_tcp_conn.c` with everything that changes
them: the packets and the registration messages of `ltran_forward.c` and the scans of
`ltran_timer.c`. Entries have an address, and a pointer is the address of an entry or `none`.
The addresses that the allocators return and the hash functions are arguments.
-/

namespace Gazelle

/-- A TCP port in network byte order. -/
abbrev Port := BitVec 16

/-- `GAZELLE_MAX_TCP_SOCK_HTABLE_SIZE`. -/
abbrev gazelleMaxTcpSockHtableSize : ℕ := 256

/-- `GAZELLE_MAX_CONN_HTABLE_SIZE`. -/
abbrev gazelleMaxConnHtableSize : ℕ := 2048

/-- `GAZELLE_CONN_TIMEOUT`. -/
def gazelleConnTimeout : BitVec 16 := 5

/-- `GAZELLE_STACK_MAX_TCP_CON_NUM`. -/
def gazelleStackMaxTcpConNum : ℕ := 1024 * 1024 * 1024

/-- `struct gazelle_quintuple`. -/
structure GazelleQuintuple where
  /-- `0` for the packets of `tcp_handle`. -/
  protocol : BitVec 32
  /-- The port of the sender. -/
  srcPort : Port
  /-- The port of the receiver. -/
  dstPort : Port
  /-- The address of the sender. -/
  srcIp : Ipv4
  /-- The address of the receiver. -/
  dstIp : Ipv4
  deriving DecidableEq

/-- `struct gazelle_tcp_sock`. -/
structure GazelleTcpSock where
  /-- The address of the structure. -/
  addr : ℕ
  /-- The address it listens on. -/
  ip : Ipv4
  /-- The thread that listens. -/
  tid : Tid
  /-- The port it listens on. -/
  port : Port
  /-- `instance_cur_tick`: a cell of the manager, or the cell that is never on. -/
  instanceCurTick : Option (Fin gazelleMaxInstanceNum)
  /-- `instance_reg_tick`. -/
  instanceRegTick : Tick
  /-- The stack of the thread. -/
  stack : Option ℕ
  /-- The number of its connections. -/
  tcpConNum : BitVec 32
  deriving DecidableEq

/-- `struct gazelle_tcp_conn`. -/
structure GazelleTcpConn where
  /-- The address of the structure. -/
  addr : ℕ
  /-- The thread that has the connection. -/
  tid : Tid
  /-- The listener it came from. -/
  sock : Option ℕ
  /-- The stack of the thread. -/
  stack : Option ℕ
  /-- The key. -/
  quintuple : GazelleQuintuple
  /-- `instance_cur_tick`: a cell of the manager, or the cell that is never on. -/
  instanceCurTick : Option (Fin gazelleMaxInstanceNum)
  /-- `instance_reg_tick`. -/
  instanceRegTick : Tick
  /-- An `int16_t`, negative once the connection is accepted. -/
  connTimeout : BitVec 16
  deriving DecidableEq

/-- `struct gazelle_tcp_sock_htable`. -/
abbrev GazelleTcpSockHtable := HTable gazelleMaxTcpSockHtableSize GazelleTcpSock

/-- `struct gazelle_tcp_conn_htable`. -/
abbrev GazelleTcpConnHtable := HTable gazelleMaxConnHtableSize GazelleTcpConn

/-- The hash functions of `ltran_jhash.h`, which call `rte_jhash_3words`. -/
structure LtranJhash where
  /-- `ip_port_hash_fn`. -/
  ipPortHashFn : Ipv4 → Port → BitVec 32
  /-- `tuple_hash_fn`. -/
  tupleHashFn : Ipv4 → Port → Ipv4 → Port → BitVec 32

/-- `enum reg_ring_type`, as far as `tcp_hash_table_modify` tells it apart. -/
inductive RegRingType
  /-- `REG_RING_TCP_LISTEN`. -/
  | tcpListen
  /-- `REG_RING_TCP_LISTEN_CLOSE`. -/
  | tcpListenClose
  /-- `REG_RING_TCP_CONNECT`. -/
  | tcpConnect
  /-- `REG_RING_TCP_CONNECT_CLOSE`. -/
  | tcpConnectClose
  /-- Any other value. -/
  | unknown
  deriving DecidableEq

/-- `struct reg_ring_msg`. -/
structure RegRingMsg where
  /-- What happened. -/
  type : RegRingType
  /-- The connection as lwIP sees it. -/
  qtuple : GazelleQuintuple
  /-- The stack thread. -/
  tid : Tid
  deriving DecidableEq

/-- The tables with the ticks they are compared against. -/
structure LtranTables where
  /-- `instance_cur_tick` of the instance manager. -/
  instanceCurTick : Fin gazelleMaxInstanceNum → Tick
  /-- `g_tcp_sock_htable`. -/
  sockHtable : GazelleTcpSockHtable
  /-- `g_tcp_conn_htable`. -/
  connHtable : GazelleTcpConnHtable

/-- `msg_to_quintuple`: what lwIP calls its source is the destination here. -/
def msgToQuintuple (msg : RegRingMsg) : GazelleQuintuple where
  protocol := msg.qtuple.protocol
  srcPort := msg.qtuple.dstPort
  srcIp := msg.qtuple.dstIp
  dstPort := msg.qtuple.srcPort
  dstIp := msg.qtuple.srcIp

namespace LtranTables

variable (hash : LtranJhash) (s : LtranTables)

/-- Tables with room for `maxSockNum` listeners and `maxConnNum` connections. -/
def create (ticks : Fin gazelleMaxInstanceNum → Tick) (maxSockNum maxConnNum : BitVec 32) :
    LtranTables where
  instanceCurTick := ticks
  sockHtable := .create maxSockNum
  connHtable := .create maxConnNum

/-- `INSTANCE_IS_ON` of a listener. -/
def sockIsOn (sock : GazelleTcpSock) : Bool :=
  instanceIsOn s.instanceCurTick sock.instanceCurTick sock.instanceRegTick

/-- `INSTANCE_IS_ON` of a connection. -/
def connIsOn (conn : GazelleTcpConn) : Bool :=
  instanceIsOn s.instanceCurTick conn.instanceCurTick conn.instanceRegTick

/-- `gazelle_hbucket_get_by_ipport`. -/
def gazelleHbucketGetByIpport (ip : Ipv4) (port : Port) : Fin gazelleMaxTcpSockHtableSize :=
  Fin.ofNat gazelleMaxTcpSockHtableSize (hash.ipPortHashFn ip port).toNat

/-- `gazelle_conn_hbucket_get`. -/
def gazelleConnHbucketGet (q : GazelleQuintuple) : Fin gazelleMaxConnHtableSize :=
  Fin.ofNat gazelleMaxConnHtableSize (hash.tupleHashFn q.srcIp q.srcPort q.dstIp q.dstPort).toNat

/-- Write to the listener at an address. -/
def modifySock (addr : ℕ) (f : GazelleTcpSock → GazelleTcpSock) : LtranTables :=
  { s with sockHtable := s.sockHtable.map fun sock => if sock.addr = addr then f sock else sock }

/-- Write to the connection at an address. -/
def modifyConn (addr : ℕ) (f : GazelleTcpConn → GazelleTcpConn) : LtranTables :=
  { s with connHtable := s.connHtable.map fun conn => if conn.addr = addr then f conn else conn }

/-! ## Listeners -/

/-- The test of `recover_sock_info_from_conn`. -/
def matchesSock (sock : GazelleTcpSock) (conn : GazelleTcpConn) : Bool :=
  conn.quintuple.dstIp = sock.ip && conn.quintuple.dstPort = sock.port && conn.tid = sock.tid

/-- `recover_sock_info_from_conn`: connections of a new listener that have none are given it. The
listener counts all its connections. -/
def recoverSockInfoFromConn (sock : GazelleTcpSock) : LtranTables :=
  { s with
    connHtable := s.connHtable.map fun conn =>
      if matchesSock sock conn && conn.sock.isNone then { conn with sock := some sock.addr }
      else conn }.modifySock sock.addr fun t =>
        { t with tcpConNum := BitVec.ofNat 32 (s.connHtable.count (matchesSock sock)) }

/-- The listener that `gazelle_sock_add_by_ipporttid` allocates. -/
def newSock (addr : ℕ) (ip : Ipv4) (port : Port) (tid : Tid) : GazelleTcpSock where
  addr := addr
  ip := ip
  tid := tid
  port := port
  instanceCurTick := none
  instanceRegTick := instanceRegTickInitVal
  stack := none
  tcpConNum := 0

/-- `gazelle_sock_add_by_ipporttid`, which returns the address of the listener. The chain is only
searched for the thread. -/
def gazelleSockAddByIpporttid (ip : Ipv4) (port : Port) (tid : Tid) (calloc : Option ℕ) :
    LtranTables × Option ℕ :=
  let b := gazelleHbucketGetByIpport hash ip port
  match (s.sockHtable.chain b).find? fun sock => sock.tid = tid && s.sockIsOn sock with
  | some sock => (s, some sock.addr)
  | none =>
    if s.sockHtable.curNum = s.sockHtable.maxNum then (s, none)
    else
      match calloc with
      | none => (s, none)
      | some addr =>
        let sock := newSock addr ip port tid
        ({ s with sockHtable := s.sockHtable.insertHead b sock }.recoverSockInfoFromConn sock,
          some addr)

/-- `gazelle_sock_del_by_ipporttid`; it only looks at the thread. -/
def gazelleSockDelByIpporttid (ip : Ipv4) (port : Port) (tid : Tid) : LtranTables :=
  { s with
    sockHtable := s.sockHtable.eraseFirst (gazelleHbucketGetByIpport hash ip port) fun sock =>
      sock.tid = tid }

/-- `gazelle_sock_get_by_min_conn`: the first listener with the least number of connections. -/
def gazelleSockGetByMinConn (ip : Ipv4) (port : Port) : Option GazelleTcpSock :=
  ((s.sockHtable.chain (gazelleHbucketGetByIpport hash ip port)).foldl
    (fun (acc : Option GazelleTcpSock × ℕ) sock =>
      if !s.sockIsOn sock then acc
      else if sock.port ≠ port ∨ sock.ip ≠ ip then acc
      else if sock.tcpConNum.toNat < acc.2 then (some sock, sock.tcpConNum.toNat)
      else acc)
    (none, gazelleStackMaxTcpConNum)).1

/-! ## Connections -/

/-- `gazelle_conn_get_by_quintuple`. -/
def gazelleConnGetByQuintuple (q : GazelleQuintuple) : Option GazelleTcpConn :=
  (s.connHtable.chain (gazelleConnHbucketGet hash q)).find? fun conn =>
    s.connIsOn conn && conn.quintuple = q

/-- The connection that `gazelle_conn_add_by_quintuple` allocates. Its caller writes the fields
`tid`, `stack` and `connTimeout`, which are not initialised here. -/
def newConn (addr : ℕ) (q : GazelleQuintuple) : GazelleTcpConn where
  addr := addr
  tid := 0
  sock := none
  stack := none
  quintuple := q
  instanceCurTick := none
  instanceRegTick := instanceRegTickInitVal
  connTimeout := 0

/-- `gazelle_conn_add_by_quintuple`, which returns the address of the connection. -/
def gazelleConnAddByQuintuple (q : GazelleQuintuple) (malloc : Option ℕ) :
    LtranTables × Option ℕ :=
  match s.gazelleConnGetByQuintuple hash q with
  | some conn => (s, some conn.addr)
  | none =>
    if s.connHtable.curNum = s.connHtable.maxNum then (s, none)
    else
      match malloc with
      | none => (s, none)
      | some addr =>
        ({ s with
            connHtable := s.connHtable.insertHead (gazelleConnHbucketGet hash q) (newConn addr q) },
          some addr)

/-- The first connection of its chain that has the quintuple, whether it is on or not. -/
def firstConn (q : GazelleQuintuple) : Option GazelleTcpConn :=
  (s.connHtable.chain (gazelleConnHbucketGet hash q)).find? fun conn => conn.quintuple = q

/-- `gazelle_conn_del_by_quintuple`, which does not look at the ticks. -/
def gazelleConnDelByQuintuple (q : GazelleQuintuple) : LtranTables :=
  { s with
    connHtable := s.connHtable.eraseFirst (gazelleConnHbucketGet hash q) fun conn =>
      conn.quintuple = q }

/-! ## Packets and messages -/

/-- The quintuple of a received packet. -/
def packetQuintuple (q : GazelleQuintuple) : GazelleQuintuple := { q with protocol := 0 }

/-- What `tcp_handle` writes to a new connection of a listener. -/
def acceptConn (sock : GazelleTcpSock) (conn : GazelleTcpConn) : GazelleTcpConn :=
  { conn with
    connTimeout := gazelleConnTimeout
    stack := sock.stack
    sock := some sock.addr
    tid := sock.tid
    instanceCurTick := sock.instanceCurTick
    instanceRegTick := sock.instanceRegTick }

/-- `tcp_handle`: `none` for `GAZELLE_ERR`, else the stack that is given the packet. -/
def tcpHandle (q : GazelleQuintuple) (malloc : Option ℕ) : LtranTables × Option (Option ℕ) :=
  let q := packetQuintuple q
  match s.gazelleConnGetByQuintuple hash q with
  | some conn => (s, some conn.stack)
  | none =>
    match s.gazelleSockGetByMinConn hash q.dstIp q.dstPort with
    | none => (s, none)
    | some sock =>
      match s.gazelleConnAddByQuintuple hash q malloc with
      | (s, none) => (s, none)
      | (s, some addr) =>
        let s := s.modifyConn addr (acceptConn sock)
        (s.modifySock sock.addr fun t => { t with tcpConNum := t.tcpConNum + 1 }, some sock.stack)

/-- `tcp_hash_table_del_conn`. -/
def tcpHashTableDelConn (q : GazelleQuintuple) : LtranTables :=
  match s.gazelleConnGetByQuintuple hash q with
  | none => s
  | some conn =>
    let s :=
      match conn.sock with
      | none => s
      | some addr =>
        s.modifySock addr fun t =>
          if 0 < t.tcpConNum.toNat then { t with tcpConNum := t.tcpConNum - 1 } else t
    s.gazelleConnDelByQuintuple hash q

/-- What `tcp_hash_table_add_conn` writes to the connection of a client. -/
def clientConn (stack : GazelleStack) (tid : Tid) (conn : GazelleTcpConn) : GazelleTcpConn :=
  { conn with
    stack := some stack.addr
    tid := tid
    connTimeout := -1
    instanceRegTick := stack.instanceRegTick
    instanceCurTick := stack.instanceCurTick }

/-- The end of `tcp_hash_table_add_conn`: the connection of a client. -/
def addClientConn (stack : GazelleStack) (q : GazelleQuintuple) (tid : Tid) (malloc : Option ℕ) :
    LtranTables :=
  match s.gazelleConnAddByQuintuple hash q malloc with
  | (s, none) => s
  | (s, some addr) => s.modifyConn addr (clientConn stack tid)

/-- `tcp_hash_table_add_conn`. -/
def tcpHashTableAddConn (stack : GazelleStack) (q : GazelleQuintuple) (tid : Tid)
    (malloc : Option ℕ) : LtranTables :=
  match s.gazelleConnGetByQuintuple hash q with
  | some conn =>
    if 0 ≤ conn.connTimeout.toInt then
      s.modifyConn conn.addr fun conn => { conn with connTimeout := -1 }
    else (s.gazelleConnDelByQuintuple hash q).addClientConn hash stack q tid malloc
  | none => s.addClientConn hash stack q tid malloc

/-- `tcp_hash_table_modify` for a message of the ring of `stack`. -/
def tcpHashTableModify (stack : GazelleStack) (msg : RegRingMsg) (alloc : Option ℕ) :
    LtranTables :=
  let q := msgToQuintuple msg
  match msg.type with
  | .tcpListen =>
    match s.gazelleSockAddByIpporttid hash q.dstIp q.dstPort msg.tid alloc with
    | (s, none) => s
    | (s, some addr) =>
      s.modifySock addr fun sock =>
        { sock with
          instanceRegTick := stack.instanceRegTick
          instanceCurTick := stack.instanceCurTick
          stack := some stack.addr }
  | .tcpListenClose => s.gazelleSockDelByIpporttid hash q.dstIp q.dstPort msg.tid
  | .tcpConnect => s.tcpHashTableAddConn hash stack q msg.tid alloc
  | .tcpConnectClose => s.tcpHashTableDelConn hash q
  | .unknown => s

/-! ## Scans -/

/-- `gazelle_detect_sock_logout`, once it has the lock. -/
def gazelleDetectSockLogout : LtranTables :=
  { s with
    sockHtable := s.sockHtable.filterMap fun sock => if s.sockIsOn sock then some sock else none }

/-- `gazelle_detect_conn_logout`, once it has the lock. -/
def gazelleDetectConnLogout : LtranTables :=
  { s with
    connHtable := s.connHtable.filterMap fun conn => if s.connIsOn conn then some conn else none }

/-- What `gazelle_delete_aging_conn` makes of a connection, `none` when it deletes it. -/
def ageConn (conn : GazelleTcpConn) : Option GazelleTcpConn :=
  if conn.connTimeout.toInt < 0 then some conn
  else if 0 < (conn.connTimeout - 1).toInt then
    some { conn with connTimeout := conn.connTimeout - 1 }
  else none

/-- A deleted connection is taken off the count of its listener. -/
def leaveSock (conn : GazelleTcpConn) : LtranTables :=
  match conn.sock with
  | none => s
  | some addr => s.modifySock addr fun t => { t with tcpConNum := t.tcpConNum - 1 }

/-- `gazelle_delete_aging_conn`, once it has the lock. -/
def gazelleDeleteAgingConn : LtranTables :=
  (s.connHtable.toList.filter fun conn => (ageConn conn).isNone).foldl leaveSock
    { s with connHtable := s.connHtable.filterMap ageConn }

end LtranTables

end Gazelle
