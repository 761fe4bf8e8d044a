import Gazelle.Ltran.Listeners

/-!
# Where the ticks of listeners and connections come from

The upstream thread writes the two ticks and the stack of an entry together: those of the stack
whose message it handles, or those of a listener that is on. So what holds of the ticks of all
stacks, and of those of a new entry, holds of all entries.

* `LtranTables.Every`: a property of the ticks and the stack of every entry;
* `LtranTables.Every.tcpHandle`, `LtranTables.Every.tcpHashTableModify`: what keeps it;
* `LtranTables.Every.tcpHandle_stack`: the stack that is given a packet is that of an entry that is
  on.
-/

namespace Gazelle

namespace LtranTables

/-- All entries have ticks and a stack with the property. -/
structure Every (P : Option (Fin gazelleMaxInstanceNum) → Tick → Option ℕ → Prop)
    (s : LtranTables) : Prop where
  /-- The listeners. -/
  sock : ∀ sock ∈ s.sockHtable.toList, P sock.instanceCurTick sock.instanceRegTick sock.stack
  /-- The connections. -/
  conn : ∀ conn ∈ s.connHtable.toList, P conn.instanceCurTick conn.instanceRegTick conn.stack

variable {P : Option (Fin gazelleMaxInstanceNum) → Tick → Option ℕ → Prop} {hash : LtranJhash}
  {s s' : LtranTables} {q : GazelleQuintuple} {tid : Tid} {malloc : Option ℕ}

/-- Entries are removed. -/
theorem Every.of_subset (h : s.Every P)
    (hsocks : ∀ sock ∈ s'.sockHtable.toList, sock ∈ s.sockHtable.toList)
    (hconns : ∀ conn ∈ s'.connHtable.toList, conn ∈ s.connHtable.toList) : s'.Every P :=
  ⟨fun sock hsock => h.sock sock (hsocks sock hsock),
    fun conn hconn => h.conn conn (hconns conn hconn)⟩

/-! ## Writing to one entry -/

/-- A listener is written to. -/
theorem Every.modifySock (h : s.Every P) (addr : ℕ) {f : GazelleTcpSock → GazelleTcpSock}
    (hf : ∀ t, P t.instanceCurTick t.instanceRegTick t.stack →
      P (f t).instanceCurTick (f t).instanceRegTick (f t).stack) :
    (s.modifySock addr f).Every P := by
  refine ⟨fun sock hsock => ?_, h.conn⟩
  rw [LtranTables.modifySock, HTable.toList_map] at hsock
  obtain ⟨t, ht, rfl⟩ := List.mem_map.1 hsock
  split
  · exact hf t (h.sock t ht)
  · exact h.sock t ht

/-- A connection is written to. -/
theorem Every.modifyConn (h : s.Every P) (addr : ℕ) {f : GazelleTcpConn → GazelleTcpConn}
    (hf : ∀ t, P t.instanceCurTick t.instanceRegTick t.stack →
      P (f t).instanceCurTick (f t).instanceRegTick (f t).stack) :
    (s.modifyConn addr f).Every P := by
  refine ⟨h.sock, fun conn hconn => ?_⟩
  rw [LtranTables.modifyConn, HTable.toList_map] at hconn
  obtain ⟨t, ht, rfl⟩ := List.mem_map.1 hconn
  split
  · exact hf t (h.conn t ht)
  · exact h.conn t ht

/-! ## Packets -/

/-- `gazelle_conn_add_by_quintuple`. -/
theorem Every.gazelleConnAddByQuintuple (h : s.Every P)
    (hnew : P none instanceRegTickInitVal none) {found : Option ℕ}
    (hadd : s.gazelleConnAddByQuintuple hash q malloc = (s', found)) : s'.Every P := by
  rcases connAdd_cases hadd with ⟨rfl, -⟩ | ⟨a, -, -, -, rfl⟩
  · exact h
  · refine ⟨h.sock, fun conn hconn => ?_⟩
    rcases HTable.mem_insertHead.1 hconn with rfl | hconn
    · exact hnew
    · exact h.conn conn hconn

/-- The connection found for a packet is on. -/
theorem connIsOn_of_connGet {conn : GazelleTcpConn}
    (hget : s.gazelleConnGetByQuintuple hash q = some conn) : s.connIsOn conn = true := by
  have hfound := List.find?_some hget
  exact (Bool.and_eq_true_iff.1 hfound).1

/-- `tcp_handle`. -/
theorem Every.tcpHandle (h : s.Every P) (hnew : P none instanceRegTickInitVal none) :
    (s.tcpHandle hash q malloc).1.Every P := by
  rcases tcpHandle_cases hash s q malloc with ⟨conn, -, heq⟩ | ⟨-, ⟨-, heq⟩ | ⟨sock, hmin, hrest⟩⟩
  · rw [heq]
    exact h
  · rw [heq]
    exact h
  · rcases hrest with ⟨-, heq⟩ | ⟨a, -, -, heq⟩
    · rw [heq]
      exact h
    · rw [heq]
      have hadded : Every P
          { s with
            connHtable := s.connHtable.insertHead (gazelleConnHbucketGet hash (packetQuintuple q))
              (newConn a (packetQuintuple q)) } := by
        refine ⟨h.sock, fun conn hconn => ?_⟩
        rcases HTable.mem_insertHead.1 hconn with rfl | hconn
        · exact hnew
        · exact h.conn conn hconn
      exact (hadded.modifyConn a fun _ _ => h.sock sock (mem_of_minConn hmin)).modifySock _
        fun _ ht => ht

/-- The stack that is given a packet is that of an entry that is on. -/
theorem Every.tcpHandle_stack (h : s.Every P) {stack : Option ℕ}
    (hstack : (s.tcpHandle hash q malloc).2 = some stack) :
    ∃ cur reg, P cur reg stack ∧ instanceIsOn s.instanceCurTick cur reg = true := by
  rcases tcpHandle_cases hash s q malloc with
    ⟨conn, hget, heq⟩ | ⟨-, ⟨-, heq⟩ | ⟨sock, hmin, hrest⟩⟩
  · rw [heq] at hstack
    cases hstack
    exact ⟨_, _, h.conn conn (mem_of_connGet hget), connIsOn_of_connGet hget⟩
  · rw [heq] at hstack
    cases hstack
  · rcases hrest with ⟨-, heq⟩ | ⟨a, -, -, heq⟩ <;> rw [heq] at hstack <;> cases hstack
    exact ⟨_, _, h.sock sock (mem_of_minConn hmin), sockIsOn_of_minConn hmin⟩

/-! ## Messages -/

/-- `gazelle_sock_add_by_ipporttid`. -/
theorem Every.gazelleSockAddByIpporttid (h : s.Every P)
    (hnew : P none instanceRegTickInitVal none) {ip : Ipv4} {port : Port} {found : Option ℕ}
    (hadd : s.gazelleSockAddByIpporttid hash ip port tid malloc = (s', found)) : s'.Every P := by
  rcases sockAdd_cases hadd with rfl | ⟨a, -, -, -, -, rfl⟩
  · exact h
  have hadded : Every P
      { s with
        sockHtable := s.sockHtable.insertHead (gazelleHbucketGetByIpport hash ip port)
          (newSock a ip port tid)
        connHtable := s.connHtable.map fun conn =>
          if matchesSock (newSock a ip port tid) conn && conn.sock.isNone then
            { conn with sock := some (newSock a ip port tid).addr }
          else conn } := by
    refine ⟨fun sock hsock => ?_, fun conn hconn => ?_⟩
    · rcases HTable.mem_insertHead.1 hsock with rfl | hsock
      · exact hnew
      · exact h.sock sock hsock
    · rw [HTable.toList_map] at hconn
      obtain ⟨t, ht, rfl⟩ := List.mem_map.1 hconn
      split
      · exact h.conn t ht
      · exact h.conn t ht
  exact hadded.modifySock _ fun _ ht => ht

/-- `tcp_hash_table_del_conn`. -/
theorem Every.tcpHashTableDelConn (h : s.Every P) :
    (s.tcpHashTableDelConn hash q).Every P := by
  unfold LtranTables.tcpHashTableDelConn
  split
  · exact h
  dsimp only
  split
  · exact h.of_subset (fun _ hsock => hsock) fun _ hconn => HTable.mem_of_mem_eraseFirst hconn
  · next addr _ =>
    have hleft : Every P (s.modifySock addr fun t =>
        if 0 < t.tcpConNum.toNat then { t with tcpConNum := t.tcpConNum - 1 } else t) := by
      refine h.modifySock _ fun t ht => ?_
      split
      · exact ht
      · exact ht
    exact hleft.of_subset (fun _ hsock => hsock) fun _ hconn => HTable.mem_of_mem_eraseFirst hconn

/-- The end of `tcp_hash_table_add_conn`. -/
theorem Every.addClientConn (h : s.Every P) (hnew : P none instanceRegTickInitVal none)
    {stack : GazelleStack}
    (hstack : P stack.instanceCurTick stack.instanceRegTick (some stack.addr)) :
    (s.addClientConn hash stack q tid malloc).Every P := by
  unfold LtranTables.addClientConn
  split
  · next t hadd => exact h.gazelleConnAddByQuintuple hnew hadd
  · next t a hadd =>
    exact (h.gazelleConnAddByQuintuple hnew hadd).modifyConn a fun _ _ => hstack

/-- `tcp_hash_table_add_conn`. -/
theorem Every.tcpHashTableAddConn (h : s.Every P) (hnew : P none instanceRegTickInitVal none)
    {stack : GazelleStack}
    (hstack : P stack.instanceCurTick stack.instanceRegTick (some stack.addr)) :
    (s.tcpHashTableAddConn hash stack q tid malloc).Every P := by
  unfold LtranTables.tcpHashTableAddConn
  split
  · split
    · exact h.modifyConn _ fun _ ht => ht
    · have hdel : (s.gazelleConnDelByQuintuple hash q).Every P :=
        h.of_subset (fun _ hsock => hsock) fun _ hconn => HTable.mem_of_mem_eraseFirst hconn
      exact hdel.addClientConn hnew hstack
  · exact h.addClientConn hnew hstack

/-- `tcp_hash_table_modify` for a message of a stack with the property. -/
theorem Every.tcpHashTableModify (h : s.Every P) (hnew : P none instanceRegTickInitVal none)
    {stack : GazelleStack}
    (hstack : P stack.instanceCurTick stack.instanceRegTick (some stack.addr))
    (msg : RegRingMsg) (alloc : Option ℕ) :
    (s.tcpHashTableModify hash stack msg alloc).Every P := by
  unfold LtranTables.tcpHashTableModify
  cases msg.type with
  | tcpListen =>
    dsimp only
    split
    · next t hadd => exact h.gazelleSockAddByIpporttid hnew hadd
    · next t a hadd =>
      exact (h.gazelleSockAddByIpporttid hnew hadd).modifySock a fun _ _ => hstack
  | tcpListenClose =>
    exact h.of_subset (fun _ hsock => HTable.mem_of_mem_eraseFirst hsock) fun _ hconn => hconn
  | tcpConnect => exact h.tcpHashTableAddConn hnew hstack
  | tcpConnectClose => exact h.tcpHashTableDelConn
  | unknown => exact h

/-! ## Scans -/

/-- `gazelle_detect_sock_logout`. -/
theorem Every.gazelleDetectSockLogout (h : s.Every P) : s.gazelleDetectSockLogout.Every P := by
  refine h.of_subset (fun sock hsock => ?_) fun _ hconn => hconn
  obtain ⟨t, ht, hf⟩ := HTable.mem_filterMap.1 hsock
  split at hf <;> cases hf
  exact ht

/-- `gazelle_detect_conn_logout`. -/
theorem Every.gazelleDetectConnLogout (h : s.Every P) : s.gazelleDetectConnLogout.Every P := by
  refine h.of_subset (fun _ hsock => hsock) fun conn hconn => ?_
  obtain ⟨t, ht, hf⟩ := HTable.mem_filterMap.1 hconn
  split at hf <;> cases hf
  exact ht

/-- `gazelle_delete_aging_conn`. -/
theorem Every.gazelleDeleteAgingConn (h : s.Every P) : s.gazelleDeleteAgingConn.Every P := by
  have hleave : ∀ (conns : List GazelleTcpConn) (t : LtranTables), t.Every P →
      (conns.foldl leaveSock t).Every P := by
    intro conns
    induction conns with
    | nil => exact fun _ ht => ht
    | cons conn conns ih =>
      intro t ht
      refine ih _ ?_
      unfold leaveSock
      split
      · exact ht
      · exact ht.modifySock _ fun _ hsock => hsock
  refine hleave _ _ ⟨h.sock, fun conn hconn => ?_⟩
  obtain ⟨t, ht, hf⟩ := HTable.mem_filterMap.1 hconn
  unfold ageConn at hf
  split at hf
  · cases hf
    exact h.conn _ ht
  · split at hf <;> cases hf
    exact h.conn t ht

end LtranTables

end Gazelle
