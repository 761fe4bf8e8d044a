import Gazelle.Transition.System
import Gazelle.Ltran.Tables

/-!
# The references between the tables of ltran

A connection points to the listener it came from, and a listener counts its connections. Packets,
ageing and the closing of a connection keep the two in step; the closing of a listener, the
replacement of a connection and the two logout scans remove one side only.

* `LtranTables.system`: all orders of packets, messages, scans and instances coming and going;
* `references_iff`: pointers and counts are right in exactly the runs in which nothing is removed
  that the other side still refers to, and no new listener counts a connection of another one;
* `references_fail`: a listener that is closed while it has a connection leaves the connection
  pointing to freed memory.
-/

namespace Gazelle

/-- What changes the tables. -/
inductive TablesAction
  /-- `tcp_handle` receives a packet. -/
  | packet (q : GazelleQuintuple) (malloc : Option ℕ)
  /-- `tcp_hash_table_modify` takes a message from the ring of a stack. -/
  | message (stack : GazelleStack) (msg : RegRingMsg) (alloc : Option ℕ)
  /-- `gazelle_delete_aging_conn`, with what `pthread_mutex_trylock` says. -/
  | deleteAgingConn (locked : Bool)
  /-- `gazelle_detect_conn_logout`. -/
  | detectConnLogout (locked : Bool)
  /-- `gazelle_detect_sock_logout`. -/
  | detectSockLogout (locked : Bool)
  /-- An instance enters or leaves a slot of the manager. -/
  | instanceTick (i : Fin gazelleMaxInstanceNum)

namespace LtranTables

variable (hash : LtranJhash) (s : LtranTables)

/-- The allocators return memory that is not in use. -/
def fresh : Option ℕ → Bool
  | none => true
  | some addr =>
    s.sockHtable.toList.all (fun sock => sock.addr ≠ addr) &&
      s.connHtable.toList.all (fun conn => conn.addr ≠ addr)

/-- One step of ltran on its tables. -/
def step : TablesAction → Option LtranTables
  | .packet q malloc => if s.fresh malloc then some (s.tcpHandle hash q malloc).1 else none
  | .message stack msg alloc =>
    if s.fresh alloc then some (s.tcpHashTableModify hash stack msg alloc) else none
  | .deleteAgingConn locked => some (if locked then s.gazelleDeleteAgingConn else s)
  | .detectConnLogout locked => some (if locked then s.gazelleDetectConnLogout else s)
  | .detectSockLogout locked => some (if locked then s.gazelleDetectSockLogout else s)
  | .instanceTick i =>
    some { s with
      instanceCurTick := Function.update s.instanceCurTick i (s.instanceCurTick i + 1) }

/-- All runs of ltran on empty tables. -/
def system (maxSockNum maxConnNum : BitVec 32) : Transition.System LtranTables TablesAction where
  Init s := ∃ ticks, s = create ticks maxSockNum maxConnNum
  step := step hash

/-- The number of connections that point to a listener. -/
def refs (addr : ℕ) : ℕ := s.connHtable.count fun conn => conn.sock = some addr

/-- Every pointer to a listener is valid, and every listener counts the pointers to it. -/
structure Referential : Prop where
  /-- A connection has no listener or one that is in the table. -/
  sock : ∀ conn ∈ s.connHtable.toList, ∀ addr, conn.sock = some addr →
    ∃ sock ∈ s.sockHtable.toList, sock.addr = addr
  /-- The count of a listener. -/
  tcpConNum : ∀ sock ∈ s.sockHtable.toList, sock.tcpConNum.toNat = s.refs sock.addr

/-- The step leaves nothing behind that refers to what it removes. -/
def KeepsReferences : TablesAction → Prop
  | .message _ msg alloc =>
    let q := msgToQuintuple msg
    let bucket := s.sockHtable.chain (gazelleHbucketGetByIpport hash q.dstIp q.dstPort)
    match msg.type with
    | .tcpListen =>
      -- when a listener is created, no connection it counts has another one
      (∀ sock ∈ bucket, ¬ (sock.tid = msg.tid ∧ s.sockIsOn sock)) →
        s.sockHtable.curNum ≠ s.sockHtable.maxNum → ∀ addr, alloc = some addr →
          ∀ conn ∈ s.connHtable.toList,
            matchesSock (newSock addr q.dstIp q.dstPort msg.tid) conn → conn.sock = none
    | .tcpListenClose =>
      ∀ sock, bucket.find? (fun sock => sock.tid = msg.tid) = some sock → sock.tcpConNum = 0
    | .tcpConnect =>
      ∀ conn old, s.gazelleConnGetByQuintuple hash q = some conn → conn.connTimeout.toInt < 0 →
        s.firstConn hash q = some old → old.sock = none
    | .tcpConnectClose =>
      ∀ conn old, s.gazelleConnGetByQuintuple hash q = some conn →
        s.firstConn hash q = some old → conn.sock = old.sock
    | .unknown => True
  | .detectConnLogout true =>
    ∀ conn ∈ s.connHtable.toList, ¬ s.connIsOn conn → conn.sock = none
  | .detectSockLogout true =>
    ∀ sock ∈ s.sockHtable.toList, ¬ s.sockIsOn sock → sock.tcpConNum = 0
  | _ => True

/-- The invariant of good runs. -/
structure TablesInv : Prop where
  /-- Pointers and counts are right. -/
  referential : s.Referential
  /-- Addresses are not used twice. -/
  unique : ∀ addr, (s.sockHtable.count fun sock => sock.addr = addr) ≤ 1
  /-- The number of connections fits the counters. -/
  counted : s.connHtable.Counted

/-! ## References -/

variable {hash} {s} {s' : LtranTables} {addr : ℕ}

theorem refs_pos : 0 < s.refs addr ↔ ∃ conn ∈ s.connHtable.toList, conn.sock = some addr := by
  simp [refs, HTable.count_pos]

/-- Nothing refers to an address that is not in use. -/
theorem Referential.refs_fresh (h : s.Referential)
    (hfresh : ∀ sock ∈ s.sockHtable.toList, sock.addr ≠ addr) : s.refs addr = 0 := by
  by_contra hne
  obtain ⟨conn, hconn, hsock⟩ := refs_pos.1 (Nat.pos_of_ne_zero hne)
  obtain ⟨sock, hmem, haddr⟩ := h.sock conn hconn addr hsock
  exact hfresh sock hmem haddr

/-- The number of references fits a counter. -/
theorem refs_lt (h : s.connHtable.Counted) (addr : ℕ) : s.refs addr < 2 ^ 32 :=
  lt_of_le_of_lt h.count_le s.connHtable.curNum.isLt

/-- Listeners are only written to: the invariant holds again when the counts are those of the new
references and nothing else is referred to. -/
theorem TablesInv.map (h : s.TablesInv) {g : GazelleTcpSock → GazelleTcpSock}
    (hsocks : s'.sockHtable = s.sockHtable.map g) (haddr : ∀ sock, (g sock).addr = sock.addr)
    (hnum : ∀ sock ∈ s.sockHtable.toList, (g sock).tcpConNum.toNat = s'.refs sock.addr)
    (hrefs : ∀ addr, 0 < s'.refs addr → ∃ sock ∈ s.sockHtable.toList, sock.addr = addr)
    (hcounted : s'.connHtable.Counted) : s'.TablesInv := by
  have hlist : s'.sockHtable.toList = s.sockHtable.toList.map g := by
    rw [hsocks, HTable.toList_map]
  refine ⟨⟨?_, ?_⟩, ?_, hcounted⟩
  · intro conn hconn addr hsock
    obtain ⟨sock, hmem, rfl⟩ := hrefs addr (refs_pos.2 ⟨conn, hconn, hsock⟩)
    exact ⟨g sock, hlist ▸ List.mem_map_of_mem hmem, haddr sock⟩
  · intro t ht
    rw [hlist, List.mem_map] at ht
    obtain ⟨sock, hmem, rfl⟩ := ht
    rw [hnum sock hmem, haddr sock]
  · intro addr
    rw [hsocks, HTable.count_map]
    simp only [haddr]
    exact h.unique addr

/-- The references are the same, and the listeners are not touched. -/
theorem TablesInv.of_refs_eq (h : s.TablesInv) (hsocks : s'.sockHtable = s.sockHtable)
    (hrefs : ∀ addr, s'.refs addr = s.refs addr) (hcounted : s'.connHtable.Counted) :
    s'.TablesInv := by
  refine ⟨⟨?_, ?_⟩, ?_, hcounted⟩
  · intro conn hconn addr hsock
    have hpos : 0 < s'.refs addr := refs_pos.2 ⟨conn, hconn, hsock⟩
    rw [hrefs] at hpos
    obtain ⟨conn', hconn', hsock'⟩ := refs_pos.1 hpos
    rw [hsocks]
    exact h.referential.sock conn' hconn' addr hsock'
  · rw [hsocks]
    intro sock hmem
    rw [hrefs]
    exact h.referential.tcpConNum sock hmem
  · rw [hsocks]
    exact h.unique

/-- Listeners without connections are taken out. -/
theorem TablesInv.remove (h : s.TablesInv) (hconns : s'.connHtable = s.connHtable)
    (hmem : ∀ sock ∈ s'.sockHtable.toList, sock ∈ s.sockHtable.toList)
    (hcount : ∀ p, s'.sockHtable.count p ≤ s.sockHtable.count p)
    (hremoved : ∀ sock ∈ s.sockHtable.toList, sock ∉ s'.sockHtable.toList → sock.tcpConNum = 0) :
    s'.TablesInv := by
  have hrefs : ∀ addr, s'.refs addr = s.refs addr := fun addr => by rw [refs, hconns, refs]
  refine ⟨⟨?_, ?_⟩, fun addr => (hcount _).trans (h.unique addr), hconns ▸ h.counted⟩
  · intro conn hconn addr hsock
    rw [hconns] at hconn
    obtain ⟨sock, hsockMem, haddr⟩ := h.referential.sock conn hconn addr hsock
    refine ⟨sock, ?_, haddr⟩
    by_contra hgone
    have hzero := h.referential.tcpConNum sock hsockMem
    rw [hremoved sock hsockMem hgone, haddr] at hzero
    have hpos := refs_pos.2 ⟨conn, hconn, hsock⟩
    rw [← hzero] at hpos
    exact absurd hpos (by simp)
  · intro sock hsockMem
    rw [hrefs]
    exact h.referential.tcpConNum sock (hmem sock hsockMem)

/-- If a listener is taken out and everything is right afterwards, it had no connections. -/
theorem TablesInv.tcpConNum_eq_zero (h : s.TablesInv) (h' : s'.Referential)
    (hconns : s'.connHtable = s.connHtable) {sock : GazelleTcpSock}
    (hmem : sock ∈ s.sockHtable.toList)
    (hgone : ∀ t ∈ s'.sockHtable.toList, t.addr ≠ sock.addr) : sock.tcpConNum = 0 := by
  have hzero := h'.refs_fresh hgone
  rw [refs, hconns] at hzero
  apply BitVec.eq_of_toNat_eq
  rw [h.referential.tcpConNum sock hmem, refs, hzero]
  rfl

/-! ## Connections -/

section Connections

variable {q : GazelleQuintuple} {malloc : Option ℕ}

/-- A write to a connection that keeps its pointer. -/
theorem refs_modifyConn {f : GazelleTcpConn → GazelleTcpConn} (a : ℕ)
    (hf : ∀ conn, (f conn).sock = conn.sock) : (s.modifyConn a f).refs addr = s.refs addr := by
  rw [refs, modifyConn, HTable.count_map]
  refine HTable.count_congr fun conn _ => ?_
  by_cases ha : conn.addr = a
  · rw [if_pos ha, hf]
  · rw [if_neg ha]

/-- `gazelle_conn_add_by_quintuple` finds the connection, fails, or allocates it. -/
theorem connAdd_cases {found : Option ℕ}
    (h : s.gazelleConnAddByQuintuple hash q malloc = (s', found)) :
    (s' = s ∧ (found ≠ none → s.gazelleConnGetByQuintuple hash q ≠ none)) ∨
      ∃ a, malloc = some a ∧ found = some a ∧ s.connHtable.curNum ≠ s.connHtable.maxNum ∧
        s' = { s with
          connHtable := s.connHtable.insertHead (gazelleConnHbucketGet hash q) (newConn a q) } := by
  unfold gazelleConnAddByQuintuple at h
  split at h
  · rename_i conn hget
    cases h
    exact .inl ⟨rfl, fun _ => by simp [hget]⟩
  · split at h
    · cases h
      exact .inl ⟨rfl, fun hne => absurd rfl hne⟩
    · rename_i hroom
      split at h
      · cases h
        exact .inl ⟨rfl, fun hne => absurd rfl hne⟩
      · rename_i a
        cases h
        exact .inr ⟨a, rfl, rfl, hroom, rfl⟩

variable (hash s q malloc) in
/-- The connection of a client is added without a listener. -/
theorem addClientConn_spec (stack : GazelleStack) (tid : Tid) :
    (s.addClientConn hash stack q tid malloc).sockHtable = s.sockHtable ∧
      (∀ addr, (s.addClientConn hash stack q tid malloc).refs addr = s.refs addr) ∧
      (s.connHtable.Counted → (s.addClientConn hash stack q tid malloc).connHtable.Counted) := by
  unfold addClientConn
  have hadd : ∀ t found, s.gazelleConnAddByQuintuple hash q malloc = (t, found) →
      t.sockHtable = s.sockHtable ∧ (∀ addr, t.refs addr = s.refs addr) ∧
        (s.connHtable.Counted → t.connHtable.Counted) := by
    intro t found h
    rcases connAdd_cases h with ⟨rfl, -⟩ | ⟨a, -, -, hroom, rfl⟩
    · exact ⟨rfl, fun _ => rfl, id⟩
    · refine ⟨rfl, fun addr => ?_, fun hc => hc.insertHead hroom⟩
      rw [refs, HTable.count_insertHead]
      simp [newConn, refs]
  split
  · rename_i t h
    exact hadd t none h
  · rename_i t a h
    obtain ⟨hsocks, hrefs, hcounted⟩ := hadd t (some a) h
    refine ⟨hsocks, fun addr => ?_, fun hc => (hcounted hc).map _⟩
    rw [refs_modifyConn a (f := clientConn stack tid) fun _ => rfl, hrefs]

/-- The references that are left when the first connection with a quintuple is deleted. -/
theorem refs_connDel {old : GazelleTcpConn} (hold : s.firstConn hash q = some old) (addr : ℕ) :
    (s.gazelleConnDelByQuintuple hash q).refs addr + (if old.sock = some addr then 1 else 0) =
      s.refs addr := by
  have hcount := HTable.count_eraseFirst (p := fun conn => conn.sock = some addr) hold
  simpa [refs, gazelleConnDelByQuintuple] using hcount

/-- A connection that is found is not the only reason for a first one to exist. -/
theorem exists_firstConn {conn : GazelleTcpConn}
    (hget : s.gazelleConnGetByQuintuple hash q = some conn) :
    ∃ old, s.firstConn hash q = some old := by
  have hmem := List.mem_of_find?_eq_some hget
  have hq := List.find?_some hget
  rw [Bool.and_eq_true] at hq
  exact Option.isSome_iff_exists.1 (List.find?_isSome.2 ⟨conn, hmem, hq.2⟩)

/-- A connection that is found is in the table. -/
theorem mem_of_connGet {conn : GazelleTcpConn}
    (hget : s.gazelleConnGetByQuintuple hash q = some conn) : conn ∈ s.connHtable.toList :=
  HTable.mem_of_find? hget

end Connections

/-! ## The steps -/

section Steps

variable {q : GazelleQuintuple} {malloc alloc : Option ℕ} {tid : Tid} {a : ℕ}

/-- A new connection of a listener: one reference more. -/
theorem refs_newConn {f : GazelleTcpConn → GazelleTcpConn} {target : ℕ}
    (hf : ∀ conn, (f conn).sock = some target)
    (hfresh : ∀ conn ∈ s.connHtable.toList, conn.addr ≠ a)
    {b : Fin gazelleMaxConnHtableSize} :
    LtranTables.refs (modifyConn
        { s with connHtable := s.connHtable.insertHead b (newConn a q) } a f) addr =
      s.refs addr + if target = addr then 1 else 0 := by
  rw [refs, modifyConn, HTable.count_map, HTable.count_insertHead]
  have hold : (s.connHtable.count fun conn =>
      decide ((if conn.addr = a then f conn else conn).sock = some addr)) = s.refs addr :=
    HTable.count_congr fun conn hconn => by rw [if_neg (hfresh conn hconn)]
  rw [hold]
  simp [newConn, hf]

/-- The listener found for a packet is in the table. -/
theorem mem_of_minConn {ip : Ipv4} {port : Port} {sock : GazelleTcpSock}
    (h : s.gazelleSockGetByMinConn hash ip port = some sock) : sock ∈ s.sockHtable.toList := by
  have hfold : ∀ (l : List GazelleTcpSock) (acc : Option GazelleTcpSock × ℕ),
      (l.foldl (fun (acc : Option GazelleTcpSock × ℕ) sock =>
        if !s.sockIsOn sock then acc
        else if sock.port ≠ port ∨ sock.ip ≠ ip then acc
        else if sock.tcpConNum.toNat < acc.2 then (some sock, sock.tcpConNum.toNat)
        else acc) acc).1 = some sock → acc.1 = some sock ∨ sock ∈ l := by
    intro l
    induction l with
    | nil => exact fun acc h => .inl h
    | cons t l ih =>
      intro acc hacc
      rw [List.foldl_cons] at hacc
      rcases ih _ hacc with hfound | hmem
      · split_ifs at hfound
        · exact .inl hfound
        · exact .inl hfound
        · cases hfound
          exact .inr List.mem_cons_self
        · exact .inl hfound
      · exact .inr (List.mem_cons_of_mem _ hmem)
  rcases hfold _ _ h with hnone | hmem
  · cases hnone
  · exact HTable.mem_toList.2 ⟨_, hmem⟩

variable (hash s) in
/-- What a packet without a connection leaves: a new connection of a listener. -/
def accepted (q : GazelleQuintuple) (sock : GazelleTcpSock) (a : ℕ) : LtranTables :=
  (({ s with
      connHtable := s.connHtable.insertHead (gazelleConnHbucketGet hash (packetQuintuple q))
        (newConn a (packetQuintuple q)) } : LtranTables).modifyConn a
    (acceptConn sock)).modifySock sock.addr fun t => { t with tcpConNum := t.tcpConNum + 1 }

variable (hash s q malloc) in
/-- A packet goes to a known connection, finds no listener or no room, or makes a new connection. -/
theorem tcpHandle_cases :
    (∃ conn, s.gazelleConnGetByQuintuple hash (packetQuintuple q) = some conn ∧
        s.tcpHandle hash q malloc = (s, some conn.stack)) ∨
      s.gazelleConnGetByQuintuple hash (packetQuintuple q) = none ∧
        ((s.gazelleSockGetByMinConn hash q.dstIp q.dstPort = none ∧
            s.tcpHandle hash q malloc = (s, none)) ∨
          ∃ sock, s.gazelleSockGetByMinConn hash q.dstIp q.dstPort = some sock ∧
            (((s.connHtable.curNum = s.connHtable.maxNum ∨ malloc = none) ∧
                s.tcpHandle hash q malloc = (s, none)) ∨
              ∃ a, malloc = some a ∧ s.connHtable.curNum ≠ s.connHtable.maxNum ∧
                s.tcpHandle hash q malloc = (s.accepted hash q sock a, some sock.stack))) := by
  have hkey : (packetQuintuple q).dstIp = q.dstIp ∧ (packetQuintuple q).dstPort = q.dstPort :=
    ⟨rfl, rfl⟩
  -- the table of connections is asked first, then that of the listeners
  cases hget : s.gazelleConnGetByQuintuple hash (packetQuintuple q) with
  | some conn => exact .inl ⟨conn, rfl, by simp only [LtranTables.tcpHandle, hget]⟩
  | none =>
    refine .inr ⟨rfl, ?_⟩
    cases hmin : s.gazelleSockGetByMinConn hash q.dstIp q.dstPort with
    | none => exact .inl ⟨rfl, by simp only [LtranTables.tcpHandle, hget, hkey, hmin]⟩
    | some sock =>
      refine .inr ⟨sock, rfl, ?_⟩
      -- the new connection needs a place in the table and memory
      by_cases hfull : s.connHtable.curNum = s.connHtable.maxNum
      · refine .inl ⟨.inl hfull, ?_⟩
        simp only [LtranTables.tcpHandle, hget, hkey, hmin, gazelleConnAddByQuintuple,
          if_pos hfull]
      cases malloc with
      | none =>
        refine .inl ⟨.inr rfl, ?_⟩
        simp only [LtranTables.tcpHandle, hget, hkey, hmin, gazelleConnAddByQuintuple,
          if_neg hfull]
      | some a =>
        refine .inr ⟨a, rfl, hfull, ?_⟩
        simp only [LtranTables.tcpHandle, hget, hkey, hmin, gazelleConnAddByQuintuple,
          if_neg hfull, accepted]

/-- A packet keeps the invariant. -/
theorem TablesInv.tcpHandle (h : s.TablesInv) (hfresh : s.fresh malloc) :
    (s.tcpHandle hash q malloc).1.TablesInv := by
  rcases tcpHandle_cases hash s q malloc with ⟨conn, -, hsame⟩ | ⟨-, ⟨-, hsame⟩ |
    ⟨sock, hmin, ⟨-, hsame⟩ | ⟨a, rfl, hroom, hnew⟩⟩⟩
  · -- in the first three cases nothing is written
    rwa [hsame]
  · rwa [hsame]
  · rwa [hsame]
  have hmem := mem_of_minConn hmin
  have heq := congrArg Prod.fst hnew
  simp only [fresh, Bool.and_eq_true, List.all_eq_true, decide_eq_true_eq] at hfresh
  -- the listener is referred to once more, and counts it
  have hrefs : ∀ addr, (s.tcpHandle hash q (some a)).1.refs addr =
      s.refs addr + if sock.addr = addr then 1 else 0 := by
    intro addr
    rw [heq]
    exact refs_newConn (f := acceptConn sock) (fun _ => rfl) hfresh.2
  have hcounted : (s.tcpHandle hash q (some a)).1.connHtable.Counted := by
    rw [heq]
    exact (h.counted.insertHead hroom).map _
  refine h.map (g := fun t => if t.addr = sock.addr then
    { t with tcpConNum := t.tcpConNum + 1 } else t) (by rw [heq]; rfl) ?_ ?_ ?_ hcounted
  · intro t
    split <;> rfl
  · intro t ht
    -- the number of connections of the table bounds the counter, so it does not wrap
    have hnum := h.referential.tcpConNum t ht
    have hlt := refs_lt hcounted t.addr
    rw [hrefs] at hlt ⊢
    by_cases haddr : t.addr = sock.addr
    · rw [if_pos haddr.symm] at hlt ⊢
      rw [if_pos haddr, BitVec.toNat_add, hnum]
      exact Nat.mod_eq_of_lt hlt
    · rw [if_neg haddr, if_neg (Ne.symm haddr), Nat.add_zero]
      exact hnum
  · -- the new connection points at the listener it came from
    intro addr hpos
    by_cases haddr : sock.addr = addr
    · exact ⟨sock, hmem, haddr⟩
    · rw [hrefs, if_neg haddr, Nat.add_zero] at hpos
      obtain ⟨conn, hconn, hsock⟩ := refs_pos.1 hpos
      exact h.referential.sock conn hconn addr hsock

/-- The acceptance of a connection, or a client's connection, keeps the invariant when what it
replaces has no listener. -/
theorem TablesInv.tcpHashTableAddConn (h : s.TablesInv) (stack : GazelleStack)
    (hold : ∀ conn old, s.gazelleConnGetByQuintuple hash q = some conn →
      conn.connTimeout.toInt < 0 → s.firstConn hash q = some old → old.sock = none) :
    (s.tcpHashTableAddConn hash stack q tid malloc).TablesInv := by
  unfold LtranTables.tcpHashTableAddConn
  split
  · rename_i conn hget
    split
    · exact h.of_refs_eq rfl (fun addr => refs_modifyConn conn.addr fun _ => rfl) (h.counted.map _)
    · rename_i htimeout
      obtain ⟨old, hfirst⟩ := exists_firstConn hget
      have hnone := hold conn old hget (by omega) hfirst
      obtain ⟨hsocks, hrefs, hcounted⟩ := addClientConn_spec hash
        (s.gazelleConnDelByQuintuple hash q) q malloc stack tid
      refine h.of_refs_eq hsocks (fun addr => ?_) (hcounted h.counted.eraseFirst)
      rw [hrefs, ← refs_connDel hfirst addr, hnone]
      simp
  · obtain ⟨hsocks, hrefs, hcounted⟩ := addClientConn_spec hash s q malloc stack tid
    exact h.of_refs_eq hsocks hrefs (hcounted h.counted)

/-- If everything is right after a connection was replaced, the deleted one had no listener. -/
theorem TablesInv.replaced_sock (h : s.TablesInv) {stack : GazelleStack}
    (h' : (s.tcpHashTableAddConn hash stack q tid malloc).Referential) {conn old : GazelleTcpConn}
    (hget : s.gazelleConnGetByQuintuple hash q = some conn) (htimeout : conn.connTimeout.toInt < 0)
    (hfirst : s.firstConn hash q = some old) : old.sock = none := by
  obtain ⟨hsocks, hrefs, -⟩ := addClientConn_spec hash
    (s.gazelleConnDelByQuintuple hash q) q malloc stack tid
  have heq : s.tcpHashTableAddConn hash stack q tid malloc =
      (s.gazelleConnDelByQuintuple hash q).addClientConn hash stack q tid malloc := by
    rw [LtranTables.tcpHashTableAddConn, hget]
    exact if_neg (by omega)
  rw [heq] at h'
  by_contra hsome
  obtain ⟨addr, haddr⟩ := Option.ne_none_iff_exists'.1 hsome
  obtain ⟨sock, hmem, rfl⟩ := h.referential.sock old (HTable.mem_of_find? hfirst) addr haddr
  have hbefore := h.referential.tcpConNum sock hmem
  have hafter := h'.tcpConNum sock (by rw [hsocks]; exact hmem)
  have hdel := refs_connDel hfirst sock.addr
  rw [if_pos haddr] at hdel
  rw [hrefs] at hafter
  omega

/-- The state after the count of a listener was corrected for a connection that is closed. -/
theorem tcpHashTableDelConn_of_get {conn : GazelleTcpConn}
    (hget : s.gazelleConnGetByQuintuple hash q = some conn) :
    (s.tcpHashTableDelConn hash q).sockHtable = s.sockHtable.map (fun t =>
        if conn.sock = some t.addr ∧ 0 < t.tcpConNum.toNat then
          { t with tcpConNum := t.tcpConNum - 1 } else t) ∧
      (s.tcpHashTableDelConn hash q).connHtable =
        (s.gazelleConnDelByQuintuple hash q).connHtable := by
  cases hsock : conn.sock with
  | none =>
    simp only [LtranTables.tcpHashTableDelConn, hget, hsock]
    refine ⟨?_, trivial⟩
    simp [gazelleConnDelByQuintuple, HTable.map]
  | some a =>
    simp only [LtranTables.tcpHashTableDelConn, hget, hsock]
    refine ⟨?_, rfl⟩
    simp only [gazelleConnDelByQuintuple, modifySock]
    congr 1
    funext t
    by_cases ha : t.addr = a
    · subst ha
      by_cases hpos : 0 < t.tcpConNum.toNat <;> simp [hpos]
    · simp [ha, Ne.symm ha]

/-- A positive counter is decremented. -/
private theorem toNat_sub_one {x : BitVec 32} (hx : 0 < x.toNat) : (x - 1).toNat = x.toNat - 1 :=
  BitVec.toNat_sub_of_le (by rw [BitVec.le_def]; exact hx)

/-- The references after a connection is closed. -/
theorem refs_delConn {conn old : GazelleTcpConn}
    (hget : s.gazelleConnGetByQuintuple hash q = some conn)
    (hfirst : s.firstConn hash q = some old) (addr : ℕ) :
    (s.tcpHashTableDelConn hash q).refs addr + (if old.sock = some addr then 1 else 0) =
      s.refs addr := by
  rw [← refs_connDel hfirst addr, refs, (tcpHashTableDelConn_of_get hget).2, refs]

/-- Closing a connection keeps the invariant when the entry that is deleted has the listener of
the one that is found. -/
theorem TablesInv.tcpHashTableDelConn (h : s.TablesInv)
    (hsame : ∀ conn old, s.gazelleConnGetByQuintuple hash q = some conn →
      s.firstConn hash q = some old → conn.sock = old.sock) :
    (s.tcpHashTableDelConn hash q).TablesInv := by
  cases hget : s.gazelleConnGetByQuintuple hash q with
  | none => rwa [LtranTables.tcpHashTableDelConn, hget]
  | some conn =>
    obtain ⟨old, hfirst⟩ := exists_firstConn hget
    obtain ⟨hsocks, hconns⟩ := tcpHashTableDelConn_of_get hget
    have hdel := refs_delConn hget hfirst
    rw [hsame conn old hget hfirst] at hsocks
    refine h.map hsocks (fun t => by split <;> rfl) ?_ ?_ (hconns ▸ h.counted.eraseFirst)
    · intro t ht
      have hnum := h.referential.tcpConNum t ht
      have hrefs := hdel t.addr
      by_cases hsock : old.sock = some t.addr
      · rw [if_pos hsock] at hrefs
        have hpos : 0 < t.tcpConNum.toNat := by omega
        rw [if_pos ⟨hsock, hpos⟩, toNat_sub_one hpos]
        omega
      · rw [if_neg hsock] at hrefs
        rw [if_neg fun hand => hsock hand.1]
        omega
    · intro addr hpos
      have hrefs := hdel addr
      have hbefore : 0 < s.refs addr := by omega
      obtain ⟨c, hc, hsock⟩ := refs_pos.1 hbefore
      exact h.referential.sock c hc addr hsock

/-- If everything is right after a connection was closed, the deleted entry had the listener of
the one that was found. -/
theorem TablesInv.closed_sock (h : s.TablesInv) (h' : (s.tcpHashTableDelConn hash q).Referential)
    {conn old : GazelleTcpConn} (hget : s.gazelleConnGetByQuintuple hash q = some conn)
    (hfirst : s.firstConn hash q = some old) : conn.sock = old.sock := by
  obtain ⟨hsocks, -⟩ := tcpHashTableDelConn_of_get hget
  -- the count of a listener went down by one exactly if its references did
  have hcount : ∀ t ∈ s.sockHtable.toList, (conn.sock = some t.addr ↔ old.sock = some t.addr) := by
    intro t ht
    have hbefore := h.referential.tcpConNum t ht
    have hdel := refs_delConn hget hfirst t.addr
    have hmem := List.mem_map_of_mem (f := fun t : GazelleTcpSock =>
      if conn.sock = some t.addr ∧ 0 < t.tcpConNum.toNat then
        { t with tcpConNum := t.tcpConNum - 1 } else t) ht
    rw [← HTable.toList_map, ← hsocks] at hmem
    have hafter := h'.tcpConNum _ hmem
    by_cases hsock : conn.sock = some t.addr
    · have hpos : 0 < s.refs t.addr := refs_pos.2 ⟨conn, mem_of_connGet hget, hsock⟩
      rw [← hbefore] at hpos
      rw [if_pos ⟨hsock, hpos⟩] at hafter
      simp only [toNat_sub_one hpos] at hafter
      refine ⟨fun _ => ?_, fun _ => hsock⟩
      by_contra hne
      rw [if_neg hne] at hdel
      omega
    · rw [if_neg fun hand => hsock hand.1] at hafter
      refine ⟨fun hc => absurd hc hsock, fun hold => ?_⟩
      rw [if_pos hold] at hdel
      omega
  cases hsock : conn.sock with
  | some a =>
    obtain ⟨t, ht, rfl⟩ := h.referential.sock conn (mem_of_connGet hget) a hsock
    exact ((hcount t ht).1 hsock).symm
  | none =>
    cases hold : old.sock with
    | none => rfl
    | some a =>
      obtain ⟨t, ht, rfl⟩ := h.referential.sock old (HTable.mem_of_find? hfirst) a hold
      exact absurd ((hcount t ht).2 hold) (by simp [hsock])

/-- What the deletion of some connections does to the listeners. -/
theorem foldl_leaveSock (conns : List GazelleTcpConn) :
    (conns.foldl leaveSock s).connHtable = s.connHtable ∧
      (conns.foldl leaveSock s).sockHtable = s.sockHtable.map fun t =>
        { t with
          tcpConNum := t.tcpConNum -
            BitVec.ofNat 32 (conns.countP fun conn => conn.sock = some t.addr) } := by
  induction conns generalizing s with
  | nil => simp [HTable.map]
  | cons conn conns ih =>
    rw [List.foldl_cons, ih.1, ih.2]
    unfold leaveSock
    cases hsock : conn.sock with
    | none => simp [hsock]
    | some a =>
      refine ⟨rfl, ?_⟩
      simp only [modifySock, HTable.map, List.map_map]
      congr 1
      funext b
      refine List.map_congr_left fun t _ => ?_
      by_cases ha : t.addr = a
      · subst ha
        simp [hsock, BitVec.ofNat_add, BitVec.sub_sub, BitVec.add_comm]
      · simp [hsock, ha, Ne.symm ha]

/-- Ageing keeps the invariant. -/
theorem TablesInv.gazelleDeleteAgingConn (h : s.TablesInv) :
    s.gazelleDeleteAgingConn.TablesInv := by
  obtain ⟨hconns, hsocks⟩ := foldl_leaveSock
    (s := { s with connHtable := s.connHtable.filterMap ageConn })
    (s.connHtable.toList.filter fun conn => (ageConn conn).isNone)
  -- a reference is kept or belongs to a connection that is deleted
  have hrefs : ∀ addr, s.gazelleDeleteAgingConn.refs addr +
      ((s.connHtable.toList.filter fun conn => (ageConn conn).isNone).countP
        fun conn => conn.sock = some addr) = s.refs addr := by
    intro addr
    have hsplit := HTable.count_split (h := s.connHtable) (p := fun conn => conn.sock = some addr)
      fun conn => (ageConn conn).isNone
    have hkept : s.gazelleDeleteAgingConn.refs addr = s.connHtable.count fun conn =>
        decide (conn.sock = some addr) && !(ageConn conn).isNone := by
      rw [refs, LtranTables.gazelleDeleteAgingConn, hconns, HTable.count_filterMap]
      refine HTable.count_congr fun conn _ => ?_
      unfold ageConn
      split_ifs <;> simp
    rw [hkept, List.countP_filter, refs, hsplit, Nat.add_comm]
    rfl
  refine h.map hsocks (fun _ => rfl) ?_ ?_ ?_
  · intro t ht
    have hnum := h.referential.tcpConNum t ht
    have hsum := hrefs t.addr
    have hlt := refs_lt h.counted t.addr
    rw [BitVec.toNat_sub_of_le, BitVec.toNat_ofNat, Nat.mod_eq_of_lt (by omega)]
    · omega
    · rw [BitVec.le_def, BitVec.toNat_ofNat, Nat.mod_eq_of_lt (by omega)]
      omega
  · intro addr hpos
    have hbefore : 0 < s.refs addr := by
      rw [← hrefs addr]
      exact Nat.add_pos_left hpos _
    obtain ⟨conn, hconn, hsock⟩ := refs_pos.1 hbefore
    exact h.referential.sock conn hconn addr hsock
  · rw [LtranTables.gazelleDeleteAgingConn, hconns]
    exact h.counted.filterMap _

/-- The scan of the connections keeps the invariant when those that are off have no listener. -/
theorem TablesInv.gazelleDetectConnLogout (h : s.TablesInv)
    (hoff : ∀ conn ∈ s.connHtable.toList, ¬ s.connIsOn conn → conn.sock = none) :
    s.gazelleDetectConnLogout.TablesInv := by
  refine h.of_refs_eq rfl (fun addr => ?_) (h.counted.filterMap _)
  rw [refs, LtranTables.gazelleDetectConnLogout, HTable.count_filterMap]
  refine HTable.count_congr fun conn hconn => ?_
  by_cases hon : s.connIsOn conn
  · simp [hon]
  · simp [hon, hoff conn hconn hon]

/-- If everything is right after a scan of the connections, those that are off had no listener. -/
theorem TablesInv.off_conn_sock (h : s.TablesInv) (h' : s.gazelleDetectConnLogout.Referential)
    {conn : GazelleTcpConn} (hconn : conn ∈ s.connHtable.toList) (hoff : ¬ s.connIsOn conn) :
    conn.sock = none := by
  by_contra hsome
  obtain ⟨addr, haddr⟩ := Option.ne_none_iff_exists'.1 hsome
  obtain ⟨sock, hmem, rfl⟩ := h.referential.sock conn hconn addr haddr
  have hbefore := h.referential.tcpConNum sock hmem
  have hafter := h'.tcpConNum sock hmem
  have hsplit := HTable.count_split (h := s.connHtable)
    (p := fun conn => conn.sock = some sock.addr) fun conn => s.connIsOn conn
  have hkept : s.gazelleDetectConnLogout.refs sock.addr = s.connHtable.count fun conn =>
      decide (conn.sock = some sock.addr) && s.connIsOn conn := by
    rw [refs, LtranTables.gazelleDetectConnLogout, HTable.count_filterMap]
    refine HTable.count_congr fun conn _ => ?_
    by_cases hon : s.connIsOn conn <;> simp [hon]
  have hgone : 0 < s.connHtable.count fun conn =>
      decide (conn.sock = some sock.addr) && !s.connIsOn conn :=
    HTable.count_pos.2 ⟨conn, hconn, by simp [haddr, hoff]⟩
  rw [refs] at hbefore
  omega

/-- The scan of the listeners keeps the invariant when those that are off have no connections. -/
theorem TablesInv.gazelleDetectSockLogout (h : s.TablesInv)
    (hoff : ∀ sock ∈ s.sockHtable.toList, ¬ s.sockIsOn sock → sock.tcpConNum = 0) :
    s.gazelleDetectSockLogout.TablesInv := by
  have hmem : ∀ sock, sock ∈ s.gazelleDetectSockLogout.sockHtable.toList ↔
      sock ∈ s.sockHtable.toList ∧ s.sockIsOn sock := by
    intro sock
    rw [LtranTables.gazelleDetectSockLogout, HTable.mem_filterMap]
    simp
  refine h.remove rfl (fun sock hsock => ((hmem sock).1 hsock).1) (fun p => ?_)
    fun sock hsock hgone => hoff sock hsock fun hon => hgone ((hmem sock).2 ⟨hsock, hon⟩)
  rw [LtranTables.gazelleDetectSockLogout, HTable.count_filterMap]
  refine HTable.count_le_count fun sock _ hp => ?_
  by_cases hon : s.sockIsOn sock <;> simp_all

/-- The closing of a listener keeps the invariant when it has no connections. -/
theorem TablesInv.gazelleSockDelByIpporttid (h : s.TablesInv) {ip : Ipv4} {port : Port}
    (hold : ∀ sock, (s.sockHtable.chain (gazelleHbucketGetByIpport hash ip port)).find?
      (fun sock => sock.tid = tid) = some sock → sock.tcpConNum = 0) :
    (s.gazelleSockDelByIpporttid hash ip port tid).TablesInv := by
  cases hfind : (s.sockHtable.chain (gazelleHbucketGetByIpport hash ip port)).find?
      (fun sock => sock.tid = tid) with
  | none => rwa [LtranTables.gazelleSockDelByIpporttid, HTable.eraseFirst_of_none hfind]
  | some sock =>
    have hcount := fun p => HTable.count_eraseFirst (p := p) hfind
    refine h.remove rfl (fun _ => HTable.mem_of_mem_eraseFirst) (fun p => ?_) ?_
    · rw [← hcount p]
      exact Nat.le_add_right _ _
    · intro t ht hgone
      -- what is gone is the entry that was found
      have heq : sock = t := by
        by_contra hne
        have hbefore : 0 < s.sockHtable.count fun u => u = t :=
          HTable.count_pos.2 ⟨t, ht, by simp⟩
        have hafter := hcount fun u => u = t
        rw [if_neg (by simpa using hne), Nat.add_zero] at hafter
        rw [← hafter] at hbefore
        obtain ⟨u, hu, hut⟩ := HTable.count_pos.1 hbefore
        exact hgone (of_decide_eq_true hut ▸ hu)
      exact heq ▸ hold sock hfind

/-- The entry that the closing of a listener takes out is no longer there. -/
theorem TablesInv.addr_ne_of_del (h : s.TablesInv) {ip : Ipv4} {port : Port}
    {sock : GazelleTcpSock}
    (hfind : (s.sockHtable.chain (gazelleHbucketGetByIpport hash ip port)).find?
      (fun sock => sock.tid = tid) = some sock) :
    ∀ t ∈ (s.gazelleSockDelByIpporttid hash ip port tid).sockHtable.toList,
      t.addr ≠ sock.addr := by
  intro t ht haddr
  have hcount := HTable.count_eraseFirst (p := fun t => t.addr = sock.addr) hfind
  have hpos : 0 < (s.gazelleSockDelByIpporttid hash ip port tid).sockHtable.count
      fun t => t.addr = sock.addr := HTable.count_pos.2 ⟨t, ht, by simpa using haddr⟩
  have hunique := h.unique sock.addr
  simp only [decide_true, if_true] at hcount
  rw [← hcount] at hunique
  exact absurd hpos (by simpa [LtranTables.gazelleSockDelByIpporttid] using hunique)

/-- A write to a listener that keeps its count. -/
theorem TablesInv.modifySock (h : s.TablesInv) (a : ℕ) {f : GazelleTcpSock → GazelleTcpSock}
    (haddr : ∀ sock, (f sock).addr = sock.addr)
    (hnum : ∀ sock, (f sock).tcpConNum = sock.tcpConNum) : (s.modifySock a f).TablesInv := by
  refine h.map rfl (fun sock => ?_) (fun sock hmem => ?_) (fun addr hpos => ?_) h.counted
  · split
    · exact haddr sock
    · rfl
  · refine Eq.trans ?_ (h.referential.tcpConNum sock hmem)
    split
    · rw [hnum]
    · rfl
  · obtain ⟨conn, hconn, hsock⟩ := refs_pos.1 hpos
    exact h.referential.sock conn hconn addr hsock

section Listen

variable {ip : Ipv4} {port : Port} {b : Fin gazelleMaxTcpSockHtableSize}

/-- `gazelle_sock_add_by_ipporttid` changes nothing, or it allocates a listener. -/
theorem sockAdd_cases {found : Option ℕ}
    (h : s.gazelleSockAddByIpporttid hash ip port tid alloc = (s', found)) :
    s' = s ∨ ∃ a, alloc = some a ∧ found = some a ∧
      (∀ sock ∈ s.sockHtable.chain (gazelleHbucketGetByIpport hash ip port),
        ¬ (sock.tid = tid ∧ s.sockIsOn sock)) ∧
      s.sockHtable.curNum ≠ s.sockHtable.maxNum ∧
      s' = { s with
        sockHtable := s.sockHtable.insertHead (gazelleHbucketGetByIpport hash ip port)
          (newSock a ip port tid) }.recoverSockInfoFromConn (newSock a ip port tid) := by
  simp only [gazelleSockAddByIpporttid] at h
  split at h
  · cases h
    exact .inl rfl
  · rename_i hfind
    split at h
    · cases h
      exact .inl rfl
    · rename_i hroom
      split at h
      · cases h
        exact .inl rfl
      · rename_i a
        cases h
        refine .inr ⟨a, rfl, rfl, fun sock hsock => ?_, hroom, rfl⟩
        simpa using List.find?_eq_none.1 hfind sock hsock

/-- A listener that nothing refers to yet. -/
theorem TablesInv.insertSock (h : s.TablesInv)
    (hfresh : ∀ sock ∈ s.sockHtable.toList, sock.addr ≠ a) :
    TablesInv { s with sockHtable := s.sockHtable.insertHead b (newSock a ip port tid) } := by
  refine ⟨⟨?_, ?_⟩, fun addr => ?_, h.counted⟩
  · intro conn hconn addr hsock
    obtain ⟨sock, hmem, haddr⟩ := h.referential.sock conn hconn addr hsock
    exact ⟨sock, HTable.mem_insertHead.2 (.inr hmem), haddr⟩
  · intro sock hmem
    rcases HTable.mem_insertHead.1 hmem with rfl | hmem
    · exact (h.referential.refs_fresh hfresh).symm
    · exact h.referential.tcpConNum sock hmem
  · rw [HTable.count_insertHead]
    by_cases haddr : a = addr
    · subst haddr
      have hzero : (s.sockHtable.count fun sock => sock.addr = a) = 0 :=
        HTable.count_eq_zero.2 fun sock hmem => by simpa using hfresh sock hmem
      rw [hzero]
      split <;> omega
    · have hne : (newSock a ip port tid).addr ≠ addr := haddr
      rw [if_neg fun hdecide => hne (of_decide_eq_true hdecide)]
      exact h.unique addr

/-- The references after a listener recovered its connections. -/
theorem refs_recover {sock : GazelleTcpSock} :
    (s.recoverSockInfoFromConn sock).refs addr = s.refs addr + if sock.addr = addr then
      s.connHtable.count fun conn => matchesSock sock conn && conn.sock.isNone else 0 := by
  have hrefs : (s.recoverSockInfoFromConn sock).refs addr = s.connHtable.count fun conn =>
      decide ((if matchesSock sock conn && conn.sock.isNone then
        { conn with sock := some sock.addr } else conn).sock = some addr) := by
    rw [refs, recoverSockInfoFromConn]
    exact HTable.count_map
  rw [hrefs]
  refine (HTable.count_split fun conn => matchesSock sock conn && conn.sock.isNone).trans ?_
  rw [Nat.add_comm]
  refine congrArg₂ (· + ·) ?_ ?_
  · -- those that have a listener keep it
    rw [refs]
    refine HTable.count_congr fun conn _ => ?_
    by_cases hnew : (matchesSock sock conn && conn.sock.isNone) = true
    · rw [Bool.and_eq_true, Option.isNone_iff_eq_none] at hnew
      simp [hnew.1, hnew.2]
    · simp [hnew]
  · split
    · rename_i haddr
      refine HTable.count_congr fun conn _ => ?_
      by_cases hnew : (matchesSock sock conn && conn.sock.isNone) = true <;> simp [hnew, haddr]
    · rename_i haddr
      refine HTable.count_eq_zero.2 fun conn _ => ?_
      by_cases hnew : (matchesSock sock conn && conn.sock.isNone) = true <;> simp [hnew, haddr]

/-- A new listener keeps the invariant when the connections it counts have no listener. -/
theorem TablesInv.recoverSockInfoFromConn (h : s.TablesInv) {sock : GazelleTcpSock}
    (hmem : sock ∈ s.sockHtable.toList) (hzero : s.refs sock.addr = 0)
    (hnone : ∀ conn ∈ s.connHtable.toList, matchesSock sock conn → conn.sock = none) :
    (s.recoverSockInfoFromConn sock).TablesInv := by
  have hall : (s.connHtable.count fun conn => matchesSock sock conn && conn.sock.isNone) =
      s.connHtable.count (matchesSock sock) := by
    refine HTable.count_congr fun conn hconn => ?_
    by_cases hmatch : matchesSock sock conn
    · simp [hmatch, hnone conn hconn hmatch]
    · simp [hmatch]
  refine h.map (g := fun t => if t.addr = sock.addr then
    { t with tcpConNum := BitVec.ofNat 32 (s.connHtable.count (matchesSock sock)) } else t)
    rfl (fun t => by split <;> rfl) (fun t ht => ?_) (fun addr hpos => ?_) (h.counted.map _)
  · rw [refs_recover, hall]
    by_cases haddr : t.addr = sock.addr
    · have hlt := lt_of_le_of_lt (h.counted.count_le (p := matchesSock sock))
        s.connHtable.curNum.isLt
      rw [if_pos haddr, if_pos haddr.symm, haddr, hzero, BitVec.toNat_ofNat, Nat.mod_eq_of_lt hlt,
        Nat.zero_add]
    · rw [if_neg haddr, if_neg (Ne.symm haddr), Nat.add_zero]
      exact h.referential.tcpConNum t ht
  · by_cases haddr : sock.addr = addr
    · exact ⟨sock, hmem, haddr⟩
    · rw [refs_recover, if_neg haddr, Nat.add_zero] at hpos
      obtain ⟨conn, hconn, hsock⟩ := refs_pos.1 hpos
      exact h.referential.sock conn hconn addr hsock

/-- If everything is right after a listener was added, it took over every connection it counts. -/
theorem TablesInv.recovered_sock (h : s.TablesInv) {sock : GazelleTcpSock}
    {f : GazelleTcpSock → GazelleTcpSock} (haddr : ∀ t, (f t).addr = t.addr)
    (hnum : ∀ t, (f t).tcpConNum = t.tcpConNum) (hmem : sock ∈ s.sockHtable.toList)
    (hzero : s.refs sock.addr = 0)
    (h' : ((s.recoverSockInfoFromConn sock).modifySock sock.addr f).Referential)
    {conn : GazelleTcpConn} (hconn : conn ∈ s.connHtable.toList) (hmatch : matchesSock sock conn) :
    conn.sock = none := by
  have hlt := lt_of_le_of_lt (h.counted.count_le (p := matchesSock sock)) s.connHtable.curNum.isLt
  -- the listener as it is afterwards
  obtain ⟨t, ht, htaddr, htnum⟩ :
      ∃ t ∈ ((s.recoverSockInfoFromConn sock).modifySock sock.addr f).sockHtable.toList,
        t.addr = sock.addr ∧
          t.tcpConNum = BitVec.ofNat 32 (s.connHtable.count (matchesSock sock)) := by
    refine ⟨f { sock with
      tcpConNum := BitVec.ofNat 32 (s.connHtable.count (matchesSock sock)) }, ?_, haddr _, hnum _⟩
    rw [LtranTables.modifySock, HTable.toList_map, LtranTables.recoverSockInfoFromConn,
      LtranTables.modifySock, HTable.toList_map, List.map_map]
    refine List.mem_map.2 ⟨sock, hmem, ?_⟩
    simp
  have hcount := h'.tcpConNum t ht
  have hrefs : ((s.recoverSockInfoFromConn sock).modifySock sock.addr f).refs sock.addr =
      (s.recoverSockInfoFromConn sock).refs sock.addr := rfl
  rw [htnum, htaddr, hrefs, refs_recover, hzero, if_pos rfl, BitVec.toNat_ofNat,
    Nat.mod_eq_of_lt hlt, Nat.zero_add,
    HTable.count_split (p := matchesSock sock) fun conn => conn.sock.isNone] at hcount
  have hnever : (s.connHtable.count fun conn =>
      matchesSock sock conn && !conn.sock.isNone) = 0 := by omega
  have hone := HTable.count_eq_zero.1 hnever conn hconn
  simpa [hmatch] using hone

end Listen

variable {stack : GazelleStack} {msg : RegRingMsg}

/-- What a new listener needs, before and after its creation. -/
private theorem listen_facts (h : s.TablesInv) (hfresh : s.fresh (some a)) {ip : Ipv4} {port : Port}
    {b : Fin gazelleMaxTcpSockHtableSize} :
    TablesInv { s with sockHtable := s.sockHtable.insertHead b (newSock a ip port tid) } ∧
      newSock a ip port tid ∈ (s.sockHtable.insertHead b (newSock a ip port tid)).toList ∧
      s.refs (newSock a ip port tid).addr = 0 := by
  simp only [fresh, Bool.and_eq_true, List.all_eq_true, decide_eq_true_eq] at hfresh
  exact ⟨h.insertSock hfresh.1, HTable.mem_insertHead.2 (.inl rfl),
    h.referential.refs_fresh hfresh.1⟩

/-- A message that keeps the references keeps the invariant. -/
theorem TablesInv.tcpHashTableModify (h : s.TablesInv) (hfresh : s.fresh alloc)
    (hc : s.KeepsReferences hash (.message stack msg alloc)) :
    (s.tcpHashTableModify hash stack msg alloc).TablesInv := by
  simp only [KeepsReferences] at hc
  simp only [LtranTables.tcpHashTableModify]
  cases htype : msg.type with
  | tcpListen =>
    rw [htype] at hc
    have hadd : ∀ t found, s.gazelleSockAddByIpporttid hash (msgToQuintuple msg).dstIp
        (msgToQuintuple msg).dstPort msg.tid alloc = (t, found) → t.TablesInv := by
      intro t found hadd
      rcases sockAdd_cases hadd with rfl | ⟨a, rfl, -, hnone, hroom, rfl⟩
      · exact h
      · obtain ⟨hinsert, hmem, hzero⟩ := listen_facts h hfresh
        exact hinsert.recoverSockInfoFromConn hmem hzero (hc hnone hroom a rfl)
    simp only
    split
    · rename_i t hfound
      exact hadd _ _ hfound
    · rename_i t a hfound
      exact (hadd _ _ hfound).modifySock a (fun _ => rfl) fun _ => rfl
  | tcpListenClose =>
    rw [htype] at hc
    exact h.gazelleSockDelByIpporttid hc
  | tcpConnect =>
    rw [htype] at hc
    exact h.tcpHashTableAddConn stack hc
  | tcpConnectClose =>
    rw [htype] at hc
    exact h.tcpHashTableDelConn hc
  | unknown => exact h

/-- If everything is right after a message, it kept the references. -/
theorem TablesInv.keepsReferences_message (h : s.TablesInv) (hfresh : s.fresh alloc)
    (h' : (s.tcpHashTableModify hash stack msg alloc).Referential) :
    s.KeepsReferences hash (.message stack msg alloc) := by
  simp only [LtranTables.tcpHashTableModify] at h'
  simp only [KeepsReferences]
  cases htype : msg.type with
  | tcpListen =>
    rw [htype] at h'
    intro hnone hroom a halloc conn hconn hmatch
    subst halloc
    -- the new listener is linked at the head of its bucket
    have hadd : s.gazelleSockAddByIpporttid hash (msgToQuintuple msg).dstIp
        (msgToQuintuple msg).dstPort msg.tid (some a) =
      ({ s with
          sockHtable := s.sockHtable.insertHead (gazelleHbucketGetByIpport hash
            (msgToQuintuple msg).dstIp (msgToQuintuple msg).dstPort)
            (newSock a (msgToQuintuple msg).dstIp (msgToQuintuple msg).dstPort msg.tid)
        }.recoverSockInfoFromConn
          (newSock a (msgToQuintuple msg).dstIp (msgToQuintuple msg).dstPort msg.tid), some a) := by
      have hfind : (s.sockHtable.chain (gazelleHbucketGetByIpport hash
          (msgToQuintuple msg).dstIp (msgToQuintuple msg).dstPort)).find?
            (fun sock => sock.tid = msg.tid && s.sockIsOn sock) = none :=
        List.find?_eq_none.2 fun sock hsock => by simpa using hnone sock hsock
      simp only [gazelleSockAddByIpporttid, hfind, if_neg hroom]
    simp only [hadd] at h'
    obtain ⟨hinsert, hmem, hzero⟩ := listen_facts h hfresh
    -- it has no connections yet, so none may be recovered for it
    refine hinsert.recovered_sock (fun _ => ?_) (fun _ => ?_) hmem hzero h' hconn hmatch <;> rfl
  | tcpListenClose =>
    rw [htype] at h'
    intro sock hfind
    exact h.tcpConNum_eq_zero h' rfl (HTable.mem_of_find? hfind) (h.addr_ne_of_del hfind)
  | tcpConnect =>
    rw [htype] at h'
    exact fun conn old hget htimeout hfirst => h.replaced_sock h' hget htimeout hfirst
  | tcpConnectClose =>
    rw [htype] at h'
    exact fun conn old hget hfirst => h.closed_sock h' hget hfirst
  | unknown => trivial

/-- A step that keeps the references keeps the invariant. -/
theorem TablesInv.step {act : TablesAction} (h : s.TablesInv) (hc : s.KeepsReferences hash act)
    (hstep : s.step hash act = some s') : s'.TablesInv := by
  cases act with
  | packet q malloc =>
    simp only [LtranTables.step, Option.ite_none_right_eq_some, Option.some.injEq] at hstep
    obtain ⟨hfresh, rfl⟩ := hstep
    exact h.tcpHandle hfresh
  | message stack msg alloc =>
    simp only [LtranTables.step, Option.ite_none_right_eq_some, Option.some.injEq] at hstep
    obtain ⟨hfresh, rfl⟩ := hstep
    exact h.tcpHashTableModify hfresh hc
  | deleteAgingConn locked =>
    cases locked <;> obtain rfl := Option.some.inj hstep
    · exact h
    · exact h.gazelleDeleteAgingConn
  | detectConnLogout locked =>
    cases locked <;> obtain rfl := Option.some.inj hstep
    · exact h
    · exact h.gazelleDetectConnLogout hc
  | detectSockLogout locked =>
    cases locked <;> obtain rfl := Option.some.inj hstep
    · exact h
    · exact h.gazelleDetectSockLogout hc
  | instanceTick i =>
    cases hstep
    exact h.of_refs_eq rfl (fun _ => rfl) h.counted

/-- If everything is right after a step, it kept the references. -/
theorem TablesInv.keepsReferences {act : TablesAction} (h : s.TablesInv) (h' : s'.Referential)
    (hstep : s.step hash act = some s') : s.KeepsReferences hash act := by
  cases act with
  | message stack msg alloc =>
    simp only [LtranTables.step, Option.ite_none_right_eq_some, Option.some.injEq] at hstep
    obtain ⟨hfresh, rfl⟩ := hstep
    exact h.keepsReferences_message hfresh h'
  | detectConnLogout locked =>
    cases locked <;> obtain rfl := Option.some.inj hstep
    · trivial
    · exact fun conn hconn hoff => h.off_conn_sock h' hconn hoff
  | detectSockLogout locked =>
    cases locked <;> obtain rfl := Option.some.inj hstep
    · trivial
    · intro sock hmem hoff
      refine h.tcpConNum_eq_zero h' rfl hmem fun t ht haddr => ?_
      -- a listener that is left is on, so it is another one with the same address
      obtain ⟨u, hu, heq⟩ := HTable.mem_filterMap.1 ht
      have hon : s.sockIsOn u ∧ u = t := by simpa using heq
      have hsame : u = sock := HTable.eq_of_count_le_one (h.unique sock.addr) hu hmem
        (by simpa [hon.2] using haddr) (by simp)
      exact hoff (hsame ▸ hon.1)
  | _ => trivial

end Steps

/-! ## Runs -/

/-- Empty tables satisfy the invariant. -/
theorem TablesInv.create (ticks : Fin gazelleMaxInstanceNum → Tick) (m n : BitVec 32) :
    (create ticks m n).TablesInv where
  referential := ⟨by simp [LtranTables.create], by simp [LtranTables.create]⟩
  unique addr := by simp [LtranTables.create]
  counted := .create n

/-- Along a run of ltran, every pointer to a listener is valid and every listener counts the
pointers to it exactly when all steps of the run keep the references. -/
theorem references_iff (maxSockNum maxConnNum : BitVec 32)
    (ticks : Fin gazelleMaxInstanceNum → Tick) (acts : List TablesAction) :
    (system hash maxSockNum maxConnNum).statesHold Referential
        (create ticks maxSockNum maxConnNum) acts ↔
      (system hash maxSockNum maxConnNum).stepsMeet (fun s act => s.KeepsReferences hash act)
        (create ticks maxSockNum maxConnNum) acts :=
  Transition.System.statesHold_iff_stepsMeet (J := TablesInv) (fun _ h => h.referential)
    (fun _ _ _ h hc hstep => h.step hc hstep)
    (fun _ _ _ h h' hstep => h.keepsReferences h' hstep) (.create ticks maxSockNum maxConnNum)

/-- All keys in one bucket. -/
private def exampleHash : LtranJhash := ⟨fun _ _ => 0, fun _ _ _ _ => 0⟩

/-- A stack of the first instance. -/
private def exampleStack : GazelleStack := ⟨1, 0, 7, some 0, 1⟩

/-- A listener of that stack as lwIP registers it. -/
private def exampleListen (type : RegRingType) (alloc : Option ℕ) : TablesAction :=
  .message exampleStack ⟨type, ⟨0, 80, 0, 0x0a01a8c0, 0⟩, 7⟩ alloc

/-- A client connects to a listener, which is then closed. -/
private def closedListenerRun : List TablesAction :=
  [.instanceTick 0, exampleListen .tcpListen (some 100),
    .packet ⟨0, 5000, 80, 0x0b01a8c0, 0x0a01a8c0⟩ (some 200), exampleListen .tcpListenClose none]

/-- The connection of a closed listener points to freed memory. -/
theorem references_fail :
    ¬ ∀ s, (system exampleHash 4096 2816000).Reachable s → s.Referential := by
  intro hclaim
  have hrun : ((system exampleHash 4096 2816000).run (create (fun _ => 0) 4096 2816000)
      closedListenerRun).map (fun s => ((s.connHtable.chain 0).map (·.sock), s.sockHtable.toList)) =
        some ([some 100], []) := by
    decide +kernel
  obtain ⟨s, hs, hfacts⟩ := Option.map_eq_some_iff.1 hrun
  obtain ⟨hconn, hsocks⟩ := Prod.mk.inj hfacts
  have hreach : (system exampleHash 4096 2816000).Reachable s :=
    Transition.System.reachable_of_run (.init ⟨fun _ => 0, rfl⟩) hs
  obtain ⟨conn, hmem, hsock⟩ := List.mem_map.1 (hconn ▸ List.mem_singleton.2 rfl)
  obtain ⟨sock, hsockMem, -⟩ :=
    (hclaim s hreach).sock conn (HTable.mem_toList.2 ⟨0, hmem⟩) 100 hsock
  rw [hsocks] at hsockMem
  cases hsockMem

end LtranTables

end Gazelle
