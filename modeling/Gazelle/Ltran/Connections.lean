import Gazelle.Ltran.Listeners

/-!
# The connection table of ltran as a map

The connections that are on, read as a map from quintuples. Entries of instances that went off stay
in the chains until a scan takes them out; `gazelle_conn_get_by_quintuple` passes over them and
`gazelle_conn_del_by_quintuple` does not. The table is a map all the same, because a connection that
is on comes before all others of its chain that have its quintuple.

* `LtranTables.ConnInv`: the invariant of all runs in which ticks turn nothing on again;
* `LtranTables.ConnStep`: what a step has to do to the map;
* `connection_table_refines`: the table is the map, and its functions read and change it.
-/

namespace Gazelle

namespace LtranTables

variable (hash : LtranJhash) (s : LtranTables)

/-- An instance that enters or leaves a slot turns nothing on that was off. -/
def RevivesNothing : TablesAction → Prop
  | .instanceTick i =>
    ∀ conn ∈ s.connHtable.toList,
      instanceIsOn (Function.update s.instanceCurTick i (s.instanceCurTick i + 1))
        conn.instanceCurTick conn.instanceRegTick → s.connIsOn conn
  | _ => True

/-- The connection table is a map, and listeners are in the chains of their keys. -/
structure ConnInv : Prop where
  /-- The connections that are on. -/
  conns : s.connHtable.LiveMap s.connIsOn GazelleTcpConn.quintuple GazelleTcpConn.addr
    (gazelleConnHbucketGet hash)
  /-- The listeners. -/
  socks : s.sockHtable.InBucket (sockBucket hash) GazelleTcpSock.key

/-- What a client that connects has in the map afterwards, if it had nothing before. -/
def clientEntry (stack : GazelleStack) (q : GazelleQuintuple) (tid : Tid) (malloc : Option ℕ) :
    Option GazelleTcpConn :=
  match (s.gazelleConnAddByQuintuple hash q malloc).2 with
  | none => none
  | some addr =>
    let conn := clientConn stack tid (newConn addr q)
    if s.connIsOn conn then some conn else none

/-- What a step from `s` to `s'` has to do to the map. -/
def ConnStep (s s' : LtranTables) : TablesAction → Prop
  | .packet q malloc =>
    match s.gazelleConnGetByQuintuple hash (packetQuintuple q), (s.tcpHandle hash q malloc).2 with
    | none, some stack => ∃ conn : GazelleTcpConn, conn.stack = stack ∧
        conn.connTimeout = gazelleConnTimeout ∧
        s'.gazelleConnGetByQuintuple hash =
          Function.update (s.gazelleConnGetByQuintuple hash) (packetQuintuple q) (some conn)
    | _, _ => s'.gazelleConnGetByQuintuple hash = s.gazelleConnGetByQuintuple hash
  | .message stack msg alloc =>
    let q := msgToQuintuple msg
    match msg.type with
    | .tcpListen => ∃ sock : GazelleTcpConn → Option ℕ, s'.gazelleConnGetByQuintuple hash = fun q =>
        (s.gazelleConnGetByQuintuple hash q).map fun conn => { conn with sock := sock conn }
    | .tcpConnect =>
      s'.gazelleConnGetByQuintuple hash = Function.update (s.gazelleConnGetByQuintuple hash) q
        (match s.gazelleConnGetByQuintuple hash q with
          | some conn =>
            if 0 ≤ conn.connTimeout.toInt then some { conn with connTimeout := -1 }
            else (s.gazelleConnDelByQuintuple hash q).clientEntry hash stack q msg.tid alloc
          | none => s.clientEntry hash stack q msg.tid alloc)
    | .tcpConnectClose => s'.gazelleConnGetByQuintuple hash =
        Function.update (s.gazelleConnGetByQuintuple hash) q none
    | .tcpListenClose | .unknown =>
      s'.gazelleConnGetByQuintuple hash = s.gazelleConnGetByQuintuple hash
  | .deleteAgingConn locked => s'.gazelleConnGetByQuintuple hash =
      if locked then fun q => (s.gazelleConnGetByQuintuple hash q).bind ageConn
      else s.gazelleConnGetByQuintuple hash
  | .detectConnLogout _ | .detectSockLogout _ =>
    s'.gazelleConnGetByQuintuple hash = s.gazelleConnGetByQuintuple hash
  | .instanceTick _ => s'.gazelleConnGetByQuintuple hash = fun q =>
      (s.gazelleConnGetByQuintuple hash q).filter s'.connIsOn

variable {hash} {s} {s' : LtranTables} {q : GazelleQuintuple}

/-! ## The functions of the table -/

/-- `gazelle_conn_get_by_quintuple` returns the connection that is on. -/
theorem ConnInv.connGet_eq_some (h : s.ConnInv hash) {conn : GazelleTcpConn} :
    s.gazelleConnGetByQuintuple hash q = some conn ↔
      conn ∈ s.connHtable.toList ∧ s.connIsOn conn ∧ conn.quintuple = q :=
  h.conns.lookup_eq_some

/-- `gazelle_conn_get_by_quintuple` returns `NULL` when no connection is on. -/
theorem ConnInv.connGet_eq_none (h : s.ConnInv hash) :
    s.gazelleConnGetByQuintuple hash q = none ↔
      ∀ conn ∈ s.connHtable.toList, s.connIsOn conn → conn.quintuple ≠ q :=
  HTable.lookup_eq_none h.conns.inBucket

/-- At most one connection with a quintuple is on. -/
theorem ConnInv.count_le_one (h : s.ConnInv hash) (q : GazelleQuintuple) :
    (s.connHtable.count fun conn => s.connIsOn conn && conn.quintuple = q) ≤ 1 := by
  by_contra hmany
  obtain ⟨conn, hconn, hp⟩ := HTable.count_pos.1 (show 0 < s.connHtable.count fun conn =>
    s.connIsOn conn && conn.quintuple = q by omega)
  simp only [Bool.and_eq_true, decide_eq_true_eq] at hp
  refine hmany ((HTable.count_le_count fun t ht hpt => ?_).trans (h.conns.unique conn.addr))
  simp only [Bool.and_eq_true, decide_eq_true_eq] at hpt ⊢
  rw [h.conns.liveFirst.unique h.conns.inBucket ht hconn hpt.1 hp.1 (hpt.2.trans hp.2.symm)]

/-- The connection that was found is the one that `gazelle_conn_del_by_quintuple` meets. -/
theorem ConnInv.firstConn_of_get (h : s.ConnInv hash) {conn : GazelleTcpConn}
    (hget : s.gazelleConnGetByQuintuple hash q = some conn) : s.firstConn hash q = some conn := by
  obtain ⟨hmem, hon, rfl⟩ := h.connGet_eq_some.1 hget
  obtain ⟨b, hb⟩ := HTable.mem_toList.1 hmem
  obtain rfl : gazelleConnHbucketGet hash conn.quintuple = b := h.conns.inBucket b conn hb
  exact h.conns.liveFirst.find?_key hb hon

/-- `gazelle_conn_del_by_quintuple` takes out the connection that was found. -/
theorem ConnInv.mem_connDel (h : s.ConnInv hash) {conn : GazelleTcpConn}
    (hget : s.gazelleConnGetByQuintuple hash q = some conn) (t : GazelleTcpConn) :
    t ∈ (s.gazelleConnDelByQuintuple hash q).connHtable.toList ↔
      t ∈ s.connHtable.toList ∧ t ≠ conn :=
  HTable.mem_eraseFirst (h.firstConn_of_get hget) (h.conns.once conn)

theorem ConnInv.connDel (h : s.ConnInv hash) : (s.gazelleConnDelByQuintuple hash q).ConnInv hash :=
  ⟨h.conns.eraseFirst, h.socks⟩

/-- The map after a deletion. -/
theorem ConnInv.get_connDel (h : s.ConnInv hash) {conn : GazelleTcpConn}
    (hget : s.gazelleConnGetByQuintuple hash q = some conn) :
    (s.gazelleConnDelByQuintuple hash q).gazelleConnGetByQuintuple hash =
      Function.update (s.gazelleConnGetByQuintuple hash) q none := by
  obtain rfl : conn.quintuple = q := (h.connGet_eq_some.1 hget).2.2
  exact h.conns.lookup_eraseFirst (fun t hsame => decide_eq_true hsame) (h.firstConn_of_get hget)

/-- Writes to a connection that was just allocated. -/
theorem modifyConn_newConn {a : ℕ} {f : GazelleTcpConn → GazelleTcpConn}
    {b : Fin gazelleMaxConnHtableSize} (hfresh : ∀ conn ∈ s.connHtable.toList, conn.addr ≠ a) :
    LtranTables.modifyConn { s with connHtable := s.connHtable.insertHead b (newConn a q) } a f =
      { s with connHtable := s.connHtable.insertHead b (f (newConn a q)) } := by
  have haddr : (newConn a q).addr = a := rfl
  have hskip : (s.connHtable.map fun conn => if conn.addr = a then f conn else conn) =
      s.connHtable := HTable.map_eq_self fun conn hconn => if_neg (hfresh conn hconn)
  simp only [modifyConn, HTable.map_insertHead, haddr, if_true, hskip]

section Add

variable {malloc : Option ℕ}

/-- The memory of `rte_malloc` is not that of a connection. -/
theorem fresh_conn {a : ℕ} (hfresh : s.fresh (some a)) :
    ∀ conn ∈ s.connHtable.toList, conn.addr ≠ a := by
  simp only [fresh, Bool.and_eq_true, List.all_eq_true, decide_eq_true_eq] at hfresh
  exact hfresh.2

variable (hash s q malloc) in
/-- `gazelle_conn_add_by_quintuple` of a quintuple that has no connection. -/
theorem connAdd_of_none (hget : s.gazelleConnGetByQuintuple hash q = none) :
    s.gazelleConnAddByQuintuple hash q malloc = (s, none) ∨
      ∃ a, malloc = some a ∧ s.connHtable.curNum ≠ s.connHtable.maxNum ∧
        s.gazelleConnAddByQuintuple hash q malloc =
          ({ s with
              connHtable := s.connHtable.insertHead (gazelleConnHbucketGet hash q) (newConn a q) },
            some a) := by
  by_cases hfull : s.connHtable.curNum = s.connHtable.maxNum
  · exact .inl (by simp only [gazelleConnAddByQuintuple, hget, if_pos hfull])
  cases malloc with
  | none => exact .inl (by simp only [gazelleConnAddByQuintuple, hget, if_neg hfull])
  | some a =>
    exact .inr ⟨a, rfl, hfull, by simp only [gazelleConnAddByQuintuple, hget, if_neg hfull]⟩

/-- A connection is put into the table when its quintuple has none. -/
theorem ConnInv.insert (h : s.ConnInv hash) (conn : GazelleTcpConn)
    (hget : s.gazelleConnGetByQuintuple hash conn.quintuple = none)
    (hfresh : ∀ t ∈ s.connHtable.toList, t.addr ≠ conn.addr)
    (hroom : s.connHtable.curNum ≠ s.connHtable.maxNum) :
    ConnInv hash { s with
        connHtable :=
          s.connHtable.insertHead (gazelleConnHbucketGet hash conn.quintuple) conn } ∧
      gazelleConnGetByQuintuple hash { s with
          connHtable :=
            s.connHtable.insertHead (gazelleConnHbucketGet hash conn.quintuple) conn } =
        Function.update (s.gazelleConnGetByQuintuple hash) conn.quintuple
          (if s.connIsOn conn then some conn else none) :=
  ⟨⟨h.conns.insertHead hfresh hroom (h.connGet_eq_none.1 hget), h.socks⟩,
    h.conns.lookup_insertHead hfresh hroom (h.connGet_eq_none.1 hget)⟩

/-- A connection that `gazelle_conn_add_by_quintuple` returns is in the table under its quintuple,
and it is found once its caller has turned it on. -/
theorem ConnInv.connAdd (h : s.ConnInv hash) (hfresh : s.fresh malloc) {addr : ℕ}
    (hadd : (s.gazelleConnAddByQuintuple hash q malloc).2 = some addr) :
    ∃ conn ∈ (s.gazelleConnAddByQuintuple hash q malloc).1.connHtable.toList,
      conn.addr = addr ∧ conn.quintuple = q ∧
      ∀ f : GazelleTcpConn → GazelleTcpConn,
        (∀ t, (f t).addr = t.addr ∧ (f t).quintuple = t.quintuple) → s.connIsOn (f conn) →
        ((s.gazelleConnAddByQuintuple hash q malloc).1.modifyConn addr f).gazelleConnGetByQuintuple
          hash = Function.update (s.gazelleConnGetByQuintuple hash) q (some (f conn)) := by
  cases hget : s.gazelleConnGetByQuintuple hash q with
  | some conn =>
    -- a connection that is on is returned as it is
    have hsame : s.gazelleConnAddByQuintuple hash q malloc = (s, some conn.addr) := by
      simp only [gazelleConnAddByQuintuple, hget]
    rw [hsame] at hadd ⊢
    obtain rfl := Option.some.inj hadd
    obtain ⟨hmem, hon, rfl⟩ := h.connGet_eq_some.1 hget
    -- and its caller writes to it
    refine ⟨conn, hmem, rfl, rfl, fun f hf hlive => ?_⟩
    refine (h.conns.lookup_write hmem hon (fun t => (hf t).1) fun t => (hf t).2).trans ?_
    rw [if_pos hlive]
    rfl
  | none =>
    rcases connAdd_of_none hash s q malloc hget with hnone | ⟨a, rfl, hroom, hnew⟩
    · rw [hnone] at hadd
      cases hadd
    rw [hnew] at hadd ⊢
    obtain rfl := Option.some.inj hadd
    -- the new connection is the first of its bucket, so it is found before all others
    refine ⟨newConn a q, HTable.mem_insertHead.2 (.inl rfl), rfl, rfl, fun f hf hlive => ?_⟩
    have hquintuple : (f (newConn a q)).quintuple = q := (hf _).2
    have haddr : (f (newConn a q)).addr = a := (hf _).1
    have hins := h.insert (f (newConn a q)) (by rw [hquintuple]; exact hget)
      (by rw [haddr]; exact fresh_conn hfresh) hroom
    rw [hquintuple, if_pos hlive] at hins
    rw [modifyConn_newConn (fresh_conn hfresh)]
    exact hins.2

variable (q malloc) in
/-- The connection of a client whose quintuple has none. -/
theorem ConnInv.addClientConn (h : s.ConnInv hash) (stack : GazelleStack) (tid : Tid)
    (hfresh : s.fresh malloc) (hget : s.gazelleConnGetByQuintuple hash q = none) :
    (s.addClientConn hash stack q tid malloc).ConnInv hash ∧
      (s.addClientConn hash stack q tid malloc).gazelleConnGetByQuintuple hash =
        Function.update (s.gazelleConnGetByQuintuple hash) q
          (s.clientEntry hash stack q tid malloc) := by
  simp only [LtranTables.addClientConn, clientEntry]
  rcases connAdd_of_none hash s q malloc hget with hnone | ⟨a, rfl, hroom, hnew⟩
  · rw [hnone, ← hget, Function.update_eq_self]
    exact ⟨h, rfl⟩
  · rw [hnew]
    simp only [modifyConn_newConn (fresh_conn hfresh)]
    exact h.insert (clientConn stack tid (newConn a q)) hget (fresh_conn hfresh) hroom

end Add

/-! ## The steps -/

section Steps

variable {malloc : Option ℕ}

/-- Writes to listeners do not touch the map. -/
theorem ConnInv.modifySock (h : s.ConnInv hash) (addr : ℕ) {f : GazelleTcpSock → GazelleTcpSock}
    (hkey : ∀ sock, (f sock).key = sock.key) : (s.modifySock addr f).ConnInv hash :=
  ⟨h.conns, h.socks.map fun sock => by
    split
    · exact hkey sock
    · rfl⟩

/-- A packet keeps the invariant and adds a connection at most. -/
theorem ConnInv.tcpHandle (h : s.ConnInv hash) (hfresh : s.fresh malloc) :
    (s.tcpHandle hash q malloc).1.ConnInv hash ∧
      ConnStep hash s (s.tcpHandle hash q malloc).1 (.packet q malloc) := by
  simp only [ConnStep]
  rcases tcpHandle_cases hash s q malloc with ⟨conn, hget, heq⟩ | ⟨hget, ⟨-, heq⟩ |
    ⟨sock, hmin, ⟨-, heq⟩ | ⟨a, rfl, hroom, heq⟩⟩⟩
  · rw [heq, hget]
    exact ⟨h, rfl⟩
  · rw [heq, hget]
    exact ⟨h, rfl⟩
  · rw [heq, hget]
    exact ⟨h, rfl⟩
  · have hon : s.sockIsOn sock := (gazelleSockGetByMinConn_some h.socks hmin).1.2.1
    have hins := h.insert (acceptConn sock (newConn a (packetQuintuple q))) hget
      (fresh_conn hfresh) hroom
    rw [heq, hget]
    simp only [accepted, modifyConn_newConn (fresh_conn hfresh)]
    refine ⟨hins.1.modifySock sock.addr fun _ => rfl,
      acceptConn sock (newConn a (packetQuintuple q)), rfl, rfl, hins.2.trans ?_⟩
    rw [if_pos]
    · rfl
    · exact hon

/-- `REG_RING_TCP_CONNECT` keeps the invariant and changes the map at one quintuple. -/
theorem ConnInv.tcpHashTableAddConn (h : s.ConnInv hash) (stack : GazelleStack) (tid : Tid)
    (hfresh : s.fresh malloc) :
    (s.tcpHashTableAddConn hash stack q tid malloc).ConnInv hash ∧
      (s.tcpHashTableAddConn hash stack q tid malloc).gazelleConnGetByQuintuple hash =
        Function.update (s.gazelleConnGetByQuintuple hash) q
          (match s.gazelleConnGetByQuintuple hash q with
            | some conn =>
              if 0 ≤ conn.connTimeout.toInt then some { conn with connTimeout := -1 }
              else (s.gazelleConnDelByQuintuple hash q).clientEntry hash stack q tid malloc
            | none => s.clientEntry hash stack q tid malloc) := by
  cases hget : s.gazelleConnGetByQuintuple hash q with
  | none =>
    simp only [LtranTables.tcpHashTableAddConn, hget]
    exact h.addClientConn q malloc stack tid hfresh hget
  | some conn =>
    obtain ⟨hmem, hon, hkey⟩ := h.connGet_eq_some.1 hget
    simp only [LtranTables.tcpHashTableAddConn, hget]
    by_cases htimeout : 0 ≤ conn.connTimeout.toInt
    · -- the connection was accepted
      simp only [if_pos htimeout]
      subst hkey
      refine ⟨⟨h.conns.write hmem hon (fun _ => rfl) fun _ => rfl, h.socks⟩, ?_⟩
      refine (h.conns.lookup_write (f := fun conn => { conn with connTimeout := -1 }) hmem hon
        (fun _ => rfl) fun _ => rfl).trans ?_
      rw [if_pos]
      · rfl
      · exact hon
    · -- an old connection is replaced
      simp only [if_neg htimeout]
      have hgone :
          (s.gazelleConnDelByQuintuple hash q).gazelleConnGetByQuintuple hash q = none := by
        rw [h.get_connDel hget, Function.update_self]
      have hfresh' : (s.gazelleConnDelByQuintuple hash q).fresh malloc := by
        cases malloc with
        | none => rfl
        | some a =>
          simp only [fresh, Bool.and_eq_true, List.all_eq_true] at hfresh ⊢
          exact ⟨hfresh.1, fun t ht => hfresh.2 t (HTable.mem_of_mem_eraseFirst ht)⟩
      have hadd := h.connDel.addClientConn q malloc stack tid hfresh' hgone
      rw [h.get_connDel hget, Function.update_idem] at hadd
      exact hadd

/-- `REG_RING_TCP_CONNECT_CLOSE` keeps the invariant and clears the map at one quintuple. -/
theorem ConnInv.tcpHashTableDelConn (h : s.ConnInv hash) :
    (s.tcpHashTableDelConn hash q).ConnInv hash ∧
      (s.tcpHashTableDelConn hash q).gazelleConnGetByQuintuple hash =
        Function.update (s.gazelleConnGetByQuintuple hash) q none := by
  cases hget : s.gazelleConnGetByQuintuple hash q with
  | none =>
    simp only [LtranTables.tcpHashTableDelConn, hget]
    refine ⟨h, ?_⟩
    rw [← hget, Function.update_eq_self]
  | some conn =>
    simp only [LtranTables.tcpHashTableDelConn, hget]
    cases conn.sock with
    | none => exact ⟨h.connDel, h.get_connDel hget⟩
    | some addr =>
      -- the listener's count does not matter here
      have hsock : (s.modifySock addr fun t =>
          if 0 < t.tcpConNum.toNat then { t with tcpConNum := t.tcpConNum - 1 } else t).ConnInv
            hash := h.modifySock addr fun t => by split <;> rfl
      exact ⟨hsock.connDel, hsock.get_connDel hget⟩

/-- A message that registers a listener. -/
theorem tcpHashTableModify_listen (stack : GazelleStack) {msg : RegRingMsg}
    (htype : msg.type = .tcpListen) (alloc : Option ℕ) :
    s.tcpHashTableModify hash stack msg alloc = s.tcpHashTableModify hash stack
      (listenMsg ⟨msg.qtuple.srcIp, msg.qtuple.srcPort, msg.tid⟩) alloc := by
  simp only [tcpHashTableModify, htype, listenMsg, msgToQuintuple]

/-- `REG_RING_TCP_LISTEN` keeps the invariant and gives connections a listener at most. -/
theorem ConnInv.listen (h : s.ConnInv hash) (stack : GazelleStack) (k : SockKey)
    (hfresh : s.fresh malloc) :
    (s.tcpHashTableModify hash stack (listenMsg k) malloc).ConnInv hash ∧
      ∃ sock : GazelleTcpConn → Option ℕ,
        (s.tcpHashTableModify hash stack (listenMsg k) malloc).gazelleConnGetByQuintuple hash =
          fun q => (s.gazelleConnGetByQuintuple hash q).map fun conn =>
            { conn with sock := sock conn } := by
  rcases listen_cases hash s k stack malloc hfresh h.conns.counted with
    ⟨-, heq⟩ | ⟨sock, -, -, heq⟩ | ⟨addr, sock, -, hroom, -, -, -, rfl, -, -, f, hf, heq⟩
  · rw [heq]
    exact ⟨h, GazelleTcpConn.sock, funext fun q => Option.map_id'.symm⟩
  · rw [heq]
    exact ⟨h.modifySock sock.addr fun _ => rfl, GazelleTcpConn.sock,
      funext fun q => Option.map_id'.symm⟩
  · have hkeep : ∀ conn, (f conn).quintuple = conn.quintuple ∧ (f conn).addr = conn.addr :=
      fun conn => by rw [hf conn]; exact ⟨rfl, rfl⟩
    have hlive : ∀ conn, s.connIsOn (f conn) = s.connIsOn conn :=
      fun conn => by rw [hf conn]; rfl
    rw [heq]
    refine ⟨⟨h.conns.map hkeep fun conn _ hon => by rwa [← hlive conn], h.socks.insertHead⟩,
      fun conn => (f conn).sock, funext fun q => ?_⟩
    have hf' : f = fun conn => { conn with sock := (f conn).sock } := funext hf
    refine (h.conns.lookup_map hkeep hlive).trans ?_
    rw [hf']
    rfl

/-- A message keeps the invariant and does to the map what it should. -/
theorem ConnInv.tcpHashTableModify (h : s.ConnInv hash) (stack : GazelleStack) (msg : RegRingMsg)
    (hfresh : s.fresh malloc) :
    (s.tcpHashTableModify hash stack msg malloc).ConnInv hash ∧
      ConnStep hash s (s.tcpHashTableModify hash stack msg malloc) (.message stack msg malloc) := by
  simp only [ConnStep]
  cases htype : msg.type with
  | tcpListen =>
    rw [tcpHashTableModify_listen stack htype]
    exact h.listen stack _ hfresh
  | tcpListenClose =>
    simp only [LtranTables.tcpHashTableModify, htype]
    exact ⟨⟨h.conns, h.socks.eraseFirst⟩, rfl⟩
  | tcpConnect =>
    simp only [LtranTables.tcpHashTableModify, htype]
    exact h.tcpHashTableAddConn stack msg.tid hfresh
  | tcpConnectClose =>
    simp only [LtranTables.tcpHashTableModify, htype]
    exact h.tcpHashTableDelConn
  | unknown =>
    simp only [LtranTables.tcpHashTableModify, htype]
    exact ⟨h, trivial⟩

/-- The deletion of connections from the counts of their listeners does not touch the map. -/
theorem ConnInv.foldl_leaveSock (h : s.ConnInv hash) (conns : List GazelleTcpConn) :
    (conns.foldl leaveSock s).ConnInv hash ∧
      (conns.foldl leaveSock s).gazelleConnGetByQuintuple hash =
        s.gazelleConnGetByQuintuple hash := by
  induction conns generalizing s with
  | nil => exact ⟨h, rfl⟩
  | cons conn conns ih =>
    rw [List.foldl_cons]
    unfold leaveSock
    cases conn.sock with
    | none => exact ih h
    | some addr => exact ih (h.modifySock addr fun _ => rfl)

/-- Ageing keeps the invariant and applies to each connection of the map. -/
theorem ConnInv.gazelleDeleteAgingConn (h : s.ConnInv hash) :
    s.gazelleDeleteAgingConn.ConnInv hash ∧
      s.gazelleDeleteAgingConn.gazelleConnGetByQuintuple hash =
        fun q => (s.gazelleConnGetByQuintuple hash q).bind ageConn := by
  have hage : ∀ t u, ageConn t = some u → u = { t with connTimeout := u.connTimeout } := by
    intro t u hu
    unfold ageConn at hu
    split_ifs at hu <;> rw [← Option.some.inj hu]
  have hkeep : ∀ t u, ageConn t = some u → u.quintuple = t.quintuple ∧ u.addr = t.addr :=
    fun t u hu => by rw [hage t u hu]; exact ⟨rfl, rfl⟩
  have hlive : ∀ t u, ageConn t = some u → s.connIsOn u = s.connIsOn t :=
    fun t u hu => by rw [hage t u hu]; rfl
  have hinv : ConnInv hash { s with connHtable := s.connHtable.filterMap ageConn } :=
    ⟨h.conns.filterMap hkeep fun t _ u hu hon => by rwa [← hlive t u hu], h.socks⟩
  obtain ⟨h', hget⟩ := hinv.foldl_leaveSock
    (s.connHtable.toList.filter fun conn => (ageConn conn).isNone)
  exact ⟨h', hget.trans (funext fun q => h.conns.lookup_filterMap hkeep hlive)⟩

/-- A step that turns nothing on again keeps the invariant and does to the map what it should. -/
theorem ConnInv.step (h : s.ConnInv hash) {act : TablesAction} (hrevive : s.RevivesNothing act)
    (hstep : s.step hash act = some s') : s'.ConnInv hash ∧ ConnStep hash s s' act := by
  cases act with
  | packet q malloc =>
    simp only [LtranTables.step, Option.ite_none_right_eq_some, Option.some.injEq] at hstep
    obtain ⟨hfresh, rfl⟩ := hstep
    exact h.tcpHandle hfresh
  | message stack msg alloc =>
    simp only [LtranTables.step, Option.ite_none_right_eq_some, Option.some.injEq] at hstep
    obtain ⟨hfresh, rfl⟩ := hstep
    exact h.tcpHashTableModify stack msg hfresh
  | deleteAgingConn locked =>
    cases locked <;> obtain rfl := Option.some.inj hstep
    · exact ⟨h, rfl⟩
    · exact h.gazelleDeleteAgingConn
  | detectConnLogout locked =>
    cases locked <;> obtain rfl := Option.some.inj hstep
    · exact ⟨h, rfl⟩
    · exact ⟨⟨h.conns.purge, h.socks⟩, funext fun q => h.conns.lookup_purge⟩
  | detectSockLogout locked =>
    cases locked <;> obtain rfl := Option.some.inj hstep
    · exact ⟨h, rfl⟩
    · refine ⟨⟨h.conns, h.socks.filterMap fun t u hu => ?_⟩, rfl⟩
      split at hu
      · rw [Option.some.inj hu]
      · cases hu
  | instanceTick i =>
    obtain rfl := Option.some.inj hstep
    exact ⟨⟨h.conns.mono hrevive, h.socks⟩, funext fun q => h.conns.lookup_mono hrevive⟩

end Steps

/-! ## Runs -/

/-- The tables are empty at first. -/
theorem ConnInv.create (ticks : Fin gazelleMaxInstanceNum → Tick)
    (maxSockNum maxConnNum : BitVec 32) :
    (create ticks maxSockNum maxConnNum).ConnInv hash := ⟨.create, .create⟩

/-- The invariant of all runs in which ticks turn nothing on again. -/
theorem connInv_of_reachable {maxSockNum maxConnNum : BitVec 32}
    (hs : (system hash maxSockNum maxConnNum).ReachableUnder RevivesNothing s) :
    s.ConnInv hash := by
  refine Transition.System.invariant_under (I := fun s => s.ConnInv hash) ?_ ?_ hs
  · rintro _ ⟨ticks, rfl⟩
    exact .create ticks maxSockNum maxConnNum
  · intro _ _ _ ih hrevive hstep
    exact (ih.step hrevive hstep).1

/-- The connection table of ltran is a map from quintuples to the connections that are on, in every
run of packets, messages, scans and instances going off: at most one connection that is on has a
quintuple, and it comes before all others of its chain that have it;
`gazelle_conn_get_by_quintuple` returns it; `gazelle_conn_del_by_quintuple` takes out exactly what
was found; what `gazelle_conn_add_by_quintuple` returns is in the table and is found once it is
on; every step does to the map what it should; the counters are right and the limit is kept. -/
theorem connection_table_refines (maxSockNum maxConnNum : BitVec 32)
    (hs : (system hash maxSockNum maxConnNum).ReachableUnder RevivesNothing s) :
    s.connHtable.Counted ∧
      (∀ q, (s.connHtable.count fun conn => s.connIsOn conn && conn.quintuple = q) ≤ 1) ∧
      s.connHtable.LiveFirst s.connIsOn GazelleTcpConn.quintuple ∧
      (∀ q conn, s.gazelleConnGetByQuintuple hash q = some conn ↔
        conn ∈ s.connHtable.toList ∧ s.connIsOn conn ∧ conn.quintuple = q) ∧
      (∀ q conn, s.gazelleConnGetByQuintuple hash q = some conn →
        ∀ t, t ∈ (s.gazelleConnDelByQuintuple hash q).connHtable.toList ↔
          t ∈ s.connHtable.toList ∧ t ≠ conn) ∧
      (∀ q malloc addr, s.fresh malloc →
        (s.gazelleConnAddByQuintuple hash q malloc).2 = some addr →
        ∃ conn ∈ (s.gazelleConnAddByQuintuple hash q malloc).1.connHtable.toList,
          conn.addr = addr ∧ conn.quintuple = q ∧
          ∀ f : GazelleTcpConn → GazelleTcpConn,
            (∀ t, (f t).addr = t.addr ∧ (f t).quintuple = t.quintuple) → s.connIsOn (f conn) →
            ((s.gazelleConnAddByQuintuple hash q malloc).1.modifyConn addr
              f).gazelleConnGetByQuintuple hash =
                Function.update (s.gazelleConnGetByQuintuple hash) q (some (f conn))) ∧
      ∀ act s', s.RevivesNothing act → s.step hash act = some s' → ConnStep hash s s' act := by
  have h := connInv_of_reachable hs
  exact ⟨h.conns.counted, h.count_le_one, h.conns.liveFirst, fun _ _ => h.connGet_eq_some,
    fun _ _ => h.mem_connDel, fun _ _ _ hfresh hadd => h.connAdd hfresh hadd,
    fun _ _ hrevive hstep => (h.step hrevive hstep).2⟩

variable (hash) in
/-- A message is handled with memory that is not in use. -/
theorem step_message (stack : GazelleStack) (msg : RegRingMsg) {alloc : Option ℕ}
    (hfresh : s.fresh alloc = true) : s.step hash (.message stack msg alloc) =
      some (s.tcpHashTableModify hash stack msg alloc) := if_pos hfresh

/-- All connections in one chain. -/
private def oneChainHash : LtranJhash := ⟨fun _ _ => 0, fun _ _ _ _ => 0⟩

/-- Whether nothing comes on is seen by going through the connections. -/
instance (s : LtranTables) : (act : TablesAction) → Decidable (s.RevivesNothing act)
  | .instanceTick i =>
    inferInstanceAs (Decidable (∀ conn ∈ s.connHtable.toList,
      instanceIsOn (Function.update s.instanceCurTick i (s.instanceCurTick i + 1))
        conn.instanceCurTick conn.instanceRegTick → s.connIsOn conn))
  | .packet .. | .message .. | .deleteAgingConn _ | .detectConnLogout _ | .detectSockLogout _ =>
    isTrue trivial

/-- The message of a client that connects from a port. -/
private def connectMsg (port : Port) : RegRingMsg :=
  ⟨.tcpConnect, ⟨0, port, 80, 0x0a01a8c0, 0x0b01a8c0⟩, 7⟩

/-- No connections, with the first tick at `1`. -/
private def noConnections : LtranTables := create (fun _ => 1) 4096 gazelleMaxConnNum

private theorem noConnections_init :
    (system oneChainHash 4096 gazelleMaxConnNum).Init noConnections := ⟨fun _ => 1, rfl⟩

/-- Two clients of a stack that is on connect. -/
private def twoClients : List TablesAction :=
  [.message ⟨1, 0, 7, some ⟨0, gazelleMaxInstanceNum_pos⟩, 1⟩ (connectMsg 40000) (some 100),
    .message ⟨1, 0, 7, some ⟨0, gazelleMaxInstanceNum_pos⟩, 1⟩ (connectMsg 40001) (some 101)]

/-- The connections of two clients in one chain are found, and deleting one leaves the other. -/
theorem connection_table_refines_two :
    ∃ s, (system oneChainHash 4096 gazelleMaxConnNum).ReachableUnder RevivesNothing s ∧
      s.connHtable.toList.map GazelleTcpConn.addr = [101, 100] ∧
      (∀ port, port = 40000 ∨ port = 40001 →
        s.gazelleConnGetByQuintuple oneChainHash (msgToQuintuple (connectMsg port)) ≠ none) ∧
      ∀ conn, s.gazelleConnGetByQuintuple oneChainHash (msgToQuintuple (connectMsg 40000)) =
        some conn → ∀ t, t ∈ (s.gazelleConnDelByQuintuple oneChainHash
          (msgToQuintuple (connectMsg 40000))).connHtable.toList ↔
            t ∈ s.connHtable.toList ∧ t ≠ conn := by
  have hrun : ((system oneChainHash 4096 gazelleMaxConnNum).runUnder RevivesNothing noConnections
      twoClients).any (fun s => decide (s.connHtable.toList.map GazelleTcpConn.addr = [101, 100] ∧
        s.gazelleConnGetByQuintuple oneChainHash (msgToQuintuple (connectMsg 40000)) ≠ none ∧
        s.gazelleConnGetByQuintuple oneChainHash (msgToQuintuple (connectMsg 40001)) ≠ none)) =
          true := by
    decide +kernel
  obtain ⟨s, hs, hall⟩ := (Option.any_eq_true _ _).1 hrun
  obtain ⟨hconns, hfirst, hsecond⟩ := of_decide_eq_true hall
  have hreach := Transition.System.reachableUnder_of_runUnder (.init noConnections_init) hs
  have h := connection_table_refines 4096 gazelleMaxConnNum hreach
  refine ⟨s, hreach, hconns, ?_, fun _ => h.2.2.2.2.1 _ _⟩
  rintro port (rfl | rfl)
  · exact hfirst
  · exact hsecond

end LtranTables

end Gazelle
