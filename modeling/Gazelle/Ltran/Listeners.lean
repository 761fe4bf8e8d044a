import Gazelle.HashTable.LiveMap
import Gazelle.Ltran.References

/-!
# The listener table of ltran as a map

The listeners that are on, read as a map from address, port and thread. Adding a listener only
looks for its thread in the chain, and deleting one only for the thread, whether the listener is
on or not; so the table is a map as long as these are the listeners meant.

* `LtranTables.listenerSystem`: all orders of additions, deletions, scans and instances going off;
* `listener_table_refines`: in runs in which each listener found by its thread has the address
  and the port asked for, the table is the map and `gazelle_sock_get_by_min_conn` reads it;
* `listener_table_collides`: a second listener of a thread in the same chain is not added.
-/

namespace Gazelle

/-- `GAZELLE_MAX_CONN_NUM`. -/
def gazelleMaxConnNum : BitVec 32 := 128 * (20000 + 2000)

/-- The key of a listener. -/
structure SockKey where
  /-- The address it listens on. -/
  ip : Ipv4
  /-- The port it listens on. -/
  port : Port
  /-- The thread that listens. -/
  tid : Tid
  deriving DecidableEq

/-- The key of a listener of the table. -/
def GazelleTcpSock.key (sock : GazelleTcpSock) : SockKey := ⟨sock.ip, sock.port, sock.tid⟩

/-- A connection table with right counters and the limit that `main` gives it. -/
abbrev CountedConns := {conns : GazelleTcpConnHtable //
  conns.Counted ∧ conns.maxNum = gazelleMaxConnNum}

/-- What happens to the listener table. -/
inductive ListenerAction
  /-- A stack registers a listener: `gazelle_sock_add_by_ipporttid`, and then its ticks are set. -/
  | add (stack : GazelleStack) (k : SockKey) (calloc : Option ℕ)
  /-- `gazelle_sock_del_by_ipporttid`. -/
  | del (k : SockKey)
  /-- `gazelle_detect_sock_logout`, with what `pthread_mutex_trylock` says. -/
  | detectSockLogout (locked : Bool)
  /-- Instances go off; none that was off comes on. -/
  | instancesOff (ticks : Fin gazelleMaxInstanceNum → Tick)
  /-- The connection table becomes another one. -/
  | connections (conns : CountedConns)

namespace LtranTables

variable (hash : LtranJhash) (s : LtranTables)

/-- The message by which a listener is registered. -/
def listenMsg (k : SockKey) : RegRingMsg := ⟨.tcpListen, ⟨0, k.port, 0, k.ip, 0⟩, k.tid⟩

/-- One step of the listener table. -/
def listenerStep : ListenerAction → Option LtranTables
  | .add stack k calloc =>
    if s.fresh calloc then some (s.tcpHashTableModify hash stack (listenMsg k) calloc) else none
  | .del k => some (s.gazelleSockDelByIpporttid hash k.ip k.port k.tid)
  | .detectSockLogout locked => some (if locked then s.gazelleDetectSockLogout else s)
  | .instancesOff ticks =>
    if s.sockHtable.toList.all fun sock =>
        instanceIsOn ticks sock.instanceCurTick sock.instanceRegTick → s.sockIsOn sock then
      some { s with instanceCurTick := ticks }
    else none
  | .connections conns => some { s with connHtable := conns }

/-- All runs of the listener table, which is empty at first. -/
def listenerSystem (maxSockNum : BitVec 32) : Transition.System LtranTables ListenerAction where
  Init s := ∃ ticks, ∃ conns : CountedConns, s = ⟨ticks, .create maxSockNum, conns⟩
  step := listenerStep hash

/-- The chain of a key. -/
def sockBucket (k : SockKey) : Fin gazelleMaxTcpSockHtableSize :=
  gazelleHbucketGetByIpport hash k.ip k.port

/-- The table as a map: the listener with a key that is on. -/
def listener (k : SockKey) : Option GazelleTcpSock :=
  s.sockHtable.lookup s.sockIsOn GazelleTcpSock.key (sockBucket hash) k

/-- What the step looks for by the thread alone has the address and the port asked for. -/
def FindsKey : ListenerAction → Prop
  | .add _ k _ =>
    ∀ sock, (s.sockHtable.chain (sockBucket hash k)).find?
      (fun sock => sock.tid = k.tid && s.sockIsOn sock) = some sock → sock.key = k
  | .del k =>
    ∀ sock, (s.sockHtable.chain (sockBucket hash k)).find? (fun sock => sock.tid = k.tid) =
      some sock → sock.key = k
  | _ => True

/-- What a step from `s` to `s'` has to do to the map. -/
def MapStep (s s' : LtranTables) : ListenerAction → Prop
  | .add stack k calloc =>
    match (s.gazelleSockAddByIpporttid hash k.ip k.port k.tid calloc).2 with
    | none => s' = s
    | some addr => ∃ sock ∈ s'.sockHtable.toList, sock.addr = addr ∧ sock.key = k ∧
        sock.stack = some stack.addr ∧
        s'.listener hash = Function.update (s.listener hash) k
          (if instanceIsOn s.instanceCurTick stack.instanceCurTick stack.instanceRegTick then
            some sock
          else none)
  | .del k =>
    s'.listener hash = Function.update (s.listener hash) k none ∧
      (∀ sock, s.listener hash k = some sock →
        ∀ t, t ∈ s'.sockHtable.toList ↔ t ∈ s.sockHtable.toList ∧ t ≠ sock) ∧
      (∀ t, t.key ≠ k → (t ∈ s'.sockHtable.toList ↔ t ∈ s.sockHtable.toList)) ∧
      ((∀ t ∈ s.sockHtable.toList, t.key ≠ k) → s' = s)
  | .detectSockLogout _ => s'.listener hash = s.listener hash
  | .instancesOff _ => ∀ k, s'.listener hash k = (s.listener hash k).filter s'.sockIsOn
  | .connections _ => s'.listener hash = s.listener hash

/-- The listener is one of those that a packet to the address and port may go to. -/
def Eligible (ip : Ipv4) (port : Port) (sock : GazelleTcpSock) : Prop :=
  sock ∈ s.sockHtable.toList ∧ s.sockIsOn sock ∧ sock.ip = ip ∧ sock.port = port

/-- The invariant of runs that find what they look for. -/
structure ListenerInv : Prop where
  /-- The counters are right. -/
  counted : s.sockHtable.Counted
  /-- Listeners are in the chains of their keys. -/
  inBucket : s.sockHtable.InBucket (sockBucket hash) GazelleTcpSock.key
  /-- A listener that is on comes before the others with its key. -/
  liveFirst : s.sockHtable.LiveFirst s.sockIsOn GazelleTcpSock.key
  /-- Addresses are not used twice. -/
  unique : ∀ addr, (s.sockHtable.count fun sock => sock.addr = addr) ≤ 1
  /-- No listener has more connections than there may be. -/
  tcpConNum : ∀ sock ∈ s.sockHtable.toList, sock.tcpConNum ≤ gazelleMaxConnNum
  /-- The connection table is counted. -/
  conns : s.connHtable.Counted ∧ s.connHtable.maxNum = gazelleMaxConnNum

variable {hash} {s} {s' : LtranTables} {k : SockKey}

/-! ## The listener with the fewest connections -/

/-- What the loop of `gazelle_sock_get_by_min_conn` makes of the listeners `l`, starting with what
it has and its bound `acc`: nothing better, or one of them with the least number below the bound. -/
private structure FoundMin (s : LtranTables) (ip : Ipv4) (port : Port) (l : List GazelleTcpSock)
    (acc res : Option GazelleTcpSock × ℕ) : Prop where
  found : res = acc ∨ ∃ sock ∈ l, s.sockIsOn sock ∧ sock.ip = ip ∧ sock.port = port ∧
    sock.tcpConNum.toNat < acc.2 ∧ res = (some sock, sock.tcpConNum.toNat)
  le : res.2 ≤ acc.2
  least : ∀ t ∈ l, s.sockIsOn t → t.ip = ip → t.port = port → res.2 ≤ t.tcpConNum.toNat

/-- A listener that is passed over leaves the search to the rest. -/
private theorem FoundMin.skip {ip : Ipv4} {port : Port} {l : List GazelleTcpSock}
    {acc res : Option GazelleTcpSock × ℕ} {sock : GazelleTcpSock} (h : FoundMin s ip port l acc res)
    (hskip : s.sockIsOn sock → sock.ip = ip → sock.port = port →
      acc.2 ≤ sock.tcpConNum.toNat) : FoundMin s ip port (sock :: l) acc res where
  found := h.found.imp_right fun ⟨t, ht, hrest⟩ => ⟨t, List.mem_cons_of_mem _ ht, hrest⟩
  le := h.le
  least t ht hon hip hport := by
    rcases List.mem_cons.1 ht with rfl | ht
    · exact h.le.trans (hskip hon hip hport)
    · exact h.least t ht hon hip hport

/-- The loop of `gazelle_sock_get_by_min_conn`. -/
private theorem foundMin_loop (ip : Ipv4) (port : Port) (l : List GazelleTcpSock)
    (acc : Option GazelleTcpSock × ℕ) :
    FoundMin s ip port l acc (l.foldl (fun (acc : Option GazelleTcpSock × ℕ) sock =>
      if !s.sockIsOn sock then acc
      else if sock.port ≠ port ∨ sock.ip ≠ ip then acc
      else if sock.tcpConNum.toNat < acc.2 then (some sock, sock.tcpConNum.toNat)
      else acc) acc) := by
  induction l generalizing acc with
  | nil => exact ⟨.inl rfl, le_rfl, by simp⟩
  | cons sock l ih =>
    rw [List.foldl_cons]
    by_cases hon : s.sockIsOn sock
    · by_cases hkey : sock.port ≠ port ∨ sock.ip ≠ ip
      · rw [if_neg (by simp [hon]), if_pos hkey]
        exact (ih acc).skip fun _ hip hport => absurd hkey (by simp [hip, hport])
      · rw [if_neg (by simp [hon]), if_neg hkey]
        by_cases hlt : sock.tcpConNum.toNat < acc.2
        · rw [if_pos hlt]
          simp only [not_or, ne_eq, not_not] at hkey
          have h := ih (some sock, sock.tcpConNum.toNat)
          refine ⟨.inr ?_, h.le.trans hlt.le, fun t ht hton htip htport => ?_⟩
          · rcases h.found with hsame | ⟨t, ht, hton, htip, htport, htlt, hres⟩
            · exact ⟨sock, List.mem_cons_self, hon, hkey.2, hkey.1, hlt, hsame⟩
            · exact ⟨t, List.mem_cons_of_mem _ ht, hton, htip, htport, htlt.trans hlt, hres⟩
          · rcases List.mem_cons.1 ht with rfl | ht
            · exact h.le
            · exact h.least t ht hton htip htport
        · rw [if_neg hlt]
          exact (ih acc).skip fun _ _ _ => not_lt.1 hlt
    · rw [if_pos (by simpa using hon)]
      exact (ih acc).skip fun hon' => absurd hon' hon

/-- `gazelle_sock_get_by_min_conn` returns a listener that is on. -/
theorem sockIsOn_of_minConn {ip : Ipv4} {port : Port} {sock : GazelleTcpSock}
    (h : s.gazelleSockGetByMinConn hash ip port = some sock) : s.sockIsOn sock = true := by
  have hloop := foundMin_loop (s := s) ip port
    (s.sockHtable.chain (gazelleHbucketGetByIpport hash ip port)) (none, gazelleStackMaxTcpConNum)
  rcases hloop.found with hnone | ⟨t, -, hon, -, -, -, hres⟩
  · rw [gazelleSockGetByMinConn, hnone] at h
    cases h
  · rw [gazelleSockGetByMinConn, hres] at h
    exact Option.some.inj h ▸ hon

/-- `gazelle_sock_get_by_min_conn` returns an eligible listener with the least number of
connections. -/
theorem gazelleSockGetByMinConn_some {ip : Ipv4} {port : Port} {sock : GazelleTcpSock}
    (hb : s.sockHtable.InBucket (sockBucket hash) GazelleTcpSock.key)
    (h : s.gazelleSockGetByMinConn hash ip port = some sock) :
    s.Eligible ip port sock ∧ sock.tcpConNum.toNat < gazelleStackMaxTcpConNum ∧
      ∀ t, s.Eligible ip port t → sock.tcpConNum ≤ t.tcpConNum := by
  have hloop := foundMin_loop (s := s) ip port
    (s.sockHtable.chain (gazelleHbucketGetByIpport hash ip port)) (none, gazelleStackMaxTcpConNum)
  rcases hloop.found with hnone | ⟨t, ht, hon, hip, hport, hlt, hres⟩
  · rw [gazelleSockGetByMinConn, hnone] at h
    cases h
  · rw [gazelleSockGetByMinConn, hres] at h
    obtain rfl := Option.some.inj h
    refine ⟨⟨HTable.mem_toList.2 ⟨_, ht⟩, hon, hip, hport⟩, hlt, ?_⟩
    rintro u ⟨hu, huon, rfl, rfl⟩
    obtain ⟨b, hub⟩ := HTable.mem_toList.1 hu
    have hbucket : sockBucket hash u.key = b := hb b u hub
    rw [BitVec.le_def]
    have hle := hloop.least u (by rw [← hbucket] at hub; exact hub) huon rfl rfl
    rwa [hres] at hle

/-- `gazelle_sock_get_by_min_conn` returns `NULL` when every eligible listener has too many
connections. -/
theorem gazelleSockGetByMinConn_none {ip : Ipv4} {port : Port}
    (hb : s.sockHtable.InBucket (sockBucket hash) GazelleTcpSock.key)
    (h : s.gazelleSockGetByMinConn hash ip port = none) {t : GazelleTcpSock}
    (ht : s.Eligible ip port t) : gazelleStackMaxTcpConNum ≤ t.tcpConNum.toNat := by
  have hloop := foundMin_loop (s := s) ip port
    (s.sockHtable.chain (gazelleHbucketGetByIpport hash ip port)) (none, gazelleStackMaxTcpConNum)
  rcases hloop.found with hnone | ⟨u, -, -, -, -, -, hres⟩
  · obtain ⟨hmem, hon, rfl, rfl⟩ := ht
    obtain ⟨b, hub⟩ := HTable.mem_toList.1 hmem
    have hbucket : sockBucket hash t.key = b := hb b t hub
    have hle := hloop.least t (by rw [← hbucket] at hub; exact hub) hon rfl rfl
    rwa [hnone] at hle
  · rw [gazelleSockGetByMinConn, hres] at h
    cases h

/-! ## The steps -/

/-- What a stack writes to its listener. -/
def setStack (stack : GazelleStack) (sock : GazelleTcpSock) : GazelleTcpSock :=
  { sock with
    instanceRegTick := stack.instanceRegTick
    instanceCurTick := stack.instanceCurTick
    stack := some stack.addr }

section Add

variable {stack : GazelleStack} {calloc : Option ℕ}

variable (hash s k stack calloc) in
/-- The registration of a listener fails, finds one of its thread, or adds it. -/
theorem listen_cases (hfresh : s.fresh calloc) (hconns : s.connHtable.Counted) :
    ((s.gazelleSockAddByIpporttid hash k.ip k.port k.tid calloc).2 = none ∧
        s.tcpHashTableModify hash stack (listenMsg k) calloc = s) ∨
      (∃ sock, (s.sockHtable.chain (sockBucket hash k)).find?
          (fun sock => sock.tid = k.tid && s.sockIsOn sock) = some sock ∧
        (s.gazelleSockAddByIpporttid hash k.ip k.port k.tid calloc).2 = some sock.addr ∧
        s.tcpHashTableModify hash stack (listenMsg k) calloc =
          s.modifySock sock.addr (setStack stack)) ∨
      ∃ addr sock, calloc = some addr ∧ s.sockHtable.curNum ≠ s.sockHtable.maxNum ∧
        (∀ sock ∈ s.sockHtable.chain (sockBucket hash k), ¬ (sock.tid = k.tid ∧ s.sockIsOn sock)) ∧
        (s.gazelleSockAddByIpporttid hash k.ip k.port k.tid calloc).2 = some addr ∧
        sock.addr = addr ∧ sock.key = k ∧ sock.tcpConNum ≤ s.connHtable.curNum ∧
        setStack stack sock = sock ∧ ∃ f : GazelleTcpConn → GazelleTcpConn,
          (∀ conn, f conn = { conn with sock := (f conn).sock }) ∧
          s.tcpHashTableModify hash stack (listenMsg k) calloc =
            { s with
              sockHtable := s.sockHtable.insertHead (sockBucket hash k) sock
              connHtable := s.connHtable.map f } := by
  have hrefused : ∀ t, s.gazelleSockAddByIpporttid hash k.ip k.port k.tid calloc = (t, none) →
      s.tcpHashTableModify hash stack (listenMsg k) calloc = t := by
    intro t hadd
    simp only [tcpHashTableModify, listenMsg, msgToQuintuple, hadd]
  have hadded : ∀ t addr,
      s.gazelleSockAddByIpporttid hash k.ip k.port k.tid calloc = (t, some addr) →
      s.tcpHashTableModify hash stack (listenMsg k) calloc =
        t.modifySock addr (setStack stack) := by
    intro t addr hadd
    simp only [tcpHashTableModify, listenMsg, msgToQuintuple, hadd]
    rfl
  cases hfind : (s.sockHtable.chain (sockBucket hash k)).find?
      (fun sock => sock.tid = k.tid && s.sockIsOn sock) with
  | some sock =>
    have hadd : s.gazelleSockAddByIpporttid hash k.ip k.port k.tid calloc =
        (s, some sock.addr) := by
      rw [sockBucket] at hfind
      simp only [gazelleSockAddByIpporttid, hfind]
    exact .inr (.inl ⟨sock, rfl, by rw [hadd], hadded _ _ hadd⟩)
  | none =>
    by_cases hroom : s.sockHtable.curNum = s.sockHtable.maxNum
    · have hadd : s.gazelleSockAddByIpporttid hash k.ip k.port k.tid calloc = (s, none) := by
        rw [sockBucket] at hfind
        simp only [gazelleSockAddByIpporttid, hfind, if_pos hroom]
      exact .inl ⟨by rw [hadd], hrefused _ hadd⟩
    cases calloc with
    | none =>
      have hadd : s.gazelleSockAddByIpporttid hash k.ip k.port k.tid none = (s, none) := by
        rw [sockBucket] at hfind
        simp only [gazelleSockAddByIpporttid, hfind, if_neg hroom]
      exact .inl ⟨by rw [hadd], hrefused _ hadd⟩
    | some addr =>
      have hadd : s.gazelleSockAddByIpporttid hash k.ip k.port k.tid (some addr) =
          ({ s with
              sockHtable := s.sockHtable.insertHead (sockBucket hash k)
                (newSock addr k.ip k.port k.tid) }.recoverSockInfoFromConn
            (newSock addr k.ip k.port k.tid), some addr) := by
        rw [sockBucket] at hfind ⊢
        simp only [gazelleSockAddByIpporttid, hfind, if_neg hroom]
      simp only [fresh, Bool.and_eq_true, List.all_eq_true, decide_eq_true_eq] at hfresh
      have hcount := hconns.count_le (p := matchesSock (newSock addr k.ip k.port k.tid))
      have hlt := s.connHtable.curNum.isLt
      refine .inr (.inr ⟨addr, setStack stack { newSock addr k.ip k.port k.tid with
          tcpConNum := BitVec.ofNat 32
            (s.connHtable.count (matchesSock (newSock addr k.ip k.port k.tid))) },
        rfl, hroom, fun sock hsock => ?_, by rw [hadd], rfl, rfl, ?_, rfl, fun conn =>
          if matchesSock (newSock addr k.ip k.port k.tid) conn && conn.sock.isNone then
            { conn with sock := some addr }
          else conn, fun conn => ?_, ?_⟩)
      · simpa using List.find?_eq_none.1 hfind sock hsock
      · show BitVec.ofNat 32 _ ≤ _
        rw [BitVec.le_def, BitVec.toNat_ofNat, Nat.mod_eq_of_lt (by omega)]
        exact hcount
      · dsimp only
        split <;> rfl
      · rw [hadded _ _ hadd]
        -- the writes only meet the new listener
        have hskip : ∀ g : GazelleTcpSock → GazelleTcpSock,
            (s.sockHtable.map fun t => if t.addr = addr then g t else t) = s.sockHtable :=
          fun g => HTable.map_eq_self fun t ht => if_neg (hfresh.1 t ht)
        have haddr : (newSock addr k.ip k.port k.tid).addr = addr := rfl
        simp only [recoverSockInfoFromConn, modifySock, HTable.map_insertHead, haddr, hskip,
          if_true]

end Add

/-- The table is a map of the listeners that are on. -/
theorem ListenerInv.liveMap (h : s.ListenerInv hash) :
    s.sockHtable.LiveMap s.sockIsOn GazelleTcpSock.key GazelleTcpSock.addr (sockBucket hash) :=
  ⟨h.counted, h.inBucket, h.liveFirst, h.unique⟩

section Steps

variable {stack : GazelleStack} {calloc : Option ℕ}

variable (stack) in
/-- Writing to a listener that is on keeps the invariant and changes the map at its key. -/
theorem ListenerInv.modifySock (h : s.ListenerInv hash) {old : GazelleTcpSock}
    (hmem : old ∈ s.sockHtable.toList) (hon : s.sockIsOn old) :
    (s.modifySock old.addr (setStack stack)).ListenerInv hash ∧
      (s.modifySock old.addr (setStack stack)).listener hash =
        Function.update (s.listener hash) old.key
          (if instanceIsOn s.instanceCurTick stack.instanceCurTick stack.instanceRegTick then
            some (setStack stack old)
          else none) := by
  have hm := h.liveMap.write (f := setStack stack) hmem hon (fun _ => rfl) fun _ => rfl
  refine ⟨⟨hm.counted, hm.inBucket, hm.liveFirst, hm.unique, fun t ht => ?_, h.conns⟩,
    h.liveMap.lookup_write (f := setStack stack) hmem hon (fun _ => rfl) fun _ => rfl⟩
  rcases (h.liveMap.mem_write hmem).1 ht with rfl | ⟨ht, -⟩
  · exact h.tcpConNum old hmem
  · exact h.tcpConNum t ht

/-- Adding a listener whose key has none that is on keeps the invariant and changes the map at
its key. -/
theorem ListenerInv.insertHead (h : s.ListenerInv hash) {new : GazelleTcpSock}
    (hfresh : ∀ t ∈ s.sockHtable.toList, t.addr ≠ new.addr)
    (hroom : s.sockHtable.curNum ≠ s.sockHtable.maxNum)
    (hnone : ∀ t ∈ s.sockHtable.toList, s.sockIsOn t → t.key ≠ new.key)
    (hnum : new.tcpConNum ≤ gazelleMaxConnNum)
    (hsocks : s'.sockHtable = s.sockHtable.insertHead (sockBucket hash new.key) new)
    (hticks : s'.instanceCurTick = s.instanceCurTick)
    (hconns : s'.connHtable.Counted ∧ s'.connHtable.maxNum = gazelleMaxConnNum) :
    s'.ListenerInv hash ∧
      s'.listener hash = Function.update (s.listener hash) new.key
        (if s.sockIsOn new then some new else none) := by
  have hon : s'.sockIsOn = s.sockIsOn := funext fun t => by rw [sockIsOn, hticks, sockIsOn]
  have hm : s'.sockHtable.LiveMap s'.sockIsOn GazelleTcpSock.key GazelleTcpSock.addr
      (sockBucket hash) := by
    rw [hsocks, hon]
    exact h.liveMap.insertHead hfresh hroom hnone
  refine ⟨⟨hm.counted, hm.inBucket, hm.liveFirst, hm.unique, fun t ht => ?_, hconns⟩, ?_⟩
  · rw [hsocks, HTable.mem_insertHead] at ht
    rcases ht with rfl | ht
    · exact hnum
    · exact h.tcpConNum t ht
  · unfold listener
    rw [hsocks, hon]
    exact h.liveMap.lookup_insertHead hfresh hroom hnone

/-- The registration of a listener keeps the invariant and does to the map what it should, when
the listener that it finds by the thread is the one asked for. -/
theorem ListenerInv.add (h : s.ListenerInv hash) (hfresh : s.fresh calloc)
    (hkey : s.FindsKey hash (.add stack k calloc)) :
    (s.tcpHashTableModify hash stack (listenMsg k) calloc).ListenerInv hash ∧
      MapStep hash s (s.tcpHashTableModify hash stack (listenMsg k) calloc)
        (.add stack k calloc) := by
  simp only [MapStep]
  rcases listen_cases hash s k stack calloc hfresh h.conns.1 with
    ⟨hres, hsame⟩ | ⟨old, hfind, hres, heq⟩ |
      ⟨addr, new, rfl, hroom, hnone, hres, haddr, hnew, hnum, hset, f, -, heq⟩
  · rw [hres, hsame]
    exact ⟨h, rfl⟩
  · -- a listener of the thread is found: by assumption the one asked for
    obtain rfl : old.key = k := hkey old hfind
    have hmem : old ∈ s.sockHtable.toList := HTable.mem_of_find? hfind
    have hon : s.sockIsOn old := by
      have := List.find?_some hfind
      simp only [Bool.and_eq_true] at this
      exact this.2
    obtain ⟨h', hmap⟩ := h.modifySock stack hmem hon
    rw [hres, heq]
    refine ⟨h', setStack stack old, ?_, rfl, rfl, rfl, hmap⟩
    rw [LtranTables.modifySock, HTable.toList_map]
    exact List.mem_map.2 ⟨old, hmem, if_pos rfl⟩
  · obtain rfl : new.key = k := hnew
    simp only [fresh, Bool.and_eq_true, List.all_eq_true, decide_eq_true_eq] at hfresh
    have hoff : ∀ t ∈ s.sockHtable.toList, s.sockIsOn t → t.key ≠ new.key := by
      intro t ht hon hsame
      obtain ⟨b, hb⟩ := HTable.mem_toList.1 ht
      obtain rfl : sockBucket hash t.key = b := h.inBucket b t hb
      rw [hsame] at hb
      exact hnone t hb ⟨congrArg SockKey.tid hsame, hon⟩
    have hmax : new.tcpConNum ≤ gazelleMaxConnNum :=
      BitVec.le_trans hnum (h.conns.2 ▸ h.conns.1.le_maxNum)
    have hconns : (s.tcpHashTableModify hash stack (listenMsg new.key)
        (some addr)).connHtable.Counted ∧ (s.tcpHashTableModify hash stack (listenMsg new.key)
        (some addr)).connHtable.maxNum = gazelleMaxConnNum := by
      rw [heq]
      exact ⟨h.conns.1.map _, h.conns.2⟩
    obtain ⟨h', hmap⟩ := h.insertHead (haddr ▸ hfresh.1) hroom hoff hmax (by rw [heq]) (by rw [heq])
      hconns
    rw [hres]
    refine ⟨h', new, ?_, haddr, rfl, ?_, ?_⟩
    · rw [heq]
      exact HTable.mem_insertHead.2 (.inl rfl)
    · rw [← hset]
      rfl
    · rw [hmap, sockIsOn, ← hset]
      rfl

/-- The deletion of a listener keeps the invariant and takes it out of the map, when the first
listener of its thread is the one asked for. -/
theorem ListenerInv.del (h : s.ListenerInv hash) (hkey : s.FindsKey hash (.del k)) :
    (s.gazelleSockDelByIpporttid hash k.ip k.port k.tid).ListenerInv hash ∧
      MapStep hash s (s.gazelleSockDelByIpporttid hash k.ip k.port k.tid) (.del k) := by
  have h' : (s.gazelleSockDelByIpporttid hash k.ip k.port k.tid).ListenerInv hash :=
    ⟨h.counted.eraseFirst, h.inBucket.eraseFirst, h.liveFirst.eraseFirst,
      fun addr => HTable.count_eraseFirst_le.trans (h.unique addr),
      fun t ht => h.tcpConNum t (HTable.mem_of_mem_eraseFirst ht), h.conns⟩
  refine ⟨h', ?_⟩
  cases hfind : (s.sockHtable.chain (sockBucket hash k)).find? (fun sock => sock.tid = k.tid) with
  | none =>
    have hsame : s.gazelleSockDelByIpporttid hash k.ip k.port k.tid = s := by
      rw [gazelleSockDelByIpporttid]
      exact congrArg (fun t => { s with sockHtable := t }) (HTable.eraseFirst_of_none hfind)
    have hnone : s.listener hash k = none := by
      refine (HTable.lookup_eq_none h.inBucket).2 fun t ht _ hkey => ?_
      obtain ⟨b, hb⟩ := HTable.mem_toList.1 ht
      obtain rfl : sockBucket hash t.key = b := h.inBucket b t hb
      rw [hkey] at hb
      exact absurd (List.find?_eq_none.1 hfind t hb) (by simp [← hkey, GazelleTcpSock.key])
    refine ⟨?_, fun sock hsome => ?_, fun t _ => by rw [hsame], fun _ => hsame⟩
    · rw [hsame, ← hnone, Function.update_eq_self]
    · rw [hnone] at hsome
      cases hsome
  | some old =>
    obtain rfl : old.key = k := hkey old hfind
    have hmem : ∀ t, t ∈ (s.gazelleSockDelByIpporttid hash old.key.ip old.key.port
        old.key.tid).sockHtable.toList ↔ t ∈ s.sockHtable.toList ∧ t ≠ old := fun t =>
      HTable.mem_eraseFirst hfind (h.liveMap.once old)
    have htid : ∀ t : GazelleTcpSock, t.key = old.key → decide (t.tid = old.key.tid) = true :=
      fun t hsame => decide_eq_true (congrArg SockKey.tid hsame)
    refine ⟨h.liveMap.lookup_eraseFirst htid hfind, ?_, ?_, ?_⟩
    · -- the first listener of the thread has the key, so it is the one that is on
      intro sock hsome t
      obtain ⟨hsock, hon, hkey⟩ := h.liveMap.lookup_eq_some.1 hsome
      rw [hmem, h.liveMap.eq_of_find? htid hfind hsock hon hkey]
    · intro t hne
      rw [hmem]
      exact ⟨And.left, fun ht => ⟨ht, fun hsame => hne (congrArg _ hsame)⟩⟩
    · intro hnone
      exact absurd rfl (hnone old (HTable.mem_of_find? hfind))

/-- The scan keeps the invariant and the map. -/
theorem ListenerInv.detectSockLogout (h : s.ListenerInv hash) :
    s.gazelleDetectSockLogout.ListenerInv hash ∧
      s.gazelleDetectSockLogout.listener hash = s.listener hash := by
  have hm : s.gazelleDetectSockLogout.sockHtable.LiveMap s.sockIsOn GazelleTcpSock.key
      GazelleTcpSock.addr (sockBucket hash) := h.liveMap.purge
  refine ⟨⟨hm.counted, hm.inBucket, hm.liveFirst, hm.unique, fun t ht => ?_, h.conns⟩,
    funext fun k => h.liveMap.lookup_purge⟩
  obtain ⟨u, hu, heq⟩ := HTable.mem_filterMap.1 ht
  split at heq
  · rw [← Option.some.inj heq]
    exact h.tcpConNum u hu
  · cases heq

/-- Instances that go off keep the invariant and take their listeners out of the map. -/
theorem ListenerInv.instancesOff (h : s.ListenerInv hash) {ticks : Fin gazelleMaxInstanceNum → Tick}
    (hoff : ∀ sock ∈ s.sockHtable.toList,
      instanceIsOn ticks sock.instanceCurTick sock.instanceRegTick → s.sockIsOn sock) :
    ListenerInv hash { s with instanceCurTick := ticks } ∧
      ∀ k, listener hash { s with instanceCurTick := ticks } k =
        (s.listener hash k).filter (sockIsOn { s with instanceCurTick := ticks }) :=
  ⟨⟨h.counted, h.inBucket, h.liveFirst.mono hoff, h.unique, h.tcpConNum, h.conns⟩,
    fun _ => h.liveMap.lookup_mono hoff⟩

/-- A step that finds what it looks for keeps the invariant and does to the map what it should. -/
theorem ListenerInv.step (h : s.ListenerInv hash) {act : ListenerAction}
    (hfinds : s.FindsKey hash act) (hstep : s.listenerStep hash act = some s') :
    s'.ListenerInv hash ∧ MapStep hash s s' act := by
  cases act with
  | add stack k calloc =>
    simp only [listenerStep, Option.ite_none_right_eq_some, Option.some.injEq] at hstep
    obtain ⟨hfresh, rfl⟩ := hstep
    exact h.add hfresh hfinds
  | del k =>
    obtain rfl := Option.some.inj hstep
    exact h.del hfinds
  | detectSockLogout locked =>
    cases locked <;> obtain rfl := Option.some.inj hstep
    · exact ⟨h, rfl⟩
    · exact h.detectSockLogout
  | instancesOff ticks =>
    simp only [listenerStep, Option.ite_none_right_eq_some, Option.some.injEq, List.all_eq_true,
      decide_eq_true_eq] at hstep
    obtain ⟨hoff, rfl⟩ := hstep
    exact h.instancesOff hoff
  | connections conns =>
    obtain rfl := Option.some.inj hstep
    have h' : ListenerInv hash { s with connHtable := conns.1 } :=
      ⟨h.counted, h.inBucket, h.liveFirst, h.unique, h.tcpConNum, conns.2⟩
    exact ⟨h', rfl⟩

end Steps

/-! ## Runs -/

/-- The empty table satisfies the invariant. -/
theorem ListenerInv.create (ticks : Fin gazelleMaxInstanceNum → Tick) (maxSockNum : BitVec 32)
    (conns : CountedConns) : ListenerInv hash ⟨ticks, .create maxSockNum, conns⟩ where
  counted := .create maxSockNum
  inBucket := .create
  liveFirst := .create
  unique addr := by simp
  tcpConNum := by simp
  conns := conns.2

/-- The listener table of ltran is a map from address, port and thread to the listeners that are
on, in every run in which a listener that is found by its thread has the address and the port
asked for: an addition returns `NULL` and changes nothing or returns the listener that the key then
has; a deletion takes out exactly the listener of the key; scans change nothing and instances that
go off take their listeners along. `gazelle_sock_get_by_min_conn` returns a listener with the least
number of connections, and one whenever the map has one. The counters are right and the limit is
kept. -/
theorem listener_table_refines (maxSockNum : BitVec 32)
    (hs : (listenerSystem hash maxSockNum).ReachableUnder (fun s act => s.FindsKey hash act) s) :
    s.sockHtable.Counted ∧
      (∀ ip port sock, s.gazelleSockGetByMinConn hash ip port = some sock →
        s.Eligible ip port sock ∧ ∀ t, s.Eligible ip port t → sock.tcpConNum ≤ t.tcpConNum) ∧
      (∀ k, s.listener hash k ≠ none → s.gazelleSockGetByMinConn hash k.ip k.port ≠ none) ∧
      ∀ act s', s.FindsKey hash act → s.listenerStep hash act = some s' →
        MapStep hash s s' act := by
  have h : s.ListenerInv hash := by
    refine Transition.System.invariant_under (I := fun s => s.ListenerInv hash) ?_ ?_ hs
    · rintro _ ⟨ticks, conns, rfl⟩
      exact .create ticks maxSockNum conns
    · intro _ _ _ ih hfinds hstep
      exact (ih.step hfinds hstep).1
  refine ⟨h.counted, fun ip port sock hmin => ?_, fun k hsome hnone => ?_,
    fun act s' hfinds hstep => (h.step hfinds hstep).2⟩
  · obtain ⟨heligible, -, hleast⟩ := gazelleSockGetByMinConn_some h.inBucket hmin
    exact ⟨heligible, hleast⟩
  · obtain ⟨sock, hsock⟩ := Option.ne_none_iff_exists'.1 hsome
    obtain ⟨hmem, hon, rfl⟩ := h.liveMap.lookup_eq_some.1 hsock
    have hlarge := gazelleSockGetByMinConn_none h.inBucket hnone ⟨hmem, hon, rfl, rfl⟩
    have hnum := h.tcpConNum sock hmem
    rw [BitVec.le_def] at hnum
    exact absurd (hlarge.trans hnum) (by decide)

variable (hash k) in
/-- A listener is added with memory that is not in use. -/
private theorem listenerStep_add (stack : GazelleStack) {calloc : Option ℕ}
    (hfresh : s.fresh calloc = true) : s.listenerStep hash (.add stack k calloc) =
      some (s.tcpHashTableModify hash stack (listenMsg k) calloc) := if_pos hfresh

/-- All keys in one chain. -/
private def collidingHash : LtranJhash := ⟨fun _ _ => 0, fun _ _ _ _ => 0⟩

/-- A stack that is on when the first tick is `1`. -/
private def listeningStack : GazelleStack :=
  ⟨1, 0, 7, some ⟨0, gazelleMaxInstanceNum_pos⟩, 1⟩

/-- No listeners and no connections, with the first tick at `1`. -/
private def noListeners : LtranTables := ⟨fun _ => 1, .create 4096, .create gazelleMaxConnNum⟩

/-- The first listener of a thread. -/
private def oneListener : LtranTables :=
  noListeners.tcpHashTableModify collidingHash listeningStack (listenMsg ⟨0x0a01a8c0, 80, 7⟩)
    (some 100)

private theorem noListeners_init : (listenerSystem collidingHash 4096).Init noListeners :=
  ⟨fun _ => 1, ⟨.create gazelleMaxConnNum, .create _, rfl⟩, rfl⟩

private theorem noListeners_step : (listenerSystem collidingHash 4096).step noListeners
    (.add listeningStack ⟨0x0a01a8c0, 80, 7⟩ (some 100)) = some oneListener := by
  have hfresh : noListeners.fresh (some 100) = true := by decide +kernel
  have hstep := listenerStep_add collidingHash ⟨0x0a01a8c0, 80, 7⟩ listeningStack hfresh
  rw [oneListener, ← hstep, listenerSystem]

/-- Whether the listener that is found has the key is seen by looking for it. -/
instance (s : LtranTables) : (act : ListenerAction) → Decidable (s.FindsKey hash act)
  | .add _ k _ =>
    inferInstanceAs (Decidable (∀ sock ∈ (s.sockHtable.chain (sockBucket hash k)).find?
      fun sock => sock.tid = k.tid && s.sockIsOn sock, sock.key = k))
  | .del k =>
    inferInstanceAs (Decidable (∀ sock ∈ (s.sockHtable.chain (sockBucket hash k)).find?
      fun sock => sock.tid = k.tid, sock.key = k))
  | .detectSockLogout _ | .instancesOff _ | .connections _ => isTrue trivial

/-- Two threads listen on the same port. -/
private def twoListeners : List ListenerAction :=
  [.add listeningStack ⟨0x0a01a8c0, 80, 7⟩ (some 100),
    .add { listeningStack with tid := 8 } ⟨0x0a01a8c0, 80, 8⟩ (some 101)]

/-- Of two listeners of one port in one chain, one is found, and one is taken out by its key. -/
theorem listener_table_refines_two :
    ∃ s, (listenerSystem collidingHash 4096).ReachableUnder
        (fun s act => s.FindsKey collidingHash act) s ∧
      s.sockHtable.toList.map GazelleTcpSock.key = [⟨0x0a01a8c0, 80, 8⟩, ⟨0x0a01a8c0, 80, 7⟩] ∧
      s.gazelleSockGetByMinConn collidingHash 0x0a01a8c0 80 ≠ none ∧
      MapStep collidingHash s (s.gazelleSockDelByIpporttid collidingHash 0x0a01a8c0 80 7)
        (.del ⟨0x0a01a8c0, 80, 7⟩) := by
  have hrun : ((listenerSystem collidingHash 4096).runUnder
      (fun s act => s.FindsKey collidingHash act) noListeners twoListeners).any (fun s =>
        decide (s.sockHtable.toList.map GazelleTcpSock.key =
          [⟨0x0a01a8c0, 80, 8⟩, ⟨0x0a01a8c0, 80, 7⟩] ∧
          s.listener collidingHash ⟨0x0a01a8c0, 80, 7⟩ ≠ none ∧
          s.FindsKey collidingHash (.del ⟨0x0a01a8c0, 80, 7⟩))) = true := by
    decide +kernel
  obtain ⟨s, hs, hall⟩ := (Option.any_eq_true _ _).1 hrun
  obtain ⟨hkeys, hlistens, hfinds⟩ := of_decide_eq_true hall
  have hreach := Transition.System.reachableUnder_of_runUnder (.init noListeners_init) hs
  obtain ⟨-, -, hmin, hstep⟩ := listener_table_refines 4096 hreach
  exact ⟨s, hreach, hkeys, hmin _ hlistens, hstep _ _ hfinds rfl⟩

/-- A thread that listens on a second port in the same chain is given its first listener. -/
theorem listener_table_collides :
    ¬ ∀ s act s', (listenerSystem collidingHash 4096).Reachable s →
      s.listenerStep collidingHash act = some s' → MapStep collidingHash s s' act := by
  intro hclaim
  have hfresh : oneListener.fresh (some 101) = true := by decide +kernel
  have hsecond := hclaim oneListener (.add listeningStack ⟨0x0a01a8c0, 81, 7⟩ (some 101))
    (oneListener.tcpHashTableModify collidingHash listeningStack
      (listenMsg ⟨0x0a01a8c0, 81, 7⟩) (some 101))
    (.step (.init noListeners_init) noListeners_step)
    (listenerStep_add _ _ _ hfresh)
  have hfound : (oneListener.gazelleSockAddByIpporttid collidingHash 0x0a01a8c0 81 7
      (some 101)).2 = some 100 := by decide +kernel
  have hkeys : (oneListener.tcpHashTableModify collidingHash listeningStack
      (listenMsg ⟨0x0a01a8c0, 81, 7⟩) (some 101)).sockHtable.toList.map GazelleTcpSock.key =
        [⟨0x0a01a8c0, 80, 7⟩] := by decide +kernel
  simp only [MapStep, hfound] at hsecond
  obtain ⟨sock, hmem, -, hkey, -⟩ := hsecond
  have hmem' := List.mem_map_of_mem (f := GazelleTcpSock.key) hmem
  rw [hkeys, hkey] at hmem'
  exact absurd hmem' (by decide)

end LtranTables

end Gazelle
