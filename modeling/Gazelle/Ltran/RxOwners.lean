import Gazelle.Lists.Holdings
import Gazelle.Ltran.RxPipeline
import Gazelle.Ltran.Tables

/-!
# The owners of received packets

`upstream_forward_one` (`ltran_forward.c`) gives a packet to the stack of its connection, of its
listener or of its address, or to the kernel, and gives a copy of an ARP packet to each stack of the
address that is asked for. A packet that no stack takes goes to the kernel when `kni_switch` is on.
Otherwise nobody takes it, and nobody frees it.

* `RxSide.system`: all sequences of received packets, flushes and changes of the tables;
* `rx_one_owner`: when exactly each packet and each copy has one owner;
* `rx_leaks`: a packet that is neither TCP nor ICMP is lost.
-/

namespace Gazelle

/-- A received packet, with what `upstream_forward_one` reads of its data. -/
structure RxPacket where
  /-- The mbuf. -/
  mbuf : RxMbuf
  /-- `version_ihl`, where an IPv4 header has it. -/
  versionIhl : BitVec 8
  /-- `ether_type`, in network byte order. -/
  etherType : BitVec 16
  /-- `next_proto_id`. -/
  nextProtoId : BitVec 8
  /-- The addresses and ports of the headers. -/
  qtuple : GazelleQuintuple
  /-- `arp_tip`. -/
  arpTip : Ipv4

/-- The stack of the kernel, and what became of its packets. -/
structure KniStack where
  /-- The batch. -/
  pktBuf : List RxMbuf
  /-- The packets that `rte_kni_tx_burst` took. -/
  taken : List RxMbuf
  /-- The packets that were freed. -/
  freed : List RxMbuf

/-- What the calls outside ltran return for a packet. -/
structure ForwardEnv (β : Type*) where
  /-- `malloc` of a connection. -/
  malloc : Option ℕ
  /-- `rte_pktmbuf_alloc` for a stack of an instance. -/
  alloc : ℕ → ℕ → Option ℕ
  /-- The rings of the stack that is given a packet. -/
  offer : ℕ → ℕ → Offer β × Offer β
  /-- `g_kni_started`. -/
  kniStarted : Bool
  /-- `rte_kni_tx_burst`. -/
  kniSent : ℕ

/-- The receive side of ltran. -/
structure RxSide (β : Type*) where
  /-- `g_instance_mgr`. -/
  mgr : InstanceMgr
  /-- `g_tcp_sock_htable`. -/
  sockHtable : GazelleTcpSockHtable
  /-- `g_tcp_conn_htable`. -/
  connHtable : GazelleTcpConnHtable
  /-- The stacks. -/
  rxStacks : List (GazelleStack × RxStack β)
  /-- The stack of the kernel. -/
  kni : KniStack
  /-- `kni_switch`. -/
  kniSwitch : Bool
  /-- The packets of `rte_eth_rx_burst` and the copies. -/
  received : List RxMbuf

namespace KniStack

/-- `kni_process_tx`. -/
def kniProcessTx (kni : KniStack) (started : Bool) (sent : ℕ) : KniStack :=
  if started then ⟨[], kni.taken ++ kni.pktBuf.take sent, kni.freed ++ kni.pktBuf.drop sent⟩
  else ⟨[], kni.taken, kni.freed ++ kni.pktBuf⟩

/-- `enqueue_rx_packet` for the stack of the kernel. -/
def enqueueRxPacket (kni : KniStack) (buf : RxMbuf) (started : Bool) (sent : ℕ) : KniStack :=
  let kni := { kni with pktBuf := kni.pktBuf ++ [buf] }
  if packetReadSize.toNat ≤ kni.pktBuf.length then kni.kniProcessTx started sent else kni

end KniStack

namespace RxStack

variable {β : Type*} (s : RxStack β)

/-- The packets in the backup buffer and in the batch, and those that were freed after they were
copied or dropped. -/
def holdings : Holdings RxMbuf where
  held :=
    (List.range s.backupPktCnt.toNat).filterMap
        (fun j => s.backupPktBuf (backupIndex s.backupStart j)) ++
      (List.range s.pktCnt.toNat).filterMap s.pktBuf
  released := s.copied.map Prod.snd ++ s.dropped

end RxStack

namespace RxSide

variable {β : Type*} (hash : LtranJhash) (s : RxSide β)

/-- The tables with the ticks. -/
def tables : LtranTables := ⟨s.mgr.instanceCurTick, s.sockHtable, s.connHtable⟩

/-- The stack at an address. -/
def stackAt (addr : ℕ) : Option GazelleStack := (s.rxStacks.map Prod.fst).find? (·.addr = addr)

/-- The packets of stacks. -/
def stackHoldings : List (GazelleStack × RxStack β) → Holdings RxMbuf
  | [] => ⟨[], []⟩
  | stack :: rest => stack.2.holdings.append (stackHoldings rest)

/-- All packets: what a stack or the stack of the kernel holds, and what was freed or given to the
kernel. -/
def holdings : Holdings RxMbuf :=
  (stackHoldings s.rxStacks).append ⟨s.kni.pktBuf, s.kni.taken ++ s.kni.freed⟩

/-- A function is applied to the stack at an address; there has to be one. -/
def atStack (addr : ℕ) (f : RxStack β → RxStack β) :
    List (GazelleStack × RxStack β) → Option (List (GazelleStack × RxStack β))
  | [] => none
  | (record, stack) :: rest =>
    if record.addr = addr then some ((record, f stack) :: rest)
    else (atStack addr f rest).map ((record, stack) :: ·)

/-- `enqueue_rx_packet`, which dereferences the pointer. -/
def enqueueRxPacket (stack : Option ℕ) (buf : RxMbuf) (offers : Offer β × Offer β) :
    Option (RxSide β) :=
  stack.bind fun addr =>
    (atStack addr (fun stack => stack.enqueueRxPacket buf offers.1 offers.2) s.rxStacks).map
      fun rxStacks => { s with rxStacks }

/-- `tcp_handle`, with whether it returns `GAZELLE_OK`. -/
def tcpHandle (pkt : RxPacket) (env : ForwardEnv β) : Option (RxSide β × Bool) :=
  let (tables, stack) := s.tables.tcpHandle hash pkt.qtuple env.malloc
  let s := { s with sockHtable := tables.sockHtable, connHtable := tables.connHtable }
  match stack with
  | none => some (s, false)
  | some stack => (s.enqueueRxPacket stack pkt.mbuf (env.offer 0 0)).map fun s => (s, true)

/-- `gazelle_instance_get_by_ip`. -/
def gazelleInstanceGetByIp (ip : Ipv4) : Option GazelleInstance :=
  (List.finRange gazelleMaxInstanceNum).findSome? fun i =>
    (s.mgr.instances i).bind fun inst => if inst.ipAddr = ip then some inst else none

/-- The loop of `get_icmp_handle_stack`: the first stack that is on. -/
def firstStackOn : List (Option ℕ) → Option (Option ℕ)
  | [] => some none
  | none :: rest => firstStackOn rest
  | some addr :: rest =>
    match s.stackAt addr with
    | none => none
    | some stack => if s.mgr.stackIsOn stack then some (some addr) else firstStackOn rest

/-- `get_icmp_handle_stack`. -/
def getIcmpHandleStack (pkt : RxPacket) : Option (Option ℕ) :=
  match s.gazelleInstanceGetByIp pkt.qtuple.dstIp with
  | none => some none
  | some inst => s.firstStackOn ((List.finRange gazelleMaxInstanceNum).map inst.stackArray)

/-- `icmp_handle`. -/
def icmpHandle (pkt : RxPacket) (env : ForwardEnv β) : Option (RxSide β × Bool) :=
  match s.getIcmpHandleStack pkt with
  | none => none
  | some none => some (s, false)
  | some (some addr) =>
    (s.enqueueRxPacket (some addr) pkt.mbuf (env.offer 0 0)).map fun s => (s, true)

/-- `ipv4_handle`, with whether it returns 0. -/
def ipv4Handle (pkt : RxPacket) (env : ForwardEnv β) : Option (RxSide β × Bool) :=
  if pkt.nextProtoId = 6 then s.tcpHandle hash pkt env
  else if pkt.nextProtoId = 1 then s.icmpHandle pkt env
  else some (s, false)

/-- The stacks that the loops of `arp_handle` look at: the instances and places in their
`stack_array`. -/
def arpPlaces (arpTip : Ipv4) : List (GazelleInstance × ℕ × ℕ) :=
  (List.finRange gazelleMaxInstanceNum).flatMap fun i =>
    match s.mgr.instances i with
    | none => []
    | some inst =>
      if inst.ipAddr = arpTip then
        (List.range inst.stackCnt.toNat).map fun j => (inst, i.val, j)
      else []

/-- The loops of `arp_handle`. `rte_pktmbuf_alloc` returns no mbuf that somebody holds. -/
def arpLoop (m : RxMbuf) (env : ForwardEnv β) :
    List (GazelleInstance × ℕ × ℕ) → RxSide β → Option (RxSide β)
  | [], s => some s
  | (inst, i, j) :: rest, s =>
    if hj : j < gazelleMaxInstanceNum then
      match inst.stackArray ⟨j, hj⟩ with
      | none => arpLoop m env rest s
      | some addr =>
        match s.stackAt addr with
        | none => none
        | some stack =>
          if s.mgr.stackIsOn stack then
            match env.alloc i j with
            | none => some s
            | some copyAddr =>
              if copyAddr ∈ m.addr :: s.holdings.held.map RxMbuf.addr then none
              else
                let mCopy : RxMbuf := { m with addr := copyAddr }
                let s := { s with received := s.received ++ [mCopy] }
                (s.enqueueRxPacket (some addr) mCopy (env.offer i j)).bind (arpLoop m env rest)
          else arpLoop m env rest s
    else none

/-- `arp_handle`. -/
def arpHandle (pkt : RxPacket) (env : ForwardEnv β) : Option (RxSide β) :=
  arpLoop pkt.mbuf env (s.arpPlaces pkt.arpTip) s

/-- The end of `upstream_forward_one`. -/
def forwardToKni (m : RxMbuf) (env : ForwardEnv β) : RxSide β :=
  if s.kniSwitch then { s with kni := s.kni.enqueueRxPacket m env.kniStarted env.kniSent } else s

/-- `ip_version`. -/
def ipVersion (pkt : RxPacket) : BitVec 8 := (pkt.versionIhl &&& 0xf0) >>> 4

/-- `upstream_forward_one` for a packet of `rte_eth_rx_burst`, which returns no mbuf that somebody
holds. -/
def upstreamForwardOne (pkt : RxPacket) (env : ForwardEnv β) : Option (RxSide β) :=
  if pkt.mbuf.addr ∈ s.holdings.held.map RxMbuf.addr then none
  else
    let s := { s with received := s.received ++ [pkt.mbuf] }
    if ipVersion pkt = 4 then
      (s.ipv4Handle hash pkt env).map fun (s, ok) =>
        if ok then s else s.forwardToKni pkt.mbuf env
    else if pkt.etherType = 0x0608 then
      (s.arpHandle pkt env).map fun s => s.forwardToKni pkt.mbuf env
    else some (s.forwardToKni pkt.mbuf env)

end RxSide

/-- What happens on the receive side. -/
inductive RxSideAction (β : Type*)
  /-- A packet is forwarded. -/
  | forward (pkt : RxPacket) (env : ForwardEnv β)
  /-- `flush_rx_ring` of a stack. -/
  | flush (addr : ℕ) (offers : Offer β × Offer β)
  /-- `flush_rx_ring` of the stack of the kernel. -/
  | flushKni (started : Bool) (sent : ℕ)
  /-- The instances, the tables and the records of the stacks become others. -/
  | control (mgr : InstanceMgr) (sockHtable : GazelleTcpSockHtable)
    (connHtable : GazelleTcpConnHtable) (record : GazelleStack → GazelleStack)
  /-- A stack is added. -/
  | addStack (record : GazelleStack) (rxRing : RteRing β)

namespace RxSide

variable {β : Type*} (hash : LtranJhash) (s : RxSide β)

/-- One step. -/
def step : RxSideAction β → Option (RxSide β)
  | .forward pkt env => s.upstreamForwardOne hash pkt env
  | .flush addr offers =>
    (atStack addr (fun stack => stack.flushRxRing offers.1 offers.2) s.rxStacks).map
      fun rxStacks => { s with rxStacks }
  | .flushKni started sent => some { s with kni := s.kni.kniProcessTx started sent }
  | .control mgr sockHtable connHtable record =>
    some { s with
      mgr
      sockHtable
      connHtable
      rxStacks := s.rxStacks.map fun stack => (record stack.1, stack.2) }
  | .addStack record rxRing => some { s with rxStacks := (record, .create rxRing) :: s.rxStacks }

/-- The receive side before the first packet, with no stacks. -/
def create (mgr : InstanceMgr) (sockHtable : GazelleTcpSockHtable)
    (connHtable : GazelleTcpConnHtable) (kniSwitch : Bool) : RxSide β :=
  ⟨mgr, sockHtable, connHtable, [], ⟨[], [], []⟩, kniSwitch, []⟩

/-- All sequences of actions. -/
def system : Transition.System (RxSide β) (RxSideAction β) where
  Init s := ∃ mgr sockHtable connHtable kniSwitch, s = create mgr sockHtable connHtable kniSwitch
  step := step hash

/-- Each packet that came in is held or was released, once, and no mbuf is held twice. -/
structure OneOwner (s : RxSide β) : Prop where
  /-- What came in. -/
  perm : s.received.Perm (s.holdings.held ++ s.holdings.released)
  /-- What is held. -/
  nodup : (s.holdings.held.map RxMbuf.addr).Nodup

/-- A stack takes the packet: it belongs to a connection or can become one of a listener, or it is
an ICMP packet for an address with a stack that is on. -/
def Deliverable (pkt : RxPacket) (malloc : Option ℕ) : Prop :=
  let q := LtranTables.packetQuintuple pkt.qtuple
  ipVersion pkt = 4 ∧
    (pkt.nextProtoId = 6 ∧ ((s.tables.gazelleConnGetByQuintuple hash q).isSome ∨
        (s.tables.gazelleSockGetByMinConn hash q.dstIp q.dstPort).isSome ∧
          s.connHtable.curNum ≠ s.connHtable.maxNum ∧ malloc.isSome) ∨
      pkt.nextProtoId = 1 ∧ ∃ addr, s.getIcmpHandleStack pkt = some (some addr))

/-- `kni_switch` is on, or a stack takes the packet. -/
def Condition : RxSideAction β → Prop
  | .forward pkt env => s.kniSwitch = true ∨ s.Deliverable hash pkt env.malloc
  | _ => True

end RxSide

namespace RxStack

variable {β : Type*} {s t u : RxStack β}

/-! ## What a stack releases -/

/-- The same packets have arrived, and more may have been released. -/
structure Frees (s t : RxStack β) : Prop where
  /-- The packets that arrived. -/
  arrivals : t.arrivals = s.arrivals
  /-- The packets that were copied. -/
  copied : s.copied <+: t.copied
  /-- The packets that were dropped. -/
  dropped : s.dropped <+: t.dropped

/-- Frees of frees. -/
theorem Frees.trans (h : s.Frees t) (h' : t.Frees u) : s.Frees u :=
  ⟨h'.arrivals.trans h.arrivals, h.copied.trans h'.copied, h.dropped.trans h'.dropped⟩

/-- Nothing is freed where the lists are the same. -/
theorem Frees.of_eq (harrivals : t.arrivals = s.arrivals) (hcopied : t.copied = s.copied)
    (hdropped : t.dropped = s.dropped) : s.Frees t :=
  ⟨harrivals, hcopied ▸ List.prefix_rfl, hdropped ▸ List.prefix_rfl⟩

/-- A step of a loop frees, so the loop does. -/
theorem Frees.foldl {f : RxStack β → ℕ → RxStack β} (hf : ∀ (s : RxStack β) j, s.Frees (f s j))
    (h : s.Frees t) (l : List ℕ) : s.Frees (l.foldl f t) := by
  induction l generalizing t with
  | nil => exact h
  | cons j l ih => exact ih (h.trans (hf t j))

/-- The loop of `flush_rx_mbuf`. -/
theorem Frees.flushRxMbufs (h : s.Frees t) (src : ℕ → Option RxMbuf) (j : ℕ) (freeBuf : List β) :
    s.Frees (flushRxMbufs src t j freeBuf) := by
  induction freeBuf generalizing t j with
  | nil => exact h
  | cons dst freeBuf ih =>
    refine ih (h.trans ?_) (j + 1)
    cases src j with
    | none => exact .of_eq rfl rfl rfl
    | some m =>
      simp only [flushRxMbuf]
      split
      · exact .of_eq rfl rfl rfl
      · exact ⟨rfl, List.prefix_append _ _, List.prefix_rfl⟩

/-- `backup_bufs_enque_rx_ring`. -/
theorem frees_backupBufsEnqueRxRing (s : RxStack β) (o : Offer β) :
    s.Frees (s.backupBufsEnqueRxRing o) := by
  have hread : s.Frees (s.ringRead o
      (if s.backupPktCnt < ringMaxSize then s.backupPktCnt else ringMaxSize)).2 :=
    .of_eq rfl rfl rfl
  simp only [RxStack.backupBufsEnqueRxRing]
  generalize s.ringRead o _ = read at hread
  obtain ⟨freeBuf, t⟩ := read
  have h := hread.flushRxMbufs (fun j => t.backupPktBuf (backupIndex t.backupStart j)) 0 freeBuf
  exact ⟨h.arrivals, h.copied, h.dropped⟩

/-- `pktbufs_move_to_backup_bufs`. -/
theorem Frees.pktbufsMoveToBackupBufs (h : s.Frees t) (mbuf : ℕ) (mbufCnt : U32) :
    s.Frees (t.pktbufsMoveToBackupBufs mbuf mbufCnt) := by
  have hdrop : ∀ (s : RxStack β) j, s.Frees (dropMbuf mbuf s j) := fun _ _ =>
    ⟨rfl, List.prefix_rfl, List.prefix_append _ _⟩
  have hstore : ∀ tail (s : RxStack β) j, s.Frees (storeMbuf mbuf tail s j) := fun _ _ _ =>
    .of_eq rfl rfl rfl
  simp only [RxStack.pktbufsMoveToBackupBufs]
  refine Frees.foldl (hstore _) ?_ _
  -- the packets that do not fit are dropped before the others are stored
  by_cases hfull : t.backupPktCnt + mbufCnt > backupMbufSize
  · simp only [if_pos hfull]
    have hcount : s.Frees { t with rxDrop := t.rxDrop +
        (mbufCnt - (backupMbufSize - t.backupPktCnt)).zeroExtend 64 } :=
      h.trans (.of_eq rfl rfl rfl)
    have hall := hcount.foldl hdrop (List.range' (backupMbufSize - t.backupPktCnt).toNat
      (mbufCnt - (backupMbufSize - t.backupPktCnt)).toNat)
    exact ⟨hall.arrivals, hall.copied, hall.dropped⟩
  · simp only [if_neg hfull]
    exact ⟨h.arrivals, h.copied, h.dropped⟩

/-- `pkt_bufs_enque_rx_ring`. -/
theorem frees_pktBufsEnqueRxRing (s : RxStack β) (o : Offer β) :
    s.Frees (s.pktBufsEnqueRxRing o).2 := by
  have hread : s.Frees (s.ringRead o s.pktCnt).2 := .of_eq rfl rfl rfl
  simp only [RxStack.pktBufsEnqueRxRing]
  generalize s.ringRead o _ = read at hread
  obtain ⟨freeBuf, t⟩ := read
  have hcount : s.Frees { t with rx := t.rx + BitVec.ofNat 64 freeBuf.length } :=
    hread.trans (.of_eq rfl rfl rfl)
  have h := hcount.flushRxMbufs t.pktBuf 0 freeBuf
  split
  · exact ⟨h.arrivals, h.copied, h.dropped⟩
  · exact h

/-- The part of `flush_rx_ring` after the backup buffer was emptied. -/
theorem Frees.flushBatch (h : s.Frees t) (o : Offer β) : s.Frees (t.flushBatch o) := by
  have hread := h.trans (frees_pktBufsEnqueRxRing t o)
  simp only [RxStack.flushBatch]
  generalize t.pktBufsEnqueRxRing o = res at hread
  obtain ⟨flushCnt, u⟩ := res
  dsimp only at hread ⊢
  split
  · have hall := hread.pktbufsMoveToBackupBufs flushCnt.toNat (u.pktCnt - flushCnt)
    exact ⟨hall.arrivals, hall.copied, hall.dropped⟩
  · exact ⟨hread.arrivals, hread.copied, hread.dropped⟩

/-- `flush_rx_ring`. -/
theorem Frees.flushRxRing (h : s.Frees t) (o o' : Offer β) : s.Frees (t.flushRxRing o o') := by
  have hback := h.trans (frees_backupBufsEnqueRxRing t o)
  simp only [RxStack.flushRxRing]
  generalize t.backupBufsEnqueRxRing o = u at hback
  split
  · split
    · have hall := hback.pktbufsMoveToBackupBufs 0 u.pktCnt
      exact ⟨hall.arrivals, hall.copied, hall.dropped⟩
    · exact hback.flushBatch o'
  · exact h.flushBatch o'

/-! ## What a stack holds -/

/-- Objects found one after the other. -/
private theorem filterMap_range_eq {α : Type*} {f : ℕ → Option α} {l : List α}
    (hf : ∀ i x, l[i]? = some x → f i = some x) : (List.range l.length).filterMap f = l := by
  induction l using List.reverseRecOn with
  | nil => rfl
  | append_singleton l x ih =>
    have hx : f l.length = some x := hf _ _ (by simp)
    have hl : (List.range l.length).filterMap f = l := ih fun i y hy =>
      hf i y (by rw [List.getElem?_append_left (List.getElem?_eq_some_iff.1 hy).1, hy])
    rw [List.length_append, List.length_singleton, List.range_succ, List.filterMap_append, hl]
    simp [hx]

/-- A stack between calls holds what arrived and was not freed. -/
theorem RxRest.perm (h : s.RxRest) :
    s.arrivals.Perm (s.holdings.held ++ s.holdings.released) := by
  obtain ⟨-, backup, pkts, h⟩ := h
  have hbackup : (List.range s.backupPktCnt.toNat).filterMap
      (fun j => s.backupPktBuf (backupIndex s.backupStart j)) = backup := by
    rw [h.backupPktCnt]
    refine filterMap_range_eq fun i x hx => ?_
    have hi := (List.getElem?_eq_some_iff.1 hx).1
    have hle := h.backup_le
    rw [backupIndex_eq h.backupStart (by omega)]
    exact h.backupPktBuf i x hx
  have hpkts : (List.range s.pktCnt.toNat).filterMap s.pktBuf = pkts := by
    rw [h.pktCnt, Nat.zero_add]
    refine filterMap_range_eq fun i x hx => ?_
    have hplace := h.pktBuf i x hx
    rwa [Nat.zero_add] at hplace
  refine h.perm.trans ?_
  simp only [RxStack.holdings, hbackup, hpkts, ← List.append_assoc]
  refine List.Perm.append_right _ ?_
  rw [List.append_assoc]
  exact List.perm_append_comm

/-- From one state between calls to another, the packets that arrived were taken. -/
theorem RxRest.takes (h : s.RxRest) (h' : t.RxRest) {new : List RxMbuf}
    (harrivals : t.arrivals = s.arrivals ++ new) (hcopied : s.copied <+: t.copied)
    (hdropped : s.dropped <+: t.dropped) : Holdings.Takes new s.holdings t.holdings where
  total x := by
    have hs := h.perm.count_eq x
    have ht := h'.perm.count_eq x
    rw [List.count_append] at hs ht
    rw [harrivals, List.count_append] at ht
    omega
  mono x := by
    have hcount := (hcopied.map Prod.snd).sublist.count_le x
    have hcount' := hdropped.sublist.count_le x
    simp only [RxStack.holdings, List.count_append]
    omega

/-- `flush_rx_ring` releases packets of the stack. -/
theorem RxRest.flushRxRing (h : s.RxRest) (o o' : Offer β) :
    (s.flushRxRing o o').RxRest ∧
      Holdings.Takes [] s.holdings (s.flushRxRing o o').holdings := by
  have hstep : s.step (.flushRxRing o o') = some (s.flushRxRing o o') := rfl
  have hrest : (s.flushRxRing o o').RxRest := (h.step hstep).1
  have hfrees : s.Frees (s.flushRxRing o o') := Frees.flushRxRing (.of_eq rfl rfl rfl) o o'
  exact ⟨hrest, h.takes hrest (by rw [hfrees.arrivals, List.append_nil]) hfrees.copied
    hfrees.dropped⟩

/-- `enqueue_rx_packet` takes the packet. -/
theorem RxRest.enqueueRxPacket (h : s.RxRest) (buf : RxMbuf) (o o' : Offer β) :
    (s.enqueueRxPacket buf o o').RxRest ∧
      Holdings.Takes [buf] s.holdings (s.enqueueRxPacket buf o o').holdings := by
  have hstep : s.step (.enqueueRxPacket buf o o') = some (s.enqueueRxPacket buf o o') := rfl
  have hrest : (s.enqueueRxPacket buf o o').RxRest := (h.step hstep).1
  have hstored : ({ s with arrivals := s.arrivals ++ [buf] } : RxStack β).Frees
      { s with
        pktBuf := Function.update s.pktBuf s.pktCnt.toNat (some buf)
        pktCnt := s.pktCnt + 1
        arrivals := s.arrivals ++ [buf] } := .of_eq rfl rfl rfl
  have hfrees : ({ s with arrivals := s.arrivals ++ [buf] } : RxStack β).Frees
      (s.enqueueRxPacket buf o o') := by
    simp only [RxStack.enqueueRxPacket]
    split
    · exact hstored.flushRxRing o o'
    · exact hstored
  exact ⟨hrest, h.takes hrest hfrees.arrivals hfrees.copied hfrees.dropped⟩

end RxStack

namespace RxSide

variable {β : Type*} {hash : LtranJhash} {s s' : RxSide β} {new : List RxMbuf} {pkt : RxPacket}
  {env : ForwardEnv β}

/-! ## One packet -/

/-- Every stack is between two calls. -/
def Resting (l : List (GazelleStack × RxStack β)) : Prop := ∀ stack ∈ l, stack.2.RxRest

/-- A function is applied to one stack, so the packets that this stack takes are taken. -/
theorem atStack_takes {addr : ℕ} {f : RxStack β → RxStack β}
    (hf : ∀ t, t.RxRest → (f t).RxRest ∧ Holdings.Takes new t.holdings (f t).holdings)
    {l l' : List (GazelleStack × RxStack β)} (hrest : Resting l) (h : atStack addr f l = some l') :
    Resting l' ∧ Holdings.Takes new (stackHoldings l) (stackHoldings l') := by
  induction l generalizing l' with
  | nil => cases h
  | cons stack rest ih =>
    obtain ⟨record, stack⟩ := stack
    obtain ⟨hstack, hrest⟩ := List.forall_mem_cons.1 hrest
    simp only [atStack] at h
    split at h
    · obtain rfl := Option.some.inj h
      obtain ⟨hstack', htakes⟩ := hf stack hstack
      exact ⟨List.forall_mem_cons.2 ⟨hstack', hrest⟩, htakes.append_left _⟩
    · obtain ⟨rest', hrest', rfl⟩ := Option.map_eq_some_iff.1 h
      obtain ⟨hall, htakes⟩ := ih hrest hrest'
      exact ⟨List.forall_mem_cons.2 ⟨hstack, hall⟩, htakes.append_right _⟩

/-- From `s` to `s'`, the stacks and the kernel have taken packets that came in. -/
structure Passes (new : List RxMbuf) (s s' : RxSide β) : Prop where
  /-- The packets. -/
  takes : Holdings.Takes new s.holdings s'.holdings
  /-- The stacks are between two calls. -/
  resting : Resting s'.rxStacks
  /-- The configuration is the same. -/
  kniSwitch : s'.kniSwitch = s.kniSwitch

/-- `enqueue_rx_packet` for a stack. -/
theorem passes_enqueueRxPacket (hrest : Resting s.rxStacks) {stack : Option ℕ} {buf : RxMbuf}
    {offers : Offer β × Offer β} (h : s.enqueueRxPacket stack buf offers = some s') :
    Passes [buf] s s' ∧ s'.received = s.received := by
  obtain ⟨addr, -, h⟩ := Option.bind_eq_some_iff.1 h
  obtain ⟨rxStacks, hstacks, rfl⟩ := Option.map_eq_some_iff.1 h
  obtain ⟨hall, htakes⟩ :=
    atStack_takes (fun t ht => ht.enqueueRxPacket buf offers.1 offers.2) hrest hstacks
  exact ⟨⟨htakes.append_left _, hall, rfl⟩, rfl⟩

/-- `kni_process_tx` releases the batch. -/
theorem takes_kniProcessTx (kni : KniStack) (started : Bool) (sent : ℕ) :
    Holdings.Takes [] ⟨kni.pktBuf, kni.taken ++ kni.freed⟩
      ⟨(kni.kniProcessTx started sent).pktBuf,
        (kni.kniProcessTx started sent).taken ++ (kni.kniProcessTx started sent).freed⟩ := by
  have hsplit : ∀ x, (kni.pktBuf.take sent).count x + (kni.pktBuf.drop sent).count x =
      kni.pktBuf.count x := fun x => by rw [← List.count_append, List.take_append_drop]
  constructor
  · intro x
    have := hsplit x
    unfold KniStack.kniProcessTx
    split
    · simp only [List.count_append, List.count_nil]
      omega
    · simp only [List.count_append, List.count_nil]
      omega
  · intro x
    unfold KniStack.kniProcessTx
    split
    · simp only [List.count_append]
      omega
    · simp only [List.count_append]
      omega

/-- `enqueue_rx_packet` for the stack of the kernel. -/
theorem takes_kniEnqueue (kni : KniStack) (buf : RxMbuf) (started : Bool) (sent : ℕ) :
    Holdings.Takes [buf] ⟨kni.pktBuf, kni.taken ++ kni.freed⟩
      ⟨(kni.enqueueRxPacket buf started sent).pktBuf,
        (kni.enqueueRxPacket buf started sent).taken ++
          (kni.enqueueRxPacket buf started sent).freed⟩ := by
  have hput : Holdings.Takes [buf] ⟨kni.pktBuf, kni.taken ++ kni.freed⟩
      ⟨kni.pktBuf ++ [buf], kni.taken ++ kni.freed⟩ := by
    constructor
    · intro x
      simp only [List.count_append]
      omega
    · exact fun x => Nat.le_refl _
  simp only [KniStack.enqueueRxPacket]
  split
  · have hall := hput.trans (takes_kniProcessTx { kni with pktBuf := kni.pktBuf ++ [buf] } started
      sent)
    rwa [List.append_nil] at hall
  · exact hput

/-- At the end of `upstream_forward_one`, the kernel takes the packet when `kni_switch` is on. -/
theorem passes_forwardToKni (hrest : Resting s.rxStacks) (m : RxMbuf) (env : ForwardEnv β) :
    Passes (if s.kniSwitch then [m] else []) s (s.forwardToKni m env) ∧
      (s.forwardToKni m env).received = s.received := by
  unfold forwardToKni
  split
  · exact ⟨⟨(takes_kniEnqueue s.kni m _ _).append_right _, hrest, rfl⟩, rfl⟩
  · exact ⟨⟨.refl _, hrest, rfl⟩, rfl⟩

/-- `tcp_handle` returns `GAZELLE_OK` when there is a connection, or a listener and room and memory
for a connection. -/
theorem isSome_tcpHandle (tables : LtranTables) (q : GazelleQuintuple) (malloc : Option ℕ) :
    (tables.tcpHandle hash q malloc).2.isSome ↔
      (tables.gazelleConnGetByQuintuple hash (LtranTables.packetQuintuple q)).isSome ∨
        (tables.gazelleSockGetByMinConn hash q.dstIp q.dstPort).isSome ∧
          tables.connHtable.curNum ≠ tables.connHtable.maxNum ∧ malloc.isSome := by
  have hip : q.dstIp = (LtranTables.packetQuintuple q).dstIp := rfl
  have hport : q.dstPort = (LtranTables.packetQuintuple q).dstPort := rfl
  rw [hip, hport, LtranTables.tcpHandle]
  generalize LtranTables.packetQuintuple q = q'
  dsimp only
  cases hconn : tables.gazelleConnGetByQuintuple hash q' with
  | some conn => simp
  | none =>
    cases hsock : tables.gazelleSockGetByMinConn hash q'.dstIp q'.dstPort with
    | none => simp
    | some sock =>
      simp only [LtranTables.gazelleConnAddByQuintuple, hconn]
      by_cases hfull : tables.connHtable.curNum = tables.connHtable.maxNum
      · simp [hfull]
      · cases malloc with
        | none => simp [hfull]
        | some addr => simp [hfull]

/-- `tcp_handle`. -/
theorem passes_tcpHandle (hrest : Resting s.rxStacks) {pkt : RxPacket} {env : ForwardEnv β}
    {ok : Bool} (h : s.tcpHandle hash pkt env = some (s', ok)) :
    (Passes (if ok then [pkt.mbuf] else []) s s' ∧ s'.received = s.received) ∧
      (ok = true ↔ (s.tables.tcpHandle hash pkt.qtuple env.malloc).2.isSome) := by
  unfold tcpHandle at h
  generalize s.tables.tcpHandle hash pkt.qtuple env.malloc = res at h ⊢
  obtain ⟨tables, stack⟩ := res
  cases stack with
  | none =>
    obtain ⟨rfl, rfl⟩ := Prod.mk.inj (Option.some.inj h)
    exact ⟨⟨⟨.refl _, hrest, rfl⟩, rfl⟩, by simp⟩
  | some stack =>
    obtain ⟨t, ht, heq⟩ := Option.map_eq_some_iff.1 h
    obtain ⟨rfl, rfl⟩ := Prod.mk.inj heq
    obtain ⟨hpass, hreceived⟩ := passes_enqueueRxPacket (s := { s with
      sockHtable := tables.sockHtable, connHtable := tables.connHtable }) hrest ht
    exact ⟨⟨⟨hpass.takes, hpass.resting, hpass.kniSwitch⟩, hreceived⟩, by simp⟩

/-- `icmp_handle`. -/
theorem passes_icmpHandle (hrest : Resting s.rxStacks) {pkt : RxPacket} {env : ForwardEnv β}
    {ok : Bool} (h : s.icmpHandle pkt env = some (s', ok)) :
    (Passes (if ok then [pkt.mbuf] else []) s s' ∧ s'.received = s.received) ∧
      (ok = true ↔ ∃ addr, s.getIcmpHandleStack pkt = some (some addr)) := by
  unfold icmpHandle at h
  split at h
  · cases h
  · rename_i hstack
    obtain ⟨rfl, rfl⟩ := Prod.mk.inj (Option.some.inj h)
    exact ⟨⟨⟨.refl _, hrest, rfl⟩, rfl⟩, by simp [hstack]⟩
  · rename_i addr hstack
    obtain ⟨t, ht, heq⟩ := Option.map_eq_some_iff.1 h
    obtain ⟨rfl, rfl⟩ := Prod.mk.inj heq
    exact ⟨passes_enqueueRxPacket hrest ht, by simp [hstack]⟩

/-- `ipv4_handle`. -/
theorem passes_ipv4Handle (hrest : Resting s.rxStacks) {pkt : RxPacket} {env : ForwardEnv β}
    {ok : Bool} (hversion : ipVersion pkt = 4) (h : s.ipv4Handle hash pkt env = some (s', ok)) :
    (Passes (if ok then [pkt.mbuf] else []) s s' ∧ s'.received = s.received) ∧
      (ok = true ↔ s.Deliverable hash pkt env.malloc) := by
  unfold ipv4Handle at h
  by_cases htcp : pkt.nextProtoId = 6
  · rw [if_pos htcp] at h
    obtain ⟨hpass, hok⟩ := passes_tcpHandle hrest h
    refine ⟨hpass, hok.trans ((isSome_tcpHandle _ _ _).trans ?_)⟩
    simp [Deliverable, hversion, htcp, LtranTables.packetQuintuple, tables]
  · rw [if_neg htcp] at h
    by_cases hicmp : pkt.nextProtoId = 1
    · rw [if_pos hicmp] at h
      obtain ⟨hpass, hok⟩ := passes_icmpHandle hrest h
      refine ⟨hpass, hok.trans ?_⟩
      simp [Deliverable, hversion, hicmp]
    · rw [if_neg hicmp] at h
      obtain ⟨rfl, rfl⟩ := Prod.mk.inj (Option.some.inj h)
      refine ⟨⟨⟨.refl _, hrest, rfl⟩, rfl⟩, fun hok => absurd hok Bool.false_ne_true, ?_⟩
      rintro ⟨-, ⟨h6, -⟩ | ⟨h1, -⟩⟩
      · exact absurd h6 htcp
      · exact absurd h1 hicmp

/-- The stack that is on does not depend on what came in. -/
private theorem firstStackOn_received (r : List RxMbuf) (l : List (Option ℕ)) :
    { s with received := r }.firstStackOn l = s.firstStackOn l := by
  induction l with
  | nil => rfl
  | cons stack rest ih =>
    cases stack with
    | none => exact ih
    | some addr => simp only [firstStackOn, stackAt, ih]

/-- Whether a stack takes a packet does not depend on what came in. -/
private theorem deliverable_received (r : List RxMbuf) {malloc : Option ℕ} :
    { s with received := r }.Deliverable hash pkt malloc ↔ s.Deliverable hash pkt malloc := by
  simp only [Deliverable, getIcmpHandleStack, gazelleInstanceGetByIp, firstStackOn_received, tables]

/-- `arp_handle` gives copies to stacks. -/
theorem passes_arpLoop {m : RxMbuf} {env : ForwardEnv β} {places : List (GazelleInstance × ℕ × ℕ)}
    (hrest : Resting s.rxStacks) (hnodup : (m.addr :: s.holdings.held.map RxMbuf.addr).Nodup)
    (h : arpLoop m env places s = some s') :
    ∃ copies, Passes copies s s' ∧ s'.received = s.received ++ copies ∧
      (m.addr :: s'.holdings.held.map RxMbuf.addr).Nodup := by
  -- by induction on the stacks; a copy has an address that nobody holds
  induction places generalizing s with
  | nil =>
    obtain rfl := Option.some.inj h
    exact ⟨[], ⟨.refl _, hrest, rfl⟩, (List.append_nil _).symm, hnodup⟩
  | cons place rest ih =>
    obtain ⟨inst, i, j⟩ := place
    rw [arpLoop] at h
    split at h
    · split at h
      · exact ih hrest hnodup h
      · rename_i addr _
        split at h
        · cases h
        · split at h
          · split at h
            · obtain rfl := Option.some.inj h
              exact ⟨[], ⟨.refl _, hrest, rfl⟩, (List.append_nil _).symm, hnodup⟩
            · rename_i copyAddr _
              split at h
              · cases h
              · rename_i hfresh
                obtain ⟨t, ht, h⟩ := Option.bind_eq_some_iff.1 h
                obtain ⟨hpass, hreceived⟩ := passes_enqueueRxPacket (s := { s with
                  received := s.received ++ [{ m with addr := copyAddr }] }) hrest ht
                have htakes : Holdings.Takes [{ m with addr := copyAddr }] s.holdings t.holdings :=
                  hpass.takes
                have hnew : ((m :: s.holdings.held ++ [{ m with addr := copyAddr }]).map
                    RxMbuf.addr).Nodup := by
                  rw [List.map_append, List.nodup_append]
                  refine ⟨hnodup, List.nodup_singleton _, fun a ha b hb heq => ?_⟩
                  have hb : b = copyAddr := List.mem_singleton.1 hb
                  exact hfresh (hb ▸ heq ▸ ha)
                obtain ⟨copies, hpass', hreceived', hnodup'⟩ :=
                  ih hpass.resting (htakes.nodup_cons hnew) h
                refine ⟨{ m with addr := copyAddr } :: copies,
                  ⟨htakes.trans hpass'.takes, hpass'.resting,
                    hpass'.kniSwitch.trans hpass.kniSwitch⟩, ?_, hnodup'⟩
                rw [hreceived', hreceived, List.append_assoc]
                rfl
          · exact ih hrest hnodup h
    · cases h

variable (hash s s' pkt env) in
/-- What `upstream_forward_one` does with a packet: with the packet came copies of it, the copies
are taken, and so is the packet when a stack takes it or `kni_switch` is on. -/
structure Forwards (copies taken : List RxMbuf) : Prop where
  /-- What came in. -/
  received : s'.received = s.received ++ pkt.mbuf :: copies
  /-- The stacks are between two calls. -/
  resting : Resting s'.rxStacks
  /-- What was taken. -/
  takes : Holdings.Takes (copies ++ taken) s.holdings s'.holdings
  /-- The mbufs that are held are different. -/
  nodup : (s'.holdings.held.map RxMbuf.addr).Nodup
  /-- Whether the packet was. -/
  taken : s.Condition hash (.forward pkt env) ∧ taken = [pkt.mbuf] ∨
    ¬ s.Condition hash (.forward pkt env) ∧ taken = []

/-- The packet reaches the end of `upstream_forward_one`. -/
theorem forwards_forwardToKni {t : RxSide β} {copies : List RxMbuf} (hpass : Passes copies s t)
    (hreceived : t.received = s.received ++ pkt.mbuf :: copies)
    (hnodup : ((pkt.mbuf :: t.holdings.held).map RxMbuf.addr).Nodup)
    (hnot : ¬ s.Deliverable hash pkt env.malloc) :
    ∃ taken, Forwards hash s (t.forwardToKni pkt.mbuf env) pkt env copies taken := by
  obtain ⟨hend, hreceived'⟩ := passes_forwardToKni hpass.resting pkt.mbuf env
  refine ⟨_, hreceived'.trans hreceived, hend.resting, hpass.takes.trans hend.takes,
    hend.takes.nodup ?_, ?_⟩
  · rw [List.map_append]
    refine (List.perm_append_comm.nodup_iff).1 ?_
    split
    · exact hnodup
    · exact (List.nodup_cons.1 hnodup).2
  · rw [hpass.kniSwitch]
    cases hswitch : s.kniSwitch with
    | true => exact .inl ⟨.inl hswitch, rfl⟩
    | false => exact .inr ⟨fun hc => hc.elim (by rw [hswitch]; decide) hnot, rfl⟩

/-- `upstream_forward_one`. -/
theorem forwards_upstreamForwardOne (hrest : Resting s.rxStacks)
    (hnodup : (s.holdings.held.map RxMbuf.addr).Nodup)
    (h : s.upstreamForwardOne hash pkt env = some s') :
    ∃ copies taken, Forwards hash s s' pkt env copies taken := by
  unfold upstreamForwardOne at h
  split at h
  · cases h
  -- the mbuf is a new one, in no place yet
  rename_i hfresh
  have hnodup : ((pkt.mbuf :: s.holdings.held).map RxMbuf.addr).Nodup :=
    List.nodup_cons.2 ⟨hfresh, hnodup⟩
  split at h
  · rename_i hversion
    obtain ⟨⟨t, ok⟩, ht, rfl⟩ := Option.map_eq_some_iff.1 h
    obtain ⟨⟨hpass, hreceived⟩, hok⟩ := passes_ipv4Handle
      (s := { s with received := s.received ++ [pkt.mbuf] }) hrest hversion ht
    have hok : ok = true ↔ s.Deliverable hash pkt env.malloc :=
      hok.trans (deliverable_received _)
    cases ok with
    | true =>
      -- the packet is delivered to a stack
      refine ⟨[], [pkt.mbuf], hreceived, hpass.resting, hpass.takes, hpass.takes.nodup ?_,
        .inl ⟨.inr (hok.1 rfl), rfl⟩⟩
      rw [List.map_append]
      exact (List.perm_append_comm.nodup_iff).1 hnodup
    | false =>
      -- it is not, and goes to the kernel
      have hpass : Passes [] s t := ⟨hpass.takes, hpass.resting, hpass.kniSwitch⟩
      exact ⟨[], forwards_forwardToKni hpass hreceived
        (hpass.takes.nodup_cons (by rwa [List.append_nil]))
        fun hd => Bool.false_ne_true (hok.2 hd)⟩
  · -- a packet of another kind is not for one stack
    rename_i hversion
    have hnot : ¬ s.Deliverable hash pkt env.malloc := fun hd => hversion hd.1
    -- an ARP packet is copied for the stacks, and goes to the kernel as well
    split at h
    · obtain ⟨t, ht, rfl⟩ := Option.map_eq_some_iff.1 h
      obtain ⟨copies, hpass, hreceived, hnodup⟩ := passes_arpLoop
        (s := { s with received := s.received ++ [pkt.mbuf] }) hrest hnodup ht
      refine ⟨copies, forwards_forwardToKni ⟨hpass.takes, hpass.resting, hpass.kniSwitch⟩ ?_
        hnodup hnot⟩
      rw [hreceived, List.append_assoc]
      rfl
    · obtain rfl := Option.some.inj h
      exact ⟨[], forwards_forwardToKni (t := { s with received := s.received ++ [pkt.mbuf] })
        ⟨.refl _, hrest, rfl⟩ rfl hnodup hnot⟩

/-! ## All sequences -/

/-- The stacks are between two calls, and each packet has one owner. -/
private def OwnersInv (s : RxSide β) : Prop := OneOwner s ∧ Resting s.rxStacks

/-- Packets are taken when they come in, so they keep having one owner. -/
private theorem OwnersInv.of_takes (h : OwnersInv s) (hrest : Resting s'.rxStacks)
    (htakes : Holdings.Takes new s.holdings s'.holdings) {came : List RxMbuf}
    (hreceived : s'.received = s.received ++ came) (hcame : came.Perm new)
    (hnodup : (s'.holdings.held.map RxMbuf.addr).Nodup) : OwnersInv s' := by
  refine ⟨⟨List.perm_iff_count.2 fun x => ?_, hnodup⟩, hrest⟩
  have hs := h.1.perm.count_eq x
  have htotal := htakes.total x
  have hnew := hcame.count_eq x
  rw [hreceived]
  rw [List.count_append] at hs ⊢
  rw [List.count_append]
  omega

/-- The other actions take nothing. -/
private theorem OwnersInv.of_takes_nil (h : OwnersInv s) (hrest : Resting s'.rxStacks)
    (htakes : Holdings.Takes [] s.holdings s'.holdings) (hreceived : s'.received = s.received) :
    OwnersInv s' :=
  h.of_takes hrest htakes (hreceived.trans (List.append_nil _).symm) (.refl _)
    (htakes.nodup (by rw [List.append_nil]; exact h.1.nodup))

/-- A step that meets the condition keeps one owner. -/
private theorem OwnersInv.step (h : OwnersInv s) {act : RxSideAction β}
    (hc : s.Condition hash act) (hstep : s.step hash act = some s') : OwnersInv s' := by
  obtain ⟨⟨-, hnodup⟩, hrest⟩ := id h
  cases act with
  | forward pkt env =>
    obtain ⟨copies, taken, hf⟩ := forwards_upstreamForwardOne hrest hnodup hstep
    -- under the condition there is somebody who takes the packet
    obtain rfl : taken = [pkt.mbuf] := (hf.taken.resolve_right fun hnot => hnot.1 hc).2
    exact h.of_takes hf.resting hf.takes hf.received
      (List.perm_append_singleton pkt.mbuf copies).symm hf.nodup
  | flush addr offers =>
    obtain ⟨rxStacks, hstacks, rfl⟩ := Option.map_eq_some_iff.1 hstep
    obtain ⟨hall, htakes⟩ :=
      atStack_takes (fun t ht => ht.flushRxRing offers.1 offers.2) hrest hstacks
    -- a flush moves mbufs from the batch of a stack to its ring, or frees them
    exact h.of_takes_nil hall (htakes.append_left _) rfl
  | flushKni started sent =>
    obtain rfl := Option.some.inj hstep
    exact h.of_takes_nil hrest ((takes_kniProcessTx s.kni started sent).append_right _) rfl
  | control mgr sockHtable connHtable record =>
    obtain rfl := Option.some.inj hstep
    -- the control thread writes the records of the stacks, not their mbufs
    have hsame : ∀ l : List (GazelleStack × RxStack β),
        stackHoldings (l.map fun stack => (record stack.1, stack.2)) = stackHoldings l := by
      intro l
      induction l with
      | nil => rfl
      | cons stack rest ih => rw [List.map_cons, stackHoldings, stackHoldings, ih]
    refine h.of_takes_nil (fun entry hentry => ?_) ?_ rfl
    · obtain ⟨stack, hmem, rfl⟩ := List.mem_map.1 hentry
      exact hrest stack hmem
    · simp only [holdings, hsame]
      exact .refl _
  | addStack record rxRing =>
    obtain rfl := Option.some.inj hstep
    -- a new stack has no mbufs
    refine h.of_takes_nil (List.forall_mem_cons.2 ⟨.create rxRing, hrest⟩) ?_ rfl
    exact Holdings.Takes.refl _

/-- A step after which each packet has one owner met the condition. -/
private theorem condition_of_oneOwner (h : OwnersInv s) {act : RxSideAction β}
    (hone : OneOwner s') (hstep : s.step hash act = some s') : s.Condition hash act := by
  cases act with
  | forward pkt env =>
    obtain ⟨copies, taken, hf⟩ := forwards_upstreamForwardOne h.2 h.1.nodup hstep
    rcases hf.taken with ⟨hc, -⟩ | ⟨-, rfl⟩
    · exact hc
    · -- the packet came in and was not taken
      exfalso
      have hs := h.1.perm.count_eq pkt.mbuf
      have hs' := hone.perm.count_eq pkt.mbuf
      have htotal := hf.takes.total pkt.mbuf
      rw [hf.received] at hs'
      simp only [List.count_append, List.count_cons_self, List.append_nil] at hs hs' htotal
      omega
  | flush => trivial
  | flushKni => trivial
  | control => trivial
  | addStack => trivial

/-- Each packet and each copy has one owner in all states of a run, exactly when for each packet in
the run `kni_switch` is on or a stack takes the packet. -/
theorem rx_one_owner (hash : LtranJhash) (mgr : InstanceMgr) (sockHtable : GazelleTcpSockHtable)
    (connHtable : GazelleTcpConnHtable) (kniSwitch : Bool) (acts : List (RxSideAction β)) :
    (system hash).statesHold OneOwner (create mgr sockHtable connHtable kniSwitch) acts ↔
      (system hash).stepsMeet (Condition hash) (create mgr sockHtable connHtable kniSwitch) acts :=
  Transition.System.statesHold_iff_stepsMeet (J := OwnersInv) (fun _ h => h.1)
    (fun _ _ _ h hc hstep => h.step hc hstep)
    (fun _ _ _ h hone hstep => condition_of_oneOwner h hone hstep)
    ⟨⟨.refl _, List.nodup_nil⟩, fun _ h => absurd h List.not_mem_nil⟩

private theorem sixty_le_bufSize : (60 : BitVec 16).toNat ≤ rteMbufDefaultBufSize := by decide

/-- A UDP packet. -/
private def udpPacket : RxPacket where
  mbuf := ⟨1, 60, sixty_le_bufSize⟩
  versionIhl := 0x45
  etherType := 0x0008
  nextProtoId := 17
  qtuple := ⟨0, 53, 68, 1, 2⟩
  arpTip := 0

/-- No stack gets an mbuf or takes a packet. -/
private def idleEnv : ForwardEnv ℕ where
  malloc := none
  alloc _ _ := none
  offer _ _ := (⟨⟨0, 0⟩, fun _ => 0⟩, ⟨⟨0, 0⟩, fun _ => 0⟩)
  kniStarted := false
  kniSent := 0

/-- A UDP packet is neither given away nor freed when `kni_switch` is off. -/
theorem rx_leaks :
    ¬ (system ⟨fun _ _ => 0, fun _ _ _ _ => 0⟩).statesHold OneOwner
      (create ⟨0, 1, fun _ => 0, fun _ => none⟩ (.create 4096) (.create 4096) false)
      [.forward udpPacket idleEnv] := fun h =>
  absurd ((h.2 _ rfl).perm.length_eq) (by decide +kernel)

end RxSide

end Gazelle
