import Gazelle.Ethdev.SynDistribution
import Gazelle.Transition.Tokens

/-!
# The mbufs of received packets

Without ltran, `gazelle_eth_dev_poll` gives each packet to lwIP, to KNI, to the thread of another
stack or to another process. An ARP packet is copied for every stack first, and its address is
written to the other processes, which copy it for their stacks; the address of a SYN for another
process is written to that process. Every allocation, call and connection on the way may fail.

Here one packet is followed, with the processes that get its address. One allocation, one call or
one connection is one step, and its outcome is the action.

* `RxSys.system`: all orders of the steps of the poller with those of the other processes;
* `RxSys.Owned`: every mbuf has one owner, and is not given away while a process will read it;
* `RxSys.Keeps`: the outcomes and orders for which this stays so;
* `RxSys.owned_iff`: in every run, all states are right exactly when all steps are such;
* `RxSys.not_owned_syn`: the packet of a SYN for another process is lost.
-/

namespace Gazelle

/-! ## The packet and the settings -/

/-- A packet, with the fields of its Ethernet header. -/
structure PolledPacket extends SynPacket where
  /-- `ether_type`. -/
  etherType : BitVec 16
  /-- `rte_is_broadcast_ether_addr` of the destination. -/
  broadcast : Bool

/-- The settings of the poller and of the other processes. -/
structure RxCfg extends QueueCfg where
  /-- `rte_jhash_3words` of two words and 0, with 0 as its initial value. -/
  hash : BitVec 32 → BitVec 32 → BitVec 32
  /-- `g_listen_ports` and `g_user_ports`. -/
  tables : PortTables
  /-- `tuple_filter`. -/
  tupleFilter : Bool
  /-- `queue_id` of the stack that polls. -/
  queueId : BitVec 16
  /-- `num_process`. -/
  numProcess : ℕ
  /-- `stack_num` of each process; process 0 polls. -/
  stackNum : ℕ → ℕ
  /-- `kni_switch` is set and KNI has started. -/
  kniReady : Bool

/-- `RTE_BE16(RTE_ETHER_TYPE_ARP)`. -/
def rteEtherTypeArp : BitVec 16 := 0x0608

/-- Where an mbuf ends up. -/
inductive RxEnd
  /-- lwIP of the stack that polls. -/
  | lwip
  /-- A queued `stack_arp` message for a stack of a process. -/
  | stackArp (process stack : ℕ)
  /-- KNI. -/
  | kni
  /-- It is freed. -/
  | freed
  deriving DecidableEq

/-! ## The threads -/

/-- Where `gazelle_eth_dev_poll` stands with the packet. -/
inductive PollerPc
  /-- Before the test of `ether_type`. -/
  | poll
  /-- `stack_broadcast_arp` before the allocation for stack `i`. -/
  | bcastAlloc (i : ℕ)
  /-- Before `rpc_call_arp` for stack `i`, with the copy. -/
  | bcastCall (i copy : ℕ)
  /-- `transfer_arp_to_other_process` before it connects to process `i`. -/
  | sendArp (i : ℕ)
  /-- Before `kni_handle_tx`. -/
  | kni
  /-- Before `eth_dev_recv`. -/
  | recv
  /-- In the loop of `transfer_tcp_to_thread`. -/
  | toThread (stkIdx : BitVec 16)
  /-- `distribute_pakages` before it connects to process `i`, with the text to write. -/
  | sendTcp (i : ℕ) (buf : Option (List Char))
  /-- Done with the packet. -/
  | done
  deriving DecidableEq

/-- Where another process stands with the address of the packet. -/
inductive PeerPc
  /-- It has not got the address. -/
  | none
  /-- The address of an ARP packet is in its socket. -/
  | arpSent
  /-- `parse_arp_and_transefer` in the loop of the allocation for stack `i`. -/
  | arpAlloc (i : ℕ)
  /-- Before `copy_mbuf`. -/
  | arpCopy (i copy : ℕ)
  /-- Before `rpc_call_arp`. -/
  | arpCall (i copy : ℕ)
  /-- In the loop after it. -/
  | arpRetry (i copy : ℕ)
  /-- The address of a SYN is in its socket, with the queue. -/
  | tcpSent (buf : Option (List Char))
  /-- `parse_tcp_and_transefer` in the loop of the allocation. -/
  | tcpAlloc (stkIdx : BitVec 16)
  /-- Before `copy_mbuf`. -/
  | tcpCopy (stkIdx : BitVec 16) (copy : ℕ)
  /-- In the loop of `transfer_tcp_to_thread`. -/
  | tcpCall (stkIdx : BitVec 16) (copy : ℕ)
  /-- Done with the packet. -/
  | done
  deriving DecidableEq

/-- The copy that the poller has. -/
def PollerPc.copy : PollerPc → Option ℕ
  | .bcastCall _ c => some c
  | _ => none

/-- The poller has not connected to process `p` yet. -/
def PollerPc.Unsent (p : ℕ) : PollerPc → Prop
  | .sendArp i => i ≤ p
  | .kni | .done => False
  | _ => True

namespace PeerPc

/-- The copy that the process has. -/
def copy : PeerPc → Option ℕ
  | .arpCopy _ c | .arpCall _ c | .arpRetry _ c | .tcpCopy _ c | .tcpCall _ c => some c
  | _ => Option.none

/-- The process has the packet itself: nobody else is left to free it. -/
def HasPacket : PeerPc → Prop
  | .tcpSent _ | .tcpAlloc _ | .tcpCopy _ _ | .tcpCall _ _ => True
  | _ => False

/-- The process, which has `n` stacks, will read the packet. -/
def Reads (n : ℕ) : PeerPc → Prop
  | .arpSent => 0 < n
  | .arpAlloc i => i < n
  | .arpCall i _ => i + 1 < n
  | .arpCopy _ _ | .tcpSent _ | .tcpAlloc _ | .tcpCopy _ _ => True
  | _ => False

end PeerPc

/-- A packet with the processes that work on it. -/
structure RxSys where
  /-- The poller. -/
  poller : PollerPc
  /-- The other processes. -/
  peers : ℕ → PeerPc
  /-- Where the packet has ended up. -/
  mbuf : List RxEnd
  /-- Where the copies have ended up. -/
  ends : ℕ → List RxEnd
  /-- The number of copies. -/
  allocs : ℕ

/-- The actions, with the outcome of what is tried. -/
inductive RxAct
  /-- The poller makes its next step. -/
  | poller (ok : Bool)
  /-- A process makes its next step. -/
  | peer (p : ℕ) (ok : Bool)
  deriving DecidableEq

namespace RxSys

variable (cfg : RxCfg) (pkt : PolledPacket) (s : RxSys)

/-- A copy ends up at `e`. -/
def finish (c : ℕ) (e : RxEnd) : ℕ → List RxEnd :=
  Function.update s.ends c (s.ends c ++ [e])

/-- What follows `stack_broadcast_arp`. -/
def afterBroadcast : PollerPc := if pkt.broadcast then .recv else .sendArp 1

/-- The choice of `gazelle_eth_dev_poll`, with the call of `distribute_pakages`. -/
def classify : Option PollerPc :=
  if pkt.etherType = rteEtherTypeArp then some (.bcastAlloc 0)
  else if cfg.tupleFilter ∧ cfg.queueId = 0 then
    match distributePakages cfg.toQueueCfg cfg.hash cfg.tables pkt.toSynPacket with
    | .kernel => some .kni
    | .currentThread => some .recv
    | .thread _ stkIdx => some (.toThread stkIdx)
    | .process i buf => some (.sendTcp i.toNat buf)
    | .outOfBounds => none
  else some .recv

/-- The next step of the poller. -/
def pollerStep (ok : Bool) : Option RxSys :=
  match s.poller with
  | .poll => (classify cfg pkt).map fun poller => { s with poller }
  | .bcastAlloc i =>
    if i < cfg.stackNum 0 ∧ ok then
      some { s with poller := .bcastCall i s.allocs, allocs := s.allocs + 1 }
    else some { s with poller := afterBroadcast pkt }
  | .bcastCall i c =>
    if ok then some { s with poller := .bcastAlloc (i + 1), ends := s.finish c (.stackArp 0 i) }
    else some { s with poller := afterBroadcast pkt }
  | .sendArp i =>
    if i < cfg.numProcess then
      some { s with
        poller := .sendArp (i + 1)
        peers := if ok then Function.update s.peers i .arpSent else s.peers }
    else some { s with poller := .kni }
  | .kni =>
    some { s with
      poller := .done
      mbuf := s.mbuf ++ [if cfg.kniReady ∧ ok then .kni else .freed] }
  | .recv =>
    -- an error of the input function leaves the pbuf to the caller, which only counts it
    some { s with poller := .done, mbuf := if ok then s.mbuf ++ [.lwip] else s.mbuf }
  | .toThread stkIdx =>
    if ok then some { s with poller := .done, mbuf := s.mbuf ++ [.stackArp 0 stkIdx.toNat] }
    else some s
  | .sendTcp i buf =>
    some { s with
      poller := .done
      peers := if ok then Function.update s.peers i (.tcpSent buf) else s.peers }
  | .done => none

/-- The next step of process `p`. -/
def peerStep (p : ℕ) (ok : Bool) : Option RxSys :=
  match s.peers p with
  | .none | .done => none
  | .arpSent => some { s with peers := Function.update s.peers p (.arpAlloc 0) }
  | .arpAlloc i =>
    if i < cfg.stackNum p then
      if ok then
        some { s with
          peers := Function.update s.peers p (.arpCopy i s.allocs)
          allocs := s.allocs + 1 }
      else some s
    else some { s with peers := Function.update s.peers p .done }
  | .arpCopy i c => some { s with peers := Function.update s.peers p (.arpCall i c) }
  | .arpCall i c =>
    if ok then
      some { s with
        peers := Function.update s.peers p (.arpAlloc (i + 1))
        ends := s.finish c (.stackArp p i) }
    else some { s with peers := Function.update s.peers p (.arpRetry i c) }
  | .arpRetry i c =>
    -- the result of the call is not looked at
    if ok then some { s with ends := s.finish c (.stackArp p i) } else some s
  | .tcpSent buf =>
    (buf.bind (parseTcpAndTransefer cfg.toQueueCfg)).map fun text =>
      { s with peers := Function.update s.peers p (.tcpAlloc text.2) }
  | .tcpAlloc stkIdx =>
    if ok then
      some { s with
        peers := Function.update s.peers p (.tcpCopy stkIdx s.allocs)
        allocs := s.allocs + 1 }
    else some s
  | .tcpCopy stkIdx c => some { s with peers := Function.update s.peers p (.tcpCall stkIdx c) }
  | .tcpCall stkIdx c =>
    if ok then
      some { s with
        peers := Function.update s.peers p .done
        ends := s.finish c (.stackArp p stkIdx.toNat) }
    else some s

/-- A packet that `rx_poll` has just returned. -/
def received : RxSys where
  poller := .poll
  peers _ := .none
  mbuf := []
  ends _ := []
  allocs := 0

/-- One packet, with all orders and outcomes. -/
def system : Transition.System RxSys RxAct where
  Init s := s = received
  step s a :=
    match a with
    | .poller ok => s.pollerStep cfg pkt ok
    | .peer p ok => s.peerStep cfg p ok

/-! ## Ownership -/

/-- Some thread has the packet. -/
def PacketHeld : Prop := s.poller ≠ .done ∨ ∃ p, (s.peers p).HasPacket

/-- Some thread has the copy. -/
def CopyHeld (c : ℕ) : Prop := s.poller.copy = some c ∨ ∃ p, (s.peers p).copy = some c

/-- Every mbuf has a thread that works on it or has ended up at one place, and the packet is not
given away while a process will read it. -/
structure Owned : Prop where
  /-- The packet has not ended up anywhere while a thread has it. -/
  packet_held : s.PacketHeld → s.mbuf = []
  /-- Afterwards it has one owner, or is freed once. -/
  packet_ended : ¬ s.PacketHeld → s.mbuf.length = 1
  /-- A copy has not been delivered while a thread has it. -/
  copy_held : ∀ c, s.CopyHeld c → s.ends c = []
  /-- Afterwards it has been delivered once. -/
  copy_ended : ∀ c, c < s.allocs → ¬ s.CopyHeld c → (s.ends c).length = 1
  /-- The packet stays with the poller until the last process has copied it. -/
  reads : ∀ p, (s.peers p).Reads (cfg.stackNum p) → s.mbuf = []

/-- The outcomes and orders that keep this. -/
def Keeps : RxAct → Prop
  | .poller ok =>
    match s.poller with
    | .bcastCall _ _ | .recv | .sendTcp _ _ => ok = true
    | .kni => ∀ p, ¬ (s.peers p).Reads (cfg.stackNum p)
    | _ => True
  | .peer p ok =>
    match s.peers p with
    | .arpRetry _ _ | .tcpCall _ _ => ok = false
    | _ => True

/-! ## The invariant -/

/-- The poller and the processes as holders of the copies: `none` is the poller. -/
def tokens : Tokens (Option ℕ) RxEnd where
  hold x := x.elim s.poller.copy fun p => (s.peers p).copy
  ends := s.ends
  allocs := s.allocs

/-- What holds as long as the steps are such. -/
structure Inv : Prop where
  /-- The copies. -/
  copies : s.tokens.Linear
  /-- The packet has not ended up anywhere while a thread has it. -/
  held : s.PacketHeld → s.mbuf = []
  /-- Afterwards it has one owner. -/
  ended : ¬ s.PacketHeld → s.mbuf.length = 1
  /-- The packet stays with the poller until the last process has copied it. -/
  reads : ∀ p, (s.peers p).Reads (cfg.stackNum p) → s.mbuf = []
  /-- A process to which the poller has not connected yet has nothing. -/
  unsent : ∀ p, s.poller.Unsent p → s.peers p = .none
  /-- While the poller has the packet, no process has it. -/
  noPeer : s.poller ≠ .done → ∀ p, ¬ (s.peers p).HasPacket
  /-- One process at most has the packet. -/
  onePeer : ∀ p q, (s.peers p).HasPacket → (s.peers q).HasPacket → p = q

variable {cfg pkt s} {p : ℕ} {ok : Bool} {s' : RxSys} {ends : ℕ → List RxEnd} {allocs : ℕ}

/-- The holders after a step of the poller. -/
theorem tokens_poller (poller : PollerPc) :
    tokens { s with poller, ends, allocs } =
      ⟨Function.update s.tokens.hold none poller.copy, ends, allocs⟩ := by
  have hhold : (tokens { s with poller, ends, allocs }).hold =
      Function.update s.tokens.hold none poller.copy := by
    funext x
    cases x with
    | none => simp only [tokens, Option.elim, Function.update_self]
    | some q => simp only [tokens, Option.elim, Function.update_of_ne (Option.some_ne_none q)]
  rw [← hhold]
  rfl

/-- The holders after a step of a process. -/
theorem tokens_peer (pc : PeerPc) :
    tokens { s with peers := Function.update s.peers p pc, ends, allocs } =
      ⟨Function.update s.tokens.hold (some p) pc.copy, ends, allocs⟩ := by
  have hhold : (tokens { s with peers := Function.update s.peers p pc, ends, allocs }).hold =
      Function.update s.tokens.hold (some p) pc.copy := by
    funext x
    cases x with
    | none =>
      have hne : (none : Option ℕ) ≠ some p := (Option.some_ne_none p).symm
      exact (Function.update_of_ne hne ..).symm
    | some q =>
      by_cases hq : q = p
      · subst hq
        simp only [tokens, Option.elim, Function.update_self]
      · simp only [tokens, Option.elim, Function.update_of_ne hq,
          Function.update_of_ne (Option.some_injective _ |>.ne hq)]
  rw [← hhold]
  rfl

/-- A copy that a thread has is held. -/
theorem copyHeld_iff {c : ℕ} : s.CopyHeld c ↔ ∃ x, s.tokens.hold x = some c := by
  constructor
  · rintro (h | ⟨p, h⟩)
    · exact ⟨none, h⟩
    · exact ⟨some p, h⟩
  · rintro ⟨x, h⟩
    cases x with
    | none => exact .inl h
    | some p => exact .inr ⟨p, h⟩

/-- The invariant is what is wanted. -/
theorem Inv.owned (h : Inv cfg s) : Owned cfg s where
  packet_held := h.held
  packet_ended := h.ended
  copy_held c hc := by
    obtain ⟨x, hx⟩ := copyHeld_iff.1 hc
    exact h.copies.held x c hx
  copy_ended c hlt hnot := h.copies.ended c hlt fun x hx => hnot (copyHeld_iff.2 ⟨x, hx⟩)
  reads := h.reads

/-- A packet that has just been received. -/
theorem inv_received : Inv cfg received where
  copies :=
    { lt := fun x c hx => by cases x <;> cases hx
      inj := fun x _ c hx => by cases x <;> cases hx
      held := fun _ _ _ => rfl
      ended := fun _ hc => absurd hc (Nat.not_lt_zero _)
      fresh := fun _ _ => rfl }
  held _ := rfl
  ended hnot := absurd (.inl fun h => by cases h) hnot
  reads _ _ := rfl
  unsent _ _ := rfl
  noPeer _ _ := id
  onePeer _ _ hp := hp.elim

/-! ## The poller -/

/-- After the broadcast the poller has the packet still, and no copy. -/
theorem afterBroadcast_ne_done (pkt : PolledPacket) : afterBroadcast pkt ≠ .done := by
  unfold afterBroadcast
  split <;> exact PollerPc.noConfusion

theorem afterBroadcast_copy (pkt : PolledPacket) : (afterBroadcast pkt).copy = none := by
  unfold afterBroadcast
  split <;> rfl

/-- After the choice too. -/
theorem classify_spec {poller : PollerPc} (hclass : classify cfg pkt = some poller) :
    poller ≠ .done ∧ poller.copy = none := by
  unfold classify at hclass
  split at hclass
  · cases hclass
    exact ⟨PollerPc.noConfusion, rfl⟩
  split at hclass
  · split at hclass <;> cases hclass <;> exact ⟨PollerPc.noConfusion, rfl⟩
  · cases hclass
    exact ⟨PollerPc.noConfusion, rfl⟩

/-- The poller goes on with the packet. -/
theorem Inv.movePoller (h : Inv cfg s) {poller : PollerPc} (hpc : s.poller ≠ .done)
    (hdone : poller ≠ .done) (hunsent : ∀ p, poller.Unsent p → s.poller.Unsent p)
    (hcopies : (tokens { s with poller, ends, allocs }).Linear) :
    Inv cfg { s with poller, ends, allocs } where
  copies := hcopies
  held _ := h.held (.inl hpc)
  ended hnot := absurd (.inl hdone) hnot
  reads := h.reads
  unsent p hp := h.unsent p (hunsent p hp)
  noPeer _ := h.noPeer hpc
  onePeer := h.onePeer

/-- The copies after a step of the poller that has none before and after it. -/
theorem Inv.copies_poller (h : Inv cfg s) {poller : PollerPc}
    (hcopy : poller.copy = s.poller.copy) :
    (tokens { s with poller }).Linear := by
  have hsame : tokens { s with poller } = s.tokens := by
    refine (@tokens_poller s s.ends s.allocs poller).trans ?_
    rw [hcopy]
    exact congrArg (Tokens.mk · s.ends s.allocs) (Function.update_eq_self none s.tokens.hold)
  rw [hsame]
  exact h.copies

/-- The poller hands over the packet, which no process will read. -/
theorem Inv.handOver (h : Inv cfg s) (e : RxEnd) (hpc : s.poller ≠ .done)
    (hcopy : s.poller.copy = none) (hreads : ∀ p, ¬ (s.peers p).Reads (cfg.stackNum p)) :
    Inv cfg { s with poller := .done, mbuf := s.mbuf ++ [e] } where
  copies := h.copies_poller hcopy.symm
  held hheld := by
    rcases hheld with hne | ⟨p, hp⟩
    · exact absurd rfl hne
    · exact absurd hp (h.noPeer hpc p)
  ended _ := by rw [h.held (.inl hpc)]; rfl
  reads p hp := absurd hp (hreads p)
  unsent _ hp := hp.elim
  noPeer hne := absurd rfl hne
  onePeer := h.onePeer

/-- The packet waits for another process: the poller has written its address. -/
theorem Inv.sendTcp (h : Inv cfg s) (i : ℕ) (buf : Option (List Char))
    (hpc : s.poller = .sendTcp i buf) :
    Inv cfg { s with
      poller := .done, peers := Function.update s.peers i (.tcpSent buf) } := by
  -- nobody was sent the packet before
  have hnone : ∀ p, s.peers p = .none := fun p => h.unsent p (by rw [hpc]; trivial)
  have hpacket : s.PacketHeld := .inl (by rw [hpc]; exact PollerPc.noConfusion)
  have hother : ∀ p, p ≠ i → Function.update s.peers i (.tcpSent buf) p = .none := fun p hp =>
    (Function.update_of_ne hp ..).trans (hnone p)
  -- from now on process `i` is the only one with it
  have honly : ∀ p, (Function.update s.peers i (.tcpSent buf) p).HasPacket → p = i := by
    intro p hp
    by_contra hne
    rw [hother p hne] at hp
    exact hp
  refine ⟨?_, fun _ => h.held hpacket, fun hnot => absurd (.inr ⟨i, ?_⟩) hnot,
    fun _ _ => h.held hpacket, fun _ hp => hp.elim, fun hne => absurd rfl hne,
    fun p q hp hq => (honly p hp).trans (honly q hq).symm⟩
  · -- it is the packet itself that is sent, so no copy changes hands
    have hsame : tokens { s with
        poller := .done, peers := Function.update s.peers i (.tcpSent buf) } = s.tokens := by
      have hhold : (tokens { s with
          poller := .done, peers := Function.update s.peers i (.tcpSent buf) }).hold =
          s.tokens.hold := by
        funext x
        cases x with
        | none => simp only [tokens, Option.elim, hpc, PollerPc.copy]
        | some p =>
          by_cases hp : p = i
          · subst hp
            simp only [tokens, Option.elim, Function.update_self, hnone, PeerPc.copy]
          · simp only [tokens, Option.elim, Function.update_of_ne hp]
      exact congrArg (Tokens.mk · s.ends s.allocs) hhold
    rw [hsame]
    exact h.copies
  · simp only [Function.update_self, PeerPc.HasPacket]

/-- The address of an ARP packet is written to another process. -/
theorem Inv.sendArp (h : Inv cfg s) (i : ℕ) (hpc : s.poller = .sendArp i) :
    Inv cfg { s with
      poller := .sendArp (i + 1), peers := Function.update s.peers i .arpSent } := by
  have hnone : s.peers i = .none := h.unsent i (by rw [hpc]; exact Nat.le_refl i)
  have hne : s.poller ≠ .done := by rw [hpc]; exact PollerPc.noConfusion
  -- an address is no packet
  have hpacket : ∀ p, ¬ (Function.update s.peers i .arpSent p).HasPacket := by
    intro p
    by_cases hp : p = i
    · subst hp
      rw [Function.update_self]
      exact id
    · rw [Function.update_of_ne hp]
      exact h.noPeer hne p
  refine ⟨?_, fun _ => h.held (.inl hne), fun hnot => absurd (.inl PollerPc.noConfusion) hnot,
    fun _ _ => h.held (.inl hne), fun p hp => ?_, fun _ => hpacket,
    fun p _ hp => absurd hp (hpacket p)⟩
  · -- the other process has no copy yet
    have hhold : (tokens { s with
        poller := .sendArp (i + 1), peers := Function.update s.peers i .arpSent }).hold =
        s.tokens.hold := by
      funext x
      cases x with
      | none => simp only [tokens, Option.elim, hpc, PollerPc.copy]
      | some p =>
        by_cases hp : p = i
        · subst hp
          simp only [tokens, Option.elim, Function.update_self, hnone, PeerPc.copy]
        · simp only [tokens, Option.elim, Function.update_of_ne hp]
    have hsame : tokens { s with
        poller := .sendArp (i + 1), peers := Function.update s.peers i .arpSent } = s.tokens :=
      congrArg (Tokens.mk · s.ends s.allocs) hhold
    rw [hsame]
    exact h.copies
  · -- the processes after `i` are still to come
    have hlt : i + 1 ≤ p := hp
    have hpi : p ≠ i := (Nat.lt_of_succ_le hlt).ne'
    refine (Function.update_of_ne hpi ..).trans (h.unsent p ?_)
    rw [hpc]
    exact Nat.le_of_succ_le hlt

/-- A step of the poller. -/
theorem Inv.pollerStep (h : Inv cfg s) (hkeep : s.Keeps cfg (.poller ok))
    (hs : s.pollerStep cfg pkt ok = some s') : Inv cfg s' := by
  cases hpc : s.poller with
  | done => simp only [RxSys.pollerStep, hpc, reduceCtorEq] at hs
  | poll =>
    simp only [RxSys.pollerStep, hpc, Option.map_eq_some_iff] at hs
    obtain ⟨poller, hclass, rfl⟩ := hs
    -- the packet is looked at, and no copy is made of it
    obtain ⟨hdone, hcopy⟩ := classify_spec hclass
    refine h.movePoller (by simp [hpc]) hdone (fun _ _ => by rw [hpc]; trivial)
      (h.copies_poller ?_)
    rw [hcopy, hpc]
    rfl
  | bcastAlloc i =>
    simp only [RxSys.pollerStep, hpc] at hs
    split at hs
    · cases hs
      refine h.movePoller (by simp [hpc]) PollerPc.noConfusion
        (fun _ _ => by rw [hpc]; trivial) ?_
      rw [tokens_poller]
      -- a copy is made for one more stack
      exact h.copies.alloc (x := none) (congrArg PollerPc.copy hpc)
    · cases hs
      -- no stack is left, or there is no memory for a copy
      refine h.movePoller (by simp [hpc]) (afterBroadcast_ne_done pkt)
        (fun _ _ => by rw [hpc]; trivial) (h.copies_poller ?_)
      rw [afterBroadcast_copy, hpc]
      rfl
  | bcastCall i c =>
    -- by the condition the message reaches its stack
    have hok : ok = true := by simpa only [Keeps, hpc] using hkeep
    simp only [RxSys.pollerStep, hpc, hok, if_true, Option.some.injEq] at hs
    subst hs
    refine h.movePoller (by simp [hpc]) PollerPc.noConfusion (fun _ _ => by rw [hpc]; trivial) ?_
    rw [tokens_poller]
    exact h.copies.finish (x := none) (congrArg PollerPc.copy hpc) _
  | sendArp i =>
    simp only [RxSys.pollerStep, hpc] at hs
    split at hs
    · -- a message that does not arrive starts nothing in its process
      cases ok with
      | false =>
        cases hs
        refine h.movePoller (by simp [hpc]) PollerPc.noConfusion (fun p hp => ?_)
          (h.copies_poller (by rw [hpc]; rfl))
        rw [hpc]
        exact Nat.le_of_succ_le hp
      | true =>
        cases hs
        exact h.sendArp i hpc
    · cases hs
      exact h.movePoller (by simp [hpc]) PollerPc.noConfusion (fun _ hp => hp.elim)
        (h.copies_poller (by rw [hpc]; rfl))
  | kni =>
    -- the mbuf itself is handed over, to `kni` or to the stack
    simp only [RxSys.pollerStep, hpc, Option.some.injEq] at hs
    subst hs
    exact h.handOver _ (by simp [hpc]) (by rw [hpc]; rfl) (by simpa only [Keeps, hpc] using hkeep)
  | recv =>
    have hok : ok = true := by simpa only [Keeps, hpc] using hkeep
    simp only [RxSys.pollerStep, hpc, hok, if_true, Option.some.injEq] at hs
    subst hs
    exact h.handOver _ (by simp [hpc]) (by rw [hpc]; rfl)
      fun p => by rw [h.unsent p (by rw [hpc]; trivial)]; exact id
  | toThread stkIdx =>
    simp only [RxSys.pollerStep, hpc] at hs
    split at hs
    · cases hs
      exact h.handOver _ (by simp [hpc]) (by rw [hpc]; rfl)
        fun p => by rw [h.unsent p (by rw [hpc]; trivial)]; exact id
    · -- the queue of the thread is full and the poller tries again
      cases hs
      exact h
  | sendTcp i buf =>
    have hok : ok = true := by simpa only [Keeps, hpc] using hkeep
    simp only [RxSys.pollerStep, hpc, hok, if_true, Option.some.injEq] at hs
    subst hs
    exact h.sendTcp i buf hpc

/-! ## The other processes -/

/-- A process goes on with the address. -/
theorem Inv.movePeer (h : Inv cfg s) {pc : PeerPc} (hsome : s.peers p ≠ .none)
    (hpacket : pc.HasPacket ↔ (s.peers p).HasPacket)
    (hreads : pc.Reads (cfg.stackNum p) → (s.peers p).Reads (cfg.stackNum p))
    (hcopies : (tokens { s with peers := Function.update s.peers p pc, ends, allocs }).Linear) :
    Inv cfg { s with peers := Function.update s.peers p pc, ends, allocs } := by
  have hiff : ∀ q, (Function.update s.peers p pc q).HasPacket ↔ (s.peers q).HasPacket := by
    intro q
    by_cases hq : q = p
    · subst hq
      rw [Function.update_self]
      exact hpacket
    · rw [Function.update_of_ne hq]
  have hheld : PacketHeld { s with peers := Function.update s.peers p pc, ends, allocs } ↔
      s.PacketHeld := or_congr Iff.rfl (exists_congr hiff)
  refine ⟨hcopies, fun hh => h.held (hheld.1 hh), fun hnot => h.ended fun hh => hnot (hheld.2 hh),
    fun q hq => ?_, fun q hq => ?_, fun hne q hq => h.noPeer hne q ((hiff q).1 hq),
    fun q r hq hr => h.onePeer q r ((hiff q).1 hq) ((hiff r).1 hr)⟩
  · by_cases hqp : q = p
    · subst hqp
      simp only [Function.update_self] at hq
      exact h.reads q (hreads hq)
    · simp only [Function.update_of_ne hqp] at hq
      exact h.reads q hq
  · by_cases hqp : q = p
    · subst hqp
      exact absurd (h.unsent q hq) hsome
    · exact (Function.update_of_ne hqp ..).trans (h.unsent q hq)

/-- The copies after a step of a process that has the same one before and after it. -/
theorem Inv.copies_peer (h : Inv cfg s) {pc : PeerPc} (hcopy : pc.copy = (s.peers p).copy) :
    (tokens { s with peers := Function.update s.peers p pc }).Linear := by
  have hsame : tokens { s with peers := Function.update s.peers p pc } = s.tokens := by
    refine (@tokens_peer s p s.ends s.allocs pc).trans ?_
    rw [hcopy]
    exact congrArg (Tokens.mk · s.ends s.allocs) (Function.update_eq_self (some p) s.tokens.hold)
  rw [hsame]
  exact h.copies

/-- A process allocates a copy. -/
theorem Inv.copies_peer_alloc (h : Inv cfg s) {pc : PeerPc} (hnone : (s.peers p).copy = none)
    (hcopy : pc.copy = some s.allocs) :
    (tokens { s with
      peers := Function.update s.peers p pc, allocs := s.allocs + 1 }).Linear := by
  rw [tokens_peer, hcopy]
  exact h.copies.alloc (x := some p) hnone

/-- A process hands over its copy. -/
theorem Inv.copies_peer_finish (h : Inv cfg s) {pc : PeerPc} {c : ℕ} (e : RxEnd)
    (hc : (s.peers p).copy = some c) (hcopy : pc.copy = none) :
    (tokens { s with
      peers := Function.update s.peers p pc, ends := s.finish c e }).Linear := by
  rw [tokens_peer, hcopy]
  exact h.copies.finish (x := some p) hc e

/-- A step of another process. -/
theorem Inv.peerStep (h : Inv cfg s) (hkeep : s.Keeps cfg (.peer p ok))
    (hs : s.peerStep cfg p ok = some s') : Inv cfg s' := by
  cases hpc : s.peers p with
  -- the process has no packet
  | none | done => simp only [RxSys.peerStep, hpc, reduceCtorEq] at hs
  | arpSent =>
    simp only [RxSys.peerStep, hpc, Option.some.injEq] at hs
    subst hs
    exact h.movePeer (by simp [hpc]) (by rw [hpc]; exact Iff.rfl) (by rw [hpc]; exact id)
      (h.copies_peer (by rw [hpc]; rfl))
  | arpAlloc i =>
    simp only [RxSys.peerStep, hpc] at hs
    split at hs
    · cases ok with
      | false =>
        -- without memory for the copy nothing changes
        cases hs
        exact h
      | true =>
        cases hs
        -- the copy is a new mbuf of this process
        exact h.movePeer (by simp [hpc]) (by rw [hpc]; exact Iff.rfl) (fun _ => by rwa [hpc])
          (h.copies_peer_alloc (by rw [hpc]; rfl) rfl)
    · -- all stacks of the process have one
      cases hs
      exact h.movePeer (by simp [hpc]) (by rw [hpc]; exact Iff.rfl) False.elim
        (h.copies_peer (by rw [hpc]; rfl))
  | arpCopy i c =>
    simp only [RxSys.peerStep, hpc, Option.some.injEq] at hs
    subst hs
    exact h.movePeer (by simp [hpc]) (by rw [hpc]; exact Iff.rfl) (fun _ => by rw [hpc]; trivial)
      (h.copies_peer (by rw [hpc]; rfl))
  | arpCall i c =>
    simp only [RxSys.peerStep, hpc] at hs
    cases ok with
    | false =>
      -- the message does not reach the stack, and there is a second try
      cases hs
      exact h.movePeer (by simp [hpc]) (by rw [hpc]; exact Iff.rfl) False.elim
        (h.copies_peer (by rw [hpc]; rfl))
    | true =>
      -- the stack takes the copy
      cases hs
      exact h.movePeer (by simp [hpc]) (by rw [hpc]; exact Iff.rfl) (by rw [hpc]; exact id)
        (h.copies_peer_finish _ (by rw [hpc]; rfl) rfl)
  | arpRetry i c =>
    -- by the condition the second try fails as well
    have hok : ok = false := by simpa only [Keeps, hpc] using hkeep
    simp only [RxSys.peerStep, hpc, hok, Bool.false_eq_true, if_false, Option.some.injEq] at hs
    exact hs ▸ h
  | tcpSent buf =>
    simp only [RxSys.peerStep, hpc, Option.map_eq_some_iff] at hs
    obtain ⟨text, -, rfl⟩ := hs
    exact h.movePeer (by simp [hpc]) (by rw [hpc]; exact Iff.rfl) (fun _ => by rw [hpc]; trivial)
      (h.copies_peer (by rw [hpc]; rfl))
  | tcpAlloc stkIdx =>
    simp only [RxSys.peerStep, hpc] at hs
    cases ok with
    | false =>
      cases hs
      exact h
    | true =>
      cases hs
      exact h.movePeer (by simp [hpc]) (by rw [hpc]; exact Iff.rfl) (fun _ => by rw [hpc]; trivial)
        (h.copies_peer_alloc (by rw [hpc]; rfl) rfl)
  | tcpCopy stkIdx c =>
    simp only [RxSys.peerStep, hpc, Option.some.injEq] at hs
    subst hs
    exact h.movePeer (by simp [hpc]) (by rw [hpc]; exact Iff.rfl) False.elim
      (h.copies_peer (by rw [hpc]; rfl))
  | tcpCall stkIdx c =>
    have hok : ok = false := by simpa only [Keeps, hpc] using hkeep
    simp only [RxSys.peerStep, hpc, hok, Bool.false_eq_true, if_false, Option.some.injEq] at hs
    exact hs ▸ h

/-- A step. -/
theorem Inv.step (h : Inv cfg s) {a : RxAct} (hkeep : s.Keeps cfg a)
    (hs : (system cfg pkt).step s a = some s') : Inv cfg s' := by
  cases a with
  | poller ok => exact h.pollerStep hkeep hs
  | peer p ok => exact h.peerStep hkeep hs

/-! ## The steps that lose a packet or a copy -/

/-- The packet is lost when the last thread that has it leaves it. -/
theorem Owned.false_of_left (howned : Owned cfg s') (hmbuf : s'.mbuf = [])
    (hleft : ¬ s'.PacketHeld) : False := by
  have hone : s'.mbuf.length = 1 := howned.packet_ended hleft
  rw [hmbuf] at hone
  exact Nat.zero_ne_one hone

/-- A step of the poller after which every mbuf has its owner. -/
theorem Inv.keeps_poller (h : Inv cfg s) (hs : s.pollerStep cfg pkt ok = some s')
    (howned : Owned cfg s') : s.Keeps cfg (.poller ok) := by
  -- the poller leaves the packet, which no process has
  have hleft : s.poller ≠ .done → ¬ PacketHeld { s with poller := .done } := by
    rintro hne (hdone | ⟨p, hp⟩)
    · exact hdone rfl
    · exact h.noPeer hne p hp
  cases hpc : s.poller with
  | bcastCall i c =>
    simp only [Keeps, hpc]
    by_contra hok
    simp only [RxSys.pollerStep, hpc, hok, if_false, Option.some.injEq] at hs
    subst hs
    have hhold : s.tokens.hold none = some c := congrArg PollerPc.copy hpc
    have hnot : ¬ CopyHeld { s with poller := afterBroadcast pkt } c := by
      rintro (hc | ⟨p, hc⟩)
      · rw [afterBroadcast_copy] at hc
        cases hc
      · have heq : (none : Option ℕ) = some p := h.copies.inj none (some p) c hhold hc
        cases heq
    have hone : (s.ends c).length = 1 := howned.copy_ended c (h.copies.lt none c hhold) hnot
    have hnil : s.ends c = [] := h.copies.held none c hhold
    rw [hnil] at hone
    exact Nat.zero_ne_one hone
  | recv =>
    simp only [Keeps, hpc]
    by_contra hok
    have hne : s.poller ≠ .done := by rw [hpc]; exact PollerPc.noConfusion
    simp only [RxSys.pollerStep, hpc, hok, if_false, Option.some.injEq] at hs
    subst hs
    exact howned.false_of_left (h.held (.inl hne)) (hleft hne)
  | sendTcp i buf =>
    simp only [Keeps, hpc]
    by_contra hok
    have hne : s.poller ≠ .done := by rw [hpc]; exact PollerPc.noConfusion
    simp only [RxSys.pollerStep, hpc, hok, if_false, Option.some.injEq] at hs
    subst hs
    exact howned.false_of_left (h.held (.inl hne)) (hleft hne)
  | kni =>
    simp only [Keeps, hpc]
    intro p hp
    simp only [RxSys.pollerStep, hpc, Option.some.injEq] at hs
    subst hs
    exact List.append_ne_nil_of_right_ne_nil _ (List.cons_ne_nil _ _) (howned.reads p hp)
  | poll | bcastAlloc i | sendArp i | toThread stkIdx | done => simp only [Keeps, hpc]

/-- A step of another process after which every mbuf has its owner. -/
theorem Inv.keeps_peer (h : Inv cfg s) (hs : s.peerStep cfg p ok = some s')
    (howned : Owned cfg s') : s.Keeps cfg (.peer p ok) := by
  cases hpc : s.peers p with
  | arpRetry i c =>
    simp only [Keeps, hpc]
    by_contra hok
    simp only [RxSys.peerStep, hpc, Bool.not_eq_false] at hs hok
    simp only [hok, if_true, Option.some.injEq] at hs
    subst hs
    have hnil : s.finish c (.stackArp p i) c = [] :=
      howned.copy_held c (.inr ⟨p, congrArg PeerPc.copy hpc⟩)
    rw [finish, Function.update_self] at hnil
    exact List.append_ne_nil_of_right_ne_nil _ (List.cons_ne_nil _ _) hnil
  | tcpCall stkIdx c =>
    simp only [Keeps, hpc]
    by_contra hok
    simp only [RxSys.peerStep, hpc, Bool.not_eq_false] at hs hok
    simp only [hok, if_true, Option.some.injEq] at hs
    subst hs
    have hpacket : (s.peers p).HasPacket := by rw [hpc]; trivial
    refine howned.false_of_left (h.held (.inr ⟨p, hpacket⟩)) ?_
    rintro (hne | ⟨q, hq⟩)
    · exact h.noPeer hne p hpacket
    · by_cases hqp : q = p
      · subst hqp
        simp only [Function.update_self] at hq
        exact hq
      · simp only [Function.update_of_ne hqp] at hq
        exact hqp (h.onePeer q p hq hpacket)
  | none | arpSent | arpAlloc i | arpCopy i c | arpCall i c | tcpSent buf | tcpAlloc stkIdx
  | tcpCopy stkIdx c | done => simp only [Keeps, hpc]

/-- In every run for a packet, every mbuf has one owner all the time and stays with the poller as
long as it is read, exactly if every step is one that keeps this. -/
theorem owned_iff (cfg : RxCfg) (pkt : PolledPacket) (acts : List RxAct) :
    (system cfg pkt).statesHold (Owned cfg) received acts ↔
      (system cfg pkt).stepsMeet (Keeps cfg) received acts := by
  refine Transition.System.statesHold_iff_stepsMeet (J := Inv cfg) (fun s h => h.owned)
    (fun s a s' h hkeep hs => h.step hkeep hs) (fun s a s' h howned hs => ?_) inv_received
  cases a with
  | poller ok => exact h.keeps_poller hs howned
  | peer p ok => exact h.keeps_peer hs howned

/-! ## A SYN for another process -/

/-- Two processes with two queues each. Process 1 listens on every port. -/
def synCfg : RxCfg where
  toQueueCfg := SynPacket.twoQueues
  hash _ _ := 7
  tables := SynPacket.listenTables
  tupleFilter := true
  queueId := 0
  numProcess := 2
  stackNum _ := 2
  kniReady := true

/-- A SYN for the port 80. -/
def synPkt : PolledPacket where
  toSynPacket := SynPacket.synTo 80
  etherType := 0x0008
  broadcast := false

/-- Process 1 gets the address, and all that is tried succeeds. -/
def synDone : List RxAct :=
  [.poller true, .poller true, .peer 1 true, .peer 1 true, .peer 1 true, .peer 1 true]

/-- Process 1 has queued its copy, and the packet is neither held nor freed. -/
theorem not_owned_syn :
    ¬ ∀ (cfg : RxCfg) (pkt : PolledPacket) (s : RxSys),
      (system cfg pkt).Reachable s → Owned cfg s := by
  intro h
  have hindex : (BitVec.setWidth 32 (synCfg.tables.gListenPorts synPkt.dstPort)).toNat = 1 := rfl
  have hrun : ∃ s, (system synCfg synPkt).run received synDone = some s ∧ s.mbuf = [] ∧
      s.poller = .done ∧ ∀ p, p ≠ 1 → s.peers p = .none :=
    ⟨_, rfl, rfl, rfl, fun p hp => by
      simp only [Function.update_of_ne hp, hindex, if_true, received]⟩
  obtain ⟨s, hs, hmbuf, hpoller, hpeers⟩ := hrun
  have hpeer : s.peers 1 = .done := by
    have hrun : ((system synCfg synPkt).run received synDone).map (fun t => t.peers 1) =
        some .done := by decide
    rw [hs] at hrun
    exact Option.some.inj hrun
  refine (h synCfg synPkt s (Transition.System.reachable_of_run (.init rfl) hs)).false_of_left
    hmbuf ?_
  rintro (hne | ⟨p, hp⟩)
  · exact hne hpoller
  · by_cases hone : p = 1
    · subst hone
      rw [hpeer] at hp
      exact hp
    · rw [hpeers p hone] at hp
      exact hp

end RxSys

end Gazelle
