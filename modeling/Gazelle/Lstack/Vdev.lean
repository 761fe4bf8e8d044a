import Gazelle.Ring.Calls

/-!
# The rings that a stack shares with ltran

`ltran_rx_poll` and `ltran_tx_xmit` (`lstack_vdev.c`) on the rings `rx_ring` and `tx_ring`, after
`fill_mbuf_to_ring`. Each ring has 512 slots; ltran is the reader of both and may read and confirm
at any time. The stack counts the mbufs of each ring in a variable of its own.

* `VdevSys.system`: all interleavings of the stack thread with ltran;
* `VdevInv`: what the counters of the stack say about the rings at each point of its functions;
* `vdev_accounting`: the counters are right, no table is overrun and no mbuf is lost.
-/

namespace Gazelle

/-- `DEFAULT_RING_SIZE`, the size of the rings and of `free_buf`. -/
def defaultRingSize : U32 := 512

/-- `RING_SIZE`: the number of objects that a ring of `x` slots can hold. -/
def ringSize (x : U32) : U32 := x - 1

/-- `USED_RX_PKTS_WATERMARK`. -/
def usedRxPktsWatermark : U32 := defaultRingSize >>> 2

/-- `INUSE_TX_PKTS_WATERMARK`. -/
def inuseTxPktsWatermark : U32 := defaultRingSize >>> 2

/-- `LWIP_MIN`. -/
def lwipMin (x y : U32) : U32 := if x < y then x else y

/-- Where the stack thread stands, with its live local variables. -/
inductive VdevPc (α : Type*)
  /-- The loop of `fill_mbuf_to_ring`, about to allocate. -/
  | fillAlloc (remain : U32)
  /-- In its `gazelle_ring_sp_enqueue`. -/
  | fillEnq (remain batch : U32)
  /-- The stack has not started. -/
  | failed
  /-- Outside the functions. -/
  | idle
  /-- `ltran_rx_poll` in `gazelle_ring_sc_dequeue`. -/
  | rxDeq
  /-- About to allocate. -/
  | rxAlloc (freeCnt : U32)
  /-- In `gazelle_ring_sp_enqueue`. -/
  | rxEnq (freeCnt : U32)
  /-- The loop of `ltran_tx_xmit`. -/
  | txTop (pkts : List α) (sentPkts : U32)
  /-- In `gazelle_ring_sc_dequeue`. -/
  | txDeq (pkts : List α) (sentPkts : U32)
  /-- About to enqueue. -/
  | txSend (pkts : List α) (sentPkts : U32)
  /-- In `gazelle_ring_sp_enqueue`. -/
  | txEnq (pkts : List α) (sentPkts : U32)
  /-- At the condition of the loop. -/
  | txTest (pkts : List α) (sentPkts : U32)

/-- A stack with its rings and the history of its mbufs. -/
structure VdevSys (α : Type*) where
  /-- `rx_ring`. -/
  rx : RingSys α
  /-- `tx_ring`. -/
  tx : RingSys α
  /-- `rx_ring_used`. -/
  rxRingUsed : U32
  /-- `tx_ring_used`. -/
  txRingUsed : U32
  /-- The stack thread. -/
  pc : VdevPc α
  /-- The mbufs allocated for `rx_ring`. -/
  allocated : List α
  /-- The packets that `ltran_rx_poll` returned. -/
  received : List α
  /-- The packets that `ltran_tx_xmit` sent. -/
  xmitted : List α
  /-- The packets that `ltran_tx_xmit` freed. -/
  freed : List α

/-- The actions. -/
inductive VdevAction (α : Type*)
  /-- ltran makes a step on `rx_ring`. -/
  | rxReader (a : RingAct α)
  /-- ltran makes a step on `tx_ring`. -/
  | txReader (a : RingAct α)
  /-- The stack calls `ltran_rx_poll`. -/
  | rxPoll (maxMbuf : U32)
  /-- The stack calls `ltran_tx_xmit`. -/
  | txXmit (pkts : List α)
  /-- `gazelle_alloc_pktmbuf` returns mbufs, or fails. -/
  | alloc (bufs : Option (List α))
  /-- A loop that has sent nothing goes on, or its time is over or the stack is not registered. -/
  | retry (again : Bool)
  /-- The stack makes its next step. -/
  | next

namespace VdevSys

variable {α : Type*} (s : VdevSys α)

/-- The next step of the stack thread. -/
def next : Option (VdevSys α) :=
  match s.pc with
  | .fillEnq remain batch =>
    match s.rx.owner with
    | .enqDone n =>
      (s.rx.step .owner).map fun rx =>
        { s with
          rx
          pc :=
            if n = 0 then .failed
            else if remain - batch > 0 then .fillAlloc (remain - batch)
            else .idle }
    | _ => (s.rx.step .owner).map fun rx => { s with rx }
  | .rxDeq =>
    match s.rx.owner with
    | .deqDone pkts =>
      (s.rx.step .owner).map fun rx =>
        let used := s.rxRingUsed + BitVec.ofNat 32 pkts.length
        { s with
          rx
          rxRingUsed := used
          received := s.received ++ pkts
          pc :=
            if used ≥ usedRxPktsWatermark then .rxAlloc (lwipMin used (ringSize defaultRingSize))
            else .idle }
    | _ => (s.rx.step .owner).map fun rx => { s with rx }
  | .rxEnq _ =>
    match s.rx.owner with
    | .enqDone n =>
      (s.rx.step .owner).map fun rx =>
        { s with rx, rxRingUsed := s.rxRingUsed - n, pc := .idle }
    | _ => (s.rx.step .owner).map fun rx => { s with rx }
  | .txTop pkts sentPkts =>
    if s.txRingUsed ≥ inuseTxPktsWatermark then
      (s.tx.step (.dequeue s.txRingUsed)).map fun tx => { s with tx, pc := .txDeq pkts sentPkts }
    else some { s with pc := .txSend pkts sentPkts }
  | .txDeq pkts sentPkts =>
    match s.tx.owner with
    | .deqDone freeBuf =>
      (s.tx.step .owner).map fun tx =>
        { s with
          tx
          txRingUsed := s.txRingUsed - BitVec.ofNat 32 freeBuf.length
          freed := s.freed ++ freeBuf
          pc := .txSend pkts sentPkts }
    | _ => (s.tx.step .owner).map fun tx => { s with tx }
  | .txSend pkts sentPkts =>
    (s.tx.step (.enqueue (pkts.drop sentPkts.toNat))).map fun tx =>
      { s with tx, pc := .txEnq pkts sentPkts }
  | .txEnq pkts sentPkts =>
    match s.tx.owner with
    | .enqDone n =>
      (s.tx.step .owner).map fun tx => { s with tx, pc := .txTest pkts (sentPkts + n) }
    | _ => (s.tx.step .owner).map fun tx => { s with tx }
  | .txTest pkts sentPkts =>
    if sentPkts < BitVec.ofNat 32 pkts.length then none
    else
      some { s with
        txRingUsed := s.txRingUsed + sentPkts
        xmitted := s.xmitted ++ pkts.take sentPkts.toNat
        pc := .idle }
  | _ => none

/-- One step. -/
def step : VdevAction α → Option (VdevSys α)
  | .rxReader a => if a.isReader then (s.rx.step a).map fun rx => { s with rx } else none
  | .txReader a => if a.isReader then (s.tx.step a).map fun tx => { s with tx } else none
  | .rxPoll maxMbuf =>
    match s.pc with
    | .idle => (s.rx.step (.dequeue maxMbuf)).map fun rx => { s with rx, pc := .rxDeq }
    | _ => none
  | .txXmit pkts =>
    match s.pc with
    | .idle => if pkts.length < 2 ^ 32 then some { s with pc := .txTop pkts 0 } else none
    | _ => none
  | .alloc bufs =>
    match s.pc, bufs with
    | .fillAlloc _, none => some { s with pc := .failed }
    | .fillAlloc remain, some bufs =>
      let batch := lwipMin remain (ringSize defaultRingSize)
      if bufs.length = batch.toNat then
        (s.rx.step (.enqueue bufs)).map fun rx =>
          { s with rx, allocated := s.allocated ++ bufs, pc := .fillEnq remain batch }
      else none
    | .rxAlloc _, none => some { s with pc := .idle }
    | .rxAlloc freeCnt, some bufs =>
      if bufs.length = freeCnt.toNat then
        (s.rx.step (.enqueue bufs)).map fun rx =>
          { s with rx, allocated := s.allocated ++ bufs, pc := .rxEnq freeCnt }
      else none
    | _, _ => none
  | .retry again =>
    match s.pc with
    | .txTest pkts sentPkts =>
      if sentPkts < BitVec.ofNat 32 pkts.length then
        if again then some { s with pc := .txTop pkts sentPkts }
        else
          some { s with
            txRingUsed := s.txRingUsed + sentPkts
            xmitted := s.xmitted ++ pkts.take sentPkts.toNat
            pc := .idle }
      else none
    | _ => none
  | .next => s.next

/-- The rings are empty, and `fill_mbuf_to_ring` is called for `RING_SIZE(512)` mbufs. -/
def create (rxSlots txSlots : U32 → α) : VdevSys α where
  rx := .create 9 0 rxSlots
  tx := .create 9 0 txSlots
  rxRingUsed := 0
  txRingUsed := 0
  pc := .fillAlloc (ringSize defaultRingSize)
  allocated := []
  received := []
  xmitted := []
  freed := []

/-- All interleavings of a stack with ltran. -/
def system : Transition.System (VdevSys α) (VdevAction α) where
  Init s := ∃ rxSlots txSlots, s = create rxSlots txSlots
  step := step

/-! ## The invariant -/

/-- `rx_ring` has what was allocated and not received, and it is counted, while `pending` mbufs are
still to be put there for the first time and `bufs` are being enqueued. -/
def RxAt (phase : List α → List α → RingSys α → Prop) (bufs : List α) (pending : ℕ) : Prop :=
  ∃ acc, phase acc s.received s.rx ∧ s.allocated = acc ++ bufs ∧
    s.rxRingUsed.toNat + pending + acc.length = s.received.length + 511

/-- `tx_ring` has what was sent and not freed, and it is counted, while `pkts` were enqueued and are
not counted yet. -/
def TxAt (phase : List α → List α → RingSys α → Prop) (pkts : List α) : Prop :=
  phase (s.xmitted ++ pkts) s.freed s.tx ∧
    s.txRingUsed.toNat + s.freed.length = s.xmitted.length

/-- What holds where the stack thread stands. -/
def PcInv : VdevPc α → Prop
  | .fillAlloc remain =>
    s.RxAt RingSys.Resting [] remain.toNat ∧ s.TxAt RingSys.Resting [] ∧ 0 < remain
  | .fillEnq remain batch =>
    ∃ bufs, s.RxAt (RingSys.Enqueuing 9 bufs) bufs remain.toNat ∧ s.TxAt RingSys.Resting [] ∧
      bufs.length = batch.toNat ∧ 0 < batch ∧ batch ≤ remain ∧ batch ≤ ringSize defaultRingSize
  | .failed => s.received = s.rx.dequeued ∧ s.freed = s.tx.dequeued
  | .idle => s.RxAt RingSys.Resting [] 0 ∧ s.TxAt RingSys.Resting []
  | .rxDeq => ∃ n, s.RxAt (RingSys.Dequeuing n) [] 0 ∧ s.TxAt RingSys.Resting []
  | .rxAlloc freeCnt =>
    s.RxAt RingSys.Resting [] 0 ∧ s.TxAt RingSys.Resting [] ∧ freeCnt = s.rxRingUsed
  | .rxEnq freeCnt =>
    ∃ bufs, s.RxAt (RingSys.Enqueuing 9 bufs) bufs 0 ∧ s.TxAt RingSys.Resting [] ∧
      bufs.length = freeCnt.toNat ∧ freeCnt = s.rxRingUsed
  | .txTop pkts sentPkts | .txSend pkts sentPkts =>
    s.RxAt RingSys.Resting [] 0 ∧ s.TxAt RingSys.Resting [] ∧ sentPkts = 0 ∧ pkts.length < 2 ^ 32
  | .txDeq pkts sentPkts =>
    s.RxAt RingSys.Resting [] 0 ∧ s.TxAt (RingSys.Dequeuing s.txRingUsed) [] ∧ sentPkts = 0 ∧
      pkts.length < 2 ^ 32 ∧ s.txRingUsed.toNat ≤ 511
  | .txEnq pkts sentPkts =>
    s.RxAt RingSys.Resting [] 0 ∧ s.TxAt (RingSys.Enqueuing 9 pkts) [] ∧ sentPkts = 0 ∧
      pkts.length < 2 ^ 32
  | .txTest pkts sentPkts =>
    s.RxAt RingSys.Resting [] 0 ∧ pkts.length < 2 ^ 32 ∧
      (s.TxAt RingSys.Resting [] ∧ sentPkts = 0 ∨
        s.TxAt RingSys.Resting pkts ∧ sentPkts = BitVec.ofNat 32 pkts.length)

/-- The invariant of a stack and its rings. -/
structure VdevInv : Prop where
  /-- `rx_ring` is a FIFO. -/
  rx : RingSys.RingInv 9 0 s.rx
  /-- `tx_ring` is a FIFO. -/
  tx : RingSys.RingInv 9 0 s.tx
  /-- The counters are right. -/
  pc : s.PcInv s.pc

variable {s} {s' : VdevSys α} {phase phase' : List α → List α → RingSys α → Prop}
  {bufs pkts : List α}
  {pending : ℕ}

/-! ## The steps -/

/-- The table of a function that enqueues was taken as a whole. -/
private theorem resting_of_enqueued {acc deq table : List α} {r r' : RingSys α} {n : U32}
    (h : RingSys.Enqueuing 9 table acc deq r) (hdone : r.owner = .enqDone n)
    (hfits : acc.length + table.length ≤ deq.length + 511) (hr : r.step .owner = some r') :
    n = BitVec.ofNat 32 table.length ∧ RingSys.Resting (acc ++ table) deq r' := by
  obtain ⟨hn, hacc⟩ := h.accepted_of_fits hdone hfits
  have hrest := RingSys.resting_of_return (.inl ⟨_, hdone⟩) hr
  rw [hacc, h.dequeued] at hrest
  exact ⟨hn, hrest⟩

/-- `fill_mbuf_to_ring` after `gazelle_ring_sp_enqueue`. -/
private theorem VdevInv.fillEnq (h : s.VdevInv) {remain batch : U32}
    (hpc : s.pc = .fillEnq remain batch)
    (hs : s.next = some s') : s'.VdevInv := by
  have hinv := h.pc
  rw [hpc] at hinv
  obtain ⟨bufs, ⟨acc, hring, halloc, hcount⟩, htx, hlen, hpos, hle, hmax⟩ := hinv
  simp only [VdevSys.next, hpc] at hs
  split at hs
  · -- all of the batch is in the ring
    rename_i n hdone
    obtain ⟨rx, hrx, rfl⟩ := Option.map_eq_some_iff.1 hs
    have hle' : batch.toNat ≤ remain.toNat := hle
    have hpos' : 0 < batch.toNat := hpos
    obtain ⟨rfl, hrest⟩ := resting_of_enqueued hring hdone (by omega) hrx
    have hsub : (remain - batch).toNat = remain.toNat - batch.toNat := BitVec.toNat_sub_of_le hle
    have hn : BitVec.ofNat 32 bufs.length = batch := by
      rw [hlen, BitVec.ofNat_toNat, BitVec.setWidth_eq]
    have hne : batch ≠ 0 := fun hzero => by simp [hzero] at hpos'
    have hrx' : ∀ p, p = (remain - batch).toNat → s.rxRingUsed.toNat + p + (acc ++ bufs).length =
        s.received.length + 511 := by
      intro p hp
      rw [List.length_append]
      omega
    refine ⟨h.rx.step (by decide) hrx, h.tx, ?_⟩
    rw [hn, if_neg hne]
    by_cases hmore : remain - batch > 0
    · rw [if_pos hmore]
      exact ⟨⟨acc ++ bufs, hrest, by rw [halloc, List.append_nil], hrx' _ rfl⟩, htx, hmore⟩
    · rw [if_neg hmore]
      have hzero : ¬ 0 < (remain - batch).toNat := hmore
      exact ⟨⟨acc ++ bufs, hrest, by rw [halloc, List.append_nil], hrx' 0 (by omega)⟩, htx⟩
  · rename_i hnot
    obtain ⟨rx, hrx, rfl⟩ := Option.map_eq_some_iff.1 hs
    refine ⟨h.rx.step (by decide) hrx, h.tx, ?_⟩
    exact ⟨bufs, ⟨acc, hring.ownerStep (by decide) h.rx hnot hrx, halloc, hcount⟩, htx, hlen, hpos,
      hle, hmax⟩

/-- `ltran_rx_poll` after `gazelle_ring_sc_dequeue`. -/
private theorem VdevInv.rxDeq (h : s.VdevInv) (hpc : s.pc = .rxDeq) (hs : s.next = some s') :
    s'.VdevInv := by
  have hinv := h.pc
  rw [hpc] at hinv
  obtain ⟨n, ⟨acc, hring, halloc, hcount⟩, htx⟩ := hinv
  simp only [VdevSys.next, hpc] at hs
  split at hs
  · rename_i got hdone
    obtain ⟨rx, hrx, rfl⟩ := Option.map_eq_some_iff.1 hs
    obtain ⟨hdeq, -⟩ := hring.returned hdone
    have hrest := RingSys.resting_of_return (.inr ⟨_, hdone⟩) hrx
    rw [hdeq, hring.accepted] at hrest
    -- no more is dequeued than was accepted
    have hgot : s.received.length + got.length ≤ acc.length := by
      have hle := h.rx.dequeued_le.trans (h.rx.confirmed_le.trans h.rx.readOut_le)
      rwa [hdeq, hring.accepted, List.length_append] at hle
    have hused : (s.rxRingUsed + BitVec.ofNat 32 got.length).toNat =
        s.rxRingUsed.toNat + got.length := by
      rw [BitVec.toNat_add, BitVec.toNat_ofNat]
      omega
    have hrx' : (s.rxRingUsed + BitVec.ofNat 32 got.length).toNat + 0 + acc.length =
        (s.received ++ got).length + 511 := by
      rw [hused, List.length_append]
      omega
    refine ⟨h.rx.step (by decide) hrx, h.tx, ?_⟩
    dsimp only
    by_cases hmark : s.rxRingUsed + BitVec.ofNat 32 got.length ≥ usedRxPktsWatermark
    · rw [if_pos hmark]
      refine ⟨⟨acc, hrest, halloc, hrx'⟩, htx, ?_⟩
      -- the minimum is the counter itself
      unfold lwipMin
      split
      · rfl
      · rename_i hge
        apply BitVec.eq_of_toNat_eq
        rw [BitVec.lt_def] at hge
        have h511 : (ringSize defaultRingSize).toNat = 511 := rfl
        show _ = (s.rxRingUsed + BitVec.ofNat 32 got.length).toNat
        rw [List.length_append] at hrx'
        omega
    · rw [if_neg hmark]
      exact ⟨⟨acc, hrest, halloc, hrx'⟩, htx⟩
  · rename_i hnot
    obtain ⟨rx, hrx, rfl⟩ := Option.map_eq_some_iff.1 hs
    refine ⟨h.rx.step (by decide) hrx, h.tx, ?_⟩
    exact ⟨n, ⟨acc, hring.ownerStep h.rx hnot hrx, halloc, hcount⟩, htx⟩

/-- `ltran_rx_poll` after `gazelle_ring_sp_enqueue`. -/
private theorem VdevInv.rxEnq (h : s.VdevInv) {freeCnt : U32} (hpc : s.pc = .rxEnq freeCnt)
    (hs : s.next = some s') : s'.VdevInv := by
  have hinv := h.pc
  rw [hpc] at hinv
  obtain ⟨bufs, ⟨acc, hring, halloc, hcount⟩, htx, hlen, rfl⟩ := hinv
  simp only [VdevSys.next, hpc] at hs
  split at hs
  · rename_i n hdone
    obtain ⟨rx, hrx, rfl⟩ := Option.map_eq_some_iff.1 hs
    obtain ⟨rfl, hrest⟩ := resting_of_enqueued hring hdone (by omega) hrx
    have hused : (s.rxRingUsed - BitVec.ofNat 32 bufs.length).toNat = 0 := by
      rw [hlen, BitVec.ofNat_toNat, BitVec.setWidth_eq, BitVec.sub_self]
      rfl
    refine ⟨h.rx.step (by decide) hrx, h.tx, ⟨acc ++ bufs, hrest, ?_, ?_⟩, htx⟩
    · rw [List.append_nil]
      exact halloc
    · show (s.rxRingUsed - BitVec.ofNat 32 bufs.length).toNat + 0 + _ = _
      rw [hused, List.length_append]
      show _ = s.received.length + 511
      omega
  · rename_i hnot
    obtain ⟨rx, hrx, rfl⟩ := Option.map_eq_some_iff.1 hs
    refine ⟨h.rx.step (by decide) hrx, h.tx, ?_⟩
    exact ⟨bufs, ⟨acc, hring.ownerStep (by decide) h.rx hnot hrx, halloc, hcount⟩, htx, hlen, rfl⟩

/-- `ltran_tx_xmit` after `gazelle_ring_sc_dequeue`. -/
private theorem VdevInv.txDeq (h : s.VdevInv) {sentPkts : U32} (hpc : s.pc = .txDeq pkts sentPkts)
    (hs : s.next = some s') : s'.VdevInv := by
  have hinv := h.pc
  rw [hpc] at hinv
  obtain ⟨hrx, ⟨hring, hcount⟩, hsent, hlen, hmax⟩ := hinv
  simp only [VdevSys.next, hpc] at hs
  split at hs
  · rename_i got hdone
    obtain ⟨tx, htx, rfl⟩ := Option.map_eq_some_iff.1 hs
    obtain ⟨hdeq, hgot⟩ := hring.returned hdone
    have hrest := RingSys.resting_of_return (.inr ⟨_, hdone⟩) htx
    rw [hdeq, hring.accepted] at hrest
    have hused : (s.txRingUsed - BitVec.ofNat 32 got.length).toNat =
        s.txRingUsed.toNat - got.length := by
      have := s.txRingUsed.isLt
      rw [BitVec.toNat_sub, BitVec.toNat_ofNat]
      omega
    refine ⟨h.rx, h.tx.step (by decide) htx, hrx, ⟨hrest, ?_⟩, hsent, hlen⟩
    show (s.txRingUsed - BitVec.ofNat 32 got.length).toNat + (s.freed ++ got).length =
      s.xmitted.length
    rw [hused, List.length_append]
    omega
  · rename_i hnot
    obtain ⟨tx, htx, rfl⟩ := Option.map_eq_some_iff.1 hs
    exact ⟨h.rx, h.tx.step (by decide) htx, hrx, ⟨hring.ownerStep h.tx hnot htx, hcount⟩, hsent,
      hlen, hmax⟩

/-- `ltran_tx_xmit` after `gazelle_ring_sp_enqueue`. -/
private theorem VdevInv.txEnq (h : s.VdevInv) {sentPkts : U32} (hpc : s.pc = .txEnq pkts sentPkts)
    (hs : s.next = some s') : s'.VdevInv := by
  have hinv := h.pc
  rw [hpc] at hinv
  obtain ⟨hrx, ⟨hring, hcount⟩, rfl, hlen⟩ := hinv
  simp only [VdevSys.next, hpc] at hs
  split at hs
  · rename_i n hdone
    obtain ⟨tx, htx, rfl⟩ := Option.map_eq_some_iff.1 hs
    refine ⟨h.rx, h.tx.step (by decide) htx, hrx, hlen, ?_⟩
    have hrest := RingSys.resting_of_return (.inl ⟨_, hdone⟩) htx
    rw [hring.dequeued] at hrest
    by_cases hfits : (s.xmitted ++ []).length + pkts.length ≤ s.freed.length + (2 ^ 9 - 1)
    · obtain ⟨rfl, hacc⟩ := hring.accepted_of_fits hdone hfits
      rw [hacc, List.append_nil] at hrest
      exact .inr ⟨⟨hrest, hcount⟩, BitVec.zero_add _⟩
    · obtain ⟨rfl, hacc⟩ := hring.accepted_of_not_fits hdone hfits
      rw [hacc] at hrest
      exact .inl ⟨⟨hrest, hcount⟩, rfl⟩
  · rename_i hnot
    obtain ⟨tx, htx, rfl⟩ := Option.map_eq_some_iff.1 hs
    exact ⟨h.rx, h.tx.step (by decide) htx, hrx,
      ⟨hring.ownerStep (by decide) h.tx hnot htx, hcount⟩, rfl, hlen⟩

/-- What `ltran_tx_xmit` sent is counted when it returns. -/
private theorem VdevInv.txReturn (h : s.VdevInv) {sentPkts : U32}
    (hpc : s.pc = .txTest pkts sentPkts) :
    VdevInv
      { s with
        txRingUsed := s.txRingUsed + sentPkts
        xmitted := s.xmitted ++ pkts.take sentPkts.toNat
        pc := .idle } := by
  have hinv := h.pc
  rw [hpc] at hinv
  obtain ⟨hrx, hlen, ⟨htx, rfl⟩ | ⟨⟨hring, hcount⟩, rfl⟩⟩ := hinv
  · refine ⟨h.rx, h.tx, hrx, ?_, ?_⟩
    · simpa using htx.1
    · simpa using htx.2
  · have hpkts : (BitVec.ofNat 32 pkts.length).toNat = pkts.length := by
      rw [BitVec.toNat_ofNat, Nat.mod_eq_of_lt hlen]
    -- what the ring holds is below its capacity, so the counter does not overflow
    have hfits := h.tx.fits
    rw [hring.accepted, hring.dequeued, List.length_append] at hfits
    refine ⟨h.rx, h.tx, hrx, ?_, ?_⟩
    · show RingSys.Resting (s.xmitted ++ pkts.take (BitVec.ofNat 32 pkts.length).toNat ++ []) _ _
      rw [hpkts, List.take_length, List.append_nil]
      exact hring
    · show (s.txRingUsed + BitVec.ofNat 32 pkts.length).toNat + s.freed.length =
        (s.xmitted ++ pkts.take (BitVec.ofNat 32 pkts.length).toNat).length
      rw [hpkts, List.take_length, List.length_append, BitVec.toNat_add, hpkts]
      omega

/-- What is counted for `tx_ring` is in the ring, which holds 511 packets at most. -/
private theorem VdevInv.txRingUsed_le (h : s.VdevInv) (htx : s.TxAt RingSys.Resting []) :
    s.txRingUsed.toNat ≤ 511 := by
  obtain ⟨hring, hcount⟩ := htx
  have hfits := h.tx.fits
  rw [hring.accepted, hring.dequeued, List.append_nil] at hfits
  omega

/-- What is counted for `rx_ring` is not in the ring. -/
private theorem VdevInv.rxRingUsed_le (h : s.VdevInv) (hrx : s.RxAt RingSys.Resting [] 0) :
    s.rxRingUsed.toNat ≤ 511 := by
  obtain ⟨acc, hring, -, hcount⟩ := hrx
  have hle := h.rx.dequeued_le.trans (h.rx.confirmed_le.trans h.rx.readOut_le)
  rw [hring.accepted, hring.dequeued] at hle
  omega

/-- The next step of the stack thread keeps the invariant. -/
theorem VdevInv.next (h : s.VdevInv) (hs : s.next = some s') : s'.VdevInv := by
  have hinv := h.pc
  cases hpc : s.pc with
  | fillEnq remain batch => exact h.fillEnq hpc hs
  | rxDeq => exact h.rxDeq hpc hs
  | rxEnq freeCnt => exact h.rxEnq hpc hs
  | txTop pkts sentPkts =>
    rw [hpc] at hinv
    obtain ⟨hrx, ⟨hring, hcount⟩, hsent, hlen⟩ := hinv
    simp only [VdevSys.next, hpc] at hs
    -- from the watermark on the buffers that ltran has sent are taken back first
    split at hs
    · obtain ⟨tx, htx, rfl⟩ := Option.map_eq_some_iff.1 hs
      exact ⟨h.rx, h.tx.step (by decide) htx, hrx, ⟨hring.dequeue htx, hcount⟩, hsent,
        hlen, h.txRingUsed_le ⟨hring, hcount⟩⟩
    · obtain rfl := Option.some.inj hs
      exact ⟨h.rx, h.tx, hrx, ⟨hring, hcount⟩, hsent, hlen⟩
  | txDeq pkts sentPkts => exact h.txDeq hpc hs
  | txSend pkts sentPkts =>
    rw [hpc] at hinv
    obtain ⟨hrx, ⟨hring, hcount⟩, rfl, hlen⟩ := hinv
    simp only [VdevSys.next, hpc] at hs
    obtain ⟨tx, htx, rfl⟩ := Option.map_eq_some_iff.1 hs
    -- only the ring is stepped; the counts follow when its call returns
    exact ⟨h.rx, h.tx.step (by decide) htx, hrx, ⟨hring.enqueue htx, hcount⟩, rfl,
      hlen⟩
  | txEnq pkts sentPkts => exact h.txEnq hpc hs
  | txTest pkts sentPkts =>
    simp only [VdevSys.next, hpc] at hs
    split at hs
    · cases hs
    · exact Option.some.inj hs ▸ h.txReturn hpc
  | fillAlloc remain => simp only [VdevSys.next, hpc] at hs; cases hs
  | failed => simp only [VdevSys.next, hpc] at hs; cases hs
  | idle => simp only [VdevSys.next, hpc] at hs; cases hs
  | rxAlloc freeCnt => simp only [VdevSys.next, hpc] at hs; cases hs

/-- What ltran does with `rx_ring` changes nothing for the stack. -/
theorem PcInv.ofRx {rx : RingSys α} {pc : VdevPc α} (h : s.PcInv pc)
    (hsame : RingSys.SameOwner s.rx rx) : PcInv { s with rx } pc := by
  have hat : ∀ {phase : List α → List α → RingSys α → Prop} {bufs : List α} {pending : ℕ},
      (∀ acc deq, phase acc deq s.rx → phase acc deq rx) → s.RxAt phase bufs pending →
        RxAt { s with rx } phase bufs pending := by
    rintro phase bufs pending hphase ⟨acc, hring, hrest⟩
    exact ⟨acc, hphase _ _ hring, hrest⟩
  have hresting : ∀ {bufs : List α} {pending : ℕ}, s.RxAt RingSys.Resting bufs pending →
      RxAt { s with rx } RingSys.Resting bufs pending :=
    hat fun _ _ hring => hring.congr hsame
  cases pc with
  | fillEnq remain batch =>
    obtain ⟨bufs, hrx, hrest⟩ := h
    exact ⟨bufs, hat (fun _ _ hring => hring.congr hsame) hrx, hrest⟩
  | rxEnq freeCnt =>
    obtain ⟨bufs, hrx, hrest⟩ := h
    exact ⟨bufs, hat (fun _ _ hring => hring.congr hsame) hrx, hrest⟩
  | rxDeq =>
    obtain ⟨n, hrx, hrest⟩ := h
    exact ⟨n, hat (fun _ _ hring => hring.congr hsame) hrx, hrest⟩
  | failed => exact ⟨h.1.trans hsame.dequeued.symm, h.2⟩
  | _ => exact ⟨hresting h.1, h.2⟩

/-- What ltran does with `tx_ring` changes nothing for the stack. -/
theorem PcInv.ofTx {tx : RingSys α} {pc : VdevPc α} (h : s.PcInv pc)
    (hsame : RingSys.SameOwner s.tx tx) : PcInv { s with tx } pc := by
  have hresting : ∀ {pkts : List α}, s.TxAt RingSys.Resting pkts →
      TxAt { s with tx } RingSys.Resting pkts :=
    fun htx => ⟨htx.1.congr hsame, htx.2⟩
  cases pc with
  | fillAlloc remain => exact ⟨h.1, hresting h.2.1, h.2.2⟩
  | fillEnq remain batch =>
    obtain ⟨bufs, hrx, htx, hrest⟩ := h
    exact ⟨bufs, hrx, hresting htx, hrest⟩
  | failed => exact ⟨h.1, h.2.trans hsame.dequeued.symm⟩
  | idle => exact ⟨h.1, hresting h.2⟩
  | rxDeq =>
    obtain ⟨n, hrx, htx⟩ := h
    exact ⟨n, hrx, hresting htx⟩
  | rxAlloc freeCnt => exact ⟨h.1, hresting h.2.1, h.2.2⟩
  | rxEnq freeCnt =>
    obtain ⟨bufs, hrx, htx, hrest⟩ := h
    exact ⟨bufs, hrx, hresting htx, hrest⟩
  | txTop pkts sentPkts => exact ⟨h.1, hresting h.2.1, h.2.2⟩
  | txSend pkts sentPkts => exact ⟨h.1, hresting h.2.1, h.2.2⟩
  | txDeq pkts sentPkts => exact ⟨h.1, ⟨h.2.1.1.congr hsame, h.2.1.2⟩, h.2.2⟩
  | txEnq pkts sentPkts => exact ⟨h.1, ⟨h.2.1.1.congr hsame, h.2.1.2⟩, h.2.2⟩
  | txTest pkts sentPkts =>
    exact ⟨h.1, h.2.1, h.2.2.imp (fun hnone => ⟨hresting hnone.1, hnone.2⟩)
      fun hall => ⟨hresting hall.1, hall.2⟩⟩

theorem lwipMin_le (x y : U32) : lwipMin x y ≤ x ∧ lwipMin x y ≤ y := by
  unfold lwipMin
  split
  · rename_i hlt
    exact ⟨BitVec.le_refl x, BitVec.le_of_lt hlt⟩
  · rename_i hge
    exact ⟨BitVec.not_lt.1 hge, BitVec.le_refl y⟩

/-- Every step keeps the invariant. -/
theorem VdevInv.step (h : s.VdevInv) {act : VdevAction α} (hs : s.step act = some s') :
    s'.VdevInv := by
  have hinv := h.pc
  cases act with
  | rxReader a =>
    -- ltran reads and confirms, which leaves the counters of the owner alone
    simp only [VdevSys.step, Option.ite_none_right_eq_some] at hs
    obtain ⟨ha, hs⟩ := hs
    obtain ⟨rx, hrx, rfl⟩ := Option.map_eq_some_iff.1 hs
    exact ⟨h.rx.step (by decide) hrx, h.tx, hinv.ofRx (RingSys.sameOwner_of_readerAct ha hrx)⟩
  | txReader a =>
    simp only [VdevSys.step, Option.ite_none_right_eq_some] at hs
    obtain ⟨ha, hs⟩ := hs
    obtain ⟨tx, htx, rfl⟩ := Option.map_eq_some_iff.1 hs
    exact ⟨h.rx, h.tx.step (by decide) htx, hinv.ofTx (RingSys.sameOwner_of_readerAct ha htx)⟩
  | rxPoll maxMbuf =>
    simp only [VdevSys.step] at hs
    split at hs
    · rename_i hpc
      rw [hpc] at hinv
      obtain ⟨⟨acc, hring, hrest⟩, htx⟩ := hinv
      -- the dequeue of the received mbufs begins
      obtain ⟨rx, hrx, rfl⟩ := Option.map_eq_some_iff.1 hs
      exact ⟨h.rx.step (by decide) hrx, h.tx, maxMbuf,
        ⟨acc, hring.dequeue hrx, hrest⟩, htx⟩
    · cases hs
  | txXmit pkts =>
    simp only [VdevSys.step] at hs
    split at hs
    · rename_i hpc
      rw [hpc] at hinv
      simp only [Option.ite_none_right_eq_some, Option.some.injEq] at hs
      -- the number of packets is a `uint32_t`
      obtain ⟨hlen, rfl⟩ := hs
      exact ⟨h.rx, h.tx, hinv.1, hinv.2, rfl, hlen⟩
    · cases hs
  | alloc bufs =>
    simp only [VdevSys.step] at hs
    split at hs
    · rename_i remain hpc
      rw [hpc] at hinv
      -- without mbufs `fill_mbuf_to_ring` fails
      obtain rfl := Option.some.inj hs
      obtain ⟨⟨acc, hring, -⟩, htx, -⟩ := hinv
      exact ⟨h.rx, h.tx, hring.dequeued.symm, htx.1.dequeued.symm⟩
    · rename_i remain bufs hpc
      rw [hpc] at hinv
      obtain ⟨⟨acc, hring, halloc, hcount⟩, htx, hpos⟩ := hinv
      simp only [Option.ite_none_right_eq_some] at hs
      -- the allocation gives as many mbufs as were asked for
      obtain ⟨hlen, hs⟩ := hs
      obtain ⟨rx, hrx, rfl⟩ := Option.map_eq_some_iff.1 hs
      have hbatch : 0 < lwipMin remain (ringSize defaultRingSize) := by
        unfold lwipMin
        split
        · exact hpos
        · decide
      refine ⟨h.rx.step (by decide) hrx, h.tx, bufs,
        ⟨acc, hring.enqueue hrx, ?_, hcount⟩, htx, hlen, hbatch, lwipMin_le _ _⟩
      -- they were allocated and are not yet in the ring
      show s.allocated ++ bufs = _
      rw [halloc, List.append_nil]
    · rename_i freeCnt hpc
      rw [hpc] at hinv
      -- without mbufs nothing is enqueued
      obtain rfl := Option.some.inj hs
      exact ⟨h.rx, h.tx, hinv.1, hinv.2.1⟩
    · rename_i freeCnt bufs hpc
      rw [hpc] at hinv
      obtain ⟨⟨acc, hring, halloc, hcount⟩, htx, rfl⟩ := hinv
      simp only [Option.ite_none_right_eq_some] at hs
      obtain ⟨hlen, hs⟩ := hs
      obtain ⟨rx, hrx, rfl⟩ := Option.map_eq_some_iff.1 hs
      refine ⟨h.rx.step (by decide) hrx, h.tx, bufs,
        ⟨acc, hring.enqueue hrx, ?_, hcount⟩, htx, hlen, rfl⟩
      show s.allocated ++ bufs = _
      rw [halloc, List.append_nil]
    · cases hs
  | retry again =>
    simp only [VdevSys.step] at hs
    split at hs
    · rename_i pkts sentPkts hpc
      simp only [Option.ite_none_right_eq_some] at hs
      obtain ⟨hlt, hs⟩ := hs
      split at hs
      · -- the loop goes on, which it only does when nothing was sent
        obtain rfl := Option.some.inj hs
        rw [hpc] at hinv
        obtain ⟨hrx, hlen, ⟨htx, rfl⟩ | ⟨-, rfl⟩⟩ := hinv
        · exact ⟨h.rx, h.tx, hrx, htx, rfl, hlen⟩
        · exact absurd hlt (BitVec.lt_irrefl _)
      · -- the time is over, or the stack is not registered any more
        obtain rfl := Option.some.inj hs
        exact h.txReturn hpc
    · cases hs
  | next => exact h.next hs

/-- The rings that were just created. -/
theorem VdevInv.create (rxSlots txSlots : U32 → α) : (create rxSlots txSlots).VdevInv where
  rx := .create 9 0 rxSlots
  tx := .create 9 0 txSlots
  pc := ⟨⟨[], ⟨rfl, rfl, rfl⟩, rfl, rfl⟩, ⟨⟨rfl, rfl, rfl⟩, rfl⟩, by decide⟩

/-! ## Runs -/

/-- What was received and what was freed was dequeued. -/
theorem PcInv.isPrefix {pc : VdevPc α} (h : s.PcInv pc) :
    s.received <+: s.rx.dequeued ∧ s.freed <+: s.tx.dequeued := by
  have hrx : ∀ {bufs : List α} {pending : ℕ}, s.RxAt RingSys.Resting bufs pending →
      s.received <+: s.rx.dequeued :=
    fun ⟨_, hring, _⟩ => hring.dequeued ▸ List.prefix_refl _
  have htx : ∀ {pkts : List α}, s.TxAt RingSys.Resting pkts → s.freed <+: s.tx.dequeued :=
    fun hring => hring.1.dequeued ▸ List.prefix_refl _
  cases pc with
  | fillAlloc remain => exact ⟨hrx h.1, htx h.2.1⟩
  | fillEnq remain batch =>
    obtain ⟨bufs, ⟨acc, hring, -⟩, hrest, -⟩ := h
    exact ⟨hring.dequeued ▸ List.prefix_refl _, htx hrest⟩
  | failed => exact ⟨h.1 ▸ List.prefix_refl _, h.2 ▸ List.prefix_refl _⟩
  | idle => exact ⟨hrx h.1, htx h.2⟩
  | rxDeq =>
    obtain ⟨n, ⟨acc, hring, -⟩, hrest⟩ := h
    exact ⟨hring.isPrefix_dequeued, htx hrest⟩
  | rxAlloc freeCnt => exact ⟨hrx h.1, htx h.2.1⟩
  | rxEnq freeCnt =>
    obtain ⟨bufs, ⟨acc, hring, -⟩, hrest, -⟩ := h
    exact ⟨hring.dequeued ▸ List.prefix_refl _, htx hrest⟩
  | txTop pkts sentPkts => exact ⟨hrx h.1, htx h.2.1⟩
  | txSend pkts sentPkts => exact ⟨hrx h.1, htx h.2.1⟩
  | txDeq pkts sentPkts => exact ⟨hrx h.1, h.2.1.1.isPrefix_dequeued⟩
  | txEnq pkts sentPkts => exact ⟨hrx h.1, h.2.1.1.dequeued ▸ List.prefix_refl _⟩
  | txTest pkts sentPkts =>
    exact ⟨hrx h.1, h.2.2.elim (fun hnone => htx hnone.1) fun hall => htx hall.1⟩

/-- The objects in a ring are in its slots. -/
private theorem append_dequeueElems {r : RingSys α} (h : RingSys.RingInv 9 0 r) :
    r.dequeued ++ r.ring.dequeueElems r.ring.cons.tail
      (r.ring.cons.head - r.ring.cons.tail).toNat = r.accepted := by
  have hle := h.dequeued_le.trans (h.confirmed_le.trans h.readOut_le)
  have hprefix := h.dequeued_prefix.trans (h.confirmed_prefix.trans h.readOut_prefix)
  rw [h.count_toNat (by decide), h.dequeueElems_eq h.consTail (Nat.le_refl _) (by omega),
    List.take_of_length_le (by rw [List.length_drop])]
  obtain ⟨rest, hrest⟩ := hprefix
  rw [← hrest, List.drop_left]

/-- Between two calls the counters are those of the rings. -/
theorem VdevInv.idle (h : s.VdevInv) (hpc : s.pc = .idle) :
    s.rxRingUsed + (s.rx.ring.cons.head - s.rx.ring.cons.tail) = 511 ∧
      s.txRingUsed = s.tx.ring.cons.head - s.tx.ring.cons.tail ∧ s.txRingUsed ≤ 511 ∧
      s.allocated = s.received ++ s.rx.ring.dequeueElems s.rx.ring.cons.tail
        (s.rx.ring.cons.head - s.rx.ring.cons.tail).toNat ∧
      s.xmitted = s.freed ++ s.tx.ring.dequeueElems s.tx.ring.cons.tail
        (s.tx.ring.cons.head - s.tx.ring.cons.tail).toNat := by
  have hinv := h.pc
  rw [hpc] at hinv
  obtain ⟨⟨acc, hrx, halloc, hrxCount⟩, htx, htxCount⟩ := hinv
  have hrxElems := append_dequeueElems h.rx
  have htxElems := append_dequeueElems h.tx
  have hrxRing := h.rx.count_toNat (by decide)
  have htxRing := h.tx.count_toNat (by decide)
  have hle := h.txRingUsed_le ⟨htx, htxCount⟩
  have hrxLe := h.rx.dequeued_le.trans (h.rx.confirmed_le.trans h.rx.readOut_le)
  rw [hrx.dequeued, hrx.accepted] at hrxElems hrxRing hrxLe
  rw [htx.dequeued, htx.accepted, List.append_nil] at htxElems htxRing
  refine ⟨?_, ?_, hle, ?_, htxElems.symm⟩
  · apply BitVec.eq_of_toNat_eq
    have h511 : (511 : U32).toNat = 511 := rfl
    rw [BitVec.toNat_add, hrxRing, h511]
    omega
  · apply BitVec.eq_of_toNat_eq
    rw [htxRing]
    omega
  · rw [halloc, List.append_nil, hrxElems]

/-- The buffers of a stack that shares its rings with ltran, in every interleaving with ltran's
reads and confirmations and whatever allocations fail. Between two calls, the counters of the stack
agree with those of the rings. Every mbuf allocated for `rx_ring` was received or is in its slot,
and every packet sent was freed or is in its slot; what was freed was confirmed by ltran before. A
replenishing `gazelle_ring_sp_enqueue` takes all it is given, and no function asks for more objects
than `free_buf` has room for. -/
theorem vdev_accounting (hs : (system (α := α)).Reachable s) :
    (s.pc = .idle →
      s.rxRingUsed + (s.rx.ring.cons.head - s.rx.ring.cons.tail) = 511 ∧
        s.txRingUsed = s.tx.ring.cons.head - s.tx.ring.cons.tail ∧ s.txRingUsed ≤ 511 ∧
        s.allocated = s.received ++ s.rx.ring.dequeueElems s.rx.ring.cons.tail
          (s.rx.ring.cons.head - s.rx.ring.cons.tail).toNat ∧
        s.xmitted = s.freed ++ s.tx.ring.dequeueElems s.tx.ring.cons.tail
          (s.tx.ring.cons.head - s.tx.ring.cons.tail).toNat) ∧
      s.freed <+: s.tx.confirmed ∧ s.received <+: s.rx.confirmed ∧
      (∀ freeCnt n, s.pc = .rxEnq freeCnt → s.rx.owner = .enqDone n → n = freeCnt) ∧
      (∀ freeCnt, s.pc = .rxAlloc freeCnt → freeCnt ≤ 511) ∧
      (∀ remain batch, s.pc = .fillEnq remain batch → batch ≤ 511) ∧
      (∀ pkts sentPkts, s.pc = .txTop pkts sentPkts → s.txRingUsed ≤ 511) ∧
      ∀ pkts sentPkts freeBuf, s.pc = .txDeq pkts sentPkts → s.tx.owner = .deqDone freeBuf →
        freeBuf.length ≤ 511 := by
  have h : s.VdevInv := by
    refine Transition.System.invariant (I := VdevInv) ?_ ?_ hs
    · rintro _ ⟨rxSlots, txSlots, rfl⟩
      exact .create rxSlots txSlots
    · intro _ _ _ _ ih hstep
      exact ih.step hstep
  refine ⟨fun hpc => ?_, h.pc.isPrefix.2.trans h.tx.dequeued_prefix,
    h.pc.isPrefix.1.trans h.rx.dequeued_prefix, fun freeCnt n hpc hdone => ?_,
    fun freeCnt hpc => ?_, fun remain batch hpc => ?_, fun pkts sentPkts hpc => ?_,
    fun pkts sentPkts freeBuf hpc hdone => ?_⟩
  · exact h.idle hpc
  · -- the ring has room for as many as were counted free
    have hinv := h.pc
    rw [hpc] at hinv
    obtain ⟨bufs, ⟨acc, hring, -, hcount⟩, -, hlen, rfl⟩ := hinv
    obtain ⟨rfl, -⟩ := hring.accepted_of_fits hdone (by omega)
    rw [hlen, BitVec.ofNat_toNat, BitVec.setWidth_eq]
  · have hinv := h.pc
    rw [hpc] at hinv
    obtain ⟨hrx, -, rfl⟩ := hinv
    exact h.rxRingUsed_le hrx
  · have hinv := h.pc
    rw [hpc] at hinv
    obtain ⟨bufs, -, -, -, -, -, hmax⟩ := hinv
    exact hmax
  · have hinv := h.pc
    rw [hpc] at hinv
    exact h.txRingUsed_le hinv.2.1
  · have hinv := h.pc
    rw [hpc] at hinv
    obtain ⟨-, ⟨hring, -⟩, -, -, hmax⟩ := hinv
    exact (hring.returned hdone).2.trans hmax

/-- `fill_mbuf_to_ring` with the mbufs `0` to `510`. -/
private def fillRun : List (VdevAction ℕ) :=
  .alloc (some (List.range 511)) :: List.replicate 515 .next

/-- ltran reads `n` objects of a ring and confirms them. -/
private def readRun (ring : RingAct ℕ → VdevAction ℕ) (n : ℕ) : List (VdevAction ℕ) :=
  ring (.read (BitVec.ofNat 32 n)) :: List.replicate (n + 4) (ring .reader) ++
    ring .readOver :: List.replicate 3 (ring .reader)

/-- `ltran_rx_poll` returns `n` packets and reaches the watermark. The next call gets no packet, and
the mbufs that the first one could not allocate. -/
private def pollRun (n : ℕ) : List (VdevAction ℕ) :=
  .rxPoll (BitVec.ofNat 32 n) :: List.replicate (n + 4) .next ++ [.alloc none] ++
    .rxPoll (BitVec.ofNat 32 n) :: List.replicate 3 .next ++
    .alloc (some (List.range' 1000 n)) :: List.replicate (n + 4) .next

/-- `ltran_tx_xmit` sends `n` packets; ltran takes two, which the next call frees before it sends
two more. -/
private def xmitRun (n : ℕ) : List (VdevAction ℕ) :=
  .txXmit (List.range' 2000 n) :: List.replicate (n + 7) .next ++ readRun .txReader 2 ++
    .txXmit [3000, 3001] :: List.replicate 15 .next

/-- Whether a stack is outside its functions and has received and freed these packets. -/
private def hasDone (received freed : List ℕ) (s : VdevSys ℕ) : Bool :=
  match s.pc with
  | .idle => s.received = received && s.freed = freed
  | _ => false

/-- A stack receives 128 packets and replaces them although an allocation fails, and it sends 132
packets and frees two. Both rings are counted right. -/
theorem vdev_accounting_replenished :
    ∃ s : VdevSys ℕ, system.Reachable s ∧ s.received = List.range 128 ∧ s.freed = [2000, 2001] ∧
      s.rxRingUsed + (s.rx.ring.cons.head - s.rx.ring.cons.tail) = 511 ∧
      s.txRingUsed = s.tx.ring.cons.head - s.tx.ring.cons.tail ∧ s.txRingUsed ≤ 511 ∧
      s.allocated = s.received ++ s.rx.ring.dequeueElems s.rx.ring.cons.tail
        (s.rx.ring.cons.head - s.rx.ring.cons.tail).toNat ∧
      s.xmitted = s.freed ++ s.tx.ring.dequeueElems s.tx.ring.cons.tail
        (s.tx.ring.cons.head - s.tx.ring.cons.tail).toNat := by
  have hrun : (system.run (create (fun _ => 0) fun _ => 0)
      (fillRun ++ readRun .rxReader 128 ++ pollRun 128 ++ xmitRun 130)).any
        (hasDone (List.range 128) [2000, 2001]) = true := by
    decide +kernel
  obtain ⟨s, hs, hdone⟩ := (Option.any_eq_true _ _).1 hrun
  have hreach : (system (α := ℕ)).Reachable s :=
    Transition.System.reachable_of_run (.init ⟨_, _, rfl⟩) hs
  unfold hasDone at hdone
  split at hdone
  · rename_i hpc
    rw [Bool.and_eq_true] at hdone
    exact ⟨s, hreach, of_decide_eq_true hdone.1, of_decide_eq_true hdone.2,
      (vdev_accounting hreach).1 hpc⟩
  · cases hdone

end VdevSys

end Gazelle
