import Gazelle.Lists.Circular
import Gazelle.Ring.Basic
import Gazelle.Transition.System

/-!
# The receive pipeline of ltran

The packets for one stack, from `enqueue_rx_packet` to the slots of the stack's `rx_ring`: a batch
buffer, a circular backup buffer for what the ring has no free mbufs for, and the ring
(`ltran_forward.c`). The other side of the ring may do anything to its counters and slots between
two reads.

* `RxStack.system`: all sequences of calls of `enqueue_rx_packet` and `flush_rx_ring`;
* `rx_pipeline`: packets reach the ring in the order of their arrival, each is in one place, and
  none is dropped unless the backup buffer is full.
-/

namespace Gazelle

/-- `BACKUP_MBUF_SIZE`. -/
def backupMbufSize : U32 := 1024 * packetReadSize

/-- `RING_MAX_SIZE`. -/
def ringMaxSize : U32 := 512

/-- `RTE_MBUF_DEFAULT_BUF_SIZE`. -/
def rteMbufDefaultBufSize : ℕ := 2048 + 128

/-- A received packet: an mbuf of the pool of ltran, whose buffers have this size. -/
structure RxMbuf where
  /-- The address of the mbuf. -/
  addr : ℕ
  /-- `data_len`. -/
  dataLen : BitVec 16
  /-- The data is in the buffer. -/
  fits : dataLen.toNat ≤ rteMbufDefaultBufSize
  deriving DecidableEq

/-- What `struct gazelle_stack` has for the packets that it is given, with the history of what
became of them. The free mbufs in the ring are of type `β`. -/
structure RxStack (β : Type*) where
  /-- The batch. -/
  pktBuf : ℕ → Option RxMbuf
  /-- The number of packets in it. -/
  pktCnt : U32
  /-- The backup buffer. -/
  backupPktBuf : ℕ → Option RxMbuf
  /-- The number of packets in it. -/
  backupPktCnt : U32
  /-- The place of the first. -/
  backupStart : U32
  /-- The ring with the free mbufs of the stack. -/
  rxRing : RteRing β
  /-- `stack_stats.rx`. -/
  rx : BitVec 64
  /-- `stack_stats.rx_drop`. -/
  rxDrop : BitVec 64
  /-- The packets given to `enqueue_rx_packet`. -/
  arrivals : List RxMbuf
  /-- The free mbufs that `gazelle_ring_read` handed out. -/
  readOut : List β
  /-- The free mbufs that were filled, each with the packet that was copied and freed. -/
  copied : List (β × RxMbuf)
  /-- The packets freed without being copied. -/
  dropped : List RxMbuf

/-- What the consumer side of a ring has become by the time the ring is read. -/
structure Offer (β : Type*) where
  /-- The counters of the consumer side. -/
  cons : HeadTail
  /-- The slots. -/
  slots : U32 → β

/-- The calls. A ring is read twice at most in each. -/
inductive RxAction (β : Type*)
  /-- `enqueue_rx_packet`. -/
  | enqueueRxPacket (buf : RxMbuf) (backup batch : Offer β)
  /-- `flush_rx_ring`. -/
  | flushRxRing (backup batch : Offer β)

namespace RxStack

variable {β : Type*} (s : RxStack β)

/-! ## The functions -/

/-- `gazelle_ring_read` on the ring as the consumer has left it. -/
def ringRead (o : Offer β) (n : U32) : List β × RxStack β :=
  let read := { s.rxRing with cons := o.cons, slots := o.slots }.gazelleRingRead n
  (read.1, { s with rxRing := read.2, readOut := s.readOut ++ read.1 })

/-- `flush_rx_mbuf`: `copy_mbuf` and `rte_pktmbuf_free`. -/
def flushRxMbuf (dst : β) : Option RxMbuf → RxStack β
  | none => s
  | some src =>
    if src.dataLen.toNat > rteMbufDefaultBufSize then s
    else { s with copied := s.copied ++ [(dst, src)] }

/-- The loop that copies the packets `src j`, `src (j + 1)`, … to free mbufs. -/
def flushRxMbufs (src : ℕ → Option RxMbuf) : RxStack β → ℕ → List β → RxStack β
  | s, _, [] => s
  | s, j, dst :: freeBuf => flushRxMbufs src (s.flushRxMbuf dst (src j)) (j + 1) freeBuf

/-- The place of the packet `j` from `start` on in the backup buffer. -/
def backupIndex (start : U32) (j : ℕ) : ℕ := ((start + BitVec.ofNat 32 j) % backupMbufSize).toNat

/-- `backup_bufs_enque_rx_ring`. -/
def backupBufsEnqueRxRing (o : Offer β) : RxStack β :=
  let flushCnt := if s.backupPktCnt < ringMaxSize then s.backupPktCnt else ringMaxSize
  let (freeBuf, s) := s.ringRead o flushCnt
  let freeCnt := freeBuf.length
  let s := s.flushRxMbufs (fun j => s.backupPktBuf (backupIndex s.backupStart j)) 0 freeBuf
  { s with
    rx := s.rx + BitVec.ofNat 64 freeCnt
    backupPktCnt := s.backupPktCnt - BitVec.ofNat 32 freeCnt
    backupStart := (s.backupStart + BitVec.ofNat 32 freeCnt) % backupMbufSize
    rxRing := s.rxRing.gazelleRingReadOver }

/-- Free the packet `mbuf[j]` of the batch from `mbuf` on. -/
def dropMbuf (mbuf : ℕ) (s : RxStack β) (j : ℕ) : RxStack β :=
  { s with
    dropped := s.dropped ++ (s.pktBuf (mbuf + j)).toList
    pktBuf := Function.update s.pktBuf (mbuf + j) none }

/-- Store `mbuf[j]` in the backup buffer. -/
def storeMbuf (mbuf : ℕ) (backupTail : U32) (s : RxStack β) (j : ℕ) : RxStack β :=
  { s with
    backupPktBuf :=
      Function.update s.backupPktBuf (backupIndex backupTail j) (s.pktBuf (mbuf + j)) }

/-- `pktbufs_move_to_backup_bufs` for the `mbufCnt` packets of the batch from `mbuf` on. -/
def pktbufsMoveToBackupBufs (mbuf : ℕ) (mbufCnt : U32) : RxStack β :=
  let backupTail := (s.backupStart + s.backupPktCnt) % backupMbufSize
  let full := s.backupPktCnt + mbufCnt > backupMbufSize
  let pktCnt := if full then backupMbufSize - s.backupPktCnt else mbufCnt
  let s :=
    if full then
      (List.range' pktCnt.toNat (mbufCnt - pktCnt).toNat).foldl (dropMbuf mbuf)
        { s with rxDrop := s.rxDrop + (mbufCnt - pktCnt).zeroExtend 64 }
    else s
  (List.range pktCnt.toNat).foldl (storeMbuf mbuf backupTail)
    { s with backupPktCnt := s.backupPktCnt + pktCnt }

/-- `pkt_bufs_enque_rx_ring`, which returns the number of packets copied. -/
def pktBufsEnqueRxRing (o : Offer β) : U32 × RxStack β :=
  let (freeBuf, s) := s.ringRead o s.pktCnt
  let freeCnt := freeBuf.length
  let s := { s with rx := s.rx + BitVec.ofNat 64 freeCnt }
  let s := s.flushRxMbufs s.pktBuf 0 freeBuf
  (BitVec.ofNat 32 freeCnt,
    if freeCnt ≠ 0 then { s with rxRing := s.rxRing.gazelleRingReadOver } else s)

/-- The part of `flush_rx_ring` after the backup buffer was emptied. -/
def flushBatch (o : Offer β) : RxStack β :=
  let (flushCnt, s) := s.pktBufsEnqueRxRing o
  let s :=
    if flushCnt < s.pktCnt then s.pktbufsMoveToBackupBufs flushCnt.toNat (s.pktCnt - flushCnt)
    else s
  { s with pktCnt := 0 }

/-- `flush_rx_ring` for a stack other than that of the kernel. -/
def flushRxRing (backup batch : Offer β) : RxStack β :=
  if s.backupPktCnt > 0 then
    let s := s.backupBufsEnqueRxRing backup
    if s.backupPktCnt > 0 then { s.pktbufsMoveToBackupBufs 0 s.pktCnt with pktCnt := 0 }
    else s.flushBatch batch
  else s.flushBatch batch

/-- `enqueue_rx_packet`. -/
def enqueueRxPacket (buf : RxMbuf) (backup batch : Offer β) : RxStack β :=
  let s :=
    { s with
      pktBuf := Function.update s.pktBuf s.pktCnt.toNat (some buf)
      pktCnt := s.pktCnt + 1
      arrivals := s.arrivals ++ [buf] }
  if s.pktCnt ≥ packetReadSize then s.flushRxRing backup batch else s

/-- One call. -/
def step : RxAction β → Option (RxStack β)
  | .enqueueRxPacket buf backup batch => some (s.enqueueRxPacket buf backup batch)
  | .flushRxRing backup batch => some (s.flushRxRing backup batch)

/-- A stack that was just allocated, with its ring. -/
def create (rxRing : RteRing β) : RxStack β where
  pktBuf _ := none
  pktCnt := 0
  backupPktBuf _ := none
  backupPktCnt := 0
  backupStart := 0
  rxRing := rxRing
  rx := 0
  rxDrop := 0
  arrivals := []
  readOut := []
  copied := []
  dropped := []

/-- All sequences of calls for a stack. -/
def system : Transition.System (RxStack β) (RxAction β) where
  Init s := ∃ rxRing, s = create rxRing
  step := step

variable {s}

/-! ## The loops -/

theorem toNat_backupMbufSize : backupMbufSize.toNat = 32768 := rfl

theorem backupIndex_eq {start : U32} {j : ℕ} (hstart : start.toNat < 32768) (hj : j ≤ 32768) :
    backupIndex start j = (start.toNat + j) % 32768 := by
  have hsum : (start + BitVec.ofNat 32 j).toNat = start.toNat + j := by
    rw [BitVec.toNat_add, BitVec.toNat_ofNat]
    omega
  rw [backupIndex, BitVec.toNat_umod, hsum, toNat_backupMbufSize]

/-- `gazelle_ring_read` hands out as many objects as it is asked for at most. -/
theorem length_gazelleRingRead_le (r : RteRing β) (n : U32) :
    (r.gazelleRingRead n).1.length ≤ n.toNat := by
  have hclamp : ∀ entries : U32, (RteRing.clamp n entries).toNat ≤ n.toNat := by
    intro entries
    unfold RteRing.clamp
    split
    · rename_i hlt
      exact Nat.le_of_lt hlt
    · exact Nat.le_refl _
  unfold RteRing.gazelleRingRead
  dsimp only
  split
  · exact Nat.zero_le _
  · rw [RteRing.length_dequeueElems]
    exact hclamp _

/-- The loop copies each packet to the free mbuf that belongs to it. -/
theorem flushRxMbufs_eq {src : ℕ → Option RxMbuf} {j : ℕ} {freeBuf : List β} {l : List RxMbuf}
    (hlen : l.length = freeBuf.length) (hsrc : ∀ i x, l[i]? = some x → src (j + i) = some x) :
    flushRxMbufs src s j freeBuf = { s with copied := s.copied ++ freeBuf.zip l } := by
  induction freeBuf generalizing s j l with
  | nil => simp [flushRxMbufs]
  | cons dst freeBuf ih =>
    cases l with
    | nil => cases hlen
    | cons m l =>
      have hm : src j = some m := hsrc 0 m rfl
      have hfits : ¬ m.dataLen.toNat > rteMbufDefaultBufSize := Nat.not_lt.2 m.fits
      have hrest : ∀ i x, l[i]? = some x → src (j + 1 + i) = some x := fun i x hx => by
        rw [Nat.add_assoc, Nat.add_comm 1 i]
        exact hsrc (i + 1) x hx
      simp only [flushRxMbufs, hm, flushRxMbuf, if_neg hfits]
      rw [ih (Nat.succ.inj hlen) hrest]
      simp

/-- The loop that frees packets of the batch leaves those before them alone. -/
theorem foldl_dropMbuf {mbuf a n : ℕ} {l : List RxMbuf} (hlen : l.length = n)
    (hbuf : ∀ i x, l[i]? = some x → s.pktBuf (mbuf + (a + i)) = some x) :
    ∃ buf, (List.range' a n).foldl (dropMbuf mbuf) s =
        { s with dropped := s.dropped ++ l, pktBuf := buf } ∧
      ∀ i < mbuf + a, buf i = s.pktBuf i := by
  induction l generalizing s a n with
  | nil =>
    subst hlen
    exact ⟨s.pktBuf, by simp, fun _ _ => rfl⟩
  | cons m l ih =>
    subst hlen
    have hm : s.pktBuf (mbuf + a) = some m := hbuf 0 m rfl
    rw [List.length_cons, List.range'_succ, List.foldl_cons]
    have hrest : ∀ i x, l[i]? = some x →
        (dropMbuf mbuf s a).pktBuf (mbuf + (a + 1 + i)) = some x := fun i x hx => by
      have hne : mbuf + (a + 1 + i) ≠ mbuf + a := by omega
      rw [dropMbuf]
      simp only [Function.update_of_ne hne]
      rw [Nat.add_assoc a 1 i, Nat.add_comm 1 i]
      exact hbuf (i + 1) x hx
    obtain ⟨buf, heq, hsame⟩ := ih rfl hrest
    refine ⟨buf, ?_, fun i hi => ?_⟩
    · rw [heq]
      simp [dropMbuf, hm]
    · rw [hsame i (by omega), dropMbuf]
      exact Function.update_of_ne (by omega) _ _

/-- The loop that stores packets in the backup buffer appends them. -/
theorem foldl_storeMbuf {mbuf n : ℕ} {start tail : U32} {backup l : List RxMbuf}
    (htail : tail.toNat = (start.toNat + backup.length) % 32768)
    (hlen : l.length = n) (hroom : backup.length + n ≤ 32768)
    (hheld : Circular.Holds 32768 s.backupPktBuf start.toNat backup)
    (hbuf : ∀ i x, l[i]? = some x → s.pktBuf (mbuf + i) = some x) :
    ∃ buf, (List.range n).foldl (storeMbuf mbuf tail) s = { s with backupPktBuf := buf } ∧
      Circular.Holds 32768 buf start.toNat (backup ++ l) := by
  -- by induction on the number of packets, the last of which is stored last
  induction n generalizing l with
  | zero =>
    obtain rfl := List.eq_nil_of_length_eq_zero hlen
    exact ⟨s.backupPktBuf, rfl, by rwa [List.append_nil]⟩
  | succ n ih =>
    obtain ⟨l, m, rfl⟩ : ∃ init m, l = init ++ [m] :=
      ⟨l.dropLast, l.getLast (List.ne_nil_of_length_eq_add_one hlen),
        (List.dropLast_append_getLast _).symm⟩
    have hlen' : l.length = n := by simpa using hlen
    obtain ⟨buf, heq, hheld'⟩ := ih hlen' (by omega) fun i x hx => hbuf i x (by
      rwa [List.getElem?_append_left (List.getElem?_eq_some_iff.1 hx).1])
    have hm : s.pktBuf (mbuf + n) = some m := hbuf n m (by simp [← hlen'])
    have hindex : backupIndex tail n = (start.toNat + (backup ++ l).length) % 32768 := by
      rw [backupIndex_eq (by omega) (by omega), htail, Nat.mod_add_mod, List.length_append, hlen',
        Nat.add_assoc]
    refine ⟨Function.update buf (backupIndex tail n) (some m), ?_, ?_⟩
    · rw [List.range_succ, List.foldl_append, heq]
      simp [storeMbuf, hm]
    · rw [hindex, ← List.append_assoc]
      exact hheld'.snoc (by rw [List.length_append]; omega)

/-! ## The stages -/

variable (s) in
/-- The packets: `backup` is in the backup buffer and `pkts` is what is left of the batch, from the
place `mbuf` on. -/
structure RxInv (mbuf : ℕ) (backup pkts : List RxMbuf) : Prop where
  /-- The number of packets in the backup buffer. -/
  backupPktCnt : s.backupPktCnt.toNat = backup.length
  /-- They fit the buffer. -/
  backup_le : backup.length ≤ 32768
  /-- The first of them is in the buffer. -/
  backupStart : s.backupStart.toNat < 32768
  /-- Where they are. -/
  backupPktBuf : Circular.Holds 32768 s.backupPktBuf s.backupStart.toNat backup
  /-- The number of packets in the batch. -/
  pktCnt : s.pktCnt.toNat = mbuf + pkts.length
  /-- They fit the batch. -/
  pktCnt_le : s.pktCnt.toNat ≤ 32
  /-- Where they are. -/
  pktBuf : ∀ i x, pkts[i]? = some x → s.pktBuf (mbuf + i) = some x
  /-- Packets are in the order of their arrival. -/
  order : (s.copied.map Prod.snd ++ backup ++ pkts).Sublist s.arrivals
  /-- No packet is lost. -/
  perm : s.arrivals.Perm (s.copied.map Prod.snd ++ backup ++ pkts ++ s.dropped)
  /-- The packets copied are counted. -/
  rx : s.rx = BitVec.ofNat 64 s.copied.length
  /-- The packets dropped are counted. -/
  rxDrop : s.rxDrop = BitVec.ofNat 64 s.dropped.length
  /-- Every free mbuf that was read is filled. -/
  readOut : s.copied.map Prod.fst = s.readOut

variable {mbuf : ℕ} {backup pkts : List RxMbuf}

/-- A packet of the first part of a list is a packet of the list. -/
private theorem getElem?_of_take {l : List RxMbuf} {n i : ℕ} {x : RxMbuf}
    (hx : (l.take n)[i]? = some x) : i < n ∧ l[i]? = some x := by
  rw [List.getElem?_take] at hx
  split at hx
  · rename_i hi
    exact ⟨hi, hx⟩
  · cases hx

/-- A part of a list and free mbufs for it. -/
private theorem zip_copied {freeBuf : List β} {l : List RxMbuf} (hle : freeBuf.length ≤ l.length) :
    (freeBuf.zip (l.take freeBuf.length)).map Prod.fst = freeBuf ∧
      (freeBuf.zip (l.take freeBuf.length)).map Prod.snd = l.take freeBuf.length ∧
      (freeBuf.zip (l.take freeBuf.length)).length = freeBuf.length := by
  have hlen : (l.take freeBuf.length).length = freeBuf.length := by
    rw [List.length_take, Nat.min_eq_left hle]
  refine ⟨List.map_fst_zip (by omega), List.map_snd_zip (by omega), ?_⟩
  rw [List.length_zip, hlen, Nat.min_self]

/-- `backup_bufs_enque_rx_ring` copies the first packets of the backup buffer. -/
theorem RxInv.backupBufsEnqueRxRing (h : s.RxInv mbuf backup pkts) (o : Offer β) :
    ∃ k, (s.backupBufsEnqueRxRing o).RxInv mbuf (backup.drop k) pkts ∧
      (s.backupBufsEnqueRxRing o).dropped = s.dropped ∧
      (s.backupBufsEnqueRxRing o).arrivals = s.arrivals := by
  have hread := length_gazelleRingRead_le { s.rxRing with cons := o.cons, slots := o.slots }
    (if s.backupPktCnt < ringMaxSize then s.backupPktCnt else ringMaxSize)
  -- the ring gives as many mbufs as it has
  generalize hbuf : ({ s.rxRing with cons := o.cons, slots := o.slots } : RteRing β).gazelleRingRead
    (if s.backupPktCnt < ringMaxSize then s.backupPktCnt else ringMaxSize) = read at hread
  obtain ⟨freeBuf, ring⟩ := read
  -- never more than the packets in the buffer
  have hle : freeBuf.length ≤ backup.length := by
    refine Nat.le_trans hread ?_
    rw [← h.backupPktCnt]
    split
    · exact Nat.le_refl _
    · rename_i hge
      exact Nat.not_lt.1 hge
  -- nor than the size of the array that takes them
  have h512 : freeBuf.length ≤ 512 := by
    refine Nat.le_trans hread ?_
    split
    · rename_i hlt
      exact Nat.le_of_lt hlt
    · exact Nat.le_refl _
  obtain ⟨hfst, hsnd, hlength⟩ := zip_copied hle
  -- the loop copies one packet for each mbuf, from `backup_start` on with a wrap
  have hloop : flushRxMbufs (fun j => s.backupPktBuf (backupIndex s.backupStart j))
      { s with rxRing := ring, readOut := s.readOut ++ freeBuf } 0 freeBuf =
      { s with
        rxRing := ring
        readOut := s.readOut ++ freeBuf
        copied := s.copied ++ freeBuf.zip (backup.take freeBuf.length) } := by
    refine flushRxMbufs_eq (by rw [List.length_take, Nat.min_eq_left hle]) fun i x hx => ?_
    obtain ⟨hi, hx⟩ := getElem?_of_take hx
    rw [Nat.zero_add, backupIndex_eq h.backupStart (by omega)]
    exact h.backupPktBuf i x hx
  have hstate : s.backupBufsEnqueRxRing o =
      { s with
        rxRing := ring.gazelleRingReadOver
        readOut := s.readOut ++ freeBuf
        copied := s.copied ++ freeBuf.zip (backup.take freeBuf.length)
        rx := s.rx + BitVec.ofNat 64 freeBuf.length
        backupPktCnt := s.backupPktCnt - BitVec.ofNat 32 freeBuf.length
        backupStart := (s.backupStart + BitVec.ofNat 32 freeBuf.length) % backupMbufSize } := by
    simp only [RxStack.backupBufsEnqueRxRing, ringRead, hbuf]
    rw [hloop]
  rw [hstate]
  -- what was copied leaves the front of the buffer
  have hstart : ((s.backupStart + BitVec.ofNat 32 freeBuf.length) % backupMbufSize).toNat =
      (s.backupStart.toNat + freeBuf.length) % 32768 := backupIndex_eq h.backupStart (by omega)
  have hback := h.backup_le
  refine ⟨freeBuf.length,
    ⟨?_, ?_, ?_, ?_, h.pktCnt, h.pktCnt_le, h.pktBuf, ?_, ?_, ?_, h.rxDrop, ?_⟩, rfl, rfl⟩
  · -- the 32-bit count does not wrap below zero
    have hcnt := h.backupPktCnt
    have hsub : (s.backupPktCnt - BitVec.ofNat 32 freeBuf.length).toNat =
        s.backupPktCnt.toNat - freeBuf.length := by
      rw [BitVec.toNat_sub, BitVec.toNat_ofNat]
      omega
    rw [List.length_drop, hsub, hcnt]
  · -- the capacity is not exceeded by fewer packets
    rw [List.length_drop]
    omega
  · rw [hstart]
    exact Nat.mod_lt _ (by omega)
  · rw [hstart]
    exact h.backupPktBuf.drop _
  · -- the packets copied are the oldest ones, so the order is kept
    rw [List.map_append, hsnd, List.append_assoc _ (backup.take _), List.take_append_drop]
    exact h.order
  · rw [List.map_append, hsnd, List.append_assoc _ (backup.take _), List.take_append_drop]
    exact h.perm
  · -- the counter counts what was read
    rw [h.rx, List.length_append, hlength, BitVec.ofNat_add]
  · rw [List.map_append, hfst, h.readOut]

/-- `pkt_bufs_enque_rx_ring` copies the first packets of the batch, when nothing is in the backup
buffer. -/
theorem RxInv.pktBufsEnqueRxRing (h : s.RxInv 0 [] pkts) (o : Offer β) :
    ∃ k ≤ pkts.length, (s.pktBufsEnqueRxRing o).1.toNat = k ∧
      (s.pktBufsEnqueRxRing o).2.RxInv k [] (pkts.drop k) ∧
      (s.pktBufsEnqueRxRing o).2.pktCnt = s.pktCnt ∧
      (s.pktBufsEnqueRxRing o).2.dropped = s.dropped ∧
      (s.pktBufsEnqueRxRing o).2.arrivals = s.arrivals := by
  have hread := length_gazelleRingRead_le { s.rxRing with cons := o.cons, slots := o.slots }
    s.pktCnt
  generalize hbuf : ({ s.rxRing with cons := o.cons, slots := o.slots } : RteRing β).gazelleRingRead
    s.pktCnt = read at hread
  obtain ⟨freeBuf, ring⟩ := read
  have hcnt := h.pktCnt
  have hcnt_le := h.pktCnt_le
  -- never more mbufs than packets in the batch
  have hle : freeBuf.length ≤ pkts.length := by
    have : freeBuf.length ≤ s.pktCnt.toNat := hread
    omega
  obtain ⟨hfst, hsnd, hlength⟩ := zip_copied hle
  -- the loop copies one packet for each mbuf, from the start of the batch
  have hloop : flushRxMbufs s.pktBuf
      { s with
        rxRing := ring
        readOut := s.readOut ++ freeBuf
        rx := s.rx + BitVec.ofNat 64 freeBuf.length } 0 freeBuf =
      { s with
        rxRing := ring
        readOut := s.readOut ++ freeBuf
        rx := s.rx + BitVec.ofNat 64 freeBuf.length
        copied := s.copied ++ freeBuf.zip (pkts.take freeBuf.length) } := by
    refine flushRxMbufs_eq (by rw [List.length_take, Nat.min_eq_left hle]) fun i x hx => ?_
    exact h.pktBuf i x (getElem?_of_take hx).2
  -- `gazelle_ring_read_over` is only called when something was read, and changes the ring alone
  have hstate : ∃ r, s.pktBufsEnqueRxRing o = (BitVec.ofNat 32 freeBuf.length,
      { s with
        rxRing := r
        readOut := s.readOut ++ freeBuf
        rx := s.rx + BitVec.ofNat 64 freeBuf.length
        copied := s.copied ++ freeBuf.zip (pkts.take freeBuf.length) }) := by
    simp only [RxStack.pktBufsEnqueRxRing, ringRead, hbuf]
    rw [hloop]
    split
    · exact ⟨_, rfl⟩
    · exact ⟨_, rfl⟩
  obtain ⟨r, hstate⟩ := hstate
  rw [hstate]
  refine ⟨freeBuf.length, hle, ?_, ⟨h.backupPktCnt, h.backup_le, h.backupStart, h.backupPktBuf, ?_,
    h.pktCnt_le, ?_, ?_, ?_, ?_, h.rxDrop, ?_⟩, rfl, rfl, rfl⟩
  · -- the result is the number of packets copied
    rw [BitVec.toNat_ofNat]
    exact Nat.mod_eq_of_lt (by omega)
  · rw [List.length_drop]
    show s.pktCnt.toNat = _
    omega
  · -- the rest of the batch stays where it was in the array
    intro i x hx
    rw [List.getElem?_drop] at hx
    have hplace := h.pktBuf _ x hx
    rwa [Nat.zero_add] at hplace
  · -- the packets copied are the first of the batch, and nothing was waiting before them
    rw [List.map_append, hsnd, List.append_nil, List.append_assoc, List.take_append_drop]
    simpa using h.order
  · rw [List.map_append, hsnd, List.append_nil, List.append_assoc (List.map _ _),
      List.take_append_drop]
    simpa using h.perm
  · rw [h.rx, List.length_append, hlength, BitVec.ofNat_add]
  · rw [List.map_append, hfst, h.readOut]

/-- What `pktbufs_move_to_backup_bufs` does: the first `room` packets of the batch are stored behind
those in the backup buffer, and the others are dropped. -/
theorem RxInv.pktbufsMoveToBackupBufs_eq (h : s.RxInv mbuf backup pkts) {mbufCnt : U32}
    (hcnt : mbufCnt.toNat = pkts.length) {room : ℕ} (hroom : room = 32768 - backup.length) :
    ∃ backupBuf pktBuf, s.pktbufsMoveToBackupBufs mbuf mbufCnt =
        { s with
          backupPktBuf := backupBuf
          backupPktCnt := s.backupPktCnt + BitVec.ofNat 32 (pkts.take room).length
          pktBuf := pktBuf
          dropped := s.dropped ++ pkts.drop room
          rxDrop := s.rxDrop + BitVec.ofNat 64 (pkts.drop room).length } ∧
      Circular.Holds 32768 backupBuf s.backupStart.toNat (backup ++ pkts.take room) := by
  have hbackup := h.backupPktCnt
  have hback_le := h.backup_le
  have hpkt := h.pktCnt
  have hpkt_le := h.pktCnt_le
  have hsum : (s.backupPktCnt + mbufCnt).toNat = backup.length + pkts.length := by
    rw [BitVec.toNat_add]
    omega
  have htail : ((s.backupStart + s.backupPktCnt) % backupMbufSize).toNat =
      (s.backupStart.toNat + backup.length) % 32768 := by
    have hadd : (s.backupStart + s.backupPktCnt).toNat = s.backupStart.toNat + backup.length := by
      have := h.backupStart
      rw [BitVec.toNat_add]
      omega
    rw [BitVec.toNat_umod, hadd, toNat_backupMbufSize]
  have hkept : (pkts.take room).length = min room pkts.length := List.length_take
  have hrest : (pkts.drop room).length = pkts.length - room := List.length_drop
  have hstore : ∀ t : RxStack β, t.backupPktBuf = s.backupPktBuf →
      (∀ i < mbuf + (pkts.take room).length, t.pktBuf i = s.pktBuf i) →
      ∃ buf, (List.range (pkts.take room).length).foldl
          (storeMbuf mbuf ((s.backupStart + s.backupPktCnt) % backupMbufSize)) t =
          { t with backupPktBuf := buf } ∧
        Circular.Holds 32768 buf s.backupStart.toNat (backup ++ pkts.take room) := by
    intro t hbuf hsame
    refine foldl_storeMbuf htail rfl (by omega) (hbuf ▸ h.backupPktBuf) fun i x hx => ?_
    have hi := (List.getElem?_eq_some_iff.1 hx).1
    rw [hsame _ (by omega)]
    exact h.pktBuf i x (getElem?_of_take hx).2
  simp only [RxStack.pktbufsMoveToBackupBufs]
  by_cases hfull : s.backupPktCnt + mbufCnt > backupMbufSize
  · -- only `room` packets fit, the others are dropped first
    have hlt : 32768 < backup.length + pkts.length := hsum ▸ hfull
    have hfit : (backupMbufSize - s.backupPktCnt).toNat = (pkts.take room).length := by
      rw [BitVec.toNat_sub, toNat_backupMbufSize]
      omega
    have hcut : (mbufCnt - (backupMbufSize - s.backupPktCnt)).toNat =
        (pkts.drop room).length := by
      rw [BitVec.toNat_sub]
      omega
    have hfit32 : backupMbufSize - s.backupPktCnt = BitVec.ofNat 32 (pkts.take room).length := by
      rw [← hfit, BitVec.ofNat_toNat, BitVec.setWidth_eq]
    have hcut64 : (mbufCnt - (backupMbufSize - s.backupPktCnt)).zeroExtend 64 =
        BitVec.ofNat 64 (pkts.drop room).length := by
      rw [← hcut, BitVec.ofNat_toNat]
    have hbuf : ∀ i x, (pkts.drop room)[i]? = some x →
        s.pktBuf (mbuf + ((pkts.take room).length + i)) = some x := by
      intro i x hx
      rw [List.getElem?_drop] at hx
      rw [hkept, Nat.min_eq_left (by omega)]
      exact h.pktBuf (room + i) x hx
    obtain ⟨pktBuf, hdrop, hsame⟩ := foldl_dropMbuf
      (s := { s with rxDrop := s.rxDrop + BitVec.ofNat 64 (pkts.drop room).length }) rfl hbuf
    simp only [if_pos hfull, hcut, hcut64, hfit]
    rw [hdrop, hfit32]
    obtain ⟨buf, hbuf, hheld⟩ := hstore
      { s with
        backupPktCnt := s.backupPktCnt + BitVec.ofNat 32 (pkts.take room).length
        pktBuf := pktBuf
        dropped := s.dropped ++ pkts.drop room
        rxDrop := s.rxDrop + BitVec.ofNat 64 (pkts.drop room).length } rfl hsame
    exact ⟨buf, pktBuf, hbuf, hheld⟩
  · -- all packets fit
    have hle : backup.length + pkts.length ≤ 32768 := hsum ▸ Nat.not_lt.1 hfull
    have hall : pkts.take room = pkts := List.take_of_length_le (by omega)
    have hnone : pkts.drop room = [] := List.drop_of_length_le (by omega)
    have hcnt32 : mbufCnt = BitVec.ofNat 32 (pkts.take room).length := by
      rw [hall, ← hcnt, BitVec.ofNat_toNat, BitVec.setWidth_eq]
    have hfit : mbufCnt.toNat = (pkts.take room).length := by rw [hall, hcnt]
    simp only [if_neg hfull, hfit]
    obtain ⟨buf, hbuf, hheld⟩ := hstore
      { s with backupPktCnt := s.backupPktCnt + mbufCnt } rfl fun _ _ => rfl
    refine ⟨buf, s.pktBuf, ?_, hheld⟩
    rw [hbuf, hnone, ← hcnt32]
    simp

/-- `pktbufs_move_to_backup_bufs` puts the batch into the backup buffer and drops what does not
fit. -/
theorem RxInv.pktbufsMoveToBackupBufs (h : s.RxInv mbuf backup pkts) {mbufCnt : U32}
    (hcnt : mbufCnt.toNat = pkts.length) :
    ({ s.pktbufsMoveToBackupBufs mbuf mbufCnt with pktCnt := 0 } : RxStack β).RxInv 0
        (backup ++ pkts.take (32768 - backup.length)) [] ∧
      (s.pktbufsMoveToBackupBufs mbuf mbufCnt).arrivals = s.arrivals ∧
      ((s.pktbufsMoveToBackupBufs mbuf mbufCnt).dropped ≠ s.dropped →
        (s.pktbufsMoveToBackupBufs mbuf mbufCnt).backupPktCnt = backupMbufSize) := by
  obtain ⟨room, hroom⟩ : ∃ room, room = 32768 - backup.length := ⟨_, rfl⟩
  obtain ⟨backupBuf, pktBuf, hstate, hheld⟩ := h.pktbufsMoveToBackupBufs_eq hcnt hroom
  have hbackup := h.backupPktCnt
  have hback_le := h.backup_le
  have hkept : (pkts.take room).length = min room pkts.length := List.length_take
  have hrest : (pkts.drop room).length = pkts.length - room := List.length_drop
  have hnew : (s.backupPktCnt + BitVec.ofNat 32 (pkts.take room).length).toNat =
      (backup ++ pkts.take room).length := by
    rw [BitVec.toNat_add, BitVec.toNat_ofNat, List.length_append]
    omega
  rw [hstate, ← hroom]
  refine ⟨⟨hnew, ?_, h.backupStart, hheld, rfl, Nat.zero_le _, ?_, ?_, ?_, h.rx, ?_, h.readOut⟩,
    rfl, fun hdropped => ?_⟩
  · rw [List.length_append]
    omega
  · intro i x hx
    cases hx
  · rw [List.append_nil, ← List.append_assoc]
    exact ((List.Sublist.refl _).append (List.take_sublist room pkts)).trans h.order
  · refine h.perm.trans ?_
    rw [List.append_nil]
    conv_lhs => rw [← List.take_append_drop room pkts]
    simp only [List.append_assoc]
    refine List.Perm.append_left _ (List.Perm.append_left _ (List.Perm.append_left _ ?_))
    exact List.perm_append_comm
  · rw [h.rxDrop, List.length_append, BitVec.ofNat_add]
  · -- a packet was dropped, so the others filled the buffer
    have hne : pkts.drop room ≠ [] := fun hnil => hdropped (by simp [hnil])
    have hpos := List.length_pos_iff.2 hne
    apply BitVec.eq_of_toNat_eq
    rw [toNat_backupMbufSize]
    refine hnew.trans ?_
    rw [List.length_append]
    omega

/-! ## The calls -/

/-- The packets of a state at rest, and what a call has done to them. -/
private theorem RxInv.flushBatch (h : s.RxInv 0 [] pkts) (o : Offer β) :
    ∃ backup, (s.flushBatch o).RxInv 0 backup [] ∧ (s.flushBatch o).arrivals = s.arrivals ∧
      ((s.flushBatch o).dropped ≠ s.dropped → (s.flushBatch o).backupPktCnt = backupMbufSize) := by
  obtain ⟨k, hk, hfst, h', hpktCnt, hdropped, harrivals⟩ := h.pktBufsEnqueRxRing o
  have hcnt := h.pktCnt
  have hcnt_le := h.pktCnt_le
  simp only [RxStack.flushBatch]
  generalize hres : s.pktBufsEnqueRxRing o = res at h' hfst hpktCnt hdropped harrivals
  obtain ⟨flushCnt, t⟩ := res
  dsimp only at h' hfst hpktCnt hdropped harrivals ⊢
  by_cases hlt : flushCnt < t.pktCnt
  · -- the rest of the batch goes to the backup buffer
    have hlt' : flushCnt.toNat < t.pktCnt.toNat := hlt
    have hrest : (t.pktCnt - flushCnt).toNat = (pkts.drop k).length := by
      rw [BitVec.toNat_sub_of_le (Nat.le_of_lt hlt'), hpktCnt, List.length_drop]
      omega
    obtain ⟨hmoved, harr, hfull⟩ := h'.pktbufsMoveToBackupBufs hrest
    rw [if_pos hlt, hfst]
    exact ⟨_, hmoved, harr.trans harrivals, fun hne => hfull fun hsame =>
      hne (hsame.trans hdropped)⟩
  · -- the whole batch was copied
    have hge : ¬ flushCnt.toNat < t.pktCnt.toNat := hlt
    have hnil : pkts.drop k = [] := List.drop_of_length_le (by rw [hpktCnt] at hge; omega)
    rw [hnil] at h'
    rw [if_neg hlt]
    exact ⟨[], ⟨h'.backupPktCnt, h'.backup_le, h'.backupStart, h'.backupPktBuf, rfl,
      Nat.zero_le _, by simp, h'.order, h'.perm, h'.rx, h'.rxDrop, h'.readOut⟩, harrivals,
      fun hne => absurd hdropped hne⟩

/-- `flush_rx_ring` empties the batch. -/
theorem RxInv.flushRxRing (h : s.RxInv 0 backup pkts) (o o' : Offer β) :
    ∃ backup', (s.flushRxRing o o').RxInv 0 backup' [] ∧
      (s.flushRxRing o o').arrivals = s.arrivals ∧
      ((s.flushRxRing o o').dropped ≠ s.dropped →
        (s.flushRxRing o o').backupPktCnt = backupMbufSize) := by
  simp only [RxStack.flushRxRing]
  -- the backup is offered first, so that the order of the packets is kept
  by_cases hback : s.backupPktCnt > 0
  · rw [if_pos hback]
    obtain ⟨k, h', hdropped, harrivals⟩ := h.backupBufsEnqueRxRing o
    generalize s.backupBufsEnqueRxRing o = t at h' hdropped harrivals
    -- something of it is left, and the batch goes behind it
    by_cases hstill : t.backupPktCnt > 0
    · rw [if_pos hstill]
      have hcnt := h'.pktCnt
      rw [Nat.zero_add] at hcnt
      obtain ⟨hmoved, harr, hfull⟩ := h'.pktbufsMoveToBackupBufs hcnt
      exact ⟨_, hmoved, harr.trans harrivals, fun hne => hfull fun hsame =>
        hne (hsame.trans hdropped)⟩
    · rw [if_neg hstill]
      have hnil : backup.drop k = [] := by
        have hcnt := h'.backupPktCnt
        have hzero : ¬ 0 < t.backupPktCnt.toNat := hstill
        exact List.eq_nil_of_length_eq_zero (by omega)
      rw [hnil] at h'
      obtain ⟨backup', hinv, harr, hfull⟩ := h'.flushBatch o'
      exact ⟨backup', hinv, harr.trans harrivals, fun hne => hfull fun hsame =>
        hne (hsame.trans hdropped)⟩
  · -- there was no backup, and the batch is offered to the ring itself
    rw [if_neg hback]
    have hnil : backup = [] := by
      have hcnt := h.backupPktCnt
      have hzero : ¬ 0 < s.backupPktCnt.toNat := hback
      exact List.eq_nil_of_length_eq_zero (by omega)
    subst hnil
    exact h.flushBatch o'

variable (s) in
/-- The invariant between calls. -/
def RxRest : Prop := s.pktCnt < packetReadSize ∧ ∃ backup pkts, s.RxInv 0 backup pkts

/-- A call keeps the invariant, and drops packets only when the backup buffer is full. -/
theorem RxRest.step (h : s.RxRest) {act : RxAction β} {s' : RxStack β}
    (hstep : s.step act = some s') :
    s'.RxRest ∧ (s'.dropped ≠ s.dropped → s'.backupPktCnt = backupMbufSize) := by
  obtain ⟨hlt, backup, pkts, h⟩ := h
  -- a flush leaves an empty batch, and drops only what the backup buffer cannot take
  have hflush : ∀ {t : RxStack β} {backup pkts : List RxMbuf} (o o' : Offer β),
      t.RxInv 0 backup pkts → (t.flushRxRing o o').RxRest ∧
        ((t.flushRxRing o o').dropped ≠ t.dropped →
          (t.flushRxRing o o').backupPktCnt = backupMbufSize) := by
    intro t backup pkts o o' ht
    obtain ⟨backup', hinv, -, hfull⟩ := ht.flushRxRing o o'
    refine ⟨⟨?_, backup', [], hinv⟩, hfull⟩
    rw [BitVec.lt_def, hinv.pktCnt]
    decide
  cases act with
  | flushRxRing o o' =>
    obtain rfl := Option.some.inj hstep
    exact hflush o o' h
  | enqueueRxPacket buf o o' =>
    obtain rfl := Option.some.inj hstep
    -- before the call there was room in the batch
    have hlt' : s.pktCnt.toNat < 32 := hlt
    have hcnt := h.pktCnt
    have hsucc : (s.pktCnt + 1).toNat = s.pktCnt.toNat + 1 := by
      rw [BitVec.toNat_add]
      exact Nat.mod_eq_of_lt (by simp; omega)
    -- the packet is put behind the others, and the batch is flushed when it is full
    have hpkts : RxInv
        { s with
          pktBuf := Function.update s.pktBuf s.pktCnt.toNat (some buf)
          pktCnt := s.pktCnt + 1
          arrivals := s.arrivals ++ [buf] } 0 backup (pkts ++ [buf]) := by
      refine ⟨h.backupPktCnt, h.backup_le, h.backupStart, h.backupPktBuf, ?_, ?_, ?_, ?_, ?_, h.rx,
        h.rxDrop, h.readOut⟩
      · rw [hsucc, hcnt, List.length_append]
        rfl
      · rw [hsucc]
        exact hlt'
      · intro i x hx
        -- the places before it are not written
        by_cases hi : i < pkts.length
        · rw [List.getElem?_append_left hi] at hx
          have hne : 0 + i ≠ s.pktCnt.toNat := by omega
          simp only [Function.update_of_ne hne]
          exact h.pktBuf i x hx
        · rw [List.getElem?_append_right (Nat.not_lt.1 hi), List.getElem?_singleton] at hx
          split at hx
          · obtain rfl := Option.some.inj hx
            have heq : 0 + i = s.pktCnt.toNat := by omega
            rw [heq]
            exact Function.update_self ..
          · cases hx
      · -- it is the newest of all that has arrived
        rw [← List.append_assoc]
        exact h.order.append (List.Sublist.refl _)
      · refine (h.perm.append_right [buf]).trans ?_
        simp only [List.append_assoc]
        refine List.Perm.append_left _ (List.Perm.append_left _ (List.Perm.append_left _ ?_))
        exact List.perm_append_comm
    simp only [RxStack.enqueueRxPacket]
    by_cases hfull : s.pktCnt + 1 ≥ packetReadSize
    · rw [if_pos hfull]
      exact hflush o o' hpkts
    · rw [if_neg hfull]
      exact ⟨⟨BitVec.not_le.1 hfull, backup, _, hpkts⟩, fun hne => absurd rfl hne⟩

/-- A stack that was just allocated. -/
theorem RxRest.create (rxRing : RteRing β) : (create rxRing).RxRest := by
  refine ⟨show (0 : U32) < packetReadSize by decide, [], [], rfl, Nat.zero_le _, ?_, .nil, rfl,
    Nat.zero_le _, ?_, List.Sublist.refl _, List.Perm.refl _, rfl, rfl, rfl⟩
  · show (0 : U32).toNat < 32768
    decide
  · intro i x hx
    cases hx

/-- The receive pipeline of ltran for a stack, after any calls and whatever the stack has done to
its ring: the batch has the packets `pkts` and the backup buffer, from `backup_start` on, the
packets `backup`; what was copied to the free mbufs of the ring, what is in the backup buffer and
what is in the batch are in the order of their arrival; each packet that arrived is in one of the
three or was dropped; every free mbuf that was read is filled; the counters are right and in their
bounds; and a call that drops a packet leaves the backup buffer full. -/
theorem rx_pipeline (hs : (system (β := β)).Reachable s) :
    (∃ backup pkts : List RxMbuf,
      s.backupPktCnt.toNat = backup.length ∧ s.pktCnt.toNat = pkts.length ∧
        Circular.Holds backupMbufSize.toNat s.backupPktBuf s.backupStart.toNat backup ∧
        (∀ i x, pkts[i]? = some x → s.pktBuf i = some x) ∧
        (s.copied.map Prod.snd ++ backup ++ pkts).Sublist s.arrivals ∧
        s.arrivals.Perm (s.copied.map Prod.snd ++ backup ++ pkts ++ s.dropped)) ∧
      (s.copied.map Prod.snd).Sublist s.arrivals ∧ s.copied.map Prod.fst = s.readOut ∧
      s.rx = BitVec.ofNat 64 s.copied.length ∧ s.rxDrop = BitVec.ofNat 64 s.dropped.length ∧
      s.backupStart < backupMbufSize ∧ s.backupPktCnt ≤ backupMbufSize ∧
      s.pktCnt < packetReadSize ∧
      ∀ act s', s.step act = some s' → s'.dropped ≠ s.dropped →
        s'.backupPktCnt = backupMbufSize := by
  have hrest : s.RxRest := by
    refine Transition.System.invariant (I := RxRest) ?_ ?_ hs
    · rintro _ ⟨rxRing, rfl⟩
      exact .create rxRing
    · intro _ _ _ _ ih hstep
      exact (ih.step hstep).1
  obtain ⟨hlt, backup, pkts, h⟩ := hrest
  refine ⟨⟨backup, pkts, h.backupPktCnt, ?_, h.backupPktBuf, ?_, h.order, h.perm⟩, ?_, h.readOut,
    h.rx, h.rxDrop, h.backupStart, ?_, hlt, fun _ _ hstep => ?_⟩
  · rw [h.pktCnt, Nat.zero_add]
  · intro i x hx
    have hplace := h.pktBuf i x hx
    rwa [Nat.zero_add] at hplace
  · have horder := h.order
    rw [List.append_assoc] at horder
    exact (List.sublist_append_left _ _).trans horder
  · rw [BitVec.le_def, h.backupPktCnt]
    exact h.backup_le
  · exact (RxRest.step ⟨hlt, backup, pkts, h⟩ hstep).2

/-- A packet of 60 bytes. -/
private def shortPacket (addr : ℕ) : RxMbuf := ⟨addr, 60, by decide⟩

/-- The ring when the stack has put `n` free mbufs into it. -/
private def freeMbufs (n : U32) : Offer ℕ := ⟨⟨n, 0⟩, fun i => 7 + i.toNat⟩

/-- Two packets are flushed when there is one free mbuf, and a third one when there is another. -/
private def threePackets : List (RxAction ℕ) :=
  [.enqueueRxPacket (shortPacket 1) (freeMbufs 0) (freeMbufs 0),
    .enqueueRxPacket (shortPacket 2) (freeMbufs 0) (freeMbufs 0),
    .flushRxRing (freeMbufs 0) (freeMbufs 1),
    .enqueueRxPacket (shortPacket 3) (freeMbufs 1) (freeMbufs 1),
    .flushRxRing (freeMbufs 2) (freeMbufs 2)]

/-- The first packet is copied at once, the second one from the backup buffer, and the third one is
in the backup buffer. -/
theorem rx_pipeline_three :
    ∃ s : RxStack ℕ, system.Reachable s ∧
      s.copied = [(7, shortPacket 1), (8, shortPacket 2)] ∧ s.backupPktCnt = 1 ∧
      (s.copied.map Prod.snd).Sublist s.arrivals ∧ s.copied.map Prod.fst = s.readOut := by
  have hrun : (system.run (create (.create 9 0 fun _ => 7)) threePackets).any (fun s =>
      decide (s.copied = [(7, shortPacket 1), (8, shortPacket 2)] ∧ s.backupPktCnt = 1)) =
        true := by
    decide +kernel
  obtain ⟨s, hs, hcopied⟩ := (Option.any_eq_true _ _).1 hrun
  obtain ⟨hcopied, hbackup⟩ := of_decide_eq_true hcopied
  have hreach : (system (β := ℕ)).Reachable s :=
    Transition.System.reachable_of_run (.init ⟨_, rfl⟩) hs
  obtain ⟨-, hsub, hread, -⟩ := rx_pipeline hreach
  exact ⟨s, hreach, hcopied, hbackup, hsub, hread⟩

end RxStack

end Gazelle
