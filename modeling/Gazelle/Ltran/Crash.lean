import Gazelle.Lstack.Vdev
import Gazelle.Ltran.RxPipeline

/-!
# The shared rings when ltran dies

A stack keeps its rings and their counters when ltran dies, and registers them again with the next
ltran. The forwarding threads of ltran take mbufs of `rx_ring` and fill them, take packets of
`tx_ring` and copy them for sending, and take connections of `reg_ring`; each confirms with
`gazelle_ring_read_over` when it is done (`ltran_forward.c`). A new ltran reads on from `prod.head`,
so that what an old one had read and not confirmed is confirmed together with what the new one
reads.

* `CrashSys.system`: a stack with the threads of ltran, which may die before any step;
* `crash_consistency`: what a stack receives was filled and what it frees was handed to a send loop
  as long as ltran never dies with mbufs that are read and not filled, or packets that are read and
  not handed over;
* `crash_receives_unfilled`: otherwise a stack receives an mbuf that nothing was copied into.
-/

namespace Gazelle

/-- `GAZELLE_PACKET_READ_SIZE`. -/
def gazellePacketReadSize : U32 := 32

/-- Where the upstream thread stands, with its live local variables. -/
inductive UpstreamPc (α β ρ : Type*)
  /-- Outside the functions. -/
  | idle
  /-- `backup_bufs_enque_rx_ring` or `pkt_bufs_enque_rx_ring` in `gazelle_ring_read`. -/
  | rxRead (backup : Bool) (pkts : List β)
  /-- In the loop of `flush_rx_mbuf`, with what is left of both tables. -/
  | rxFlush (freeBuf : List α) (pkts : List β)
  /-- In `gazelle_ring_read_over`. -/
  | rxOver
  /-- `tcp_hash_table_handle` in `gazelle_ring_read`. -/
  | regRead
  /-- In the loop of `tcp_hash_table_modify`, with what is left of the table. -/
  | regModify (pkts : List ρ)
  /-- In `gazelle_ring_read_over`. -/
  | regOver

/-- Where the downstream thread stands, with its live local variables. -/
inductive DownstreamPc (α : Type*)
  /-- Outside `downstream_forward_one`. -/
  | idle
  /-- In `gazelle_ring_read`. -/
  | txRead
  /-- About to allocate. -/
  | txAlloc (usedPkts : List α)
  /-- In the loop of `copy_mbuf`, with the packets left and those copied. -/
  | txCopy (usedPkts dstBufs : List α)
  /-- In `gazelle_ring_read_over`. -/
  | txOver (dstBufs : List α)
  /-- In the loop of `rte_eth_tx_burst`. -/
  | txSend
  /-- In `gazelle_ring_read_over`, before `rte_exit`. -/
  | txExit

/-- A stack, the threads of ltran and the history of what they copied. -/
structure CrashSys (α β ρ : Type*) where
  /-- The stack with `rx_ring` and `tx_ring`. -/
  vdev : VdevSys α
  /-- `reg_ring`. -/
  reg : RingSys ρ
  /-- The upstream thread. -/
  up : UpstreamPc α β ρ
  /-- The downstream thread. -/
  down : DownstreamPc α
  /-- The mbufs of `rx_ring` that `copy_mbuf` has filled, with the packets. -/
  filled : List (α × β)
  /-- The packets of `tx_ring` whose copies came to the send loop. -/
  handed : List α

/-- The actions. -/
inductive CrashAction (α β ρ : Type*)
  /-- The stack makes a step on `rx_ring` or `tx_ring`. -/
  | lstack (a : VdevAction α)
  /-- The stack makes a step on `reg_ring`. -/
  | reg (a : RingAct ρ)
  /-- ltran flushes packets into `rx_ring`. -/
  | flush (backup : Bool) (pkts : List β)
  /-- ltran calls `tcp_hash_table_handle`, which reads. -/
  | handle
  /-- ltran calls `downstream_forward_one`. -/
  | forward
  /-- The upstream thread makes its next step. -/
  | up
  /-- `rte_pktmbuf_alloc_bulk` succeeds or fails. -/
  | alloc (ok : Bool)
  /-- The downstream thread makes its next step. -/
  | down
  /-- ltran dies. The next ltran starts outside all functions. -/
  | die

/-- Whether an action is one of ltran. -/
def VdevAction.isLtran {α : Type*} : VdevAction α → Bool
  | .rxReader _ | .txReader _ => true
  | _ => false

namespace CrashSys

variable {α β ρ : Type*} (s : CrashSys α β ρ)

/-- The threads are gone; the rings stay as they are. -/
def die : CrashSys α β ρ :=
  { s with
    vdev :=
      { s.vdev with
        rx := { s.vdev.rx with reader := .idle }
        tx := { s.vdev.tx with reader := .idle } }
    reg := { s.reg with reader := .idle }
    up := .idle
    down := .idle }

/-- The next step of the upstream thread. -/
def upNext : Option (CrashSys α β ρ) :=
  match s.up with
  | .idle => none
  | .rxRead backup pkts =>
    match s.vdev.rx.reader with
    | .readDone freeBuf =>
      (s.vdev.step (.rxReader .reader)).map fun vdev =>
        { s with
          vdev
          up := if freeBuf.isEmpty && !backup then .idle else .rxFlush freeBuf pkts }
    | _ => (s.vdev.step (.rxReader .reader)).map fun vdev => { s with vdev }
  | .rxFlush (dst :: freeBuf) (src :: pkts) =>
    some { s with filled := s.filled ++ [(dst, src)], up := .rxFlush freeBuf pkts }
  -- `gazelle_ring_read` returned as many mbufs at most as there are packets
  | .rxFlush (_ :: _) [] => none
  | .rxFlush [] _ =>
    (s.vdev.step (.rxReader .readOver)).map fun vdev => { s with vdev, up := .rxOver }
  | .rxOver =>
    match s.vdev.rx.reader with
    | .overDone => (s.vdev.step (.rxReader .reader)).map fun vdev => { s with vdev, up := .idle }
    | _ => (s.vdev.step (.rxReader .reader)).map fun vdev => { s with vdev }
  | .regRead =>
    match s.reg.reader with
    | .readDone pkts => (s.reg.step .reader).map fun reg => { s with reg, up := .regModify pkts }
    | _ => (s.reg.step .reader).map fun reg => { s with reg }
  | .regModify (_ :: pkts) => some { s with up := .regModify pkts }
  | .regModify [] => (s.reg.step .readOver).map fun reg => { s with reg, up := .regOver }
  | .regOver =>
    match s.reg.reader with
    | .overDone => (s.reg.step .reader).map fun reg => { s with reg, up := .idle }
    | _ => (s.reg.step .reader).map fun reg => { s with reg }

/-- The next step of the downstream thread. -/
def downNext : Option (CrashSys α β ρ) :=
  match s.down with
  | .idle | .txAlloc _ => none
  | .txRead =>
    match s.vdev.tx.reader with
    | .readDone usedPkts =>
      (s.vdev.step (.txReader .reader)).map fun vdev =>
        { s with vdev, down := if usedPkts.isEmpty then .idle else .txAlloc usedPkts }
    | _ => (s.vdev.step (.txReader .reader)).map fun vdev => { s with vdev }
  | .txCopy (pkt :: usedPkts) dstBufs => some { s with down := .txCopy usedPkts (dstBufs ++ [pkt]) }
  | .txCopy [] dstBufs =>
    (s.vdev.step (.txReader .readOver)).map fun vdev => { s with vdev, down := .txOver dstBufs }
  | .txOver dstBufs =>
    match s.vdev.tx.reader with
    -- the store of `prod.tail`, after which the send loop has the copies
    | .overStore _ =>
      (s.vdev.step (.txReader .reader)).map fun vdev =>
        { s with vdev, handed := s.handed ++ dstBufs, down := .txSend }
    | _ => (s.vdev.step (.txReader .reader)).map fun vdev => { s with vdev }
  | .txSend => (s.vdev.step (.txReader .reader)).map fun vdev => { s with vdev, down := .idle }
  | .txExit =>
    match s.vdev.tx.reader with
    | .overDone => some s.die
    | _ => (s.vdev.step (.txReader .reader)).map fun vdev => { s with vdev }

/-- One step. -/
def step : CrashAction α β ρ → Option (CrashSys α β ρ)
  | .lstack a => if a.isLtran then none else (s.vdev.step a).map fun vdev => { s with vdev }
  | .reg a => if a.isReader then none else (s.reg.step a).map fun reg => { s with reg }
  | .flush backup pkts =>
    match s.up with
    | .idle =>
      if pkts.length < 2 ^ 32 then
        (s.vdev.step (.rxReader (.read (BitVec.ofNat 32 pkts.length)))).map fun vdev =>
          { s with vdev, up := .rxRead backup pkts }
      else none
    | _ => none
  | .handle =>
    match s.up with
    | .idle => (s.reg.step (.read packetReadSize)).map fun reg => { s with reg, up := .regRead }
    | _ => none
  | .forward =>
    match s.down with
    | .idle =>
      (s.vdev.step (.txReader (.read gazellePacketReadSize))).map fun vdev =>
        { s with vdev, down := .txRead }
    | _ => none
  | .up => s.upNext
  | .alloc ok =>
    match s.down with
    | .txAlloc usedPkts =>
      if ok then some { s with down := .txCopy usedPkts [] }
      else (s.vdev.step (.txReader .readOver)).map fun vdev => { s with vdev, down := .txExit }
    | _ => none
  | .down => s.downNext
  | .die => some s.die

/-- The rings are empty, and the stack starts to fill `rx_ring`. -/
def create (rxSlots txSlots : U32 → α) (regSlots : U32 → ρ) : CrashSys α β ρ where
  vdev := .create rxSlots txSlots
  reg := .create 9 0 regSlots
  up := .idle
  down := .idle
  filled := []
  handed := []

/-- All interleavings of a stack with one ltran after the other. -/
def system : Transition.System (CrashSys α β ρ) (CrashAction α β ρ) where
  Init s := ∃ rxSlots txSlots regSlots, s = create rxSlots txSlots regSlots
  step := step

/-- The mbufs that the upstream thread has read and not filled. -/
def unfilled : List α :=
  match s.up with
  | .rxRead _ _ =>
    match s.vdev.rx.reader with
    | .readDone freeBuf => freeBuf
    | _ => []
  | .rxFlush freeBuf _ => freeBuf
  | _ => []

/-- The packets that the downstream thread has read and not handed over. -/
def unsent : List α :=
  match s.down with
  | .txRead =>
    match s.vdev.tx.reader with
    | .readDone usedPkts => usedPkts
    | _ => []
  | .txAlloc usedPkts => usedPkts
  | .txCopy usedPkts dstBufs => dstBufs ++ usedPkts
  | .txOver dstBufs => dstBufs
  | _ => []

/-- ltran does not die with mbufs that it has read and not filled or with packets that it has read
and not handed over, and it has memory for the copies. -/
def Orderly : CrashAction α β ρ → Prop
  | .die => s.unfilled = [] ∧ s.unsent = []
  | .alloc ok => ok = true
  | _ => True

/-- Whether an action is orderly is found in the hands of the threads. -/
instance [DecidableEq α] : ∀ a : CrashAction α β ρ, Decidable (s.Orderly a)
  | .die => inferInstanceAs (Decidable (_ ∧ _))
  | .alloc ok => inferInstanceAs (Decidable (ok = true))
  | .lstack _ | .reg _ | .flush .. | .handle | .forward | .up | .down => isTrue trivial

/-! ## The invariant -/

/-- What holds of `rx_ring` where the upstream thread stands: what was read was filled, or the
thread has it in its hands, and what was confirmed was filled. -/
def UpInv (filled : List α) (rx : RingSys α) : UpstreamPc α β ρ → Prop
  | .rxRead _ pkts =>
    ∃ conf, conf <+: filled ∧ RingSys.Reading (BitVec.ofNat 32 pkts.length) filled conf rx
  | .rxFlush freeBuf _ =>
    ∃ conf, conf <+: filled ∧ RingSys.ReaderResting (filled ++ freeBuf) conf rx
  | .rxOver => ∃ conf, conf <+: filled ∧ RingSys.Confirming filled conf rx
  | _ => ∃ conf, conf <+: filled ∧ RingSys.ReaderResting filled conf rx

/-- What holds of `tx_ring` where the downstream thread stands: what was read was handed over, or
the thread has it in its hands, and what was confirmed was handed over. -/
def DownInv (handed : List α) (tx : RingSys α) : DownstreamPc α → Prop
  | .idle => ∃ conf, conf <+: handed ∧ RingSys.ReaderResting handed conf tx
  | .txRead => ∃ conf, conf <+: handed ∧ RingSys.Reading gazellePacketReadSize handed conf tx
  | .txAlloc usedPkts =>
    ∃ conf, conf <+: handed ∧ RingSys.ReaderResting (handed ++ usedPkts) conf tx
  | .txCopy usedPkts dstBufs =>
    ∃ conf, conf <+: handed ∧ RingSys.ReaderResting (handed ++ (dstBufs ++ usedPkts)) conf tx
  | .txOver dstBufs =>
    ∃ conf, conf <+: handed ∧ RingSys.Confirming (handed ++ dstBufs) conf tx ∧
      tx.reader ≠ .overDone
  | .txSend => ∃ conf, RingSys.Confirming handed conf tx ∧ tx.reader = .overDone
  | .txExit => False

/-- The invariant of a stack and the ltran that serves it. -/
structure CrashInv : Prop where
  /-- The rings are right on the side of the stack. -/
  vdev : s.vdev.VdevInv
  /-- They are right for the upstream thread. -/
  up : UpInv (s.filled.map Prod.fst) s.vdev.rx s.up
  /-- They are right for the downstream thread. -/
  down : DownInv s.handed s.vdev.tx s.down

variable {s} {s' : CrashSys α β ρ}

/-- What was read of `rx_ring` was filled or is in the hands of the thread. -/
theorem CrashInv.rx_readOut (h : s.CrashInv) :
    s.vdev.rx.readOut = s.filled.map Prod.fst ++ s.unfilled := by
  have hinv := h.up
  unfold unfilled
  split
  · rename_i hup
    rw [hup] at hinv
    obtain ⟨conf, -, hread⟩ := hinv
    split
    · rename_i hdone
      exact (hread.returned hdone).1
    · rename_i hnot
      rw [List.append_nil]
      exact hread.readOut_eq hnot
  · rename_i hup
    rw [hup] at hinv
    obtain ⟨conf, -, hrest⟩ := hinv
    exact hrest.readOut
  · rename_i hread hflush
    rw [List.append_nil]
    cases hup : s.up with
    | rxRead backup pkts => exact absurd hup (hread _ _)
    | rxFlush freeBuf pkts => exact absurd hup (hflush _ _)
    | rxOver =>
      rw [hup] at hinv
      obtain ⟨conf, -, hover⟩ := hinv
      exact hover.readOut
    | _ =>
      rw [hup] at hinv
      obtain ⟨conf, -, hrest⟩ := hinv
      exact hrest.readOut

/-- What was read of `tx_ring` was handed over or is in the hands of the thread. -/
theorem CrashInv.tx_readOut (h : s.CrashInv) : s.vdev.tx.readOut = s.handed ++ s.unsent := by
  have hinv := h.down
  unfold unsent
  -- between the read and the hand-over the thread has what it read, else nothing
  cases hdown : s.down with
  | idle =>
    rw [hdown] at hinv
    obtain ⟨conf, -, hrest⟩ := hinv
    rw [hrest.readOut, List.append_nil]
  | txRead =>
    rw [hdown] at hinv
    obtain ⟨conf, -, hread⟩ := hinv
    dsimp only
    -- the read has returned, or not yet
    split
    · rename_i hdone
      exact (hread.returned hdone).1
    · rename_i hnot
      rw [hread.readOut_eq hnot, List.append_nil]
  | txAlloc usedPkts =>
    rw [hdown] at hinv
    obtain ⟨conf, -, hrest⟩ := hinv
    exact hrest.readOut
  | txCopy usedPkts dstBufs =>
    rw [hdown] at hinv
    obtain ⟨conf, -, hrest⟩ := hinv
    exact hrest.readOut
  | txOver dstBufs =>
    rw [hdown] at hinv
    obtain ⟨conf, -, hover, -⟩ := hinv
    exact hover.readOut
  | txSend =>
    rw [hdown] at hinv
    obtain ⟨conf, hover, -⟩ := hinv
    rw [hover.readOut, List.append_nil]
  | txExit =>
    rw [hdown] at hinv
    exact hinv.elim

/-- What ltran has confirmed of `rx_ring` was filled. -/
theorem UpInv.confirmed_prefix {filled : List α} {rx : RingSys α} {pc : UpstreamPc α β ρ}
    (h : UpInv filled rx pc) : rx.confirmed <+: filled := by
  cases pc with
  | rxRead backup pkts =>
    obtain ⟨conf, hconf, hread⟩ := h
    rwa [hread.confirmed]
  | rxOver =>
    obtain ⟨conf, hconf, hover⟩ := h
    by_cases hdone : rx.reader = .overDone
    · rw [hover.confirmed_eq hdone]
    · rwa [hover.confirmed_of_not_done hdone]
  | _ =>
    obtain ⟨conf, hconf, hrest⟩ := h
    rwa [hrest.confirmed]

/-- What ltran has confirmed of `tx_ring` was handed over. -/
theorem DownInv.confirmed_prefix {handed : List α} {tx : RingSys α} {pc : DownstreamPc α}
    (h : DownInv handed tx pc) : tx.confirmed <+: handed := by
  cases pc with
  | txRead =>
    obtain ⟨conf, hconf, hread⟩ := h
    rwa [hread.confirmed]
  | txOver dstBufs =>
    obtain ⟨conf, hconf, hover, hnot⟩ := h
    rwa [hover.confirmed_of_not_done hnot]
  | txSend =>
    obtain ⟨conf, hover, hdone⟩ := h
    rw [hover.confirmed_eq hdone]
  | txExit => exact h.elim
  | _ =>
    obtain ⟨conf, hconf, hrest⟩ := h
    rwa [hrest.confirmed]

/-! ## The steps -/

/-- The stack leaves the reader's side of `rx_ring` alone. -/
theorem UpInv.congr {filled : List α} {rx rx' : RingSys α} {pc : UpstreamPc α β ρ}
    (h : UpInv filled rx pc) (hsame : RingSys.SameReader rx rx') : UpInv filled rx' pc := by
  cases pc with
  | _ =>
    obtain ⟨conf, hconf, hphase⟩ := h
    exact ⟨conf, hconf, hphase.congr hsame⟩

/-- The stack leaves the reader's side of `tx_ring` alone. -/
theorem DownInv.congr {handed : List α} {tx tx' : RingSys α} {pc : DownstreamPc α}
    (h : DownInv handed tx pc) (hsame : RingSys.SameReader tx tx') : DownInv handed tx' pc := by
  cases pc with
  | txOver dstBufs =>
    obtain ⟨conf, hconf, hover, hnot⟩ := h
    exact ⟨conf, hconf, hover.congr hsame, hsame.reader ▸ hnot⟩
  | txSend =>
    obtain ⟨conf, hover, hdone⟩ := h
    exact ⟨conf, hover.congr hsame, hsame.reader.trans hdone⟩
  | txExit => exact h.elim
  | _ =>
    obtain ⟨conf, hconf, hphase⟩ := h
    exact ⟨conf, hconf, hphase.congr hsame⟩

/-- The steps of the stack leave the reader's side of both rings alone. -/
theorem sameReader_of_next {v v' : VdevSys α} (hs : v.next = some v') :
    RingSys.SameReader v.rx v'.rx ∧ RingSys.SameReader v.tx v'.tx := by
  -- the accesses of the owner write `prod.head` and `cons.tail`, the reader has neither
  have hown : ∀ {r r' : RingSys α}, r.step .owner = some r' → RingSys.SameReader r r' :=
    fun hr => RingSys.sameReader_of_ownerAct hr Bool.false_ne_true
  cases hpc : v.pc with
  | fillEnq remain batch =>
    simp only [VdevSys.next, hpc] at hs
    split at hs <;> obtain ⟨rx, hrx, rfl⟩ := Option.map_eq_some_iff.1 hs <;>
      exact ⟨hown hrx, .refl _⟩
  | rxDeq =>
    simp only [VdevSys.next, hpc] at hs
    split at hs <;> obtain ⟨rx, hrx, rfl⟩ := Option.map_eq_some_iff.1 hs <;>
      exact ⟨hown hrx, .refl _⟩
  | rxEnq freeCnt =>
    simp only [VdevSys.next, hpc] at hs
    split at hs <;> obtain ⟨rx, hrx, rfl⟩ := Option.map_eq_some_iff.1 hs <;>
      exact ⟨hown hrx, .refl _⟩
  | txTop pkts sentPkts =>
    simp only [VdevSys.next, hpc] at hs
    -- the burst goes on while the ring has something
    split at hs
    · obtain ⟨tx, htx, rfl⟩ := Option.map_eq_some_iff.1 hs
      exact ⟨.refl _, RingSys.sameReader_of_ownerAct htx Bool.false_ne_true⟩
    · exact Option.some.inj hs ▸ ⟨.refl _, .refl _⟩
  | txDeq pkts sentPkts =>
    simp only [VdevSys.next, hpc] at hs
    split at hs <;> obtain ⟨tx, htx, rfl⟩ := Option.map_eq_some_iff.1 hs <;>
      exact ⟨.refl _, hown htx⟩
  | txSend pkts sentPkts =>
    simp only [VdevSys.next, hpc] at hs
    obtain ⟨tx, htx, rfl⟩ := Option.map_eq_some_iff.1 hs
    exact ⟨.refl _, RingSys.sameReader_of_ownerAct htx Bool.false_ne_true⟩
  | txEnq pkts sentPkts =>
    simp only [VdevSys.next, hpc] at hs
    split at hs <;> obtain ⟨tx, htx, rfl⟩ := Option.map_eq_some_iff.1 hs <;>
      exact ⟨.refl _, hown htx⟩
  | txTest pkts sentPkts =>
    simp only [VdevSys.next, hpc] at hs
    split at hs
    · cases hs
    · exact Option.some.inj hs ▸ ⟨.refl _, .refl _⟩
  -- at these points the thread waits for an answer from outside
  | fillAlloc remain => simp only [VdevSys.next, hpc] at hs; cases hs
  | failed => simp only [VdevSys.next, hpc] at hs; cases hs
  | idle => simp only [VdevSys.next, hpc] at hs; cases hs
  | rxAlloc freeCnt => simp only [VdevSys.next, hpc] at hs; cases hs

/-- Whatever the stack does, it leaves the reader's side of both rings alone. -/
theorem sameReader_of_lstack {v v' : VdevSys α} {a : VdevAction α} (ha : ¬ a.isLtran)
    (hs : v.step a = some v') :
    RingSys.SameReader v.rx v'.rx ∧ RingSys.SameReader v.tx v'.tx := by
  cases a with
  -- the two actions of ltran are shut out
  | rxReader a => exact absurd rfl ha
  | txReader a => exact absurd rfl ha
  | rxPoll maxMbuf =>
    -- a call enqueues at its own end of the rx ring
    simp only [VdevSys.step] at hs
    split at hs
    · obtain ⟨rx, hrx, rfl⟩ := Option.map_eq_some_iff.1 hs
      exact ⟨RingSys.sameReader_of_ownerAct hrx Bool.false_ne_true, .refl _⟩
    · cases hs
  | txXmit pkts =>
    simp only [VdevSys.step] at hs
    split at hs
    · -- the packets of a call are counted, no ring is accessed
      split at hs
      · exact Option.some.inj hs ▸ ⟨.refl _, .refl _⟩
      · cases hs
    · cases hs
  | alloc bufs =>
    simp only [VdevSys.step] at hs
    split at hs
    · -- an allocation that fails changes no ring
      exact Option.some.inj hs ▸ ⟨.refl _, .refl _⟩
    · split at hs
      · obtain ⟨rx, hrx, rfl⟩ := Option.map_eq_some_iff.1 hs
        exact ⟨RingSys.sameReader_of_ownerAct hrx Bool.false_ne_true, .refl _⟩
      · cases hs
    · exact Option.some.inj hs ▸ ⟨.refl _, .refl _⟩
    · split at hs
      · obtain ⟨rx, hrx, rfl⟩ := Option.map_eq_some_iff.1 hs
        exact ⟨RingSys.sameReader_of_ownerAct hrx Bool.false_ne_true, .refl _⟩
      · cases hs
    · cases hs
  | retry again =>
    simp only [VdevSys.step] at hs
    split at hs
    · split at hs
      · split at hs <;> exact Option.some.inj hs ▸ ⟨.refl _, .refl _⟩
      · cases hs
    · cases hs
  | next => exact sameReader_of_next hs

/-- A step of ltran on `rx_ring`. -/
theorem rxReader_step {v v' : VdevSys α} {a : RingAct α} (hs : v.step (.rxReader a) = some v') :
    ∃ rx, v.rx.step a = some rx ∧ v' = { v with rx } := by
  simp only [VdevSys.step, Option.ite_none_right_eq_some] at hs
  obtain ⟨rx, hrx, rfl⟩ := Option.map_eq_some_iff.1 hs.2
  exact ⟨rx, hrx, rfl⟩

/-- A step of ltran on `tx_ring`. -/
theorem txReader_step {v v' : VdevSys α} {a : RingAct α} (hs : v.step (.txReader a) = some v') :
    ∃ tx, v.tx.step a = some tx ∧ v' = { v with tx } := by
  simp only [VdevSys.step, Option.ite_none_right_eq_some] at hs
  obtain ⟨tx, htx, rfl⟩ := Option.map_eq_some_iff.1 hs.2
  exact ⟨tx, htx, rfl⟩

/-- A step of the upstream thread keeps the invariant. -/
theorem CrashInv.upNext (h : s.CrashInv) (hs : s.upNext = some s') : s'.CrashInv := by
  have hinv := h.up
  cases hup : s.up with
  | idle => simp only [CrashSys.upNext, hup] at hs; cases hs
  | rxRead backup pkts =>
    rw [hup] at hinv
    obtain ⟨conf, hconf, hread⟩ := hinv
    simp only [CrashSys.upNext, hup] at hs
    split at hs
    · -- the mbufs are in the hands of the thread
      rename_i freeBuf hdone
      obtain ⟨v, hv, rfl⟩ := Option.map_eq_some_iff.1 hs
      have hvdev := h.vdev.step hv
      obtain ⟨rx, hrx, rfl⟩ := rxReader_step hv
      obtain ⟨hout, -⟩ := hread.returned hdone
      obtain rfl := Option.some.inj ((RingSys.readerReturn_eq (.inl ⟨_, hdone⟩)).symm.trans hrx)
      refine ⟨hvdev, ?_, h.down⟩
      dsimp only
      split
      · rename_i hempty
        rw [Bool.and_eq_true, List.isEmpty_iff] at hempty
        exact ⟨conf, hconf, rfl, by rw [hout, hempty.1, List.append_nil], hread.confirmed⟩
      · exact ⟨conf, hconf, rfl, hout, hread.confirmed⟩
    · rename_i hnot
      obtain ⟨v, hv, rfl⟩ := Option.map_eq_some_iff.1 hs
      have hvdev := h.vdev.step hv
      obtain ⟨rx, hrx, rfl⟩ := rxReader_step hv
      exact ⟨hvdev, ⟨conf, hconf, hread.readerStep h.vdev.rx hnot hrx⟩, h.down⟩
  | rxFlush freeBuf pkts =>
    rw [hup] at hinv
    obtain ⟨conf, hconf, hrest⟩ := hinv
    cases freeBuf with
    | nil =>
      simp only [CrashSys.upNext, hup] at hs
      obtain ⟨v, hv, rfl⟩ := Option.map_eq_some_iff.1 hs
      have hvdev := h.vdev.step hv
      obtain ⟨rx, hrx, rfl⟩ := rxReader_step hv
      have hcall := RingSys.confirming_of_call hrx
      rw [hrest.readOut, hrest.confirmed, List.append_nil] at hcall
      exact ⟨hvdev, ⟨conf, hconf, hcall⟩, h.down⟩
    | cons dst freeBuf =>
      cases pkts with
      | nil => simp only [CrashSys.upNext, hup] at hs; cases hs
      | cons src pkts =>
        simp only [CrashSys.upNext, hup] at hs
        obtain rfl := Option.some.inj hs
        refine ⟨h.vdev, ⟨conf, ?_, hrest.reader, ?_, hrest.confirmed⟩, h.down⟩
        · rw [List.map_append]
          exact hconf.trans (List.prefix_append _ _)
        · rw [hrest.readOut, List.map_append, List.append_assoc]
          rfl
  | rxOver =>
    rw [hup] at hinv
    obtain ⟨conf, hconf, hover⟩ := hinv
    simp only [CrashSys.upNext, hup] at hs
    split at hs
    · rename_i hdone
      obtain ⟨v, hv, rfl⟩ := Option.map_eq_some_iff.1 hs
      have hvdev := h.vdev.step hv
      obtain ⟨rx, hrx, rfl⟩ := rxReader_step hv
      obtain rfl := Option.some.inj
        ((RingSys.readerReturn_eq (.inr hdone)).symm.trans hrx)
      exact ⟨hvdev, ⟨_, List.prefix_refl _, rfl, hover.readOut, hover.confirmed_eq hdone⟩, h.down⟩
    · rename_i hnot
      obtain ⟨v, hv, rfl⟩ := Option.map_eq_some_iff.1 hs
      have hvdev := h.vdev.step hv
      obtain ⟨rx, hrx, rfl⟩ := rxReader_step hv
      exact ⟨hvdev, ⟨conf, hconf, hover.readerStep hnot hrx⟩, h.down⟩
  | regRead =>
    rw [hup] at hinv
    simp only [CrashSys.upNext, hup] at hs
    split at hs <;> obtain ⟨reg, -, rfl⟩ := Option.map_eq_some_iff.1 hs <;>
      exact ⟨h.vdev, hinv, h.down⟩
  | regModify pkts =>
    rw [hup] at hinv
    cases pkts with
    | nil =>
      simp only [CrashSys.upNext, hup] at hs
      obtain ⟨reg, -, rfl⟩ := Option.map_eq_some_iff.1 hs
      exact ⟨h.vdev, hinv, h.down⟩
    | cons pkt pkts =>
      simp only [CrashSys.upNext, hup] at hs
      exact Option.some.inj hs ▸ ⟨h.vdev, hinv, h.down⟩
  | regOver =>
    rw [hup] at hinv
    simp only [CrashSys.upNext, hup] at hs
    split at hs <;> obtain ⟨reg, -, rfl⟩ := Option.map_eq_some_iff.1 hs <;>
      exact ⟨h.vdev, hinv, h.down⟩

/-- A step of the downstream thread keeps the invariant. -/
theorem CrashInv.downNext (h : s.CrashInv) (hs : s.downNext = some s') : s'.CrashInv := by
  have hinv := h.down
  cases hdown : s.down with
  | idle => simp only [CrashSys.downNext, hdown] at hs; cases hs
  | txAlloc usedPkts => simp only [CrashSys.downNext, hdown] at hs; cases hs
  | txRead =>
    rw [hdown] at hinv
    obtain ⟨conf, hconf, hread⟩ := hinv
    simp only [CrashSys.downNext, hdown] at hs
    split at hs
    · -- `gazelle_ring_read` returns
      rename_i usedPkts hdone
      obtain ⟨v, hv, rfl⟩ := Option.map_eq_some_iff.1 hs
      have hvdev := h.vdev.step hv
      obtain ⟨tx, htx, rfl⟩ := txReader_step hv
      obtain ⟨hout, -⟩ := hread.returned hdone
      obtain rfl := Option.some.inj ((RingSys.readerReturn_eq (.inl ⟨_, hdone⟩)).symm.trans htx)
      -- what was read are the packets confirmed so far and these, until they are copied
      refine ⟨hvdev, h.up, ?_⟩
      dsimp only
      split
      · rename_i hempty
        rw [List.isEmpty_iff] at hempty
        exact ⟨conf, hconf, rfl, by rw [hout, hempty, List.append_nil], hread.confirmed⟩
      · exact ⟨conf, hconf, rfl, hout, hread.confirmed⟩
    · -- an access of `gazelle_ring_read` that is not its last
      rename_i hnot
      obtain ⟨v, hv, rfl⟩ := Option.map_eq_some_iff.1 hs
      have hvdev := h.vdev.step hv
      obtain ⟨tx, htx, rfl⟩ := txReader_step hv
      exact ⟨hvdev, h.up, conf, hconf, hread.readerStep h.vdev.tx hnot htx⟩
  | txCopy usedPkts dstBufs =>
    rw [hdown] at hinv
    obtain ⟨conf, hconf, hrest⟩ := hinv
    cases usedPkts with
    | nil =>
      -- all packets are copied and `gazelle_ring_read_over` begins
      simp only [CrashSys.downNext, hdown] at hs
      obtain ⟨v, hv, rfl⟩ := Option.map_eq_some_iff.1 hs
      have hvdev := h.vdev.step hv
      obtain ⟨tx, htx, rfl⟩ := txReader_step hv
      have hcall := RingSys.confirming_of_call htx
      rw [hrest.readOut, hrest.confirmed, List.append_nil] at hcall
      refine ⟨hvdev, h.up, conf, hconf, hcall, fun hdone => ?_⟩
      -- its first access confirms nothing yet
      simp only [RingSys.step, hrest.reader] at htx
      obtain rfl := Option.some.inj htx
      cases hdone
    | cons pkt usedPkts =>
      -- one packet goes from the packets read to those copied
      simp only [CrashSys.downNext, hdown] at hs
      obtain rfl := Option.some.inj hs
      refine ⟨h.vdev, h.up, conf, hconf, hrest.reader, ?_, hrest.confirmed⟩
      rw [hrest.readOut, List.append_assoc dstBufs]
      rfl
  | txOver dstBufs =>
    rw [hdown] at hinv
    obtain ⟨conf, hconf, hover, hnot⟩ := hinv
    simp only [CrashSys.downNext, hdown] at hs
    split at hs
    · -- the store of `prod.tail`: what was copied is confirmed
      rename_i head hstore
      obtain ⟨v, hv, rfl⟩ := Option.map_eq_some_iff.1 hs
      have hvdev := h.vdev.step hv
      obtain ⟨tx, htx, rfl⟩ := txReader_step hv
      have hover' := hover.readerStep hnot htx
      simp only [RingSys.step, RingSys.readerStep, hstore] at htx
      obtain rfl := Option.some.inj htx
      exact ⟨hvdev, h.up, conf, hover', rfl⟩
    · -- a load before that store
      rename_i hstore
      obtain ⟨v, hv, rfl⟩ := Option.map_eq_some_iff.1 hs
      have hvdev := h.vdev.step hv
      obtain ⟨tx, htx, rfl⟩ := txReader_step hv
      have hover' := hover.readerStep hnot htx
      have hload := hover.loads hstore hnot
      simp only [RingSys.step, RingSys.readerStep, hload] at htx
      obtain rfl := Option.some.inj htx
      exact ⟨hvdev, h.up, conf, hconf, hover', fun hdone => by cases hdone⟩
  | txSend =>
    rw [hdown] at hinv
    obtain ⟨conf, hover, hdone⟩ := hinv
    -- the packets go out and the thread is idle with nothing read that is not confirmed
    simp only [CrashSys.downNext, hdown] at hs
    obtain ⟨v, hv, rfl⟩ := Option.map_eq_some_iff.1 hs
    have hvdev := h.vdev.step hv
    obtain ⟨tx, htx, rfl⟩ := txReader_step hv
    obtain rfl := Option.some.inj
      ((RingSys.readerReturn_eq (.inr hdone)).symm.trans htx)
    exact ⟨hvdev, h.up, _, List.prefix_refl _, rfl, hover.readOut, hover.confirmed_eq hdone⟩
  | txExit =>
    rw [hdown] at hinv
    exact hinv.elim

/-- A death with nothing in the hands of the threads keeps the invariant. -/
theorem CrashInv.die (h : s.CrashInv) (hrx : s.unfilled = []) (htx : s.unsent = []) :
    s.die.CrashInv := by
  have hrxOut := h.rx_readOut
  have htxOut := h.tx_readOut
  rw [hrx, List.append_nil] at hrxOut
  rw [htx, List.append_nil] at htxOut
  refine ⟨⟨h.vdev.rx.setReader trivial, h.vdev.tx.setReader trivial, ?_⟩,
    ⟨_, h.up.confirmed_prefix, rfl, hrxOut, rfl⟩, ⟨_, h.down.confirmed_prefix, rfl, htxOut, rfl⟩⟩
  have hrxSame : RingSys.SameOwner s.vdev.rx { s.vdev.rx with reader := .idle } := ⟨rfl, rfl, rfl⟩
  have htxSame : RingSys.SameOwner s.vdev.tx { s.vdev.tx with reader := .idle } := ⟨rfl, rfl, rfl⟩
  exact (h.vdev.pc.ofRx hrxSame).ofTx htxSame

/-- Every step of an orderly ltran keeps the invariant. -/
theorem CrashInv.step (h : s.CrashInv) {a : CrashAction α β ρ} (horder : s.Orderly a)
    (hs : s.step a = some s') : s'.CrashInv := by
  cases a with
  | lstack a =>
    -- the stack does not touch what the invariant says of ltran
    simp only [CrashSys.step, Option.ite_none_left_eq_some] at hs
    obtain ⟨v, hv, rfl⟩ := Option.map_eq_some_iff.1 hs.2
    obtain ⟨hrx, htx⟩ := sameReader_of_lstack hs.1 hv
    exact ⟨h.vdev.step hv, h.up.congr hrx, h.down.congr htx⟩
  | reg a =>
    -- a registration is not in the rings
    simp only [CrashSys.step, Option.ite_none_left_eq_some] at hs
    obtain ⟨reg, -, rfl⟩ := Option.map_eq_some_iff.1 hs.2
    exact ⟨h.vdev, h.up, h.down⟩
  | flush backup pkts =>
    simp only [CrashSys.step] at hs
    split at hs
    · rename_i hup
      simp only [Option.ite_none_right_eq_some] at hs
      obtain ⟨v, hv, rfl⟩ := Option.map_eq_some_iff.1 hs.2
      have hvdev := h.vdev.step hv
      obtain ⟨rx, hrx, rfl⟩ := rxReader_step hv
      have hinv := h.up
      rw [hup] at hinv
      obtain ⟨conf, hconf, hrest⟩ := hinv
      -- the call begins with nothing read
      have hcall := RingSys.reading_of_call hrx
      rw [hrest.readOut, hrest.confirmed] at hcall
      exact ⟨hvdev, ⟨conf, hconf, hcall⟩, h.down⟩
    · cases hs
  | handle =>
    simp only [CrashSys.step] at hs
    split at hs
    · rename_i hup
      have hinv := h.up
      rw [hup] at hinv
      obtain ⟨reg, -, rfl⟩ := Option.map_eq_some_iff.1 hs
      exact ⟨h.vdev, hinv, h.down⟩
    · cases hs
  | forward =>
    simp only [CrashSys.step] at hs
    split at hs
    · rename_i hdown
      obtain ⟨v, hv, rfl⟩ := Option.map_eq_some_iff.1 hs
      have hvdev := h.vdev.step hv
      obtain ⟨tx, htx, rfl⟩ := txReader_step hv
      have hinv := h.down
      rw [hdown] at hinv
      obtain ⟨conf, hconf, hrest⟩ := hinv
      have hcall := RingSys.reading_of_call htx
      rw [hrest.readOut, hrest.confirmed] at hcall
      exact ⟨hvdev, h.up, conf, hconf, hcall⟩
    · cases hs
  | up => exact h.upNext hs
  | alloc ok =>
    simp only [CrashSys.step] at hs
    split at hs
    · rename_i usedPkts hdown
      have hinv := h.down
      -- the packets read keep their places
      rw [hdown] at hinv
      -- an orderly ltran has memory, so the packets read are not freed
      have hok : ok = true := horder
      rw [if_pos hok] at hs
      exact Option.some.inj hs ▸ ⟨h.vdev, h.up, hinv⟩
    · cases hs
  | down => exact h.downNext hs
  | die =>
    -- and it dies only when no read is open
    obtain ⟨hrx, htx⟩ := horder
    exact Option.some.inj hs ▸ h.die hrx htx

/-! ## Runs -/

/-- A stack that is served by one orderly ltran after the other. Every mbuf that it receives was
filled with a packet after the stack had enqueued it, the first received being the first filled, and
every packet that it frees was read and its copy came to a send loop. -/
theorem crash_consistency (hs : (system (α := α) (β := β) (ρ := ρ)).ReachableUnder Orderly s) :
    s.vdev.received <+: s.filled.map Prod.fst ∧ s.filled.map Prod.fst <+: s.vdev.rx.readOut ∧
      s.vdev.rx.readOut <+: s.vdev.rx.accepted ∧
      s.vdev.freed <+: s.handed ∧ s.handed <+: s.vdev.tx.readOut ∧
      s.vdev.tx.readOut <+: s.vdev.tx.accepted := by
  have h : s.CrashInv := by
    refine Transition.System.invariant_under (I := CrashInv) ?_ ?_ hs
    · rintro _ ⟨rxSlots, txSlots, regSlots, rfl⟩
      exact ⟨.create rxSlots txSlots, ⟨[], List.prefix_refl _, rfl, rfl, rfl⟩,
        ⟨[], List.prefix_refl _, rfl, rfl, rfl⟩⟩
    · intro _ _ _ ih horder hstep
      exact ih.step horder hstep
  obtain ⟨hreceived, hfreed⟩ := h.vdev.pc.isPrefix
  refine ⟨?_, ?_, h.vdev.rx.readOut_prefix, ?_, ?_, h.vdev.tx.readOut_prefix⟩
  · exact hreceived.trans (h.vdev.rx.dequeued_prefix.trans h.up.confirmed_prefix)
  · exact h.rx_readOut ▸ List.prefix_append _ _
  · exact hfreed.trans (h.vdev.tx.dequeued_prefix.trans h.down.confirmed_prefix)
  · exact h.tx_readOut ▸ List.prefix_append _ _

/-- `downstream_forward_one` with 32 packets, and `n` steps after it has allocated the copies. -/
private def forwardRun (n : ℕ) : List (CrashAction ℕ ℕ ℕ) :=
  .forward :: List.replicate 36 .down ++ .alloc true :: List.replicate n .down

/-- The stack fills `rx_ring` and sends 128 packets. ltran sends half of them and fills two mbufs,
and dies in its send loop and before it confirms the mbufs. The next ltran fills a third mbuf and
sends the other packets; the stack polls, and frees the packets when it sends again. -/
private def survivedRun : List (CrashAction ℕ ℕ ℕ) :=
  .lstack (.alloc (some (List.range 511))) :: List.replicate 515 (.lstack .next) ++
    .lstack (.txXmit (List.range 128)) :: List.replicate 135 (.lstack .next) ++
    forwardRun 36 ++ forwardRun 35 ++ .flush false [70, 71] :: List.replicate 9 .up ++ .die ::
    .flush false [72] :: List.replicate 10 .up ++ forwardRun 36 ++ forwardRun 36 ++
    .lstack (.rxPoll 32) :: List.replicate 7 (.lstack .next) ++
    .lstack (.txXmit [200]) :: List.replicate 140 (.lstack .next)

/-- An mbuf that the first ltran has filled and not confirmed is received, and a packet that either
ltran has sent is freed. -/
theorem crash_consistency_survived :
    ∃ s : CrashSys ℕ ℕ ℕ, system.ReachableUnder Orderly s ∧
      s.filled = [(0, 70), (1, 71), (2, 72)] ∧ s.vdev.received = [0, 1, 2] ∧
      s.vdev.freed = List.range 128 ∧ s.vdev.received <+: s.filled.map Prod.fst ∧
      s.filled.map Prod.fst <+: s.vdev.rx.readOut ∧ s.vdev.freed <+: s.handed ∧
      s.handed <+: s.vdev.tx.readOut := by
  let start : CrashSys ℕ ℕ ℕ := create (fun _ => 0) (fun _ => 0) fun _ => 0
  have hrun : (system.runUnder Orderly start survivedRun).any (fun s =>
      s.filled = [(0, 70), (1, 71), (2, 72)] ∧ s.vdev.received = [0, 1, 2] ∧
        s.vdev.freed = List.range 128) = true := by
    decide +kernel
  obtain ⟨s, hs, hstate⟩ := (Option.any_eq_true _ _).1 hrun
  obtain ⟨hfilled, hreceived, hfreed⟩ := of_decide_eq_true hstate
  have hreach :=
    Transition.System.reachableUnder_of_runUnder (M := system) (.init ⟨_, _, _, rfl⟩) hs
  obtain ⟨hrx, hrxRead, -, htx, htxRead, -⟩ := crash_consistency hreach
  exact ⟨s, hreach, hfilled, hreceived, hfreed, hrx, hrxRead, htx, htxRead⟩

/-- ltran reads an mbuf and dies before the copy. The next ltran fills the next mbuf and confirms
both, and the stack polls. -/
private def lossyRun : List (CrashAction ℕ ℕ ℕ) :=
  .lstack (.alloc (some (List.range 511))) :: List.replicate 515 (.lstack .next) ++
    .flush false [70] :: List.replicate 5 .up ++ .die ::
    .flush false [71] :: List.replicate 10 .up ++
    .lstack (.rxPoll 32) :: List.replicate 6 (.lstack .next)

/-- A stack receives an mbuf that no ltran has filled. -/
theorem crash_receives_unfilled :
    ¬ ∀ s : CrashSys ℕ ℕ ℕ, system.Reachable s →
      (∀ m ∈ s.vdev.received, m ∈ s.filled.map Prod.fst) ∧ ∀ m ∈ s.vdev.freed, m ∈ s.handed := by
  intro h
  have hrun : (system.run (create (fun _ => 0) (fun _ => 0) fun _ => 0) lossyRun).any
      (fun s : CrashSys ℕ ℕ ℕ => s.vdev.received = [0, 1] ∧ s.filled = [(1, 71)]) = true := by
    decide +kernel
  obtain ⟨s, hs, hstate⟩ := (Option.any_eq_true _ _).1 hrun
  obtain ⟨hreceived, hfilled⟩ := of_decide_eq_true hstate
  have hreach : (system (α := ℕ)).Reachable s :=
    Transition.System.reachable_of_run (.init ⟨_, _, _, rfl⟩) hs
  have hmem := (h s hreach).1 0
  rw [hreceived, hfilled] at hmem
  exact absurd (hmem (by decide)) (by decide)

end CrashSys

end Gazelle
