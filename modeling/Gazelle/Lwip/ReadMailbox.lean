import Gazelle.Lwip.SockData
import Gazelle.Ring.Sequential

/-!
# Moving pbufs from the mailbox to the receive ring

`read_lwip_data` takes pbufs out of `recvmbox`, one per call of lwIP's receive function, and
enqueues them in `recv_ring` at the end. When a call fails it decides by the number of bytes, and
not by the number of pbufs, whether there is something to enqueue.

* `readLwipLoop`: the receive calls, which fill the array `pbufs`;
* `ReadMailbox.read`: the function;
* `ReadOut.Kept`: what the callers rely on, no pbuf taken is lost;
* `kept_iff`: the calls that lose none;
* `lost_empty_datagram`: a call that loses one.
-/

namespace Gazelle

/-- A pbuf in `recvmbox`. -/
structure MboxPbuf where
  /-- Its address. -/
  ptr : ℕ
  /-- `tot_len`. -/
  totLen : BitVec 16
  deriving DecidableEq

/-- The outcome of one call of `netconn_recv_udp_raw_pbuf_flags` or
`netconn_recv_tcp_pbuf_flags`. -/
inductive RecvResult
  /-- `ERR_OK`, with the pbuf that was taken out of `recvmbox`. -/
  | ok (pbuf : MboxPbuf)
  /-- Another result, with nothing taken. -/
  | err (err : ℤ)

/-- `ERR_CLSD`. -/
def errClsd : ℤ := -15

/-- The local variables of `read_lwip_data`. An element of `pbufs` that was not written is
`none`. -/
structure ReadVars where
  /-- `pbufs`. -/
  pbufs : ℕ → Option MboxPbuf
  /-- `read_count`. -/
  readCount : ℕ
  /-- `recv_len`. -/
  recvLen : ℤ

/-- The end of a round in which a pbuf was taken. -/
def ReadVars.store (v : ReadVars) (i : ℕ) (pbuf : MboxPbuf) : ReadVars where
  pbufs := Function.update v.pbufs i (some pbuf)
  readCount := v.readCount + 1
  recvLen := v.recvLen + pbuf.totLen.toNat

section Store

variable (v : ReadVars) (i : ℕ) (pbuf : MboxPbuf)

@[simp]
theorem ReadVars.store_pbufs : (v.store i pbuf).pbufs = Function.update v.pbufs i (some pbuf) := rfl

@[simp] theorem ReadVars.store_readCount : (v.store i pbuf).readCount = v.readCount + 1 := rfl

@[simp]
theorem ReadVars.store_recvLen : (v.store i pbuf).recvLen = v.recvLen + pbuf.totLen.toNat := rfl

end Store

/-- How the receive loop is left. -/
inductive LoopEnd
  /-- By the return in the loop. -/
  | returned (ret : ℤ)
  /-- At its end, or by `break`. -/
  | done (vars : ReadVars)

/-- The receive loop of `read_lwip_data` from round `i` on, with `n` rounds left. `recv i` is the
outcome of the call in round `i`, whose flags depend only on whether `i` is 0. -/
def readLwipLoop (recv : ℕ → RecvResult) : ℕ → ℕ → ReadVars → LoopEnd
  | 0, _, v => .done v
  | n + 1, i, v =>
    match recv i with
    | .err err =>
      if 0 < v.recvLen then .done v
      else .returned (if err = errClsd then 0 else -1)
    | .ok pbuf => readLwipLoop recv n (i + 1) (v.store i pbuf)

/-- What one call of `read_lwip_data` works on. -/
structure ReadMailbox where
  /-- `recvmbox` is not `NULL`. -/
  recvmbox : Bool
  /-- `NETCONN_IS_UDP`. -/
  isUdp : Bool
  /-- `rte_ring_count` of the ring of `recvmbox`. -/
  dataCount : U32
  /-- The outcomes of the receive calls. -/
  recv : ℕ → RecvResult
  /-- The contents of `pbufs` before it is written. -/
  garbage : ℕ → Option MboxPbuf
  /-- `recv_ring`, which holds pointers. -/
  recvRing : RteRing (Option MboxPbuf)

/-- What it leaves behind. -/
structure ReadOut where
  /-- `recv_ring`. -/
  recvRing : RteRing (Option MboxPbuf)
  /-- The pointers that `free_recv_ring_readover` frees. -/
  readover : List (Option MboxPbuf)
  /-- The pointers of the batch that are freed. -/
  freed : List (Option MboxPbuf)
  /-- The pbufs that `tcp_recved` acknowledges. -/
  recved : List (Option MboxPbuf)
  /-- The value returned. -/
  ret : ℤ

namespace ReadMailbox

variable (c : ReadMailbox)

/-- `free_recv_ring_readover`. -/
def freeRecvRingReadover : List (Option MboxPbuf) × RteRing (Option MboxPbuf) :=
  c.recvRing.gazelleRingScDequeue recvRingSize

/-- `read_num`, when the confirmed pbufs have been freed. -/
def readNum : ℕ :=
  let freeCount := c.freeRecvRingReadover.2.gazelleRingFreeCount
  (if freeCount < c.dataCount then freeCount else c.dataCount).toNat

/-- The end of `read_lwip_data`: the batch is enqueued, and what does not fit is freed. -/
def enqueueBatch (ring : RteRing (Option MboxPbuf)) (v : ReadVars) : ReadOut :=
  let batch := (List.range v.readCount).map v.pbufs
  let put := ring.gazelleRingSpEnqueue batch
  let dropped := batch.drop put.1.toNat
  { recvRing := put.2
    readover := []
    freed := dropped
    recved := if c.isUdp then [] else dropped
    ret := if v.recvLen = 0 then -1 else v.recvLen }

/-- `read_lwip_data`. -/
def read : ReadOut :=
  if c.recvmbox = false then
    { recvRing := c.recvRing, readover := [], freed := [], recved := [], ret := 0 }
  else
    let (readover, ring) := c.freeRecvRingReadover
    if ring.gazelleRingFreeCount = 0 then
      { recvRing := ring, readover, freed := [], recved := [], ret := -1 }
    else
      match readLwipLoop c.recv c.readNum 0 ⟨c.garbage, 0, 0⟩ with
      | .returned ret => { recvRing := ring, readover, freed := [], recved := [], ret }
      | .done v => { c.enqueueBatch ring v with readover }

end ReadMailbox

/-! ## The receive calls -/

/-- The pbufs that `n` receive calls from round `i` on take, up to the first one that fails. -/
def takenPbufs (recv : ℕ → RecvResult) : ℕ → ℕ → List MboxPbuf
  | 0, _ => []
  | n + 1, i =>
    match recv i with
    | .err _ => []
    | .ok pbuf => pbuf :: takenPbufs recv n (i + 1)

/-- The first failure of `n` receive calls from round `i` on. -/
def firstErr (recv : ℕ → RecvResult) : ℕ → ℕ → Option ℤ
  | 0, _ => none
  | n + 1, i =>
    match recv i with
    | .err err => some err
    | .ok _ => firstErr recv n (i + 1)

/-- The payload bytes of some pbufs. -/
def payloadLen (pbufs : List MboxPbuf) : ℕ := (pbufs.map fun p => p.totLen.toNat).sum

section Loop

variable {recv : ℕ → RecvResult} {n i : ℕ} {v : ReadVars}

/-- The variables when the pbufs `l` have been taken, from round `i` on. -/
structure Stored (l : List MboxPbuf) (i : ℕ) (v w : ReadVars) : Prop where
  /-- The pbufs taken are in the array. -/
  stored : ∀ j p, l[j]? = some p → w.pbufs (i + j) = some p
  /-- What was in it before is still there. -/
  same : ∀ j < i, w.pbufs j = v.pbufs j
  /-- They are counted. -/
  readCount : w.readCount = v.readCount + l.length
  /-- So are their bytes. -/
  recvLen : w.recvLen = v.recvLen + payloadLen l

theorem Stored.nil (i : ℕ) (v : ReadVars) : Stored [] i v v where
  stored j p hj := by simp at hj
  same _ _ := rfl
  readCount := rfl
  recvLen := by simp [payloadLen]

/-- One more pbuf in front of those that are taken later. -/
theorem Stored.cons {p : MboxPbuf} {l : List MboxPbuf} {w : ReadVars}
    (h : Stored l (i + 1) (v.store i p) w) : Stored (p :: l) i v w where
  stored j q hj := by
    cases j with
    | zero =>
      obtain rfl : p = q := by simpa using hj
      rw [Nat.add_zero, h.same i (Nat.lt_succ_self i), ReadVars.store_pbufs, Function.update_self]
    | succ j =>
      have hq := h.stored j q (by simpa using hj)
      rwa [Nat.add_right_comm, Nat.add_assoc] at hq
  same j hj := by
    rw [h.same j (Nat.lt_succ_of_lt hj), ReadVars.store_pbufs,
      Function.update_of_ne (Nat.ne_of_lt hj)]
  readCount := by
    rw [h.readCount, List.length_cons, ReadVars.store_readCount]
    omega
  recvLen := by
    rw [h.recvLen]
    simp only [ReadVars.store_recvLen, payloadLen, List.map_cons, List.sum_cons]
    omega

/-- The loop stores the pbufs that are taken, and returns at a failure before the first byte. -/
theorem readLwipLoop_spec (recv : ℕ → RecvResult) (n i : ℕ) (v : ReadVars) :
    ∃ w, Stored (takenPbufs recv n i) i v w ∧
      readLwipLoop recv n i v =
        match firstErr recv n i with
        | none => .done w
        | some err =>
          if 0 < w.recvLen then .done w else .returned (if err = errClsd then 0 else -1) := by
  induction n generalizing i v with
  | zero => exact ⟨v, .nil i v, rfl⟩
  | succ n ih =>
    cases hrecv : recv i with
    | err err =>
      refine ⟨v, ?_, ?_⟩
      · simp only [takenPbufs, hrecv]
        exact .nil i v
      · simp only [readLwipLoop, firstErr, hrecv]
    | ok pbuf =>
      obtain ⟨w, hstored, hloop⟩ := ih (i + 1) (v.store i pbuf)
      refine ⟨w, ?_, ?_⟩
      · simp only [takenPbufs, hrecv]
        exact hstored.cons
      · simp only [readLwipLoop, firstErr, hrecv]
        exact hloop

/-- The batch is the pbufs taken. -/
theorem Stored.batch {l : List MboxPbuf} {w : ReadVars} (h : Stored l 0 v w)
    (hv : v.readCount = 0) : (List.range w.readCount).map w.pbufs = l.map some := by
  rw [h.readCount, hv, Nat.zero_add]
  apply List.ext_getElem?
  intro j
  rw [List.getElem?_map, List.getElem?_map]
  cases hj : l[j]? with
  | none =>
    rw [List.getElem?_eq_none (by simpa using hj)]
    rfl
  | some p =>
    have hlt : j < l.length := (List.getElem?_eq_some_iff.1 hj).1
    rw [List.getElem?_range hlt]
    simpa using h.stored j p hj

theorem length_takenPbufs_le (recv : ℕ → RecvResult) (n i : ℕ) :
    (takenPbufs recv n i).length ≤ n := by
  induction n generalizing i with
  | zero => exact le_rfl
  | succ n ih =>
    rw [takenPbufs]
    split
    · exact Nat.zero_le _
    · exact Nat.succ_le_succ (ih (i + 1))

end Loop

/-! ## Whether a pbuf is lost -/

namespace ReadMailbox

/-- The pbufs that the call takes out of `recvmbox`. -/
def taken (c : ReadMailbox) : List MboxPbuf :=
  if c.recvmbox then takenPbufs c.recv c.readNum 0 else []

/-- What the callers rely on, when `recv_ring` holds `handed` and `fresh` before: the pbufs taken
are enqueued in their order, up to some that are freed, which TCP acknowledges; and without success
no byte is enqueued. -/
def Kept (c : ReadMailbox) (handed fresh : List (Option MboxPbuf)) (out : ReadOut) : Prop :=
  ∃ n confirmed,
    out.recvRing.Holds sockRecvRingBits confirmed handed (fresh ++ (c.taken.take n).map some) ∧
    out.freed = (c.taken.drop n).map some ∧
    (c.isUdp = false → out.recved = out.freed) ∧
    (out.ret ≤ 0 → payloadLen (c.taken.take n) = 0)

/-- When a receive call fails, it is the first one, or one before it has brought a byte. -/
def NoEmptyBatch (c : ReadMailbox) : Prop :=
  c.recvmbox = true → firstErr c.recv c.readNum 0 ≠ none →
    c.taken = [] ∨ 0 < payloadLen c.taken

variable {c : ReadMailbox} {confirmed handed fresh : List (Option MboxPbuf)}

/-- The call when nothing is received: the ring only loses confirmed pbufs. -/
theorem kept_of_nothing {out : ReadOut} (htaken : c.taken = [])
    (hring : out.recvRing.Holds sockRecvRingBits confirmed handed fresh) (hfreed : out.freed = [])
    (hrecved : out.recved = []) : c.Kept handed fresh out := by
  refine ⟨0, confirmed, ?_, ?_, fun _ => ?_, fun _ => rfl⟩
  · simpa using hring
  · rw [htaken, hfreed]
    rfl
  · rw [hrecved, hfreed]

/-- There is room for the pbufs taken. -/
theorem length_taken_le :
    c.taken.length ≤ c.freeRecvRingReadover.2.gazelleRingFreeCount.toNat := by
  have hread : c.readNum ≤ c.freeRecvRingReadover.2.gazelleRingFreeCount.toNat := by
    unfold readNum
    dsimp only
    split
    · exact le_rfl
    · next h => exact BitVec.le_def.1 (BitVec.not_lt.1 h)
  unfold taken
  split
  · exact (length_takenPbufs_le _ _ _).trans hread
  · exact Nat.zero_le _

/-- The call when the batch is enqueued: no pbuf is dropped. -/
theorem kept_of_batch {w : ReadVars} (hw : Stored c.taken 0 ⟨c.garbage, 0, 0⟩ w)
    (hring : c.freeRecvRingReadover.2.Holds sockRecvRingBits confirmed handed fresh)
    (readover : List (Option MboxPbuf)) :
    c.Kept handed fresh { c.enqueueBatch c.freeRecvRingReadover.2 w with readover } := by
  have hbatch := hw.batch rfl
  have hroom : (c.taken.map some).length ≤
      c.freeRecvRingReadover.2.gazelleRingFreeCount.toNat := by
    rw [List.length_map]
    exact length_taken_le
  have hput := hring.spEnqueue (by decide) hroom
  rw [List.length_map] at hput
  refine ⟨c.taken.length, confirmed, ?_, ?_, fun htcp => ?_, fun hret => ?_⟩
  · simp only [enqueueBatch, hbatch, List.take_length]
    exact hput.2
  · simp only [enqueueBatch, hbatch, hput.1]
    rw [List.drop_eq_nil_of_le (by simp), List.drop_eq_nil_of_le (le_refl _)]
    rfl
  · simp only [enqueueBatch, htcp, Bool.false_eq_true, if_false]
  · -- a batch with a byte is a success
    rw [List.take_length]
    have hlen : w.recvLen = payloadLen c.taken := by simpa using hw.recvLen
    simp only [enqueueBatch] at hret
    split at hret <;> omega

/-- The receive loop of the call. -/
theorem loop_eq (hmbox : c.recvmbox = true) :
    ∃ w, Stored c.taken 0 ⟨c.garbage, 0, 0⟩ w ∧
      readLwipLoop c.recv c.readNum 0 ⟨c.garbage, 0, 0⟩ =
        match firstErr c.recv c.readNum 0 with
        | none => .done w
        | some err =>
          if 0 < payloadLen c.taken then .done w
          else .returned (if err = errClsd then 0 else -1) := by
  obtain ⟨w, hstored, hloop⟩ := readLwipLoop_spec c.recv c.readNum 0 ⟨c.garbage, 0, 0⟩
  have htaken : c.taken = takenPbufs c.recv c.readNum 0 := if_pos hmbox
  rw [← htaken] at hstored
  have hlen : w.recvLen = payloadLen c.taken := by simpa using hstored.recvLen
  refine ⟨w, hstored, ?_⟩
  rw [hloop, hlen]
  simp only [Int.natCast_pos]

/-- The call with no failure, or with a byte before it: the batch is enqueued. -/
theorem read_of_batch (hmbox : c.recvmbox = true)
    (hfree : c.freeRecvRingReadover.2.gazelleRingFreeCount ≠ 0)
    (h : firstErr c.recv c.readNum 0 = none ∨ 0 < payloadLen c.taken) :
    ∃ w, Stored c.taken 0 ⟨c.garbage, 0, 0⟩ w ∧
      c.read = { c.enqueueBatch c.freeRecvRingReadover.2 w with
        readover := c.freeRecvRingReadover.1 } := by
  obtain ⟨w, hstored, hloop⟩ := loop_eq hmbox
  have hdone : readLwipLoop c.recv c.readNum 0 ⟨c.garbage, 0, 0⟩ = .done w := by
    rw [hloop]
    split
    · rfl
    · next herr =>
      rcases h with hnone | hpos
      · rw [herr] at hnone
        cases hnone
      · rw [if_pos hpos]
  refine ⟨w, hstored, ?_⟩
  rw [read, if_neg (by simp [hmbox])]
  simp only [if_neg hfree, hdone]

/-- The call with a failure before the first byte: it returns without what it has taken. -/
theorem read_of_err (hmbox : c.recvmbox = true)
    (hfree : c.freeRecvRingReadover.2.gazelleRingFreeCount ≠ 0) {err : ℤ}
    (herr : firstErr c.recv c.readNum 0 = some err) (hzero : payloadLen c.taken = 0) :
    c.read = ⟨c.freeRecvRingReadover.2, c.freeRecvRingReadover.1, [], [],
      if err = errClsd then 0 else -1⟩ := by
  obtain ⟨w, -, hloop⟩ := loop_eq hmbox
  rw [herr] at hloop
  simp only [hzero, lt_irrefl, if_false] at hloop
  rw [read, if_neg (by simp [hmbox])]
  simp only [if_neg hfree, hloop]

/-- The call without a mailbox, or without room in the ring. -/
theorem read_of_nothing (h : c.recvmbox = false ∨
      c.freeRecvRingReadover.2.gazelleRingFreeCount = 0)
    (hring : c.recvRing.Holds sockRecvRingBits confirmed handed fresh) :
    c.taken = [] ∧ (∃ confirmed', c.read.recvRing.Holds sockRecvRingBits confirmed' handed fresh) ∧
      c.read.freed = [] ∧ c.read.recved = [] := by
  have htaken : c.taken = [] := by
    rcases h with hmbox | hfree
    · simp [taken, hmbox]
    · have hlen := length_taken_le (c := c)
      rw [hfree] at hlen
      exact List.eq_nil_of_length_eq_zero (Nat.le_zero.1 hlen)
  refine ⟨htaken, ?_⟩
  unfold read
  by_cases hmbox : c.recvmbox = false
  · rw [if_pos hmbox]
    exact ⟨⟨confirmed, hring⟩, rfl, rfl⟩
  · have hfree := h.resolve_left hmbox
    rw [if_neg hmbox]
    simp only [if_pos hfree, and_self, and_true]
    exact ⟨_, (hring.scDequeue (by decide) recvRingSize).2⟩

/-- No pbuf is lost by a call exactly if no batch of empty pbufs comes before a failure. -/
theorem kept_iff (hring : c.recvRing.Holds sockRecvRingBits confirmed handed fresh) :
    c.Kept handed fresh c.read ↔ c.NoEmptyBatch := by
  by_cases hnothing : c.recvmbox = false ∨ c.freeRecvRingReadover.2.gazelleRingFreeCount = 0
  · obtain ⟨htaken, ⟨confirmed', hring'⟩, hfreed, hrecved⟩ := read_of_nothing hnothing hring
    exact ⟨fun _ _ _ => .inl htaken, fun _ => kept_of_nothing htaken hring' hfreed hrecved⟩
  obtain ⟨hmbox, hfree⟩ := not_or.1 hnothing
  replace hmbox : c.recvmbox = true := by simpa using hmbox
  have hdeq := (hring.scDequeue (by decide) recvRingSize).2
  cases herr : firstErr c.recv c.readNum 0 with
  | none =>
    obtain ⟨w, hw, hread⟩ := read_of_batch hmbox hfree (.inl herr)
    rw [hread]
    exact ⟨fun _ _ h => absurd herr h, fun _ => kept_of_batch hw hdeq _⟩
  | some err =>
    by_cases hpos : 0 < payloadLen c.taken
    · obtain ⟨w, hw, hread⟩ := read_of_batch hmbox hfree (.inr hpos)
      rw [hread]
      exact ⟨fun _ _ _ => .inr hpos, fun _ => kept_of_batch hw hdeq _⟩
    have hzero : payloadLen c.taken = 0 := Nat.eq_zero_of_not_pos hpos
    rw [read_of_err hmbox hfree herr hzero]
    constructor
    · -- the ring has gained nothing, so nothing was taken
      rintro ⟨n, confirmed', hring', hfreed, -, -⟩ - -
      have hdrop : c.taken.length ≤ n := by simpa using hfreed.symm
      rw [List.take_of_length_le hdrop] at hring'
      have hbefore := hdeq.readable_toNat (by decide)
      have hafter := hring'.readable_toNat (by decide)
      have hlen : fresh.length = (fresh ++ c.taken.map some).length := hbefore.symm.trans hafter
      rw [List.length_append, List.length_map] at hlen
      exact .inl (List.eq_nil_of_length_eq_zero (by omega))
    · intro h
      have htaken : c.taken = [] := (h hmbox (by simp [herr])).resolve_right hpos
      exact kept_of_nothing htaken hdeq rfl rfl

/-- A ring with the pbufs 1 and 2. -/
private def twoUnread : RteRing (Option MboxPbuf) :=
  ((RteRing.create sockRecvRingBits 0 fun _ => none).gazelleRingSpEnqueue
    [some ⟨1, 8⟩, some ⟨2, 8⟩]).2

/-- The first of them is read and confirmed. -/
private def halfRead : RteRing (Option MboxPbuf) :=
  (twoUnread.gazelleRingRead 1).2.gazelleRingReadOver

private theorem holds_halfRead :
    halfRead.Holds sockRecvRingBits [some ⟨1, 8⟩] [] [some ⟨2, 8⟩] := by
  have hempty : (RteRing.create sockRecvRingBits 0 fun _ => (none : Option MboxPbuf)).Holds
      sockRecvRingBits [] [] [] := .create _ _ _
  have hput : twoUnread.Holds sockRecvRingBits [] [] [some ⟨1, 8⟩, some ⟨2, 8⟩] :=
    (hempty.spEnqueue (by decide) (by decide)).2
  exact (hput.read (by decide) 1).2.readOver

/-- A call on this ring that gets an empty pbuf, one of 16 bytes and then `ERR_CLSD`. -/
private def twoPbufsThenClose : ReadMailbox where
  recvmbox := true
  isUdp := true
  dataCount := 3
  recv i := if i = 0 then .ok ⟨3, 0⟩ else if i = 1 then .ok ⟨4, 16⟩ else .err errClsd
  garbage _ := none
  recvRing := halfRead

/-- The confirmed pbuf is freed, and the two that are taken come behind the one still to be read. -/
theorem kept_two_pbufs :
    twoPbufsThenClose.taken = [⟨3, 0⟩, ⟨4, 16⟩] ∧
      twoPbufsThenClose.read.readover = [some ⟨1, 8⟩] ∧
      twoPbufsThenClose.Kept [] [some ⟨2, 8⟩] twoPbufsThenClose.read :=
  ⟨by decide, by decide, (kept_iff holds_halfRead).2 fun _ _ => .inr (by decide)⟩

/-- A call that gets one pbuf without bytes and then `ERR_CLSD`, with a ring that is empty. -/
def emptyThenClose : ReadMailbox where
  recvmbox := true
  isUdp := true
  dataCount := 2
  recv i := if i = 0 then .ok ⟨1, 0⟩ else .err errClsd
  garbage _ := none
  recvRing := .create sockRecvRingBits 0 fun _ => none

/-- An empty datagram is lost when the next receive call fails. -/
theorem lost_empty_datagram :
    ¬ emptyThenClose.Kept [] [] emptyThenClose.read := by
  rintro ⟨n, confirmed, hring, hfreed, -⟩
  have htaken : emptyThenClose.taken = [⟨1, 0⟩] := by decide
  have hfreed' : emptyThenClose.read.freed = [] := by decide
  rw [hfreed', htaken, eq_comm, List.map_eq_nil_iff, List.drop_eq_nil_iff] at hfreed
  rw [htaken, List.take_of_length_le hfreed] at hring
  have hreadable := hring.readable_toNat (by decide)
  exact absurd hreadable (by decide)

end ReadMailbox

end Gazelle
