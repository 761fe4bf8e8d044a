import Mathlib.Data.List.Basic
import Mathlib.Data.BitVec
import Mathlib.Tactic.Ring

/-!
# Messages with several segments

`recvmsg_from_stack` reads into the segments of a message one after another, and
`sendmsg_to_stack` writes them one after another. The calls for a segment, `read_stack_data` and
`write_stack_data`, may do anything that their return values allow: every segment carries the
outcome that its calls would have.

* `checkMsgVaild`, `recvmsgFromStack`, `sendmsgToStack`: the three functions;
* `checkMsgVaild_iff`: the messages that are accepted;
* `RecvRight`, `SendRight`: the transfer is like one transfer of one contiguous buffer;
* `contiguous_iff`: the messages and outcomes for which it is;
* `not_contiguous_two_gib`: a segment of 2 GiB that is read short.
-/

namespace Gazelle

namespace ScatterGather

/-- A byte of a segment. -/
abbrev SegByte := BitVec 8

/-- A `struct iovec`, with the outcome of the calls for it. -/
structure Segment where
  /-- `iov_base` is not `NULL`. -/
  iovBase : Bool
  /-- `iov_len`. -/
  iovLen : BitVec 64
  /-- The bytes at `iov_base`. -/
  data : List SegByte
  /-- What `read_stack_data` would store at `iov_base`, or `none` if it returns -1. -/
  read : Option (List SegByte)
  /-- What `write_stack_data` would return. -/
  write : ℤ
  /-- The segment has `iov_len` bytes. -/
  data_length : data.length = iovLen.toNat
  /-- `read_stack_data` stores at most `iov_len` bytes. -/
  read_length : ∀ bytes, read = some bytes → bytes.length ≤ iovLen.toNat
  /-- `write_stack_data` returns -1 or a number of bytes. -/
  neg_one_le_write : -1 ≤ write
  /-- `write_stack_data` takes at most `iov_len` bytes. -/
  write_le : write ≤ iovLen.toNat

namespace Segment

variable (seg : Segment)

/-- The bytes that `read_stack_data` stores. -/
def received : List SegByte := seg.read.getD []

/-- `recvd_local`: what `read_stack_data` returns. -/
def recvdLocal : ℤ := seg.read.elim (-1) fun bytes => bytes.length

/-- The bytes that `write_stack_data` takes. -/
def accepted : List SegByte := seg.data.take seg.write.toNat

/-- `ret` in `sendmsg_to_stack`: what `write_stack_data` returns, as an `int32_t`. -/
def ret : ℤ := (BitVec.ofInt 32 seg.write).toInt

/-- `(int)iov_len`. -/
def intLen : ℤ := (seg.iovLen.setWidth 32).toInt

/-- The read fills the segment. -/
def Filled : Prop := seg.received.length = seg.iovLen.toNat

/-- The write takes the whole segment. -/
def Taken : Prop := seg.write = seg.iovLen.toNat

/-- Whether the read fills a segment is decidable. -/
instance : Decidable seg.Filled := by
  unfold Filled
  infer_instance

/-- So is whether the write takes all of it. -/
instance : Decidable seg.Taken := by
  unfold Taken
  infer_instance

end Segment

/-- `IOV_MAX`. -/
def iovMax : ℕ := 1024

/-- `SSIZE_MAX`. -/
def ssizeMax : ℕ := 2 ^ 63 - 1

/-- `MSG_PEEK`. -/
def msgPeek : BitVec 32 := 0x2

/-- `MSG_DONTWAIT`. -/
def msgDontwait : BitVec 32 := 0x40

/-! ## The functions -/

/-- The loop of `check_msg_vaild`, from `buflen` on: no segment is refused. -/
def checkLoop : BitVec 64 → List Segment → Bool
  | _, [] => true
  | buflen, seg :: rest =>
    if seg.iovBase = false ∨ seg.iovLen.toInt < 0 ∨
        BitVec.ofInt 64 seg.iovLen.toInt ≠ seg.iovLen ∨ (buflen + seg.iovLen).toInt < 0 then
      false
    else checkLoop (buflen + seg.iovLen) rest

/-- `check_msg_vaild`. -/
def checkMsgVaild (message : Option (List Segment)) : ℤ :=
  match message with
  | none => -1
  | some segs =>
    if segs.length ≤ 0 ∨ segs.length > iovMax then -1
    else if checkLoop 0 segs then 0 else -1

/-- The outcome of a transfer. -/
structure Transfer where
  /-- The value returned. -/
  returned : ℤ
  /-- The segments for which a call is made, in this order. -/
  started : List Segment

/-- A call for `seg` before the others. -/
def Transfer.after (seg : Segment) (out : Transfer) : Transfer :=
  { out with started := seg :: out.started }

/-- The loop of `recvmsg_from_stack`, from `buflen` on. -/
def recvLoop : List Segment → ℤ → BitVec 32 → Transfer
  | [], buflen, _ => ⟨buflen, []⟩
  | seg :: rest, buflen, flags =>
    if seg.iovLen = 0 then recvLoop rest buflen flags
    else
      let buflen := if seg.recvdLocal > 0 then buflen + seg.recvdLocal else buflen
      if seg.recvdLocal < 0 ∨ seg.recvdLocal < seg.intLen ∨ flags &&& msgPeek ≠ 0 then
        ⟨if buflen ≤ 0 then seg.recvdLocal else buflen, [seg]⟩
      else (recvLoop rest buflen (flags ||| msgDontwait)).after seg

/-- `recvmsg_from_stack`. -/
def recvmsgFromStack (message : Option (List Segment)) (flags : BitVec 32) : Transfer :=
  if checkMsgVaild message ≠ 0 then ⟨-1, []⟩ else recvLoop (message.getD []) 0 flags

/-- The loop of `sendmsg_to_stack`, from `buflen` on. -/
def sendLoop : List Segment → ℤ → Transfer
  | [], buflen => ⟨buflen, []⟩
  | seg :: rest, buflen =>
    if seg.iovLen = 0 then sendLoop rest buflen
    else if seg.ret ≤ 0 then ⟨if buflen = 0 then seg.ret else buflen, [seg]⟩
    -- the comparison is one of `size_t` values, but `ret` is positive here
    else if seg.ret < seg.iovLen.toNat then ⟨buflen + seg.ret, [seg]⟩
    else (sendLoop rest (buflen + seg.ret)).after seg

/-- `sendmsg_to_stack`. -/
def sendmsgToStack (message : Option (List Segment)) : Transfer :=
  if checkMsgVaild message ≠ 0 then ⟨-1, []⟩ else sendLoop (message.getD []) 0

/-! ## One contiguous transfer -/

/-- The segments that are not empty. -/
def nonEmpty (segs : List Segment) : List Segment := segs.filter fun seg => seg.iovLen ≠ 0

/-- The sum of the lengths. -/
def sumLen (segs : List Segment) : ℕ := (segs.map fun seg => seg.iovLen.toNat).sum

/-- The bytes that are read into some segments. -/
def stream (segs : List Segment) : List SegByte := segs.flatMap Segment.received

/-- The bytes that are taken from some segments. -/
def takenBytes (segs : List Segment) : List SegByte := segs.flatMap Segment.accepted

/-- One contiguous buffer, cut into parts of the given lengths. -/
def scatter : List ℕ → List SegByte → List (List SegByte)
  | [], _ => []
  | len :: lens, bytes => bytes.take len :: scatter lens (bytes.drop len)

/-- The value that is returned for `total` bytes, and for none the result of the first call. -/
def totalOr (total : ℕ) (result : Option ℤ) : ℤ := if 0 < total then total else result.getD 0

/-- `recvmsg_from_stack` reads as into one contiguous buffer. -/
structure RecvRight (segs : List Segment) (out : Transfer) : Prop where
  /-- The segments are used in order. -/
  inOrder : out.started <+: nonEmpty segs
  /-- The next segment is used only after one is filled. -/
  filled : ∀ seg ∈ out.started.dropLast, seg.Filled
  /-- No write goes past a segment. -/
  inside : ∀ seg ∈ out.started, seg.received.length ≤ seg.iovLen.toNat
  /-- The segments contain the received bytes, cut at their lengths. -/
  scattered : out.started.map Segment.received =
    scatter (out.started.map fun seg => seg.iovLen.toNat) (stream out.started)
  /-- The total is returned, or the result of the first read. -/
  returned : out.returned =
    totalOr (stream out.started).length ((nonEmpty segs).head?.map Segment.recvdLocal)

/-- `sendmsg_to_stack` writes as from one contiguous buffer. -/
structure SendRight (segs : List Segment) (out : Transfer) : Prop where
  /-- The segments are offered in order. -/
  inOrder : out.started <+: nonEmpty segs
  /-- The next segment is offered only after one is taken completely. -/
  taken : ∀ seg ∈ out.started.dropLast, seg.Taken
  /-- The bytes that are taken come first in the message. -/
  isPrefix : takenBytes out.started <+: segs.flatMap Segment.data
  /-- The total is returned, or the result of the first write. -/
  returned : out.returned =
    totalOr (takenBytes out.started).length ((nonEmpty segs).head?.map Segment.write)

/-- The messages that `check_msg_vaild` should accept. -/
def Valid (segs : List Segment) : Prop :=
  (∀ seg ∈ segs, seg.iovBase = true) ∧ sumLen segs ≤ ssizeMax

/-- The message is checked, read and written as a contiguous buffer would be. -/
structure Contiguous (segs : List Segment) (flags : BitVec 32) : Prop where
  /-- `check_msg_vaild`. -/
  check : 1 ≤ segs.length → segs.length ≤ iovMax → (checkMsgVaild (some segs) = 0 ↔ Valid segs)
  /-- `recvmsg_from_stack`. -/
  recv : checkMsgVaild (some segs) = 0 → RecvRight segs (recvmsgFromStack (some segs) flags)
  /-- `sendmsg_to_stack`. -/
  send : checkMsgVaild (some segs) = 0 → SendRight segs (sendmsgToStack (some segs))

/-! ## The first segment that is not done -/

/-- `P` holds of every segment, and of those after it, that only has segments before it that are
`done`. -/
def AtFront (done : Segment → Prop) (P : Segment → List Segment → Prop) (segs : List Segment) :
    Prop :=
  ∀ before seg rest, segs = before ++ seg :: rest → (∀ s ∈ before, done s) → P seg rest

section AtFront

variable {done : Segment → Prop} {P : Segment → List Segment → Prop}

theorem atFront_nil : AtFront done P [] := by
  intro before seg rest heq
  exact absurd heq (by simp)

theorem atFront_cons (seg : Segment) (rest : List Segment) :
    AtFront done P (seg :: rest) ↔ P seg rest ∧ (done seg → AtFront done P rest) := by
  constructor
  · intro h
    refine ⟨h [] seg rest rfl (by simp), ?_⟩
    intro hdone before s after heq hbefore
    refine h (seg :: before) s after (by rw [heq, List.cons_append]) ?_
    simpa [hdone] using hbefore
  · rintro ⟨hseg, hrest⟩ before s after heq hbefore
    cases before with
    | nil =>
      obtain ⟨rfl, rfl⟩ := List.cons.inj heq
      exact hseg
    | cons first before =>
      obtain ⟨rfl, rfl⟩ := List.cons.inj heq
      rw [List.forall_mem_cons] at hbefore
      exact hrest hbefore.1 before s after rfl hbefore.2

end AtFront

/-- A read that does not fill the segment ends the loop, unless no segment comes after it: it fails,
or it returns less than `(int)iov_len`. -/
def StopsShort (flags : BitVec 32) (seg : Segment) (rest : List Segment) : Prop :=
  flags &&& msgPeek = 0 → rest ≠ [] → ¬ seg.Filled →
    seg.recvdLocal < 0 ∨ seg.recvdLocal < seg.intLen

/-- The result of the write is an `int32_t`. -/
def IntWrite (seg : Segment) (_ : List Segment) : Prop := seg.write < 2 ^ 31

/-- The first read that does not fill its segment ends the loop, and up to the first write that
does not take its segment every result is an `int32_t`. -/
def StopsInTime (segs : List Segment) (flags : BitVec 32) : Prop :=
  AtFront Segment.Filled (StopsShort flags) (nonEmpty segs) ∧
    AtFront Segment.Taken IntWrite (nonEmpty segs)

/-! ## `check_msg_vaild` -/

/-- A value is not negative as an `ssize_t` if it is at most `SSIZE_MAX`. -/
theorem toInt_nonneg_iff (n : BitVec 64) : ¬ n.toInt < 0 ↔ n.toNat ≤ ssizeMax := by
  rw [BitVec.toInt_eq_toNat_cond, ssizeMax]
  have hlt := n.isLt
  split <;> omega

/-- The loop refuses a segment at `NULL`, and the segment at which the sum exceeds `SSIZE_MAX`. -/
theorem checkLoop_iff (segs : List Segment) (buflen : BitVec 64) (hle : buflen.toNat ≤ ssizeMax) :
    checkLoop buflen segs = true ↔
      (∀ seg ∈ segs, seg.iovBase = true) ∧ buflen.toNat + sumLen segs ≤ ssizeMax := by
  induction segs generalizing buflen with
  | nil => simpa [checkLoop, sumLen] using hle
  | cons seg rest ih =>
    have hsum : sumLen (seg :: rest) = seg.iovLen.toNat + sumLen rest := by
      simp only [sumLen, List.map_cons, List.sum_cons]
    rw [checkLoop, hsum, List.forall_mem_cons]
    by_cases hbase : seg.iovBase = true
    · by_cases hlen : seg.iovLen.toNat ≤ ssizeMax
      · -- neither length is negative, so their sum does not wrap as a `size_t`
        have hadd : (buflen + seg.iovLen).toNat = buflen.toNat + seg.iovLen.toNat := by
          rw [BitVec.toNat_add]
          exact Nat.mod_eq_of_lt (by unfold ssizeMax at hle hlen; omega)
        by_cases hnext : (buflen + seg.iovLen).toNat ≤ ssizeMax
        · have hcond := (toInt_nonneg_iff seg.iovLen).2 hlen
          have hcond' := (toInt_nonneg_iff (buflen + seg.iovLen)).2 hnext
          have hkeep : ¬ (seg.iovBase = false ∨ seg.iovLen.toInt < 0 ∨
              BitVec.ofInt 64 seg.iovLen.toInt ≠ seg.iovLen ∨
              (buflen + seg.iovLen).toInt < 0) := by
            rw [BitVec.ofInt_toInt, hbase]
            tauto
          rw [if_neg hkeep, ih _ hnext, hadd]
          simp only [hbase, true_and, Nat.add_assoc]
        · have hcond := (not_congr (toInt_nonneg_iff (buflen + seg.iovLen))).2 hnext
          rw [if_pos (.inr (.inr (.inr (not_not.1 hcond))))]
          simp only [Bool.false_eq_true, false_iff, not_and]
          intro _
          omega
      · have hcond := (not_congr (toInt_nonneg_iff seg.iovLen)).2 hlen
        rw [if_pos (.inr (.inl (not_not.1 hcond)))]
        simp only [Bool.false_eq_true, false_iff, not_and]
        intro _
        omega
    · simp [hbase]

/-- Up to `IOV_MAX` segments are accepted exactly if no base is `NULL` and the lengths sum to at
most `SSIZE_MAX`. -/
theorem checkMsgVaild_iff (segs : List Segment) (hpos : 1 ≤ segs.length)
    (hle : segs.length ≤ iovMax) : checkMsgVaild (some segs) = 0 ↔ Valid segs := by
  have hcheck := checkLoop_iff segs 0 (Nat.zero_le _)
  have hnot : ¬ (segs.length ≤ 0 ∨ segs.length > iovMax) := by omega
  rw [Valid, checkMsgVaild, if_neg hnot]
  cases hloop : checkLoop 0 segs with
  | true =>
    rw [hloop] at hcheck
    simpa using hcheck
  | false =>
    rw [hloop] at hcheck
    simpa using hcheck

/-! ## Empty segments -/

/-- A segment that is empty is skipped. -/
theorem nonEmpty_cons_of_eq {seg : Segment} (h : seg.iovLen = 0) (rest : List Segment) :
    nonEmpty (seg :: rest) = nonEmpty rest := by
  simp [nonEmpty, h]

theorem nonEmpty_cons_of_ne {seg : Segment} (h : seg.iovLen ≠ 0) (rest : List Segment) :
    nonEmpty (seg :: rest) = seg :: nonEmpty rest :=
  List.filter_cons_of_pos (decide_eq_true h)

theorem Segment.toNat_iovLen_pos {seg : Segment} (h : seg.iovLen ≠ 0) : 0 < seg.iovLen.toNat := by
  have : seg.iovLen.toNat ≠ 0 := fun hzero => h (BitVec.eq_of_toNat_eq hzero)
  omega

@[simp] theorem Transfer.after_returned (seg : Segment) (out : Transfer) :
    (out.after seg).returned = out.returned := rfl

@[simp] theorem Transfer.after_started (seg : Segment) (out : Transfer) :
    (out.after seg).started = seg :: out.started := rfl

/-! ## The received bytes -/

namespace Segment

variable (seg : Segment)

theorem received_length_le : seg.received.length ≤ seg.iovLen.toNat := by
  unfold received
  cases hread : seg.read with
  | none => exact Nat.zero_le _
  | some bytes => exact seg.read_length bytes hread

/-- The value returned is the number of bytes, or -1 if there are none. -/
theorem recvdLocal_cases : seg.recvdLocal = seg.received.length ∨
    seg.recvdLocal = -1 ∧ seg.received.length = 0 := by
  unfold recvdLocal received
  cases seg.read with
  | none => exact .inr ⟨rfl, rfl⟩
  | some bytes => exact .inl rfl

/-- `(int)iov_len` is not more than `iov_len`. -/
theorem intLen_le : seg.intLen ≤ seg.iovLen.toNat := by
  have hlt : (seg.iovLen.setWidth 32).toNat ≤ seg.iovLen.toNat := by
    rw [BitVec.toNat_setWidth]
    exact Nat.mod_le _ _
  have hint : (seg.iovLen.setWidth 32).toInt ≤ (seg.iovLen.setWidth 32).toNat := by
    rw [BitVec.toInt_eq_toNat_cond]
    split <;> omega
  unfold intLen
  omega

/-- A read that fills its segment does not end the loop. -/
theorem not_short_of_filled (h : seg.Filled) :
    ¬ (seg.recvdLocal < 0 ∨ seg.recvdLocal < seg.intLen) ∨ seg.iovLen = 0 := by
  by_cases hlen : seg.iovLen = 0
  · exact .inr hlen
  · have hpos := toNat_iovLen_pos hlen
    have hint := seg.intLen_le
    unfold Filled at h
    rcases seg.recvdLocal_cases with hrecvd | ⟨-, hzero⟩
    · left
      omega
    · omega

end Segment

/-- The peek bit stays as it is. -/
theorem dontwait_and_peek (flags : BitVec 32) :
    (flags ||| msgDontwait) &&& msgPeek = flags &&& msgPeek := by
  have hbits : msgDontwait &&& msgPeek = 0#32 := by decide
  rw [BitVec.and_or_distrib_right, hbits, BitVec.or_zero]

/-! ## `recvmsg_from_stack` -/

section Recv

/-- The condition under which the loop ends at a segment. -/
def Stops (flags : BitVec 32) (seg : Segment) : Prop :=
  seg.recvdLocal < 0 ∨ seg.recvdLocal < seg.intLen ∨ flags &&& msgPeek ≠ 0

/-- `buflen` after a read. -/
theorem add_recvdLocal (seg : Segment) (buflen : ℤ) :
    (if seg.recvdLocal > 0 then buflen + seg.recvdLocal else buflen) =
      buflen + seg.received.length := by
  rcases seg.recvdLocal_cases with hrecvd | ⟨hrecvd, hzero⟩
  · rw [hrecvd]
    split <;> omega
  · rw [hrecvd, hzero]
    simp

theorem recvLoop_of_empty {seg : Segment} (h : seg.iovLen = 0) (rest : List Segment) (buflen : ℤ)
    (flags : BitVec 32) : recvLoop (seg :: rest) buflen flags = recvLoop rest buflen flags := by
  rw [recvLoop, if_pos h]

theorem recvLoop_of_stops {seg : Segment} {flags : BitVec 32} (h : seg.iovLen ≠ 0)
    (hstops : Stops flags seg) (rest : List Segment) (buflen : ℤ) :
    recvLoop (seg :: rest) buflen flags =
      ⟨if buflen + seg.received.length ≤ 0 then seg.recvdLocal
        else buflen + seg.received.length, [seg]⟩ := by
  rw [recvLoop, if_neg h]
  simp only [add_recvdLocal]
  exact if_pos hstops

theorem recvLoop_of_not_stops {seg : Segment} {flags : BitVec 32} (h : seg.iovLen ≠ 0)
    (hstops : ¬ Stops flags seg) (rest : List Segment) (buflen : ℤ) :
    recvLoop (seg :: rest) buflen flags =
      (recvLoop rest (buflen + seg.received.length) (flags ||| msgDontwait)).after seg := by
  rw [recvLoop, if_neg h]
  simp only [add_recvdLocal]
  exact if_neg hstops

/-- The segments are used in order, and some segment is used if there is one that is not empty. -/
theorem recvLoop_inOrder (segs : List Segment) (buflen : ℤ) (flags : BitVec 32) :
    (recvLoop segs buflen flags).started <+: nonEmpty segs ∧
      ((recvLoop segs buflen flags).started = [] → nonEmpty segs = []) := by
  induction segs generalizing buflen flags with
  | nil => exact ⟨List.nil_prefix, fun _ => rfl⟩
  | cons seg rest ih =>
    by_cases hlen : seg.iovLen = 0
    · rw [recvLoop_of_empty hlen, nonEmpty_cons_of_eq hlen]
      exact ih buflen flags
    rw [nonEmpty_cons_of_ne hlen]
    by_cases hstops : Stops flags seg
    · rw [recvLoop_of_stops hlen hstops]
      exact ⟨List.prefix_append [seg] _, fun h => absurd h (by simp)⟩
    · rw [recvLoop_of_not_stops hlen hstops]
      refine ⟨?_, fun h => absurd h (by simp)⟩
      rw [Transfer.after_started, List.cons_prefix_cons]
      exact ⟨rfl, (ih _ _).1⟩

theorem stopsShort_dontwait (flags : BitVec 32) :
    StopsShort (flags ||| msgDontwait) = StopsShort flags := by
  funext seg rest
  unfold StopsShort
  rw [dontwait_and_peek]

/-- A peek ends the loop at the first segment. -/
theorem atFront_of_peek {flags : BitVec 32} (hpeek : flags &&& msgPeek ≠ 0)
    (segs : List Segment) : AtFront Segment.Filled (StopsShort flags) segs :=
  fun _ _ _ _ _ hnot => absurd hnot hpeek

/-- Every segment but the last one that is used is filled exactly if every read that does not fill
its segment ends the loop. -/
theorem recvLoop_filled_iff (segs : List Segment) (buflen : ℤ) (flags : BitVec 32) :
    (∀ seg ∈ (recvLoop segs buflen flags).started.dropLast, seg.Filled) ↔
      AtFront Segment.Filled (StopsShort flags) (nonEmpty segs) := by
  induction segs generalizing buflen flags with
  | nil => exact ⟨fun _ => atFront_nil, fun _ => by simp [recvLoop]⟩
  | cons seg rest ih =>
    -- an empty segment is passed over
    by_cases hlen : seg.iovLen = 0
    · rw [recvLoop_of_empty hlen, nonEmpty_cons_of_eq hlen]
      exact ih buflen flags
    rw [nonEmpty_cons_of_ne hlen, atFront_cons]
    -- the read ends the loop, and then no segment is before the last one
    by_cases hstops : Stops flags seg
    · rw [recvLoop_of_stops hlen hstops]
      have hfront : StopsShort flags seg (nonEmpty rest) ∧
          (seg.Filled → AtFront Segment.Filled (StopsShort flags) (nonEmpty rest)) := by
        constructor
        · intro hpeek _ _
          rcases hstops with hneg | hshort | hne
          · exact .inl hneg
          · exact .inr hshort
          · exact absurd hpeek hne
        · -- a filled segment only ends the loop when the flags peek
          intro hfilled
          have hnot := seg.not_short_of_filled hfilled
          refine atFront_of_peek ?_ _
          unfold Stops at hstops
          tauto
      exact ⟨fun _ => hfront, fun _ => by simp⟩
    · -- the loop goes on, and waits for nothing from now on
      rw [recvLoop_of_not_stops hlen hstops, Transfer.after_started]
      have hshort : ¬ (seg.recvdLocal < 0 ∨ seg.recvdLocal < seg.intLen) ∧
          flags &&& msgPeek = 0 := by
        unfold Stops at hstops
        tauto
      have hrest := ih (buflen + seg.received.length) (flags ||| msgDontwait)
      rw [stopsShort_dontwait] at hrest
      have hused := recvLoop_inOrder rest (buflen + seg.received.length) (flags ||| msgDontwait)
      cases hout : (recvLoop rest (buflen + seg.received.length)
          (flags ||| msgDontwait)).started with
      | nil =>
        -- the rest has no segment to fill
        rw [hused.2 hout]
        exact ⟨fun _ => ⟨fun _ hne => absurd rfl hne, fun _ => atFront_nil⟩, fun _ => by simp⟩
      | cons next others =>
        -- there is one more read, so this segment is not the last one
        have hne : nonEmpty rest ≠ [] := by
          intro hnil
          have := hused.1
          rw [hout, hnil] at this
          exact absurd (List.prefix_nil.1 this) (by simp)
        rw [hout] at hrest
        rw [List.dropLast_cons_of_ne_nil (by simp), List.forall_mem_cons, hrest]
        constructor
        · rintro ⟨hfilled, hfront⟩
          exact ⟨fun _ _ hnot => absurd hfilled hnot, fun _ => hfront⟩
        · rintro ⟨hstop, hfront⟩
          -- a read that is short would have ended the loop
          have hfilled : seg.Filled := by
            by_contra hnot
            exact hshort.1 (hstop hshort.2 hne hnot)
          exact ⟨hfilled, hfront hfilled⟩

/-- If every segment but the last one is filled, the total is returned, or for none the result of
the first read. -/
theorem recvLoop_returned (segs : List Segment) (buflen : ℕ) (flags : BitVec 32)
    (hfilled : ∀ seg ∈ (recvLoop segs buflen flags).started.dropLast, seg.Filled) :
    (recvLoop segs buflen flags).returned =
      totalOr (buflen + (stream (recvLoop segs buflen flags).started).length)
        ((nonEmpty segs).head?.map Segment.recvdLocal) := by
  induction segs generalizing buflen flags with
  | nil =>
    simp only [recvLoop, stream, List.flatMap_nil, List.length_nil, Nat.add_zero, totalOr]
    split
    · rfl
    · simp [nonEmpty]
      omega
  | cons seg rest ih =>
    -- an empty segment is passed over
    by_cases hlen : seg.iovLen = 0
    · rw [recvLoop_of_empty hlen] at hfilled ⊢
      rw [nonEmpty_cons_of_eq hlen]
      exact ih buflen flags hfilled
    rw [nonEmpty_cons_of_ne hlen]
    -- the read that ends the loop is the last one
    by_cases hstops : Stops flags seg
    · rw [recvLoop_of_stops hlen hstops]
      simp only [stream, List.flatMap_cons, List.flatMap_nil, List.append_nil, List.head?_cons,
        Option.map_some, Option.getD_some, totalOr]
      split <;> split <;> omega
    · -- the total so far is counted in the rest
      rw [recvLoop_of_not_stops hlen hstops] at hfilled ⊢
      have hcast : (buflen : ℤ) + seg.received.length =
        ((buflen + seg.received.length : ℕ) : ℤ) := by
        push_cast
        rfl
      rw [hcast] at hfilled ⊢
      have hused := recvLoop_inOrder rest ((buflen + seg.received.length : ℕ) : ℤ)
        (flags ||| msgDontwait)
      have hrest := ih (buflen + seg.received.length) (flags ||| msgDontwait)
      simp only [Transfer.after_returned, Transfer.after_started] at hfilled ⊢
      cases hout : (recvLoop rest ((buflen + seg.received.length : ℕ) : ℤ)
          (flags ||| msgDontwait)).started with
      | nil =>
        -- nothing else was read, and the total is that of this segment
        rw [hout] at hrest
        rw [hrest (by simp), hused.2 hout]
        simp only [stream, List.flatMap_cons, List.flatMap_nil, List.append_nil, List.length_nil,
          List.head?_cons, Option.map_some, List.head?_nil, Option.map_none, Nat.add_zero, totalOr]
        have hrecvd := seg.recvdLocal_cases
        have hge : ¬ seg.recvdLocal < 0 := fun h => hstops (.inl h)
        split
        · rfl
        · simp only [Option.getD_none, Option.getD_some]
          omega
      | cons next others =>
        -- this segment is filled, so the total is positive whatever the others give
        rw [hout, List.dropLast_cons_of_ne_nil (by simp), List.forall_mem_cons] at hfilled
        have hpos := Segment.toNat_iovLen_pos hlen
        have hfull : seg.received.length = seg.iovLen.toNat := hfilled.1
        rw [hout] at hrest
        rw [hrest hfilled.2]
        have htotal : (stream (seg :: next :: others)).length =
            seg.received.length + (stream (next :: others)).length := by
          rw [stream, List.flatMap_cons, List.length_append]
          rfl
        rw [htotal, totalOr, totalOr, if_pos (by omega), if_pos (by omega), Nat.add_assoc]

/-- Segments that are filled one after another contain the bytes as one buffer would. -/
theorem scatter_of_filled (started : List Segment)
    (hfilled : ∀ seg ∈ started.dropLast, seg.Filled) :
    started.map Segment.received =
      scatter (started.map fun seg => seg.iovLen.toNat) (stream started) := by
  induction started with
  | nil => rfl
  | cons seg rest ih =>
    rw [List.map_cons, List.map_cons, stream, List.flatMap_cons, scatter]
    cases rest with
    | nil =>
      rw [List.flatMap_nil, List.append_nil, List.take_of_length_le seg.received_length_le]
      rfl
    | cons next others =>
      rw [List.dropLast_cons_of_ne_nil (by simp), List.forall_mem_cons] at hfilled
      obtain ⟨hseg, hothers⟩ := hfilled
      unfold Segment.Filled at hseg
      rw [← hseg, List.take_left, List.drop_left, ih hothers]
      rfl

/-- `recvmsg_from_stack` reads as into one buffer exactly if it stops in time. -/
theorem recvRight_iff (segs : List Segment) (flags : BitVec 32) :
    RecvRight segs (recvLoop segs 0 flags) ↔
      AtFront Segment.Filled (StopsShort flags) (nonEmpty segs) := by
  rw [← recvLoop_filled_iff segs 0 flags]
  constructor
  · exact fun hright => hright.filled
  · intro hfilled
    have hreturned := recvLoop_returned segs 0 flags hfilled
    rw [Nat.zero_add] at hreturned
    exact ⟨(recvLoop_inOrder segs 0 flags).1, hfilled, fun seg _ => seg.received_length_le,
      scatter_of_filled _ hfilled, hreturned⟩

end Recv

/-! ## `sendmsg_to_stack` -/

section Send

namespace Segment

variable {seg : Segment}

/-- A result that is an `int32_t` is kept. -/
theorem ret_of_lt (h : seg.write < 2 ^ 31) : seg.ret = seg.write := by
  have hge := seg.neg_one_le_write
  exact BitVec.toInt_ofInt_eq_self (by decide) (by omega) h

/-- Another result is cut off. -/
theorem ret_lt_of_le (h : 2 ^ 31 ≤ seg.write) : seg.ret < seg.write := by
  have hlt : seg.ret < 2 ^ 31 := BitVec.toInt_lt
  omega

theorem accepted_length (seg : Segment) : seg.accepted.length = seg.write.toNat := by
  rw [accepted, List.length_take, seg.data_length]
  have hle := seg.write_le
  omega

/-- The bytes of a segment that is taken. -/
theorem accepted_of_taken (h : seg.Taken) : seg.accepted = seg.data := by
  unfold Taken at h
  rw [accepted, h, Int.toNat_natCast]
  exact List.take_of_length_le (by rw [seg.data_length])

end Segment

theorem sendLoop_of_empty {seg : Segment} (h : seg.iovLen = 0) (rest : List Segment) (buflen : ℤ) :
    sendLoop (seg :: rest) buflen = sendLoop rest buflen := by
  rw [sendLoop, if_pos h]

/-- The loop goes on after a write that takes the segment. -/
theorem sendLoop_of_taken {seg : Segment} (h : seg.iovLen ≠ 0) (htaken : seg.Taken)
    (hint : seg.write < 2 ^ 31) (rest : List Segment) (buflen : ℤ) :
    sendLoop (seg :: rest) buflen = (sendLoop rest (buflen + seg.write)).after seg := by
  have hret := Segment.ret_of_lt hint
  have hpos := Segment.toNat_iovLen_pos h
  unfold Segment.Taken at htaken
  rw [sendLoop, if_neg h, if_neg (by omega), if_neg (by omega), hret]

/-- The value returned when the loop ends at a segment. -/
def endSend (seg : Segment) (buflen : ℤ) : ℤ :=
  if seg.ret ≤ 0 then if buflen = 0 then seg.ret else buflen else buflen + seg.ret

/-- The loop ends at any other write. -/
theorem sendLoop_of_not_taken {seg : Segment} (h : seg.iovLen ≠ 0)
    (hnot : ¬ (seg.Taken ∧ seg.write < 2 ^ 31)) (rest : List Segment) (buflen : ℤ) :
    sendLoop (seg :: rest) buflen = ⟨endSend seg buflen, [seg]⟩ := by
  rw [sendLoop, if_neg h, endSend]
  have hle := seg.write_le
  unfold Segment.Taken at hnot
  by_cases hpos : seg.ret ≤ 0
  · rw [if_pos hpos, if_pos hpos]
  · have hlt : seg.ret < seg.iovLen.toNat := by
      by_cases hint : seg.write < 2 ^ 31
      · have hret := Segment.ret_of_lt hint
        omega
      · have hret := Segment.ret_lt_of_le (not_lt.1 hint)
        omega
    rw [if_neg hpos, if_pos hlt, if_neg hpos]

/-- The segments are offered in order, the next one only after one is taken. -/
theorem sendLoop_inOrder (segs : List Segment) (buflen : ℤ) :
    (sendLoop segs buflen).started <+: nonEmpty segs ∧
      ∀ seg ∈ (sendLoop segs buflen).started.dropLast, seg.Taken := by
  induction segs generalizing buflen with
  | nil => exact ⟨List.nil_prefix, by simp [sendLoop]⟩
  | cons seg rest ih =>
    by_cases hlen : seg.iovLen = 0
    · rw [sendLoop_of_empty hlen, nonEmpty_cons_of_eq hlen]
      exact ih buflen
    rw [nonEmpty_cons_of_ne hlen]
    by_cases hgo : seg.Taken ∧ seg.write < 2 ^ 31
    · rw [sendLoop_of_taken hlen hgo.1 hgo.2, Transfer.after_started, List.cons_prefix_cons]
      obtain ⟨horder, htaken⟩ := ih (buflen + seg.write)
      refine ⟨⟨rfl, horder⟩, ?_⟩
      cases hout : (sendLoop rest (buflen + seg.write)).started with
      | nil => simp
      | cons next others =>
        rw [hout] at htaken
        rw [List.dropLast_cons_of_ne_nil (by simp), List.forall_mem_cons]
        exact ⟨hgo.1, htaken⟩
    · rw [sendLoop_of_not_taken hlen hgo]
      exact ⟨List.prefix_append [seg] _, by simp⟩

/-- The bytes of the segments that are not empty. -/
theorem flatMap_data_nonEmpty (segs : List Segment) :
    (nonEmpty segs).flatMap Segment.data = segs.flatMap Segment.data := by
  induction segs with
  | nil => rfl
  | cons seg rest ih =>
    by_cases hlen : seg.iovLen = 0
    · have hdata : seg.data = [] := by
        rw [← List.length_eq_zero_iff, seg.data_length, hlen]
        rfl
      rw [nonEmpty_cons_of_eq hlen, List.flatMap_cons, hdata, List.nil_append, ih]
    · rw [nonEmpty_cons_of_ne hlen, List.flatMap_cons, List.flatMap_cons, ih]

/-- Segments that are taken one after another give the first bytes of the message. -/
theorem takenBytes_isPrefix (started segs : List Segment) (horder : started <+: segs)
    (htaken : ∀ seg ∈ started.dropLast, seg.Taken) :
    takenBytes started <+: segs.flatMap Segment.data := by
  induction started generalizing segs with
  | nil => exact List.nil_prefix
  | cons seg rest ih =>
    obtain ⟨others, rfl⟩ := horder
    rw [List.cons_append, List.flatMap_cons, takenBytes, List.flatMap_cons]
    cases rest with
    | nil =>
      rw [List.flatMap_nil, List.append_nil]
      exact (List.take_prefix _ _).trans (List.prefix_append _ _)
    | cons next more =>
      rw [List.dropLast_cons_of_ne_nil (by simp), List.forall_mem_cons] at htaken
      rw [Segment.accepted_of_taken htaken.1, List.prefix_append_right_inj]
      exact ih _ (List.prefix_append _ _) htaken.2

/-- The total is returned exactly if every result up to the end is an `int32_t`. -/
theorem sendLoop_returned_iff (segs : List Segment) (buflen : ℕ) :
    (sendLoop segs buflen).returned =
        totalOr (buflen + (takenBytes (sendLoop segs buflen).started).length)
          ((nonEmpty segs).head?.map Segment.write) ↔
      AtFront Segment.Taken IntWrite (nonEmpty segs) := by
  induction segs generalizing buflen with
  | nil =>
    refine ⟨fun _ => atFront_nil, fun _ => ?_⟩
    simp only [sendLoop, takenBytes, List.flatMap_nil, List.length_nil, Nat.add_zero, totalOr]
    split
    · rfl
    · simp [nonEmpty]
      omega
  | cons seg rest ih =>
    by_cases hlen : seg.iovLen = 0
    · rw [sendLoop_of_empty hlen, nonEmpty_cons_of_eq hlen]
      exact ih buflen
    have hpos := Segment.toNat_iovLen_pos hlen
    have hone := seg.accepted_length
    rw [nonEmpty_cons_of_ne hlen, atFront_cons]
    by_cases hgo : seg.Taken ∧ seg.write < 2 ^ 31
    · -- the segment is taken and counted, so the result of the first write is not returned
      have hwrite : seg.write = (seg.iovLen.toNat : ℤ) := hgo.1
      have hcast : (buflen : ℤ) + seg.write = ((buflen + seg.iovLen.toNat : ℕ) : ℤ) := by
        rw [hwrite]
        push_cast
        rfl
      have hrest := ih (buflen + seg.iovLen.toNat)
      rw [sendLoop_of_taken hlen hgo.1 hgo.2, hcast, Transfer.after_returned,
        Transfer.after_started, takenBytes, List.flatMap_cons, List.length_append, hone, hwrite,
        Int.toNat_natCast, ← Nat.add_assoc]
      rw [totalOr, if_pos (by omega)] at hrest ⊢
      rw [takenBytes] at hrest
      rw [hrest]
      exact ⟨fun hfront => ⟨hgo.2, fun _ => hfront⟩, fun hboth => hboth.2 hgo.1⟩
    · rw [sendLoop_of_not_taken hlen hgo]
      simp only [takenBytes, List.flatMap_cons, List.flatMap_nil, List.append_nil, hone, endSend,
        totalOr, List.head?_cons, Option.map_some, Option.getD_some, IntWrite]
      have hge := seg.neg_one_le_write
      unfold Segment.Taken at hgo ⊢
      by_cases hint : seg.write < 2 ^ 31
      · have hret := Segment.ret_of_lt hint
        have hnot : seg.write ≠ (seg.iovLen.toNat : ℤ) := fun htaken => hgo ⟨htaken, hint⟩
        simp only [hint, hnot, true_and, false_imp_iff, iff_true, hret]
        split <;> split <;> (try split) <;> omega
      · have hret := Segment.ret_lt_of_le (not_lt.1 hint)
        simp only [hint, false_and, iff_false]
        split <;> split <;> (try split) <;> omega

/-- `sendmsg_to_stack` writes as from one buffer exactly if every result is an `int32_t`. -/
theorem sendRight_iff (segs : List Segment) :
    SendRight segs (sendLoop segs 0) ↔ AtFront Segment.Taken IntWrite (nonEmpty segs) := by
  have hreturned := sendLoop_returned_iff segs 0
  rw [Nat.zero_add] at hreturned
  rw [← hreturned]
  constructor
  · exact fun hright => hright.returned
  · intro hret
    obtain ⟨horder, htaken⟩ := sendLoop_inOrder segs 0
    have hprefix := takenBytes_isPrefix _ _ horder htaken
    rw [flatMap_data_nonEmpty] at hprefix
    exact ⟨horder, htaken, hprefix, hret⟩

end Send

/-! ## When the transfers are contiguous -/

/-- A message that is accepted is read and written as one buffer exactly if the calls end the loops
in time. -/
theorem contiguous_iff (segs : List Segment) (flags : BitVec 32) :
    Contiguous segs flags ↔ (checkMsgVaild (some segs) = 0 → StopsInTime segs flags) := by
  constructor
  · intro h hcheck
    have hnot : ¬ checkMsgVaild (some segs) ≠ 0 := not_not.2 hcheck
    have hrecv := h.recv hcheck
    have hsend := h.send hcheck
    rw [recvmsgFromStack, if_neg hnot] at hrecv
    rw [sendmsgToStack, if_neg hnot] at hsend
    exact ⟨(recvRight_iff segs flags).1 hrecv, (sendRight_iff segs).1 hsend⟩
  · intro h
    refine ⟨checkMsgVaild_iff segs, fun hcheck => ?_, fun hcheck => ?_⟩
    · rw [recvmsgFromStack, if_neg (not_not.2 hcheck)]
      exact (recvRight_iff segs flags).2 (h hcheck).1
    · rw [sendmsgToStack, if_neg (not_not.2 hcheck)]
      exact (sendRight_iff segs).2 (h hcheck).2

/-- A segment of 2 GiB, of which one byte is read. -/
def twoGib : Segment where
  iovBase := true
  iovLen := 0x80000000
  data := List.replicate 0x80000000 0
  read := some [0]
  write := 0
  data_length := List.length_replicate
  read_length := by
    rintro bytes hbytes
    cases hbytes
    exact Nat.le_of_ble_eq_true rfl
  neg_one_le_write := by decide
  write_le := by decide

/-- A segment of one byte, into which one byte is read. -/
def oneByte : Segment where
  iovBase := true
  iovLen := 1
  data := [0]
  read := some [1]
  write := 1
  data_length := rfl
  read_length := by
    rintro bytes hbytes
    cases hbytes
    exact Nat.le_of_ble_eq_true rfl
  neg_one_le_write := by decide
  write_le := by decide

/-- The 2 GiB are a negative `int`: the second segment is read into although the first one is not
full. -/
theorem not_contiguous_two_gib : ¬ Contiguous [twoGib, oneByte] 0 := by
  intro h
  have hright := h.recv (by decide)
  have hfirst : twoGib ∈ (recvmsgFromStack (some [twoGib, oneByte]) 0).started.dropLast := by
    have hcheck : ¬ checkMsgVaild (some [twoGib, oneByte]) ≠ 0 := by decide
    rw [recvmsgFromStack, if_neg hcheck, Option.getD_some,
      recvLoop_of_not_stops (by decide) (by unfold Stops; decide), Transfer.after_started,
      recvLoop_of_not_stops (by decide) (by unfold Stops; decide), Transfer.after_started]
    exact List.mem_cons_self
  have hfilled : twoGib.received.length = twoGib.iovLen.toNat := hright.filled _ hfirst
  exact absurd hfilled (by decide)

end ScatterGather

end Gazelle
