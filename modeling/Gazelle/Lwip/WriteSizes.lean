import Gazelle.Lwip.SendPbuf

/-!
# The sizes of a write

`write_stack_data` computes how many pbufs a write needs and how much it copies with `size_t`,
`ssize_t`, `uint32_t` and `uint16_t` values. This module has its arithmetic at these widths, without
the data.

* `writeStackData`: the call of `app_buff_write`, `app_direct_write` or `app_direct_attach` that is
  reached, and the value returned;
* `doAppWrite_of_fits`: `do_app_write` when the data needs exactly the pbufs it is given;
* `WriteInput.SizesRight`: what the copy loops rely on;
* `sizesRight_iff`: the writes for which it holds;
* `not_sizesRight_max`: a write of `SIZE_MAX` bytes.
-/

namespace Gazelle

namespace WriteSizes

/-- What `gazelle_ring_readlast` finds. -/
structure LastPbuf where
  /-- `len`. -/
  len : BitVec 16
  /-- `next` is not `NULL`. -/
  next : Bool
  /-- A pbuf has no more than `MBUF_MAX_DATA_LEN` bytes. -/
  len_le : len.toNat ≤ mbufMaxDataLen

/-- What `write_stack_data` finds. -/
structure WriteInput where
  /-- `errevent` is positive. -/
  errevent : Bool
  /-- `stack` is not `NULL`. -/
  stack : Bool
  /-- `len`. -/
  len : BitVec 64
  /-- `remain_len`. -/
  remainLen : BitVec 16
  /-- What `gazelle_ring_readlast` returns in `merge_data_lastpbuf`. -/
  last : Option LastPbuf
  /-- `gazelle_ring_readable_count`. -/
  writeAvail : BitVec 32
  /-- What `gazelle_ring_readlast` returns when no pbuf is readable is not `NULL`. -/
  lastAgain : Bool
  /-- `expand_send_ring`. -/
  expandSendRing : Bool
  /-- The pbufs that are not from the ring can be allocated. -/
  allocs : Bool
  /-- There is something to write. -/
  len_pos : 0 < len.toNat
  /-- A ring of `SOCK_SEND_RING_SIZE_MAX` slots has no more readable pbufs. -/
  writeAvail_le : writeAvail.toNat ≤ 2047

/-- The functions that call `do_app_write`. -/
inductive AppWrite
  /-- `app_buff_write`. -/
  | buff
  /-- `app_direct_write`. -/
  | direct
  /-- `app_direct_attach`. -/
  | attach
  deriving DecidableEq

/-- A call of one of them. -/
structure AppCall where
  /-- The function. -/
  fn : AppWrite
  /-- `buf`, as an offset in the buffer of the caller. -/
  off : BitVec 64
  /-- `len`. -/
  len : BitVec 64
  /-- `write_num`. -/
  writeNum : BitVec 32

/-- `n` rounds of the loop of `do_app_write`, from `send_len` on. -/
def appWriteLoop : ℕ → BitVec 64 → BitVec 64
  | 0, sendLen => sendLen
  | n + 1, sendLen => appWriteLoop n (sendLen + 1460)

/-- `copy_len` in `do_app_write`. -/
def copyLen (len : BitVec 64) (writeNum : BitVec 32) : BitVec 16 :=
  (len - appWriteLoop (writeNum - 1).toNat 0).setWidth 16

/-- The value that `do_app_write` returns. -/
def doAppWrite (len : BitVec 64) (writeNum : BitVec 32) : BitVec 64 :=
  appWriteLoop (writeNum - 1).toNat 0 + (copyLen len writeNum).setWidth 64

/-- The value that the call returns. -/
def AppCall.ret (call : AppCall) (allocs : Bool) : BitVec 64 :=
  match call.fn with
  | .buff => doAppWrite call.len call.writeNum
  | .direct | .attach =>
    if call.writeNum = 0 then 0
    else if allocs then doAppWrite call.len call.writeNum
    else 0

/-- `merge_data_lastpbuf`: the number of bytes that are merged. -/
def mergeDataLastpbuf (last : Option LastPbuf) (len : BitVec 64) : BitVec 64 :=
  match last with
  | none => 0
  | some lastPbuf =>
    if lastPbuf.next ∨ 1460 ≤ lastPbuf.len then 0
    else
      let sendLen := 1460 - lastPbuf.len.setWidth 64
      if len ≤ sendLen then len else sendLen

/-- The end of `write_stack_data`. -/
def finish (sendLen : BitVec 64) : BitVec 64 := if sendLen = 0 then -1 else sendLen

namespace WriteInput

variable (i : WriteInput)

/-- `send_len` after the merge. -/
def merged : BitVec 64 := if i.remainLen ≠ 0 then mergeDataLastpbuf i.last i.len else 0

/-- `write_num` before it is clipped: the pbufs for what is not merged. -/
def writeNum : BitVec 32 := ((i.len - i.merged + 1460 - 1) / 1460).setWidth 32

/-- The call for `len` bytes, of which the first ones are merged. -/
def call (fn : AppWrite) (len : BitVec 64) (writeNum : BitVec 32) : AppCall :=
  ⟨fn, i.merged, len - i.merged, writeNum⟩

/-- The end of `write_stack_data` after a call. -/
def afterCall (call : AppCall) : Option AppCall × BitVec 64 :=
  (some call, finish (i.merged + call.ret i.allocs))

/-- `write_stack_data`: the call that is reached, and the value returned. -/
def writeStackData : Option AppCall × BitVec 64 :=
  if i.errevent then (none, -1)
  else if i.stack = false ∨ i.len = 0 then (none, 0)
  else if i.remainLen ≠ 0 ∧ i.len ≤ i.merged then (none, finish i.len)
  else if i.writeAvail = 0 then
    if i.expandSendRing then
      if i.lastAgain then i.afterCall (i.call .attach i.len i.writeNum)
      else (none, finish i.merged)
    else (none, finish i.merged)
  else if i.expandSendRing then
    if i.writeNum ≤ i.writeAvail then i.afterCall (i.call .buff i.len i.writeNum)
    else i.afterCall (i.call .direct i.len i.writeNum)
  else if i.writeNum > i.writeAvail then
    i.afterCall (i.call .buff ((i.writeAvail * 1460).setWidth 64) i.writeAvail)
  else i.afterCall (i.call .buff i.len i.writeNum)

end WriteInput

/-! ## The copy loop -/

section Loop

variable {len : BitVec 64} {writeNum : BitVec 32}

theorem toNat_appWriteLoop (n : ℕ) (sendLen : BitVec 64) :
    (appWriteLoop n sendLen).toNat = (sendLen.toNat + n * 1460) % 2 ^ 64 := by
  induction n generalizing sendLen with
  | zero =>
    rw [appWriteLoop, Nat.zero_mul, Nat.add_zero]
    exact (Nat.mod_eq_of_lt sendLen.isLt).symm
  | succ n ih =>
    rw [appWriteLoop, ih, BitVec.toNat_add]
    simp only [BitVec.reduceToNat]
    omega

/-- The data fills all pbufs but the last one, and needs the last one too. -/
def Needs (len : BitVec 64) (writeNum : BitVec 32) : Prop :=
  1 ≤ writeNum.toNat ∧ (writeNum.toNat - 1) * 1460 < len.toNat ∧
    len.toNat ≤ writeNum.toNat * 1460

/-- The bytes that are copied before the last pbuf. -/
theorem toNat_appWriteLoop_zero (h : 1 ≤ writeNum.toNat) :
    (appWriteLoop (writeNum - 1).toNat 0).toNat = (writeNum.toNat - 1) * 1460 := by
  have hlt := writeNum.isLt
  have hpred : (writeNum - 1).toNat = writeNum.toNat - 1 := by bv_omega
  rw [toNat_appWriteLoop, hpred]
  simp only [BitVec.reduceToNat, Nat.zero_add]
  exact Nat.mod_eq_of_lt (by omega)

/-- When the data needs exactly the pbufs, the last one takes between 1 and `MBUF_MAX_DATA_LEN`
bytes. -/
theorem toNat_copyLen (h : Needs len writeNum) :
    (copyLen len writeNum).toNat = len.toNat - (writeNum.toNat - 1) * 1460 := by
  obtain ⟨hpos, hlt, hle⟩ := h
  have hloop := toNat_appWriteLoop_zero hpos
  have hlen := len.isLt
  rw [copyLen, BitVec.toNat_setWidth, BitVec.toNat_sub_of_le (by rw [BitVec.le_def]; omega), hloop]
  exact Nat.mod_eq_of_lt (by omega)

/-- All of it is copied then. -/
theorem doAppWrite_of_fits (h : Needs len writeNum) : doAppWrite len writeNum = len := by
  have hcopy := toNat_copyLen h
  have hloop := toNat_appWriteLoop_zero h.1
  obtain ⟨hpos, hlt, hle⟩ := h
  apply BitVec.eq_of_toNat_eq
  have hlen := len.isLt
  rw [doAppWrite, BitVec.toNat_add, BitVec.toNat_setWidth, hcopy, hloop]
  omega

end Loop

/-! ## Which sizes are right -/

namespace WriteInput

variable {i : WriteInput}

/-- The call gets pbufs: those of `app_buff_write` are in the ring, the others must be allocated. -/
def HasPbufs (i : WriteInput) (call : AppCall) : Prop := call.fn = .buff ∨ i.allocs = true

/-- The sizes of a call are right: `do_app_write` needs exactly the pbufs, so the last one takes
between 1 and `MBUF_MAX_DATA_LEN` bytes, it stays in the buffer of the caller, and `app_buff_write`
stays in its array and in the ring. -/
structure RightCall (i : WriteInput) (call : AppCall) : Prop where
  /-- The pbufs. -/
  needs : Needs call.len call.writeNum
  /-- The last one. -/
  copyLen : 1 ≤ (copyLen call.len call.writeNum).toNat ∧
    (WriteSizes.copyLen call.len call.writeNum).toNat ≤ 1460
  /-- The bytes that are read. -/
  inBuf : call.off.toNat + ((call.writeNum.toNat - 1) * 1460 +
    (WriteSizes.copyLen call.len call.writeNum).toNat) ≤ i.len.toNat
  /-- The pbufs of the ring. -/
  slots : call.fn = .buff → call.writeNum.toNat ≤ 2048 ∧
    call.writeNum.toNat ≤ i.writeAvail.toNat

/-- Whenever a call that gets pbufs is reached, its sizes are right and the value returned is
positive and not more than the length. -/
def SizesRight (i : WriteInput) : Prop :=
  ∀ call, i.writeStackData.1 = some call → i.HasPbufs call →
    i.RightCall call ∧ 0 < i.writeStackData.2.toNat ∧ i.writeStackData.2.toNat ≤ i.len.toNat

/-- What is not merged needs fewer than `2 ^ 32` pbufs, and the sum that rounds it up does not
wrap. -/
def Whole (i : WriteInput) : Prop :=
  i.len.toNat - i.merged.toNat + 1459 < 2 ^ 64 ∧
    (i.len.toNat - i.merged.toNat + 1459) / 1460 < 2 ^ 32

/-- The number of pbufs for what is not merged, modulo `2 ^ 32`, exceeds the readable ones. -/
def Exceeds (i : WriteInput) : Prop :=
  i.writeAvail.toNat < (i.len.toNat - i.merged.toNat + 1459) % 2 ^ 64 / 1460 % 2 ^ 32

/-- Whether the number of pbufs fits is decidable. -/
instance (i : WriteInput) : Decidable i.Whole := by
  unfold Whole
  infer_instance

/-- So is whether it exceeds the readable ones. -/
instance (i : WriteInput) : Decidable i.Exceeds := by
  unfold Exceeds
  infer_instance

/-- When the sizes are right: if the call is for all data, it is `Whole`; if it is clipped to the
readable pbufs, fewer than `MBUF_MAX_DATA_LEN` bytes have been merged. -/
def Fits (i : WriteInput) : Prop :=
  i.errevent = false → i.stack = true → i.merged.toNat < i.len.toNat →
    if i.writeAvail = 0 then
      i.expandSendRing = true → i.lastAgain = true → i.allocs = true → i.Whole
    else if i.expandSendRing then (i.allocs = false → ¬ i.Exceeds) → i.Whole
    else if i.Exceeds then i.merged.toNat < 1460 else i.Whole

/-- What is merged fits the last pbuf, and is not more than there is. -/
theorem merged_le (i : WriteInput) :
    i.merged.toNat ≤ 1460 ∧ i.merged.toNat ≤ i.len.toNat := by
  unfold merged
  split
  · unfold mergeDataLastpbuf
    split
    · simp
    · rename_i lastPbuf _
      split
      · simp
      · next hroom =>
        have hlen : lastPbuf.len.toNat < 1460 := by
          have := (not_or.1 hroom).2
          rw [BitVec.not_le, BitVec.lt_def] at this
          exact this
        have hsub : (1460 - lastPbuf.len.setWidth 64 : BitVec 64).toNat =
            1460 - lastPbuf.len.toNat := by bv_omega
        dsimp only
        split
        · next hle =>
          rw [BitVec.le_def, hsub] at hle
          omega
        · next hgt =>
          rw [BitVec.le_def, hsub] at hgt
          omega
  · simp

/-- The number of pbufs as it is computed. -/
theorem toNat_writeNum (h : i.merged.toNat < i.len.toNat) : i.writeNum.toNat =
    (i.len.toNat - i.merged.toNat + 1459) % 2 ^ 64 / 1460 % 2 ^ 32 := by
  have hsub : (i.len - i.merged).toNat = i.len.toNat - i.merged.toNat :=
    BitVec.toNat_sub_of_le (by rw [BitVec.le_def]; omega)
  have hlen := i.len.isLt
  have hsum : (i.len - i.merged + 1460 - 1).toNat =
      (i.len.toNat - i.merged.toNat + 1459) % 2 ^ 64 := by
    rw [BitVec.toNat_sub, BitVec.toNat_add, hsub]
    simp only [BitVec.reduceToNat]
    omega
  rw [writeNum, BitVec.toNat_setWidth, BitVec.toNat_udiv, hsum]
  rfl

theorem exceeds_iff (h : i.merged.toNat < i.len.toNat) :
    i.Exceeds ↔ i.writeNum > i.writeAvail := by
  rw [Exceeds, ← toNat_writeNum h, gt_iff_lt, BitVec.lt_def]

/-- The length of a call for all data. -/
theorem toNat_call_len (h : i.merged.toNat < i.len.toNat) (fn : AppWrite) (writeNum : BitVec 32) :
    (i.call fn i.len writeNum).len.toNat = i.len.toNat - i.merged.toNat :=
  BitVec.toNat_sub_of_le (by rw [BitVec.le_def]; omega)

/-- A call for all data needs its pbufs exactly if their number is not cut off. -/
theorem needs_call_iff (h : i.merged.toNat < i.len.toNat) (fn : AppWrite) :
    Needs (i.call fn i.len i.writeNum).len i.writeNum ↔ i.Whole := by
  rw [Needs, toNat_call_len h, toNat_writeNum h, Whole]
  have hlen := i.len.isLt
  constructor
  · rintro ⟨hpos, hlt, hle⟩
    omega
  · rintro ⟨hsum, hnum⟩
    omega

/-- A call that needs its pbufs sends its data. -/
theorem ret_of_needs {call : AppCall} (hpbufs : i.HasPbufs call)
    (h : Needs call.len call.writeNum) : call.ret i.allocs = call.len := by
  have hne : call.writeNum ≠ 0 := by
    rintro hzero
    have := h.1
    rw [hzero] at this
    exact absurd this (by decide)
  unfold AppCall.ret
  rcases hpbufs with hbuff | hallocs
  · rw [hbuff]
    exact doAppWrite_of_fits h
  · cases call.fn with
    | buff => exact doAppWrite_of_fits h
    | direct => simp only [if_neg hne, hallocs, if_true, doAppWrite_of_fits h]
    | attach => simp only [if_neg hne, hallocs, if_true, doAppWrite_of_fits h]

/-- The value that is returned after a call that sends `len` bytes. -/
theorem toNat_afterCall {call : AppCall} {n : ℕ} (hret : (call.ret i.allocs).toNat = n)
    (hpos : 0 < i.merged.toNat + n) (hle : i.merged.toNat + n ≤ i.len.toNat) :
    (i.afterCall call).2.toNat = i.merged.toNat + n := by
  have hlen := i.len.isLt
  have hsum : (i.merged + call.ret i.allocs).toNat = i.merged.toNat + n := by
    rw [BitVec.toNat_add, hret]
    exact Nat.mod_eq_of_lt (by omega)
  have hne : i.merged + call.ret i.allocs ≠ 0 := by
    intro hzero
    rw [hzero] at hsum
    simp only [BitVec.reduceToNat] at hsum
    omega
  rw [afterCall, finish, if_neg hne, hsum]

/-- The sizes of a call with pbufs are right if its data needs them and is in the buffer. -/
theorem right_of_needs {call : AppCall} (hpbufs : i.HasPbufs call) (hoff : call.off = i.merged)
    (h : Needs call.len call.writeNum) (hle : i.merged.toNat + call.len.toNat ≤ i.len.toNat)
    (hslots : call.fn = .buff → call.writeNum.toNat ≤ i.writeAvail.toNat) :
    i.RightCall call ∧ 0 < (i.afterCall call).2.toNat ∧
      (i.afterCall call).2.toNat ≤ i.len.toNat := by
  have hcopy := toNat_copyLen h
  have hret := congrArg BitVec.toNat (ret_of_needs hpbufs h)
  obtain ⟨hpos, hlt, hfull⟩ := id h
  have hval := toNat_afterCall hret (by omega) hle
  have havail := i.writeAvail_le
  refine ⟨⟨h, ?_, ?_, fun hbuff => ⟨?_, hslots hbuff⟩⟩, ?_, ?_⟩
  · omega
  · rw [hoff, hcopy]
    omega
  · have := hslots hbuff
    omega
  · omega
  · omega

/-- A call for all data is right exactly if the number of its pbufs is not cut off. -/
theorem right_whole_iff (h : i.merged.toNat < i.len.toNat) {fn : AppWrite}
    (hslots : fn = .buff → i.writeNum.toNat ≤ i.writeAvail.toNat)
    (hpbufs : i.HasPbufs (i.call fn i.len i.writeNum)) :
    (i.RightCall (i.call fn i.len i.writeNum) ∧
      0 < (i.afterCall (i.call fn i.len i.writeNum)).2.toNat ∧
      (i.afterCall (i.call fn i.len i.writeNum)).2.toNat ≤ i.len.toNat) ↔ i.Whole := by
  rw [← needs_call_iff h fn]
  constructor
  · exact fun hright => hright.1.needs
  · intro hneeds
    refine right_of_needs hpbufs rfl hneeds ?_ hslots
    rw [toNat_call_len h]
    omega

/-- The call that is clipped to the readable pbufs. -/
def clipped (i : WriteInput) : AppCall :=
  i.call .buff ((i.writeAvail * 1460).setWidth 64) i.writeAvail

/-- When more pbufs are needed than are readable, there is data for more than these. -/
theorem lt_of_exceeds (hexceeds : i.Exceeds) :
    i.writeAvail.toNat * 1460 < i.len.toNat - i.merged.toNat := by
  have hlen := i.len.isLt
  have hquot : i.writeAvail.toNat < (i.len.toNat - i.merged.toNat + 1459) % 2 ^ 64 / 1460 :=
    Nat.lt_of_lt_of_le hexceeds (Nat.mod_le _ _)
  have hsum : (i.writeAvail.toNat + 1) * 1460 ≤ (i.len.toNat - i.merged.toNat + 1459) % 2 ^ 64 :=
    (Nat.le_div_iff_mul_le (by decide)).1 hquot
  -- the rounded sum has not wrapped, or it would be less than 1460
  have hwrap : (i.len.toNat - i.merged.toNat + 1459) % 2 ^ 64 =
      i.len.toNat - i.merged.toNat + 1459 :=
    Nat.mod_eq_of_lt (by omega)
  omega

/-- The length of the clipped call: the merged bytes are taken off. -/
theorem toNat_clipped_len (havail : i.writeAvail ≠ 0) :
    i.clipped.len.toNat = i.writeAvail.toNat * 1460 - i.merged.toNat := by
  have hpos : 0 < i.writeAvail.toNat := by bv_omega
  have hle := i.writeAvail_le
  have hmerged := i.merged_le.1
  have hmul : (i.writeAvail * 1460).toNat = i.writeAvail.toNat * 1460 := by
    rw [BitVec.toNat_mul]
    exact Nat.mod_eq_of_lt (by simp only [BitVec.reduceToNat]; omega)
  have hwide : ((i.writeAvail * 1460).setWidth 64).toNat = i.writeAvail.toNat * 1460 := by
    rw [BitVec.toNat_setWidth, hmul]
    exact Nat.mod_eq_of_lt (by omega)
  have hsub := BitVec.toNat_sub_of_le (x := (i.writeAvail * 1460).setWidth 64) (y := i.merged)
    (by rw [BitVec.le_def, hwide]; omega)
  rw [← hwide]
  exact hsub

/-- A clipped call is right exactly if the last pbuf that was merged into was not empty. -/
theorem right_clipped_iff (h : i.merged.toNat < i.len.toNat) (havail : i.writeAvail ≠ 0)
    (hexceeds : i.Exceeds) :
    (i.RightCall i.clipped ∧ 0 < (i.afterCall i.clipped).2.toNat ∧
      (i.afterCall i.clipped).2.toNat ≤ i.len.toNat) ↔ i.merged.toNat < 1460 := by
  have hlen := toNat_clipped_len havail
  have hpos : 0 < i.writeAvail.toNat := by bv_omega
  constructor
  · intro hright
    have hlt : (i.writeAvail.toNat - 1) * 1460 < i.clipped.len.toNat := hright.1.needs.2.1
    omega
  · intro hmerged
    have hneeds : Needs i.clipped.len i.clipped.writeNum := by
      show Needs i.clipped.len i.writeAvail
      rw [Needs, hlen]
      omega
    have hdata := lt_of_exceeds hexceeds
    refine right_of_needs (.inl rfl) rfl hneeds ?_ (fun _ => Nat.le_refl _)
    omega

/-- What is asked of the outcome of `write_stack_data`. -/
def RightOut (i : WriteInput) (out : Option AppCall × BitVec 64) : Prop :=
  ∀ call, out.1 = some call → i.HasPbufs call →
    i.RightCall call ∧ 0 < out.2.toNat ∧ out.2.toNat ≤ i.len.toNat

/-- Without a call nothing is asked. -/
theorem rightOut_none (ret : BitVec 64) : i.RightOut (none, ret) :=
  fun _ h => absurd h (by simp)

/-- A call for all data. -/
theorem rightOut_whole_iff (h : i.merged.toNat < i.len.toNat) {fn : AppWrite}
    (hslots : fn = .buff → i.writeNum.toNat ≤ i.writeAvail.toNat) :
    i.RightOut (i.afterCall (i.call fn i.len i.writeNum)) ↔
      (i.HasPbufs (i.call fn i.len i.writeNum) → i.Whole) := by
  constructor
  · exact fun hright hpbufs => (right_whole_iff h hslots hpbufs).1 (hright _ rfl hpbufs)
  · intro hwhole call hcall hpbufs
    obtain rfl : i.call fn i.len i.writeNum = call := Option.some.inj hcall
    exact (right_whole_iff h hslots hpbufs).2 (hwhole hpbufs)

/-- A call that is clipped. -/
theorem rightOut_clipped_iff (h : i.merged.toNat < i.len.toNat) (havail : i.writeAvail ≠ 0)
    (hexceeds : i.Exceeds) :
    i.RightOut (i.afterCall i.clipped) ↔ i.merged.toNat < 1460 := by
  rw [← right_clipped_iff h havail hexceeds]
  constructor
  · exact fun hright => hright i.clipped rfl (.inl rfl)
  · rintro hright call hcall -
    obtain rfl : i.clipped = call := Option.some.inj hcall
    exact hright

/-- The sizes of a write are right exactly if they fit. -/
theorem sizesRight_iff (i : WriteInput) : i.SizesRight ↔ i.Fits := by
  have hlen0 : i.len ≠ 0 := by
    intro hzero
    have := i.len_pos
    rw [hzero] at this
    exact absurd this (by decide)
  show i.RightOut i.writeStackData ↔ i.Fits
  unfold Fits writeStackData
  by_cases herr : i.errevent = true
  · simp [herr, rightOut_none]
  by_cases hstack : i.stack = false
  · simp [herr, hstack, rightOut_none]
  replace hstack : i.stack = true := by simpa using hstack
  simp only [herr, hstack, hlen0, or_self, Bool.true_eq_false, Bool.false_eq_true, if_false,
    true_imp_iff]
  by_cases hmerged : i.remainLen ≠ 0 ∧ i.len ≤ i.merged
  · rw [if_pos hmerged]
    have hle := BitVec.le_def.1 hmerged.2
    exact ⟨fun _ hlt => absurd hlt (by omega), fun _ => rightOut_none _⟩
  have h : i.merged.toNat < i.len.toNat := by
    by_cases hremain : i.remainLen = 0
    · simpa [merged, hremain] using i.len_pos
    · have hle : ¬ i.len ≤ i.merged := fun hle => hmerged ⟨hremain, hle⟩
      rwa [BitVec.not_le, BitVec.lt_def] at hle
  rw [if_neg hmerged]
  simp only [h, true_imp_iff]
  by_cases havail : i.writeAvail = 0
  · -- nothing is readable: the data is attached to the last pbuf, if that may be
    simp only [havail, if_true]
    by_cases hexpand : i.expandSendRing = true
    · by_cases hlast : i.lastAgain = true
      · simp only [hexpand, hlast, if_true, true_imp_iff]
        rw [rightOut_whole_iff h (fun hfn => absurd hfn (by decide))]
        simp [HasPbufs, call]
      · simp [hexpand, hlast, rightOut_none]
    · simp [hexpand, rightOut_none]
  simp only [if_neg havail]
  by_cases hexpand : i.expandSendRing = true
  · simp only [hexpand, if_true]
    by_cases hfits : i.writeNum ≤ i.writeAvail
    · have hnot : ¬ i.Exceeds := by
        rw [exceeds_iff h, gt_iff_lt, BitVec.not_lt]
        exact hfits
      rw [if_pos hfits, rightOut_whole_iff h fun _ => BitVec.le_def.1 hfits]
      simp [HasPbufs, call, hnot]
    · have hexceeds : i.Exceeds := by
        rw [exceeds_iff h, gt_iff_lt, ← BitVec.not_le]
        exact hfits
      rw [if_neg hfits, rightOut_whole_iff h (fun hfn => absurd hfn (by decide))]
      simp [HasPbufs, call, hexceeds]
  · simp only [hexpand, Bool.false_eq_true, if_false]
    by_cases hexceeds : i.Exceeds
    · rw [if_pos ((exceeds_iff h).1 hexceeds), if_pos hexceeds]
      exact rightOut_clipped_iff h havail hexceeds
    · have hfits : ¬ i.writeNum > i.writeAvail := fun hgt => hexceeds ((exceeds_iff h).2 hgt)
      rw [if_neg hfits, if_neg hexceeds]
      rw [gt_iff_lt, BitVec.not_lt, BitVec.le_def] at hfits
      rw [rightOut_whole_iff h fun _ => hfits]
      simp [HasPbufs, call]

/-- A write of `SIZE_MAX` bytes into a ring with two readable pbufs, without a merge. -/
def sizeMax : WriteInput where
  errevent := false
  stack := true
  len := 0xffffffffffffffff
  remainLen := 0
  last := none
  writeAvail := 2
  lastAgain := false
  expandSendRing := false
  allocs := true
  len_pos := Nat.le_of_ble_eq_true rfl
  writeAvail_le := Nat.le_of_ble_eq_true rfl

/-- The rounded sum wraps, and `do_app_write` runs with no pbuf. -/
theorem not_sizesRight_max : ¬ sizeMax.SizesRight := by
  intro h
  have hneeds := (h _ rfl (.inl rfl)).1.needs.1
  exact absurd hneeds (by decide)

end WriteInput

end WriteSizes

end Gazelle
