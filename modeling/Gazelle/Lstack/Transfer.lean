import Gazelle.Transition.System
import Mathlib.Algebra.Order.Ring.Int
import Mathlib.Tactic.Common

/-!
# Whole messages over sockets

The requests of a client and the statistics go through stream sockets, where a call of `read` or
`write` may transfer less than it is asked for, or be interrupted. Four functions repeat the call
until the message is through: `read_specied_len` and `write_specied_len` (`gazelle_dfx_msg.c`),
`send_control_cmd_data` (`lstack_stack_stat.c`) and `reg_communicate` (`lstack_control_plane.c`).

Here one call of `read` or `write` is one step, and its result is the action. An address is the
distance from the beginning of the buffer.

* `ReadLoop`, `WriteLoop`, `RegCall`: the states between two calls;
* `ReadLoop.Sound`, `WriteLoop.Sound`: the invariants that tie the position to what is left;
* `transfers_whole`: when the messages are whole;
* `not_transfers_whole`: an interrupted `read` of `reg_communicate`.
-/

namespace Gazelle

/-- The values of `errno` that are told apart. -/
inductive Errno
  /-- `EINTR`. -/
  | eintr
  /-- `EAGAIN`. -/
  | eagain
  /-- A hard error. -/
  | other
  deriving DecidableEq

/-- The result of a call of `read` or `write`. -/
inductive IoResult
  /-- This number of bytes is transferred. -/
  | moved (n : ℕ)
  /-- The other side is closed. -/
  | closed
  /-- The call fails. -/
  | failed (errno : Errno)
  deriving DecidableEq

namespace IoResult

/-- The return value. -/
def size : IoResult → ℤ
  | moved n => n
  | closed => 0
  | failed _ => -1

/-- `errno` after the call. -/
def errno : IoResult → Option Errno
  | failed errno => some errno
  | _ => none

/-- A call for `count` bytes, of which at most `available` can be transferred, may have the
result. -/
def Possible (count : ℤ) (available : ℕ) : IoResult → Prop
  | moved n => 0 < n ∧ n ≤ count ∧ n ≤ available
  | _ => True

/-- Whether a call may have a result is decidable. -/
instance (count : ℤ) (available : ℕ) : DecidablePred (Possible count available)
  | moved n => inferInstanceAs (Decidable (0 < n ∧ n ≤ count ∧ n ≤ available))
  | closed => isTrue trivial
  | failed _ => isTrue trivial

end IoResult

variable {β : Type*}

/-! ## Reading -/

/-- A function that reads a message, between two calls of `read`. -/
structure ReadLoop (β : Type*) where
  /-- The memory, by the distance from the beginning of the buffer. -/
  mem : ℤ → β
  /-- The addresses stored to so far; nothing reads this. -/
  stored : List ℤ
  /-- The bytes sent by the other side and not read. -/
  incoming : List β
  /-- `tmp_pbuf`, where the next byte is stored. -/
  pos : ℤ
  /-- `target_size`, the number of bytes still to be read. -/
  left : ℤ
  /-- What the function has returned. -/
  ret : Option ℤ

namespace ReadLoop

/-- The head of the loop: `while (target_size > 0)`. -/
def loop (c : ReadLoop β) : ReadLoop β := if 0 < c.left then c else { c with ret := some 0 }

/-- The call of a function that reads `size` bytes. -/
def start (mem : ℤ → β) (incoming : List β) (size : ℕ) : ReadLoop β :=
  loop { mem, stored := [], incoming, pos := 0, left := size, ret := none }

/-- What `read` does to the memory. -/
def read (c : ReadLoop β) : IoResult → ReadLoop β
  | .moved n =>
    { c with
      mem := fun a =>
        if a < c.pos then c.mem a else ((c.incoming.take n)[(a - c.pos).toNat]?).getD (c.mem a)
      stored := c.stored ++ (List.range n).map fun i : ℕ => c.pos + i
      incoming := c.incoming.drop n }
  | _ => c

/-- One round of `read_specied_len`. -/
def readSpeciedLen (c : ReadLoop β) (r : IoResult) : ReadLoop β :=
  let c := c.read r
  if r.size = -1 ∧ r.errno ≠ some .eintr then { c with ret := some (-1) }
  else if r.size = 0 then { c with ret := some (-1) }
  else
    let tmpSize := if r.size < 0 then 0 else r.size
    loop { c with left := c.left - tmpSize, pos := c.pos + tmpSize }

/-- One round of the loop of `reg_communicate`, where `buf` and `recv_size` have these roles. -/
def regCommunicate (c : ReadLoop β) (r : IoResult) : ReadLoop β :=
  let c := c.read r
  if r.size < 0 ∧ r.errno ≠ some .eintr ∧ r.errno ≠ some .eagain then { c with ret := some (-1) }
  else if r.size = 0 then { c with ret := some (-1) }
  else
    -- a negative `size` is added, too
    loop { c with
      left := c.left - if r.size < 0 then 0 else r.size
      pos := c.pos + r.size }

/-- A step of a function that has not returned: `read` is called, and the round is finished. -/
def step (round : ReadLoop β → IoResult → ReadLoop β) (c : ReadLoop β) (r : IoResult) :
    Option (ReadLoop β) :=
  if c.ret = none ∧ r.Possible c.left c.incoming.length then some (round c r) else none

/-- The runs of a function that reads `size` bytes of a message. -/
def system (round : ReadLoop β → IoResult → ReadLoop β) (mem : ℤ → β) (incoming : List β)
    (size : ℕ) : Transition.System (ReadLoop β) IoResult where
  Init c := c = start mem incoming size
  step := step round

/-- When the function succeeds, the buffer holds the bytes in order; and no byte is stored outside
of the buffer. -/
structure Whole (incoming : List β) (size : ℕ) (c : ReadLoop β) : Prop where
  /-- The buffer is full. -/
  full : c.ret = some 0 → ∀ i < size, some (c.mem i) = incoming[i]?
  /-- Only the buffer was written. -/
  inside : ∀ a ∈ c.stored, 0 ≤ a ∧ a < size

/-- The invariant of the loops: the position and what is left add up to the size, and the bytes in
front of the position are in their places. -/
structure Sound (incoming : List β) (size : ℕ) (c : ReadLoop β) : Prop where
  /-- The position. -/
  pos : ∃ done : ℕ, c.pos = done ∧ c.left = size - done ∧ done ≤ size ∧
    c.incoming = incoming.drop done ∧ done ≤ incoming.length ∧
    ∀ i < done, some (c.mem i) = incoming[i]?
  /-- Only the buffer was written. -/
  inside : ∀ a ∈ c.stored, 0 ≤ a ∧ a < size
  /-- Success means that nothing is left. -/
  ret : c.ret = some 0 → c.left = 0

end ReadLoop

/-! ## Writing -/

/-- A function that writes a message, between two calls of `write`. -/
structure WriteLoop (β : Type*) where
  /-- The message. -/
  msg : List β
  /-- The bytes written so far. -/
  sent : List β
  /-- `tmp_pbuf`, the position of the next byte. -/
  pos : ℤ
  /-- `target_size`, the number of bytes still to be written. -/
  left : ℤ
  /-- What the function has returned. -/
  ret : Option ℤ

namespace WriteLoop

/-- The head of the loop: `while (target_size > 0)`. -/
def loop (c : WriteLoop β) : WriteLoop β := if 0 < c.left then c else { c with ret := some 0 }

/-- The call of a function that writes a message. -/
def start (msg : List β) : WriteLoop β :=
  loop { msg, sent := [], pos := 0, left := msg.length, ret := none }

/-- What `write` takes from the message. -/
def write (c : WriteLoop β) : IoResult → WriteLoop β
  | .moved n => { c with sent := c.sent ++ (c.msg.drop c.pos.toNat).take n }
  | _ => c

/-- One round of `write_specied_len`. -/
def writeSpeciedLen (c : WriteLoop β) (r : IoResult) : WriteLoop β :=
  let c := c.write r
  if r.size = -1 ∧ r.errno ≠ some .eintr ∧ r.errno ≠ some .eagain then { c with ret := some (-1) }
  else if r.size = 0 then { c with ret := some (-1) }
  else
    let tmpSize := if r.size < 0 then 0 else r.size
    loop { c with left := c.left - tmpSize, pos := c.pos + tmpSize }

/-- One round of `send_control_cmd_data`. -/
def sendControlCmdData (c : WriteLoop β) (r : IoResult) : WriteLoop β :=
  let c := c.write r
  if r.size ≤ 0 then { c with ret := some (-1) }
  else loop { c with left := c.left - r.size, pos := c.pos + r.size }

/-- A step of a function that has not returned: `write` is called, and the round is finished. -/
def step (round : WriteLoop β → IoResult → WriteLoop β) (c : WriteLoop β) (r : IoResult) :
    Option (WriteLoop β) :=
  if c.ret = none ∧ r.Possible c.left c.msg.length then some (round c r) else none

/-- The runs of a function that writes a message. -/
def system (round : WriteLoop β → IoResult → WriteLoop β) (msg : List β) :
    Transition.System (WriteLoop β) IoResult where
  Init c := c = start msg
  step := step round

/-- The invariant of the loops: what is sent is the part of the message in front of the position. -/
structure Sound (msg : List β) (c : WriteLoop β) : Prop where
  /-- The message. -/
  msg_eq : c.msg = msg
  /-- The position. -/
  pos : ∃ done : ℕ, c.pos = done ∧ c.left = msg.length - done ∧ done ≤ msg.length ∧
    c.sent = msg.take done
  /-- Success means that nothing is left. -/
  ret : c.ret = some 0 → c.left = 0

end WriteLoop

/-! ## The registration -/

/-- `reg_communicate`, between two calls. -/
structure RegCall (β : Type*) where
  /-- `send_msg`. -/
  sendMsg : List β
  /-- The bytes of it written so far. -/
  sent : List β
  /-- `write` was called. -/
  written : Bool
  /-- The loop that reads, and the return value. -/
  recv : ReadLoop β

namespace RegCall

/-- The call of `reg_communicate`. -/
def start (sendMsg : List β) (mem : ℤ → β) (incoming : List β) (size : ℕ) : RegCall β where
  sendMsg := sendMsg
  sent := []
  written := false
  recv := { mem, stored := [], incoming, pos := 0, left := size, ret := none }

/-- The result of the next call of `write` or `read`. -/
def step (c : RegCall β) (r : IoResult) : Option (RegCall β) :=
  if c.written then (c.recv.step .regCommunicate r).map ({ c with recv := · })
  else if c.recv.ret = none ∧ r.Possible c.sendMsg.length c.sendMsg.length then
    if r.size ≤ 0 then some { c with written := true, recv.ret := some (-1) }
    else some { c with sent := c.sendMsg.take r.size.toNat, written := true, recv := c.recv.loop }
  else none

/-- The runs of `reg_communicate`. -/
def system (sendMsg : List β) (mem : ℤ → β) (incoming : List β) (size : ℕ) :
    Transition.System (RegCall β) IoResult where
  Init c := c = start sendMsg mem incoming size
  step := step

/-- The request is written by one call, and no call of `read` is interrupted or finds nothing. -/
def Smooth (c : RegCall β) (r : IoResult) : Prop :=
  if c.written then r ≠ .failed .eintr ∧ r ≠ .failed .eagain
  else ∀ n, r = .moved n → n = c.sendMsg.length

end RegCall

/-! ## The reading loops -/

namespace ReadLoop

variable (c : ReadLoop β) {n : ℕ}

/-- A round of `read_specied_len` that moves bytes. -/
theorem readSpeciedLen_moved (hn : 0 < n) :
    c.readSpeciedLen (.moved n) =
      loop { c.read (.moved n) with left := c.left - n, pos := c.pos + n } := by
  have hsize : (IoResult.moved n).size = n := rfl
  rw [readSpeciedLen, hsize]
  dsimp only
  rw [if_neg (by omega), if_neg (by omega), if_neg (by omega)]
  rfl

/-- A round of `read_specied_len` that is interrupted. -/
theorem readSpeciedLen_eintr : c.readSpeciedLen (.failed .eintr) = c.loop := by
  simp [readSpeciedLen, read, IoResult.size, IoResult.errno]

/-- A round of `reg_communicate` that moves bytes. -/
theorem regCommunicate_moved (hn : 0 < n) :
    c.regCommunicate (.moved n) =
      loop { c.read (.moved n) with left := c.left - n, pos := c.pos + n } := by
  have hsize : (IoResult.moved n).size = n := rfl
  rw [regCommunicate, hsize]
  dsimp only
  rw [if_neg (by omega), if_neg (by omega), if_neg (by omega)]
  rfl

end ReadLoop

namespace ReadLoop.Sound

variable {incoming : List β} {size : ℕ} {c c' : ReadLoop β}

/-- At the head of the loop the invariant says whether the function is done. -/
theorem loop (h : Sound incoming size c) : Sound incoming size c.loop := by
  unfold ReadLoop.loop
  split
  · exact h
  · rename_i hleft
    refine ⟨h.pos, h.inside, fun _ => ?_⟩
    obtain ⟨done, -, hdone, hle, -⟩ := h.pos
    show c.left = 0
    omega

/-- The function is called. -/
theorem start (mem : ℤ → β) (incoming : List β) (size : ℕ) :
    Sound incoming size (ReadLoop.start mem incoming size) := by
  refine loop ⟨⟨0, rfl, ?_, Nat.zero_le _, rfl, Nat.zero_le _, fun i hi => ?_⟩, ?_, nofun⟩
  · exact (Int.sub_zero _).symm
  · exact absurd hi (Nat.not_lt_zero i)
  · exact fun a ha => absurd ha List.not_mem_nil

/-- The function fails. -/
theorem fail (h : Sound incoming size c) : Sound incoming size { c with ret := some (-1) } :=
  ⟨h.pos, h.inside, nofun⟩

/-- A call that moves bytes puts them at the position. -/
theorem moved (h : Sound incoming size c) {n : ℕ} (hret : c.ret = none)
    (hn : IoResult.Possible c.left c.incoming.length (.moved n)) :
    Sound incoming size { c.read (.moved n) with left := c.left - n, pos := c.pos + n } := by
  obtain ⟨done, hpos, hleft, hle, hrest, hlen, hmem⟩ := h.pos
  obtain ⟨-, hcount, havail⟩ := hn
  rw [hrest, List.length_drop] at havail
  refine ⟨⟨done + n, ?_, ?_, by omega, ?_, by omega, fun i hi => ?_⟩, fun a ha => ?_, ?_⟩
  · show c.pos + n = _
    rw [hpos, Nat.cast_add]
  · show c.left - n = _
    rw [hleft, Nat.cast_add, Int.sub_sub]
  · show c.incoming.drop n = _
    rw [hrest, List.drop_drop]
  · show some (if (i : ℤ) < c.pos then c.mem i
      else ((c.incoming.take n)[((i : ℤ) - c.pos).toNat]?).getD (c.mem i)) = _
    rw [hpos]
    -- a byte of before, or one of those that were moved
    by_cases hold : i < done
    · rw [if_pos (by omega), hmem i hold]
    · have hindex : ((i : ℤ) - done).toNat = i - done := by omega
      have hbyte : (c.incoming.take n)[i - done]? = incoming[i]? := by
        rw [List.getElem?_take_of_lt (by omega), hrest, List.getElem?_drop,
          Nat.add_sub_cancel' (by omega)]
      rw [if_neg (by omega), hindex, hbyte, List.getElem?_eq_getElem (by omega)]
      rfl
  · -- what is written lies behind what was written before
    rcases List.mem_append.1 ha with hold | hnew
    · exact h.inside a hold
    · obtain ⟨i, hi, rfl⟩ := List.mem_map.1 hnew
      have hlt := List.mem_range.1 hi
      rw [hpos]
      omega
  · -- the call has not returned
    intro hdone
    rw [show c.ret = some 0 from hdone] at hret
    cases hret

/-- A round of `read_specied_len`. -/
theorem readSpeciedLen (h : Sound incoming size c) {r : IoResult}
    (hs : c.step .readSpeciedLen r = some c') : Sound incoming size c' := by
  unfold step at hs
  split at hs
  · rename_i hcall
    obtain ⟨hret, hpossible⟩ := hcall
    obtain rfl := Option.some.inj hs
    cases r with
    | moved n =>
      rw [readSpeciedLen_moved c hpossible.1]
      exact (h.moved hret hpossible).loop
    | closed => exact h.fail
    | failed errno =>
      cases errno with
      | eintr =>
        rw [readSpeciedLen_eintr]
        exact h.loop
      | eagain => exact h.fail
      | other => exact h.fail
  · cases hs

/-- A round of `reg_communicate` that is not interrupted. -/
theorem regCommunicate (h : Sound incoming size c) {r : IoResult} (hintr : r ≠ .failed .eintr)
    (hagain : r ≠ .failed .eagain) (hs : c.step .regCommunicate r = some c') :
    Sound incoming size c' := by
  unfold step at hs
  split at hs
  · rename_i hcall
    obtain ⟨hret, hpossible⟩ := hcall
    obtain rfl := Option.some.inj hs
    cases r with
    | moved n =>
      rw [regCommunicate_moved c hpossible.1]
      exact (h.moved hret hpossible).loop
    | closed => exact h.fail
    | failed errno =>
      cases errno with
      | eintr => exact absurd rfl hintr
      | eagain => exact absurd rfl hagain
      | other => exact h.fail
  · cases hs

/-- When nothing is left, the buffer holds the message. -/
theorem whole (h : Sound incoming size c) : Whole incoming size c := by
  refine ⟨fun hret i hi => ?_, h.inside⟩
  obtain ⟨done, -, hleft, -, -, -, hmem⟩ := h.pos
  have hzero := h.ret hret
  exact hmem i (by omega)

end ReadLoop.Sound

/-! ## The writing loops -/

namespace WriteLoop

variable (c : WriteLoop β) {n : ℕ}

/-- A round of `write_specied_len` that moves bytes. -/
theorem writeSpeciedLen_moved (hn : 0 < n) :
    c.writeSpeciedLen (.moved n) =
      loop { c.write (.moved n) with left := c.left - n, pos := c.pos + n } := by
  have hsize : (IoResult.moved n).size = n := rfl
  rw [writeSpeciedLen, hsize]
  dsimp only
  rw [if_neg (by omega), if_neg (by omega), if_neg (by omega)]
  rfl

/-- A round of `write_specied_len` that is interrupted or finds no room. -/
theorem writeSpeciedLen_again {errno : Errno} (h : errno ≠ .other) :
    c.writeSpeciedLen (.failed errno) = c.loop := by
  cases errno with
  | other => exact absurd rfl h
  | _ => simp [writeSpeciedLen, write, IoResult.size, IoResult.errno]

/-- A round of `send_control_cmd_data` that moves bytes. -/
theorem sendControlCmdData_moved (hn : 0 < n) :
    c.sendControlCmdData (.moved n) =
      loop { c.write (.moved n) with left := c.left - n, pos := c.pos + n } := by
  have hsize : (IoResult.moved n).size = n := rfl
  rw [sendControlCmdData, hsize]
  dsimp only
  rw [if_neg (by omega)]
  rfl

end WriteLoop

namespace WriteLoop.Sound

variable {msg : List β} {c c' : WriteLoop β}

/-- At the head of the loop the invariant says whether the function is done. -/
theorem loop (h : Sound msg c) : Sound msg c.loop := by
  unfold WriteLoop.loop
  split
  · exact h
  · rename_i hleft
    refine ⟨h.msg_eq, h.pos, fun _ => ?_⟩
    obtain ⟨done, -, hdone, hle, -⟩ := h.pos
    show c.left = 0
    omega

/-- The function is called. -/
theorem start (msg : List β) : Sound msg (WriteLoop.start msg) :=
  loop ⟨rfl, ⟨0, rfl, (Int.sub_zero _).symm, Nat.zero_le _, rfl⟩, nofun⟩

/-- The function fails. -/
theorem fail (h : Sound msg c) : Sound msg { c with ret := some (-1) } :=
  ⟨h.msg_eq, h.pos, nofun⟩

/-- A call that moves bytes takes them from the position on. -/
theorem moved (h : Sound msg c) {n available : ℕ} (hret : c.ret = none)
    (hn : IoResult.Possible c.left available (.moved n)) :
    Sound msg { c.write (.moved n) with left := c.left - n, pos := c.pos + n } := by
  obtain ⟨done, hpos, hleft, hle, hsent⟩ := h.pos
  obtain ⟨-, hcount, -⟩ := hn
  refine ⟨h.msg_eq, ⟨done + n, ?_, ?_, by omega, ?_⟩, ?_⟩
  · show c.pos + n = _
    rw [hpos, Nat.cast_add]
  · show c.left - n = _
    rw [hleft, Nat.cast_add, Int.sub_sub]
  · show c.sent ++ (c.msg.drop c.pos.toNat).take n = _
    rw [hsent, h.msg_eq, hpos, Int.toNat_natCast, List.take_add]
  · intro hdone
    rw [show c.ret = some 0 from hdone] at hret
    cases hret

/-- A round of `write_specied_len`. -/
theorem writeSpeciedLen (h : Sound msg c) {r : IoResult}
    (hs : c.step .writeSpeciedLen r = some c') : Sound msg c' := by
  unfold step at hs
  split at hs
  · rename_i hcall
    obtain ⟨hret, hpossible⟩ := hcall
    obtain rfl := Option.some.inj hs
    cases r with
    | moved n =>
      rw [writeSpeciedLen_moved c hpossible.1]
      exact (h.moved hret hpossible).loop
    | closed => exact h.fail
    | failed errno =>
      by_cases hother : errno = .other
      · rw [hother]
        exact h.fail
      · rw [writeSpeciedLen_again c hother]
        exact h.loop
  · cases hs

/-- A round of `send_control_cmd_data`. -/
theorem sendControlCmdData (h : Sound msg c) {r : IoResult}
    (hs : c.step .sendControlCmdData r = some c') : Sound msg c' := by
  unfold step at hs
  split at hs
  · rename_i hcall
    obtain ⟨hret, hpossible⟩ := hcall
    obtain rfl := Option.some.inj hs
    cases r with
    | moved n =>
      rw [sendControlCmdData_moved c hpossible.1]
      exact (h.moved hret hpossible).loop
    | closed => exact h.fail
    | failed errno => exact h.fail
  · cases hs

/-- When nothing is left, the message is written. -/
theorem whole (h : Sound msg c) (hret : c.ret = some 0) : c.sent = msg := by
  obtain ⟨done, -, hleft, hle, hsent⟩ := h.pos
  have hzero := h.ret hret
  rw [hsent, show done = msg.length by omega, List.take_length]

end WriteLoop.Sound

/-! ## The registration -/

namespace RegCall

variable {sendMsg incoming : List β} {mem : ℤ → β} {size : ℕ} {c c' : RegCall β}

/-- The invariant of `reg_communicate` as long as nothing is interrupted. -/
structure Sound (sendMsg incoming : List β) (size : ℕ) (c : RegCall β) : Prop where
  /-- The request. -/
  sendMsg_eq : c.sendMsg = sendMsg
  /-- The loop that reads. -/
  recv : c.recv.Sound incoming size
  /-- The loop has not ended before the request is written. -/
  waits : c.written = false → c.recv.ret = none
  /-- The request is written as a whole, or the function has failed. -/
  sent : c.written = true → c.sent = sendMsg ∨ c.recv.ret = some (-1)

/-- The function is called. -/
theorem Sound.start : Sound sendMsg incoming size (RegCall.start sendMsg mem incoming size) := by
  refine ⟨rfl, ⟨⟨0, rfl, (Int.sub_zero _).symm, Nat.zero_le _, rfl, Nat.zero_le _, fun i hi => ?_⟩,
    fun a ha => absurd ha List.not_mem_nil, nofun⟩, fun _ => rfl, nofun⟩
  exact absurd hi (Nat.not_lt_zero i)

/-- Every call that is not interrupted keeps the invariant. -/
theorem Sound.step (h : Sound sendMsg incoming size c) {r : IoResult} (hsmooth : c.Smooth r)
    (hs : c.step r = some c') : Sound sendMsg incoming size c' := by
  unfold RegCall.step at hs
  split at hs
  · -- a call of `read`
    rename_i hwritten
    rw [Smooth, if_pos hwritten] at hsmooth
    obtain ⟨recv, hrecv, rfl⟩ := Option.map_eq_some_iff.1 hs
    refine ⟨h.sendMsg_eq, h.recv.regCommunicate hsmooth.1 hsmooth.2 hrecv,
      fun hnot => absurd (hwritten.symm.trans hnot) (by decide), fun _ => ?_⟩
    rcases h.sent hwritten with hsent | hfailed
    · exact .inl hsent
    · rw [ReadLoop.step, if_neg fun hcall => by rw [hfailed] at hcall; cases hcall.1] at hrecv
      cases hrecv
  · rename_i hnot
    rw [Smooth, if_neg hnot] at hsmooth
    split at hs
    · split at hs
      · obtain rfl := Option.some.inj hs
        exact ⟨h.sendMsg_eq, h.recv.fail, nofun, fun _ => .inr rfl⟩
      · rename_i hsize
        obtain rfl := Option.some.inj hs
        refine ⟨h.sendMsg_eq, h.recv.loop, nofun, fun _ => .inl ?_⟩
        cases r with
        | moved n =>
          show c.sendMsg.take n = sendMsg
          rw [hsmooth n rfl, List.take_length, h.sendMsg_eq]
        | closed => exact absurd le_rfl hsize
        | failed errno => exact absurd (by decide : (-1 : ℤ) ≤ 0) hsize
    · cases hs

/-- The invariant holds in every run without interruptions. -/
theorem Sound.reachableUnder
    (hs : (system sendMsg mem incoming size).ReachableUnder Smooth c) :
    Sound sendMsg incoming size c := by
  refine Transition.System.invariant_under ?_ ?_ hs
  · rintro _ rfl
    exact Sound.start
  · intro _ _ _ ih hsmooth hstep
    exact ih.step hsmooth hstep

/-- When the function succeeds, the request was written as a whole and the answer is in the buffer;
and no byte is stored outside of the buffer. -/
structure Whole (sendMsg incoming : List β) (size : ℕ) (c : RegCall β) : Prop where
  /-- The request. -/
  sent : c.recv.ret = some 0 → c.sent = sendMsg
  /-- The answer. -/
  recv : c.recv.Whole incoming size

/-- The invariant says that the messages are whole. -/
theorem Sound.whole (h : Sound sendMsg incoming size c) : Whole sendMsg incoming size c := by
  refine ⟨fun hret => ?_, h.recv.whole⟩
  cases hwritten : c.written with
  | false =>
    rw [h.waits hwritten] at hret
    cases hret
  | true =>
    refine (h.sent hwritten).resolve_right fun hfailed => ?_
    rw [hfailed] at hret
    cases hret

end RegCall

/-! ## The four functions -/

/-- A return of `EINTR` from `read` moves neither the position nor what is left. -/
def ReadLoop.KeepsPlace (round : ReadLoop β → IoResult → ReadLoop β) (c : ReadLoop β) : Prop :=
  ∀ c', c.step round (.failed .eintr) = some c' → c'.pos = c.pos ∧ c'.left = c.left

/-- A return of `EINTR` from `write` moves neither the position nor what is left. -/
def WriteLoop.KeepsPlace (round : WriteLoop β → IoResult → WriteLoop β) (c : WriteLoop β) : Prop :=
  ∀ c', c.step round (.failed .eintr) = some c' → c'.pos = c.pos ∧ c'.left = c.left

/-- A return of `EINTR`, when it is `Smooth`, moves neither the position nor what is left. -/
def RegCall.KeepsPlace (c : RegCall β) : Prop :=
  c.Smooth (.failed .eintr) → ∀ c', c.step (.failed .eintr) = some c' →
    c'.recv.pos = c.recv.pos ∧ c'.recv.left = c.recv.left

/-- `read_specied_len` repeats an interrupted call. -/
theorem ReadLoop.keepsPlace_readSpeciedLen (c : ReadLoop β) : c.KeepsPlace .readSpeciedLen := by
  intro c' hs
  unfold step at hs
  split at hs
  · obtain rfl := Option.some.inj hs
    rw [readSpeciedLen_eintr, loop]
    split <;> exact ⟨rfl, rfl⟩
  · cases hs

/-- `write_specied_len` repeats an interrupted call. -/
theorem WriteLoop.keepsPlace_writeSpeciedLen (c : WriteLoop β) : c.KeepsPlace .writeSpeciedLen := by
  intro c' hs
  unfold step at hs
  split at hs
  · obtain rfl := Option.some.inj hs
    rw [writeSpeciedLen_again c (by decide), loop]
    split <;> exact ⟨rfl, rfl⟩
  · cases hs

/-- `send_control_cmd_data` fails when a call is interrupted. -/
theorem WriteLoop.keepsPlace_sendControlCmdData (c : WriteLoop β) :
    c.KeepsPlace .sendControlCmdData := by
  intro c' hs
  unfold step at hs
  split at hs
  · obtain rfl := Option.some.inj hs
    exact ⟨rfl, rfl⟩
  · cases hs

/-- `reg_communicate` fails when its `write` is interrupted. -/
theorem RegCall.keepsPlace (c : RegCall β) : c.KeepsPlace := by
  intro hsmooth c' hs
  unfold Smooth at hsmooth
  unfold step at hs
  split at hs
  · rename_i hwritten
    rw [if_pos hwritten] at hsmooth
    exact absurd rfl hsmooth.1
  · split at hs
    · obtain rfl := Option.some.inj hs
      exact ⟨rfl, rfl⟩
    · cases hs

/-- For every message and every sequence of results: when `read_specied_len`, `write_specied_len` or
`send_control_cmd_data` succeed, the message is whole, nothing is stored outside of the buffer, and
`EINTR` moves nothing. The same holds of `reg_communicate` in every run in which its one `write`
takes the whole request and no `read` returns `EINTR` or `EAGAIN`. -/
theorem transfers_whole (mem : ℤ → β) (msg sendMsg incoming : List β) (size : ℕ) :
    (∀ c, (ReadLoop.system .readSpeciedLen mem incoming size).Reachable c →
      c.Whole incoming size ∧ c.KeepsPlace .readSpeciedLen) ∧
    (∀ c, (WriteLoop.system .writeSpeciedLen msg).Reachable c →
      (c.ret = some 0 → c.sent = msg) ∧ c.KeepsPlace .writeSpeciedLen) ∧
    (∀ c, (WriteLoop.system .sendControlCmdData msg).Reachable c →
      (c.ret = some 0 → c.sent = msg) ∧ c.KeepsPlace .sendControlCmdData) ∧
    ∀ c, (RegCall.system sendMsg mem incoming size).ReachableUnder RegCall.Smooth c →
      c.Whole sendMsg incoming size ∧ c.KeepsPlace := by
  refine ⟨fun c hc => ?_, fun c hc => ?_, fun c hc => ?_, fun c hc => ?_⟩
  · have hsound : c.Sound incoming size := by
      refine Transition.System.invariant ?_ (fun _ _ _ _ ih hs => ih.readSpeciedLen hs) hc
      rintro _ rfl
      exact ReadLoop.Sound.start mem incoming size
    exact ⟨hsound.whole, c.keepsPlace_readSpeciedLen⟩
  · have hsound : c.Sound msg := by
      refine Transition.System.invariant ?_ (fun _ _ _ _ ih hs => ih.writeSpeciedLen hs) hc
      rintro _ rfl
      exact WriteLoop.Sound.start msg
    exact ⟨hsound.whole, c.keepsPlace_writeSpeciedLen⟩
  · have hsound : c.Sound msg := by
      refine Transition.System.invariant ?_ (fun _ _ _ _ ih hs => ih.sendControlCmdData hs) hc
      rintro _ rfl
      exact WriteLoop.Sound.start msg
    exact ⟨hsound.whole, c.keepsPlace_sendControlCmdData⟩
  · exact ⟨(RegCall.Sound.reachableUnder hc).whole, c.keepsPlace⟩

/-- A request of one byte and an answer of three bytes that comes in two parts. -/
theorem transfers_whole_parts :
    ∃ c, (RegCall.system [1] (fun _ => 0) [7, 8, 9] 3).ReachableUnder RegCall.Smooth c ∧
      c.recv.ret = some 0 ∧ c.Whole [1] [7, 8, 9] 3 := by
  have hc := Transition.System.reachableUnder_of_run
    (M := RegCall.system [1] (fun _ => 0) [7, 8, 9] 3) (C := RegCall.Smooth)
    (l := [.moved 1, .moved 2, .moved 1]) (.init rfl) rfl ?_
  · exact ⟨_, hc, rfl, ((transfers_whole (fun _ => 0) [] [1] [7, 8, 9] 3).2.2.2 _ hc).1⟩
  · refine fun _ hwrite => ⟨fun n hn => (IoResult.moved.inj hn).symm, ?_⟩
    obtain rfl := Option.some.inj hwrite
    refine fun _ hread => ⟨⟨nofun, nofun⟩, ?_⟩
    obtain rfl := Option.some.inj hread
    exact fun _ _ => ⟨⟨nofun, nofun⟩, trivial⟩

/-- A `read` of `reg_communicate` is interrupted, so the answer is stored one byte in front of the
buffer, and the function succeeds. -/
theorem not_transfers_whole :
    ¬ ∀ (sendMsg incoming : List ℕ) (mem : ℤ → ℕ) (size : ℕ) (c : RegCall ℕ),
      (RegCall.system sendMsg mem incoming size).Reachable c → c.Whole sendMsg incoming size := by
  intro hclaim
  have hwhole := hclaim [1] [7, 8] (fun _ => 0) 2 _ (Transition.System.reachable_of_run
    (l := [.moved 1, .failed .eintr, .moved 2]) (.init rfl) rfl)
  exact absurd (hwhole.recv.inside (-1) (by decide)).1 (by decide)

end Gazelle
