import Gazelle.Counter.Wrap
import Gazelle.Lists.Circular
import Gazelle.Transition.System

/-!
# The byte ring between two processes of a node

`gazelle_same_node_ring_send` and `gazelle_same_node_ring_recv` (`lstack_lwip.c`) on one
`struct same_node_ring`, whose data area has `2 ^ k` bytes. The sender only stores `sndend`, the
receiver only `sndbegin`; each loads the counter of the other one once in a call. The byte with the
number `i`, counted from 0, has the place `i + 1` in the area, and the counters never wrap: near the
end of their range the sender sees a full ring.

* `SameNodeRing.system`: all interleavings of the two, with every counter and every byte that is
  copied a step of its own;
* `SameNodeInv`: the area holds what was accepted and not received, and what the sender has copied;
* `same_node_ring_fifo`: the bytes are received in order, and none is overwritten before.
-/

namespace Gazelle

/-- `SAME_NODE_RING_LEN`. -/
def sameNodeRingLen (k : ℕ) : BitVec 64 := BitVec.ofNat 64 (2 ^ k)

/-- `SAME_NODE_RING_MASK`. -/
def sameNodeRingMask (k : ℕ) : BitVec 64 := BitVec.ofNat 64 (2 ^ k - 1)

/-- `RTE_MIN`. -/
def rteMin (x y : BitVec 64) : BitVec 64 := if x < y then x else y

/-- The bytes that `rte_memcpy` copies: their places in the buffer and in the area. -/
def rteMemcpy (buf area n : ℕ) : List (ℕ × ℕ) := (List.range n).map fun i => (buf + i, area + i)

/-- The copies of a call, in one piece or in two. -/
def ringCopies (k : ℕ) (index actLen : BitVec 64) : List (ℕ × ℕ) :=
  if sameNodeRingLen k < (index &&& sameNodeRingMask k) + actLen then
    let actLen1 := sameNodeRingLen k - (index &&& sameNodeRingMask k)
    let actLen2 := actLen - actLen1
    rteMemcpy 0 (index &&& sameNodeRingMask k).toNat actLen1.toNat ++
      rteMemcpy actLen1.toNat 0 actLen2.toNat
  else rteMemcpy 0 (index &&& sameNodeRingMask k).toNat actLen.toNat

/-- Where the sender stands. -/
inductive SendPc
  /-- Outside the function, with what the last call has returned. -/
  | idle (ret : Option (BitVec 64))
  /-- `sndbegin` is loaded. -/
  | loaded (buf : List (BitVec 8)) (curBegin : BitVec 64)
  /-- Some bytes are still to be copied, or `sndend` is to be stored. -/
  | copy (buf : List (BitVec 8)) (index actLen : BitVec 64) (rest : List (ℕ × ℕ))

/-- Where the receiver stands. -/
inductive RecvPc
  /-- Outside the function, with what the last call has returned. -/
  | idle (ret : Option (BitVec 64))
  /-- `sndbegin` is loaded. -/
  | loaded (len curBegin : BitVec 64)
  /-- Some bytes are still to be copied, or `sndbegin` is to be stored. -/
  | copy (buf : ℕ → BitVec 8) (index actLen : BitVec 64) (rest : List (ℕ × ℕ))

/-- The ring and its two users. -/
structure SameNodeRing where
  /-- `sndbegin`. -/
  sndbegin : BitVec 64
  /-- `sndend`. -/
  sndend : BitVec 64
  /-- The memory from `mz->addr` on. -/
  area : ℕ → BitVec 8
  /-- The sender. -/
  sender : SendPc
  /-- The receiver. -/
  receiver : RecvPc
  /-- Whether a copy has left the area. -/
  outOfBounds : Bool
  /-- The bytes that were accepted. -/
  accepted : List (BitVec 8)
  /-- The bytes that were received. -/
  received : List (BitVec 8)

/-- The steps. -/
inductive SameNodeAct
  /-- A call of `gazelle_same_node_ring_send`, which loads `sndbegin`. -/
  | send (buf : List (BitVec 8))
  /-- The sender goes on. -/
  | sender
  /-- A call of `gazelle_same_node_ring_recv`, which loads `sndbegin`. -/
  | recv (len : BitVec 64)
  /-- The receiver goes on. -/
  | receiver

namespace SameNodeRing

variable (k : ℕ) (s : SameNodeRing)

/-- `gazelle_same_node_ring_send` after its first load. -/
def sendStep : Option SameNodeRing :=
  match s.sender with
  | .idle _ => none
  | .loaded buf curBegin =>
    let curEnd := s.sndend
    if curBegin + sameNodeRingLen k ≤ curEnd then some { s with sender := .idle (some (-1)) }
    else
      let index := curEnd + 1
      let actLen := rteMin (sameNodeRingLen k - (curEnd - curBegin)) (BitVec.ofNat 64 buf.length)
      some { s with sender := .copy buf index actLen (ringCopies k index actLen) }
  | .copy buf index actLen ((i, place) :: rest) =>
    some { s with
      area := Function.update s.area place (buf.getD i 0)
      outOfBounds := s.outOfBounds || decide (2 ^ k ≤ place)
      sender := .copy buf index actLen rest }
  | .copy buf index actLen [] =>
    some { s with
      sndend := index + actLen - 1
      accepted := s.accepted ++ buf.take actLen.toNat
      sender := .idle (some (if actLen = 0 then -1 else actLen)) }

/-- `gazelle_same_node_ring_recv` after its first load. -/
def recvStep : Option SameNodeRing :=
  match s.receiver with
  | .idle _ => none
  | .loaded len curBegin =>
    let index := curBegin + 1
    let curEnd := s.sndend
    if curBegin = curEnd then some { s with receiver := .idle (some (-1)) }
    else
      let actLen := rteMin (curEnd - index + 1) len
      some { s with receiver := .copy (fun _ => 0) index actLen (ringCopies k index actLen) }
  | .copy buf index actLen ((i, place) :: rest) =>
    some { s with
      outOfBounds := s.outOfBounds || decide (2 ^ k ≤ place)
      receiver := .copy (Function.update buf i (s.area place)) index actLen rest }
  | .copy buf index actLen [] =>
    some { s with
      sndbegin := index + actLen - 1
      received := s.received ++ (List.range actLen.toNat).map buf
      receiver := .idle (some actLen) }

/-- All interleavings, from the counters that `create_same_node_ring` stores. -/
def system : Transition.System SameNodeRing SameNodeAct where
  Init s := ∃ area, s = ⟨0, 0, area, .idle none, .idle none, false, [], []⟩
  step s
    | .send buf =>
      match s.sender with
      | .idle _ =>
        if buf.length < 2 ^ 64 then some { s with sender := .loaded buf s.sndbegin } else none
      | _ => none
    | .sender => s.sendStep k
    | .recv len =>
      match s.receiver with
      | .idle _ => some { s with receiver := .loaded len s.sndbegin }
      | _ => none
    | .receiver => s.recvStep k

/-- The ring is a lossless queue of bytes. -/
structure Lossless (k : ℕ) (s : SameNodeRing) : Prop where
  /-- The bytes are received in the order in which they were accepted. -/
  isPrefix : s.received <+: s.accepted
  /-- The counters differ by the number of bytes between. -/
  count : (s.sndend - s.sndbegin).toNat = s.accepted.length - s.received.length
  /-- It is at most the length of the area. -/
  count_le : s.sndbegin.toNat ≤ s.sndend.toNat ∧ s.sndend.toNat - s.sndbegin.toNat ≤ 2 ^ k
  /-- All copies are inside the area. -/
  inside : s.outOfBounds = false
  /-- A byte that was accepted stays in its place until it is received. -/
  kept : ∀ i < s.accepted.length - s.received.length,
    s.accepted[s.received.length + i]? = some (s.area ((s.sndbegin.toNat + 1 + i) % 2 ^ k))

end SameNodeRing

/-! ## The places of the copies -/

variable {k : ℕ}

theorem toNat_sameNodeRingLen (hk : k < 64) : (sameNodeRingLen k).toNat = 2 ^ k := by
  rw [sameNodeRingLen, BitVec.toNat_ofNat, Nat.mod_eq_of_lt (Nat.pow_lt_pow_right (by decide) hk)]

/-- Both branches copy byte `i` from or to the place `index + i` of the ring. -/
theorem ringCopies_eq (hk : k < 64) {index actLen : BitVec 64} (hlen : actLen.toNat ≤ 2 ^ k) :
    ringCopies k index actLen =
      (List.range actLen.toNat).map fun i => (i, (index.toNat + i) % 2 ^ k) := by
  have hringLen := toNat_sameNodeRingLen hk
  have hplace : (index &&& sameNodeRingMask k).toNat = index.toNat % 2 ^ k :=
    WrapCounter.toNat_and_mask (by omega) index
  have hpow : 2 ^ k ≤ 2 ^ 63 := Nat.pow_le_pow_right (by decide) (by omega)
  have hlt : index.toNat % 2 ^ k < 2 ^ k := Nat.mod_lt _ (Nat.two_pow_pos k)
  have hmod : ∀ i, (index.toNat + i) % 2 ^ k = (index.toNat % 2 ^ k + i) % 2 ^ k :=
    fun i => (Nat.mod_add_mod ..).symm
  simp only [hmod]
  generalize index.toNat % 2 ^ k = r at hplace hlt
  generalize 2 ^ k = n at hringLen hpow hlt hlen
  have hsum : ((index &&& sameNodeRingMask k) + actLen).toNat = r + actLen.toNat := by
    rw [BitVec.toNat_add, hplace, Nat.mod_eq_of_lt (by omega)]
  simp only [ringCopies, BitVec.lt_def, hringLen, hsum]
  split
  · -- the second piece starts at the beginning of the area
    have hlen1 : (sameNodeRingLen k - (index &&& sameNodeRingMask k)).toNat = n - r := by
      rw [BitVec.toNat_sub_of_le (by rw [BitVec.le_def, hringLen, hplace]; omega), hringLen, hplace]
    have hlen2 : (actLen - (sameNodeRingLen k - (index &&& sameNodeRingMask k))).toNat =
        actLen.toNat - (n - r) := by
      rw [BitVec.toNat_sub_of_le (by rw [BitVec.le_def, hlen1]; omega), hlen1]
    have hsplit : actLen.toNat = (n - r) + (actLen.toNat - (n - r)) := by omega
    rw [hlen1, hlen2, hplace]
    conv_rhs => rw [hsplit, List.range_add, List.map_append, List.map_map]
    congr 1
    · refine List.map_congr_left fun i hi => ?_
      rw [List.mem_range] at hi
      rw [Nat.zero_add, Nat.mod_eq_of_lt (by omega : r + i < n)]
    · refine List.map_congr_left fun i hi => ?_
      rw [List.mem_range] at hi
      have hover : r + (n - r + i) = i + n := by omega
      rw [Function.comp_apply, hover, Nat.add_mod_right, Nat.mod_eq_of_lt (by omega : i < n),
        Nat.zero_add]
  · rw [hplace]
    refine List.map_congr_left fun i hi => ?_
    rw [List.mem_range] at hi
    rw [Nat.zero_add, Nat.mod_eq_of_lt (by omega : r + i < n)]

theorem length_ringCopies (hk : k < 64) {index actLen : BitVec 64} (hlen : actLen.toNat ≤ 2 ^ k) :
    (ringCopies k index actLen).length = actLen.toNat := by
  rw [ringCopies_eq hk hlen, List.length_map, List.length_range]

/-- The minimum is at most either number. -/
theorem toNat_rteMin_le (x y : BitVec 64) :
    (rteMin x y).toNat ≤ x.toNat ∧ (rteMin x y).toNat ≤ y.toNat := by
  unfold rteMin
  split <;> rename_i hlt <;> rw [BitVec.lt_def] at hlt <;> omega

/-- Bytes are counted from 0, and numbered from 1. -/
theorem add_one_add_sub_one (x y : BitVec 64) : x + 1 + y - 1 = x + y := by bv_omega

/-- The next copy. -/
theorem ringCopies_next (hk : k < 64) {index actLen : BitVec 64} (hlen : actLen.toNat ≤ 2 ^ k)
    {i place : ℕ} {rest : List (ℕ × ℕ)} (hrest : (i, place) :: rest <:+ ringCopies k index actLen) :
    i = actLen.toNat - ((i, place) :: rest).length ∧ i < actLen.toNat ∧
      place = (index.toNat + i) % 2 ^ k := by
  obtain ⟨done, hdone⟩ := hrest
  have hlength := congrArg List.length hdone
  rw [length_ringCopies hk hlen, List.length_append] at hlength
  have hget : (ringCopies k index actLen)[done.length]? = some (i, place) := by
    rw [← hdone, List.getElem?_append_right (Nat.le_refl _), Nat.sub_self]
    rfl
  rw [ringCopies_eq hk hlen, List.getElem?_map] at hget
  obtain ⟨j, hj, hpair⟩ := Option.map_eq_some_iff.1 hget
  obtain ⟨hlt, rfl⟩ := List.getElem?_eq_some_iff.1 hj
  rw [List.length_range] at hlt
  rw [List.getElem_range] at hpair
  obtain ⟨rfl, rfl⟩ := Prod.mk.inj hpair
  exact ⟨by omega, hlt, rfl⟩

/-! ## The invariant -/

/-- The bytes that the sender has copied and not announced. -/
def SendPc.written : SendPc → List (BitVec 8)
  | .copy buf _ actLen rest => buf.take (actLen.toNat - rest.length)
  | _ => []

namespace SameNodeRing

/-- The sender while it copies: there is room for all its bytes, also at the end of the counters. -/
structure SendCopy (k : ℕ) (s : SameNodeRing) (buf : List (BitVec 8)) (index actLen : BitVec 64)
    (rest : List (ℕ × ℕ)) : Prop where
  /-- The first byte has the next number. -/
  index_eq : index = s.sndend + 1
  /-- The counter will not wrap. -/
  lt : s.sndend.toNat + actLen.toNat < 2 ^ 64
  /-- The buffer has the bytes. -/
  le_length : actLen.toNat ≤ buf.length
  /-- There is room in the area. -/
  room : s.sndend.toNat + actLen.toNat ≤ s.sndbegin.toNat + 2 ^ k
  /-- Some of the copies are left. -/
  left : rest <:+ ringCopies k index actLen

/-- The receiver while it copies. -/
structure RecvCopy (k : ℕ) (s : SameNodeRing) (buf : ℕ → BitVec 8) (index actLen : BitVec 64)
    (rest : List (ℕ × ℕ)) : Prop where
  /-- The first byte is the first that was not received. -/
  index_eq : index = s.sndbegin + 1
  /-- All bytes were accepted. -/
  le : s.sndbegin.toNat + actLen.toNat ≤ s.sndend.toNat
  /-- Some of the copies are left. -/
  left : rest <:+ ringCopies k index actLen
  /-- The bytes that were copied. -/
  copied : ∀ i < actLen.toNat - rest.length,
    s.accepted[s.received.length + i]? = some (buf i)

/-- What the sender knows. -/
def SenderOk (k : ℕ) (s : SameNodeRing) : SendPc → Prop
  | .idle _ => True
  | .loaded buf curBegin => buf.length < 2 ^ 64 ∧ curBegin.toNat ≤ s.sndbegin.toNat
  | .copy buf index actLen rest => SendCopy k s buf index actLen rest

/-- What the receiver knows. -/
def ReceiverOk (k : ℕ) (s : SameNodeRing) : RecvPc → Prop
  | .idle _ => True
  | .loaded _ curBegin => curBegin = s.sndbegin
  | .copy buf index actLen rest => RecvCopy k s buf index actLen rest

/-- The counters count the bytes, and the area holds those that are not received and those that the
sender has copied. -/
structure SameNodeInv (k : ℕ) (s : SameNodeRing) : Prop where
  /-- `sndbegin` counts what is received. -/
  received : s.received.length = s.sndbegin.toNat
  /-- `sndend` counts what is accepted. -/
  accepted : s.accepted.length = s.sndend.toNat
  /-- `sndbegin` does not overtake `sndend`. -/
  le : s.sndbegin.toNat ≤ s.sndend.toNat
  /-- The bytes between fit the area. -/
  le_len : s.sndend.toNat ≤ s.sndbegin.toNat + 2 ^ k
  /-- The bytes are received in order. -/
  isPrefix : s.received <+: s.accepted
  /-- All copies are inside the area. -/
  inside : s.outOfBounds = false
  /-- What the area holds. -/
  holds : Circular.Holds (2 ^ k) (some ∘ s.area) ((s.sndbegin.toNat + 1) % 2 ^ k)
    (s.accepted.drop s.received.length ++ s.sender.written)
  /-- The sender. -/
  sender : SenderOk k s s.sender
  /-- The receiver. -/
  receiver : ReceiverOk k s s.receiver

variable {s s' : SameNodeRing}

/-- What the sender knows is about the counters. -/
theorem SenderOk.congr {pc : SendPc} (h : SenderOk k s pc) (hbegin : s'.sndbegin = s.sndbegin)
    (hend : s'.sndend = s.sndend) : SenderOk k s' pc := by
  cases pc with
  | idle _ => exact trivial
  | loaded _ _ => exact ⟨h.1, hbegin ▸ h.2⟩
  | copy _ _ _ _ =>
    exact ⟨hend ▸ h.index_eq, hend ▸ h.lt, h.le_length, hend ▸ hbegin ▸ h.room, h.left⟩

/-- What the receiver knows is about the counters and the bytes. -/
theorem ReceiverOk.congr {pc : RecvPc} (h : ReceiverOk k s pc) (hbegin : s'.sndbegin = s.sndbegin)
    (hend : s'.sndend = s.sndend) (haccepted : s'.accepted = s.accepted)
    (hreceived : s'.received = s.received) : ReceiverOk k s' pc := by
  cases pc with
  | idle _ => exact trivial
  | loaded _ _ => exact Eq.trans h hbegin.symm
  | copy _ _ _ _ =>
    refine ⟨hbegin ▸ h.index_eq, hbegin ▸ hend ▸ h.le, h.left, fun i hi => ?_⟩
    rw [haccepted, hreceived]
    exact h.copied i hi

/-- The bytes that are copied are the next ones. -/
theorem isPrefix_range {α : Type*} {l l' : List α} {f : ℕ → α} {n : ℕ} (h : l <+: l')
    (hf : ∀ i < n, l'[l.length + i]? = some (f i)) : l ++ (List.range n).map f <+: l' := by
  induction n with
  | zero => simpa using h
  | succ n ih =>
    obtain ⟨rest, rfl⟩ := ih fun i hi => hf i (Nat.lt_succ_of_lt hi)
    have hnext := hf n (Nat.lt_succ_self n)
    rw [List.append_assoc, List.getElem?_append_right (Nat.le_add_right _ _),
      Nat.add_sub_cancel_left, List.getElem?_append_right (by simp), List.length_map,
      List.length_range, Nat.sub_self] at hnext
    obtain ⟨rest', rfl⟩ : ∃ rest', rest = f n :: rest' := by
      cases rest with
      | nil => cases hnext
      | cons x rest' => exact ⟨rest', by rw [← Option.some.inj hnext]⟩
    refine ⟨rest', ?_⟩
    rw [List.range_succ, List.map_append]
    simp

namespace SameNodeInv

variable (h : SameNodeInv k s)

include h

/-- The bytes that are not received. -/
theorem length_drop : (s.accepted.drop s.received.length).length =
    s.sndend.toNat - s.sndbegin.toNat := by
  rw [List.length_drop, h.accepted, h.received]

/-- The sender copies a byte. -/
theorem copyIn (hk : k < 64) {buf : List (BitVec 8)} {index actLen : BitVec 64} {i place : ℕ}
    {rest : List (ℕ × ℕ)} (hsender : s.sender = .copy buf index actLen ((i, place) :: rest)) :
    SameNodeInv k { s with
      area := Function.update s.area place (buf.getD i 0)
      outOfBounds := s.outOfBounds || decide (2 ^ k ≤ place)
      sender := .copy buf index actLen rest } := by
  have hok : SendCopy k s buf index actLen ((i, place) :: rest) := by
    have hok := h.sender
    rwa [hsender] at hok
  have hle : actLen.toNat ≤ 2 ^ k := by
    have := hok.room
    have := h.le
    omega
  obtain ⟨hi, hlt, hplace⟩ := ringCopies_next hk hle hok.left
  rw [List.length_cons] at hi
  have hindex : index.toNat = s.sndend.toNat + 1 := by
    have := hok.lt
    rw [hok.index_eq, BitVec.toNat_add]
    exact Nat.mod_eq_of_lt (by simp; omega)
  have hlength := h.length_drop
  have hwritten : s.sender.written = buf.take i := by
    rw [hsender, hi]
    rfl
  have hbuf : i < buf.length := Nat.lt_of_lt_of_le hlt hok.le_length
  -- the byte goes behind the bytes that the area holds
  have hend : ((s.sndbegin.toNat + 1) % 2 ^ k +
      (s.accepted.drop s.received.length ++ s.sender.written).length) % 2 ^ k = place := by
    rw [hplace, hindex, Nat.mod_add_mod, List.length_append, hlength, hwritten, List.length_take,
      Nat.min_eq_left hbuf.le]
    congr 1
    have := h.le
    omega
  have hroom : (s.accepted.drop s.received.length ++ s.sender.written).length < 2 ^ k := by
    rw [List.length_append, hlength, hwritten, List.length_take, Nat.min_eq_left hbuf.le]
    have := hok.room
    have := h.le
    omega
  have hholds := h.holds.snoc (x := buf.getD i 0) hroom
  have hnew : buf.take (actLen.toNat - rest.length) = buf.take i ++ [buf.getD i 0] := by
    have hsucc : actLen.toNat - rest.length = i + 1 := by
      have := hok.left.length_le
      rw [length_ringCopies hk hle, List.length_cons] at this
      omega
    rw [hsucc, List.take_succ_eq_append_getElem hbuf, List.getD_eq_getElem _ _ hbuf]
  exact {
    received := h.received
    accepted := h.accepted
    le := h.le
    le_len := h.le_len
    isPrefix := h.isPrefix
    inside := by
      have hin : place < 2 ^ k := hplace ▸ Nat.mod_lt _ (Nat.two_pow_pos k)
      simp [h.inside, hin]
    holds := by
      rw [hend, ← Function.comp_update, List.append_assoc, hwritten, ← hnew] at hholds
      exact hholds
    sender := ⟨hok.index_eq, hok.lt, hok.le_length, hok.room,
      (List.suffix_cons _ _).trans hok.left⟩
    receiver := h.receiver.congr rfl rfl rfl rfl }

/-- The sender announces the bytes that it has copied. -/
theorem announce {buf : List (BitVec 8)} {index actLen : BitVec 64}
    (hsender : s.sender = .copy buf index actLen []) :
    SameNodeInv k { s with
      sndend := index + actLen - 1
      accepted := s.accepted ++ buf.take actLen.toNat
      sender := .idle (some (if actLen = 0 then -1 else actLen)) } := by
  obtain ⟨rfl, hlt, hle_length, hroom, -⟩ : SenderOk k s (.copy buf index actLen []) :=
    hsender ▸ h.sender
  -- the counter counts all bytes and does not wrap here
  have hend : (s.sndend + 1 + actLen - 1).toNat = s.sndend.toNat + actLen.toNat := by
    rw [add_one_add_sub_one, BitVec.toNat_add, Nat.mod_eq_of_lt hlt]
  -- all bytes are in the ring, only the counter is behind
  have hwritten : s.sender.written = buf.take actLen.toNat := by rw [hsender]; rfl
  have hle := h.le
  have hprefix : s.received.length ≤ s.accepted.length := h.isPrefix.length_le
  exact {
    received := h.received
    accepted := by
      rw [List.length_append, List.length_take, Nat.min_eq_left hle_length, hend, h.accepted]
    le := by simp only [hend]; omega
    le_len := by rw [hend]; exact hroom
    isPrefix := h.isPrefix.trans (List.prefix_append _ _)
    inside := h.inside
    -- the bytes written behind the counter are now before it
    holds := by
      have hholds := h.holds
      rw [hwritten, ← List.drop_append_of_le_length hprefix] at hholds
      simpa only [SendPc.written, List.append_nil] using hholds
    sender := trivial
    -- the receiver copies from what was announced before
    receiver := by
      have hreceiver := h.receiver
      revert hreceiver
      cases s.receiver with
      | idle _ | loaded _ _ => exact id
      | copy buf' index' actLen' rest' =>
        intro hok
        refine ⟨hok.index_eq, ?_, hok.left, fun i hi => ?_⟩
        · have := hok.le
          simp only [hend]
          omega
        · have hcopied := hok.copied i hi
          rw [List.getElem?_append_left (List.getElem?_eq_some_iff.1 hcopied).1]
          exact hcopied }

/-- The receiver gives the places of the bytes that it has copied back. -/
theorem release {buf : ℕ → BitVec 8} {index actLen : BitVec 64}
    (hreceiver : s.receiver = .copy buf index actLen []) :
    SameNodeInv k { s with
      sndbegin := index + actLen - 1
      received := s.received ++ (List.range actLen.toNat).map buf
      receiver := .idle (some actLen) } := by
  obtain ⟨rfl, hle, -, hcopied⟩ : ReceiverOk k s (.copy buf index actLen []) :=
    hreceiver ▸ h.receiver
  -- the counter of the receiver is at most that of the sender
  have hbegin : (s.sndbegin + 1 + actLen - 1).toNat = s.sndbegin.toNat + actLen.toNat := by
    have := s.sndend.isLt
    rw [add_one_add_sub_one, BitVec.toNat_add, Nat.mod_eq_of_lt (by omega)]
  have hlength := h.length_drop
  have hle_len := h.le_len
  exact {
    received := by
      rw [List.length_append, List.length_map, List.length_range, hbegin, h.received]
    accepted := h.accepted
    le := by rw [hbegin]; exact hle
    le_len := by simp only [hbegin]; omega
    isPrefix := isPrefix_range h.isPrefix fun i hi => hcopied i hi
    inside := h.inside
    -- the places given back hold nothing any more
    holds := by
      have hholds := h.holds.drop actLen.toNat
      rw [List.drop_append_of_le_length (by omega), List.drop_drop, Nat.mod_add_mod,
        Nat.add_right_comm, ← hbegin] at hholds
      rw [List.length_append, List.length_map, List.length_range]
      exact hholds
    -- the sender has at least the room that it has seen
    sender := by
      have hsender := h.sender
      revert hsender
      cases s.sender with
      | idle _ => exact id
      | loaded _ _ =>
        refine fun hok => ⟨hok.1, ?_⟩
        have := hok.2
        simp only [hbegin]
        omega
      | copy _ _ _ _ =>
        refine fun hok => ⟨hok.index_eq, hok.lt, hok.le_length, ?_, hok.left⟩
        have := hok.room
        simp only [hbegin]
        omega
    receiver := trivial }

/-- The sender goes on. -/
theorem sendStep (hk : k < 64) (hs : s.sendStep k = some s') : SameNodeInv k s' := by
  simp only [SameNodeRing.sendStep] at hs
  split at hs
  · cases hs
  · rename_i buf curBegin hsender
    obtain ⟨hbuf, hbegin⟩ : SenderOk k s (.loaded buf curBegin) := hsender ▸ h.sender
    have hwritten : s.sender.written = [] := by rw [hsender]; rfl
    have hlen := toNat_sameNodeRingLen hk
    have hpow : 2 ^ k ≤ 2 ^ 63 := Nat.pow_le_pow_right (by decide) (by omega)
    have hle := h.le
    have hle_len := h.le_len
    split at hs
    · obtain rfl := Option.some.inj hs
      exact { h with
        holds := by
          have hholds := h.holds
          rwa [hwritten] at hholds
        sender := trivial
        receiver := h.receiver.congr rfl rfl rfl rfl }
    · rename_i hroom
      obtain rfl := Option.some.inj hs
      -- had the sum wrapped, it would be below `sndend`
      have hsum : (curBegin + sameNodeRingLen k).toNat = curBegin.toNat + 2 ^ k := by
        rw [BitVec.le_def, BitVec.toNat_add, hlen] at hroom
        rw [BitVec.toNat_add, hlen]
        refine Nat.mod_eq_of_lt ?_
        by_contra hwrap
        have := curBegin.isLt
        omega
      have hlt : s.sndend.toNat < curBegin.toNat + 2 ^ k := by
        rw [BitVec.le_def, hsum] at hroom
        omega
      have hdiff : (s.sndend - curBegin).toNat = s.sndend.toNat - curBegin.toNat :=
        BitVec.toNat_sub_of_le (BitVec.le_def.2 (Nat.le_trans hbegin hle))
      have hspace : (sameNodeRingLen k - (s.sndend - curBegin)).toNat =
          2 ^ k - (s.sndend.toNat - curBegin.toNat) := by
        rw [BitVec.toNat_sub_of_le (by rw [BitVec.le_def, hlen, hdiff]; omega), hlen, hdiff]
      have hnum : (BitVec.ofNat 64 buf.length).toNat = buf.length := by
        rw [BitVec.toNat_ofNat, Nat.mod_eq_of_lt hbuf]
      set actLen := rteMin (sameNodeRingLen k - (s.sndend - curBegin))
        (BitVec.ofNat 64 buf.length) with hact
      obtain ⟨hactSpace, hactBuf⟩ := toNat_rteMin_le (sameNodeRingLen k - (s.sndend - curBegin))
        (BitVec.ofNat 64 buf.length)
      rw [← hact, hspace] at hactSpace
      rw [← hact, hnum] at hactBuf
      have hsumLt := (curBegin + sameNodeRingLen k).isLt
      rw [hsum] at hsumLt
      have hnowrap : s.sndend.toNat + actLen.toNat < 2 ^ 64 := by omega
      have hfit : s.sndend.toNat + actLen.toNat ≤ s.sndbegin.toNat + 2 ^ k := by omega
      have hnone : SendPc.written (.copy buf (s.sndend + 1) actLen
          (ringCopies k (s.sndend + 1) actLen)) = [] := by
        rw [SendPc.written, length_ringCopies hk (by omega), Nat.sub_self, List.take_zero]
      exact { h with
        holds := by
          have hholds := h.holds
          rwa [hwritten, ← hnone] at hholds
        sender := ⟨rfl, hnowrap, hactBuf, hfit, List.suffix_rfl⟩
        receiver := h.receiver.congr rfl rfl rfl rfl }
  · rename_i buf index actLen i place rest hsender
    obtain rfl := Option.some.inj hs
    exact h.copyIn hk hsender
  · rename_i buf index actLen hsender
    obtain rfl := Option.some.inj hs
    exact h.announce hsender

/-- The receiver copies a byte. -/
theorem copyOut (hk : k < 64) {buf : ℕ → BitVec 8} {index actLen : BitVec 64} {i place : ℕ}
    {rest : List (ℕ × ℕ)} (hreceiver : s.receiver = .copy buf index actLen ((i, place) :: rest)) :
    SameNodeInv k { s with
      outOfBounds := s.outOfBounds || decide (2 ^ k ≤ place)
      receiver := .copy (Function.update buf i (s.area place)) index actLen rest } := by
  obtain ⟨hindex, hle, hleft, hcopied⟩ :
      ReceiverOk k s (.copy buf index actLen ((i, place) :: rest)) := hreceiver ▸ h.receiver
  have hle_len := h.le_len
  have hact : actLen.toNat ≤ 2 ^ k := by omega
  obtain ⟨hi, hlt, hplace⟩ := ringCopies_next hk hact hleft
  rw [List.length_cons] at hi hcopied
  have hlength := h.length_drop
  have hindex' : index.toNat = s.sndbegin.toNat + 1 := by
    have := s.sndend.isLt
    rw [hindex, BitVec.toNat_add]
    exact Nat.mod_eq_of_lt (by simp; omega)
  have hi' : i < (s.accepted.drop s.received.length).length := by omega
  -- the byte is in the area
  have hbyte : s.accepted[s.received.length + i]? = some (s.area place) := by
    have hget := h.holds.get (i := i) (by rw [List.length_append]; omega)
    rw [Nat.mod_add_mod, ← hindex', ← hplace, List.getElem_append_left hi', List.getElem_drop]
      at hget
    rw [List.getElem?_eq_getElem (by rw [List.length_drop] at hi'; omega)]
    exact hget.symm
  exact { h with
    inside := by
      have hin : place < 2 ^ k := hplace ▸ Nat.mod_lt _ (Nat.two_pow_pos k)
      simp [h.inside, hin]
    sender := h.sender.congr rfl rfl
    receiver := by
      refine ⟨hindex, hle, (List.suffix_cons _ _).trans hleft, fun j hj => ?_⟩
      by_cases hji : j = i
      · rw [hji, Function.update_self]
        exact hbyte
      · rw [Function.update_of_ne hji]
        exact hcopied j (by omega) }

/-- The receiver goes on. -/
theorem recvStep (hk : k < 64) (hs : s.recvStep k = some s') : SameNodeInv k s' := by
  have hle := h.le
  simp only [SameNodeRing.recvStep] at hs
  split at hs
  · cases hs
  · rename_i len curBegin hreceiver
    -- the receiver has loaded `sndbegin` and nobody else writes it
    obtain rfl : ReceiverOk k s (.loaded len curBegin) := hreceiver ▸ h.receiver
    split at hs
    · -- nothing is there
      obtain rfl := Option.some.inj hs
      exact { h with
        sender := h.sender.congr rfl rfl
        receiver := trivial }
    · rename_i hne
      obtain rfl := Option.some.inj hs
      -- the number of bytes is the difference of the two counters
      have hcount : (s.sndend - (s.sndbegin + 1) + 1).toNat =
          s.sndend.toNat - s.sndbegin.toNat := by
        have hsub : s.sndend - (s.sndbegin + 1) + 1 = s.sndend - s.sndbegin := by bv_omega
        rw [hsub, BitVec.toNat_sub_of_le (BitVec.le_def.2 hle)]
      have hact := (toNat_rteMin_le (s.sndend - (s.sndbegin + 1) + 1) len).1
      rw [hcount] at hact
      have hle_len := h.le_len
      exact { h with
        sender := h.sender.congr rfl rfl
        receiver := by
          -- nothing of them is copied yet
          refine ⟨rfl, by dsimp only; omega, List.suffix_rfl, fun i hi => ?_⟩
          rw [length_ringCopies hk (by omega), Nat.sub_self] at hi
          exact absurd hi (Nat.not_lt_zero i) }
  · rename_i buf index actLen i place rest hreceiver
    obtain rfl := Option.some.inj hs
    exact h.copyOut hk hreceiver
  · rename_i buf index actLen hreceiver
    obtain rfl := Option.some.inj hs
    exact h.release hreceiver

/-- Each step keeps the invariant. -/
theorem step (hk : k < 64) {a : SameNodeAct} (hs : (system k).step s a = some s') :
    SameNodeInv k s' := by
  cases a with
  | send buf =>
    simp only [system] at hs
    split at hs
    swap
    · cases hs
    rename_i ret hsender
    split at hs
    swap
    · cases hs
    rename_i hbuf
    obtain rfl := Option.some.inj hs
    exact { h with
      holds := by
        have hholds := h.holds
        rwa [hsender] at hholds
      sender := ⟨hbuf, Nat.le_refl _⟩
      receiver := h.receiver.congr rfl rfl rfl rfl }
  | sender => exact h.sendStep hk hs
  | recv len =>
    simp only [system] at hs
    split at hs
    swap
    · cases hs
    obtain rfl := Option.some.inj hs
    exact { h with
      sender := h.sender.congr rfl rfl
      receiver := rfl }
  | receiver => exact h.recvStep hk hs

/-- The ring is a lossless queue. -/
theorem lossless : Lossless k s where
  isPrefix := h.isPrefix
  count := by
    rw [BitVec.toNat_sub_of_le (BitVec.le_def.2 h.le), h.accepted, h.received]
  count_le := ⟨h.le, Nat.sub_le_iff_le_add'.2 h.le_len⟩
  inside := h.inside
  kept i hi := by
    have hi' : i < (s.accepted.drop s.received.length).length := by rwa [List.length_drop]
    have hget := h.holds.get (i := i) (by rw [List.length_append]; omega)
    rw [Nat.mod_add_mod, List.getElem_append_left hi', List.getElem_drop] at hget
    rw [List.getElem?_eq_getElem (by omega)]
    exact hget.symm

end SameNodeInv

/-- The ring after `create_same_node_ring` has the invariant. -/
theorem SameNodeInv.init (hs : (system k).Init s) : SameNodeInv k s := by
  obtain ⟨area, rfl⟩ := hs
  exact {
    received := rfl
    accepted := rfl
    le := Nat.le_refl _
    le_len := Nat.zero_le _
    isPrefix := List.prefix_rfl
    inside := rfl
    holds := Circular.Holds.nil
    sender := trivial
    receiver := trivial }

/-- In all interleavings of a sender and a receiver the ring is a lossless queue of bytes. -/
theorem same_node_ring_fifo (hk : k < 64) (hs : (system k).Reachable s) : Lossless k s :=
  (Transition.System.invariant (fun _ => SameNodeInv.init) (fun _ _ _ _ h hs => h.step hk hs)
    hs).lossless

/-- The ring before any call. -/
private def emptyRing : SameNodeRing := ⟨0, 0, fun _ => 0, .idle none, .idle none, false, [], []⟩

/-- Three bytes go through a ring of four, and then three more, in two pieces, of which two are
received. -/
private def sixBytes : List SameNodeAct :=
  .send [1, 2, 3] :: List.replicate 5 .sender ++ .recv 3 :: List.replicate 5 .receiver ++
    .send [4, 5, 6] :: List.replicate 5 .sender ++ .recv 2 :: List.replicate 4 .receiver

/-- The bytes arrive in order. -/
theorem same_node_ring_fifo_four :
    ∃ s, (system 2).Reachable s ∧ s.received = [1, 2, 3, 4, 5] ∧ s.sndend = 6 ∧ Lossless 2 s := by
  have hrun : ((system 2).run emptyRing sixBytes).any (fun s =>
      s.received = [1, 2, 3, 4, 5] ∧ s.sndend = 6) = true := by
    decide +kernel
  obtain ⟨s, hs, hstate⟩ := (Option.any_eq_true _ _).1 hrun
  obtain ⟨hreceived, hend⟩ := of_decide_eq_true hstate
  have hreach := Transition.System.reachable_of_run (.init (M := system 2) ⟨_, rfl⟩) hs
  exact ⟨s, hreach, hreceived, hend, same_node_ring_fifo (by decide) hreach⟩

end SameNodeRing

end Gazelle
