import Gazelle.Ring.Interleaving
import Gazelle.Ring.ZoneFifo

/-!
# The gazelle ring refines a FIFO with three zones

`RingInv` relates the four wrapping counters to the histories: each counter shows the length of
one history, counted from the start value. A thread may act on a stale copy of the other
thread's counter; the copy then shows an earlier length, and lengths only grow, so what the
thread concludes from it stays true.

* `RingInv.reachable`: the invariant holds in every interleaving;
* `simulation`: every interleaving is simulated by `ZoneFifo`, one operation for each store
  of a counter;
* `ring_refines_zoneFifo`: the properties of the ring that its callers rely on.
-/

namespace Gazelle

open WrapCounter

namespace RingSys

variable {α : Type*} {k : ℕ} {start : U32}

/-- What the owner's local variables say about the ring. -/
def OwnerInv (k : ℕ) (start : U32) (s : RingSys α) : OwnerPc α → Prop
  | .enqLoadHead objTable => objTable.length < 2 ^ 32
  | .enqLoadTail objTable head => objTable.length < 2 ^ 32 ∧ head = s.ring.cons.head
  | .enqCopy objTable head i =>
    head = s.ring.cons.head ∧ i ≤ objTable.length ∧
      s.accepted.length + objTable.length ≤ s.dequeued.length + (2 ^ k - 1) ∧
      ∀ j (h : j < objTable.length), j < i →
        s.ring.get (start + BitVec.ofNat 32 (s.accepted.length + j)) = objTable[j]
  | .deqLoadCons _ prod =>
    ∃ p, Shows start prod p ∧ s.dequeued.length ≤ p ∧ p ≤ s.confirmed.length
  | .deqCopy n cons got =>
    cons = s.ring.cons.tail ∧ s.dequeued.length + n.toNat ≤ s.confirmed.length ∧
      got.length ≤ n.toNat ∧ got <+: s.accepted.drop s.dequeued.length
  | _ => True

/-- What the reader's local variables say about the ring. -/
def ReaderInv (start : U32) (s : RingSys α) : ReaderPc α → Prop
  | .readLoadProd _ cons =>
    ∃ c, Shows start cons c ∧ s.readOut.length ≤ c ∧ c ≤ s.accepted.length
  | .readCopy n prod got =>
    prod = s.ring.prod.head ∧ s.readOut.length + n.toNat ≤ s.accepted.length ∧
      got.length ≤ n.toNat ∧ got <+: s.accepted.drop s.readOut.length
  | .overStore head => head = s.ring.prod.head
  | _ => True

/-- The invariant of a ring of `2 ^ k` slots whose counters started at `start`. -/
structure RingInv (k : ℕ) (start : U32) (s : RingSys α) : Prop where
  /-- The mask is the one of the creation. -/
  mask : s.ring.mask = BitVec.ofNat 32 (2 ^ k - 1)
  /-- The capacity is the one of the creation. -/
  capacity : s.ring.capacity = BitVec.ofNat 32 (2 ^ k - 1)
  /-- `cons.tail` counts the objects dequeued. -/
  consTail : Shows start s.ring.cons.tail s.dequeued.length
  /-- `prod.tail` counts the objects confirmed. -/
  prodTail : Shows start s.ring.prod.tail s.confirmed.length
  /-- `prod.head` counts the objects handed out. -/
  prodHead : Shows start s.ring.prod.head s.readOut.length
  /-- `cons.head` counts the objects accepted. -/
  consHead : Shows start s.ring.cons.head s.accepted.length
  /-- Objects are dequeued in the order they were confirmed. -/
  dequeued_prefix : s.dequeued <+: s.confirmed
  /-- Objects are confirmed in the order they were handed out. -/
  confirmed_prefix : s.confirmed <+: s.readOut
  /-- Objects are handed out in the order they were accepted. -/
  readOut_prefix : s.readOut <+: s.accepted
  /-- The ring never holds more than its capacity. -/
  fits : s.accepted.length ≤ s.dequeued.length + (2 ^ k - 1)
  /-- The objects in the ring are in their slots. -/
  holds : ∀ i (h : i < s.accepted.length), s.dequeued.length ≤ i →
    s.ring.get (start + BitVec.ofNat 32 i) = s.accepted[i]
  /-- The owner's local variables are right. -/
  owner : OwnerInv k start s s.owner
  /-- The reader's local variables are right. -/
  reader : ReaderInv start s s.reader

/-- The capacity of the ring as a number. -/
theorem capacity_toNat (hk : k ≤ 31) : (BitVec.ofNat 32 (2 ^ k - 1)).toNat = 2 ^ k - 1 := by
  have hpow : 2 ^ k ≤ 2 ^ 31 := Nat.pow_le_pow_right Nat.two_pos hk
  rw [BitVec.toNat_ofNat, Nat.mod_eq_of_lt (by omega)]

/-- A freshly created ring satisfies the invariant. -/
theorem RingInv.create (k : ℕ) (start : U32) (slots : U32 → α) :
    RingInv k start (create k start slots) := by
  constructor <;> simp [RingSys.create, RteRing.create, OwnerInv, ReaderInv]

/-- Writing the slot of one count leaves the slot of another count alone, when the two are less
than a ring apart. -/
theorem get_set_of_near (hk : k ≤ 31) {r : RteRing α}
    (hmask : r.mask = BitVec.ofNat 32 (2 ^ k - 1)) {m n : ℕ} (x : α) (hlt : n < m)
    (hnear : m - n < 2 ^ k) :
    (r.set (start + BitVec.ofNat 32 m) x).get (start + BitVec.ofNat 32 n) =
      r.get (start + BitVec.ofNat 32 n) := by
  apply RteRing.get_set_of_ne
  rw [RteRing.slotOf, RteRing.slotOf, hmask]
  have hn : Shows start (start + BitVec.ofNat 32 n) n := rfl
  exact hn.slot_ne (by omega) rfl hlt hnear

section Lengths

variable {s : RingSys α} (h : RingInv k start s)

include h

/-- Dequeued objects were confirmed. -/
theorem RingInv.dequeued_le : s.dequeued.length ≤ s.confirmed.length :=
  h.dequeued_prefix.length_le

/-- Confirmed objects were handed out. -/
theorem RingInv.confirmed_le : s.confirmed.length ≤ s.readOut.length :=
  h.confirmed_prefix.length_le

/-- Objects handed out were accepted. -/
theorem RingInv.readOut_le : s.readOut.length ≤ s.accepted.length :=
  h.readOut_prefix.length_le

end Lengths

/-- A prefix of the objects from position `n` on, extended by the object found in the slot at
its end. -/
theorem prefix_drop_concat {l got : List α} {n : ℕ} {x : α} (h : got <+: l.drop n)
    (hlt : n + got.length < l.length) (hx : x = l[n + got.length]) :
    got ++ [x] <+: l.drop n := by
  have hlt' : got.length < (l.drop n).length := by rw [List.length_drop]; omega
  have hget : (l.drop n)[got.length] = x := by rw [List.getElem_drop, hx]
  rw [List.prefix_iff_eq_take.1 h, ← hget]
  rw [List.take_concat_get' _ _ hlt']
  exact List.take_prefix _ _

/-- Appending the objects copied from position `l.length` on to a prefix `l` of the log. -/
theorem append_prefix_of_drop {l log got : List α} (h : l <+: log)
    (hgot : got <+: log.drop l.length) : l ++ got <+: log := by
  obtain ⟨rest, rfl⟩ := h
  rw [List.drop_left] at hgot
  exact (List.prefix_append_right_inj l).2 hgot

/-- The number of objects that a load of the far counter shows to be available, clamped to the
number asked for. -/
theorem clamp_toNat {n near far : U32} {a b : ℕ} (hnear : Shows start near a)
    (hfar : Shows start far b) (hle : a ≤ b) (hlt : b - a < 2 ^ 32) :
    a + (RteRing.clamp n (far - near)).toNat ≤ b := by
  have hdiff : (far - near).toNat = b - a := hnear.toNat_sub hfar hle hlt
  unfold RteRing.clamp
  split_ifs with hgt
  · omega
  · rw [gt_iff_lt, BitVec.not_lt, BitVec.le_def, hdiff] at hgt
    omega

section Steps

variable {s s' : RingSys α} (hk : k ≤ 31) (h : RingInv k start s)

include h

/-- A step that only moves the owner keeps the invariant if its new local variables are right. -/
theorem RingInv.setOwner {pc : OwnerPc α} (hpc : OwnerInv k start s pc) :
    RingInv k start { s with owner := pc } :=
  { h with
    owner := by cases pc <;> exact hpc
    reader := by have := h.reader; revert this; cases s.reader <;> exact id }

/-- A step that only moves the reader keeps the invariant if its new local variables are
right. -/
theorem RingInv.setReader {pc : ReaderPc α} (hpc : ReaderInv start s pc) :
    RingInv k start { s with reader := pc } :=
  { h with
    owner := by have := h.owner; revert this; cases s.owner <;> exact id
    reader := by cases pc <;> exact hpc }

include hk

/-- The room that `gazelle_ring_sp_enqueue` computes is the room there is. -/
theorem RingInv.room_toNat :
    (s.ring.capacity + s.ring.cons.tail - s.ring.cons.head).toNat =
      2 ^ k - 1 - (s.accepted.length - s.dequeued.length) := by
  have hcap : s.ring.capacity.toNat = 2 ^ k - 1 := by rw [h.capacity, capacity_toNat hk]
  have hle := h.dequeued_le
  have hle' := h.confirmed_le
  have hle'' := h.readOut_le
  have hfits := h.fits
  rw [h.consTail.toNat_room h.consHead (by omega) (by omega), hcap]

/-- The owner finds room for its table. -/
theorem RingInv.enqRoom {objTable : List α} (hlen : objTable.length < 2 ^ 32)
    (hroom : ¬ BitVec.ofNat 32 objTable.length >
      s.ring.capacity + s.ring.cons.tail - s.ring.cons.head) :
    s.accepted.length + objTable.length ≤ s.dequeued.length + (2 ^ k - 1) := by
  have hle := h.dequeued_le
  have hle' := h.confirmed_le
  have hle'' := h.readOut_le
  have hfits := h.fits
  rw [gt_iff_lt, BitVec.not_lt, BitVec.le_def, h.room_toNat hk, BitVec.toNat_ofNat,
    Nat.mod_eq_of_lt hlen] at hroom
  omega

/-- Copying one object of the table into its slot keeps the invariant. -/
theorem RingInv.enqWrite {objTable : List α} {head : U32} {i : ℕ} {x : α}
    (hpc : s.owner = .enqCopy objTable head i) (hx : objTable[i]? = some x) :
    RingInv k start { s with
      ring := s.ring.set (head + BitVec.ofNat 32 i) x
      owner := .enqCopy objTable head (i + 1) } := by
  have howner := h.owner
  rw [hpc] at howner
  obtain ⟨hhead, hi, hroom, hcopied⟩ := howner
  obtain ⟨hilt, hxi⟩ := List.getElem?_eq_some_iff.1 hx
  have hpos : head + BitVec.ofNat 32 i = start + BitVec.ofNat 32 (s.accepted.length + i) := by
    rw [hhead]
    exact (h.consHead.add i).unique rfl
  have hpow : 0 < 2 ^ k := Nat.two_pow_pos k
  have hle := h.dequeued_le
  have hle' := h.confirmed_le
  have hle'' := h.readOut_le
  refine { h with mask := h.mask, holds := ?_, owner := ?_, reader := ?_ }
  · intro j (hj : j < s.accepted.length) (hdeq : s.dequeued.length ≤ j)
    simp only [hpos]
    rw [get_set_of_near hk h.mask x (by omega) (by omega)]
    exact h.holds j hj hdeq
  · refine ⟨hhead, hilt, hroom, fun j hj hji => ?_⟩
    simp only [hpos]
    rcases Nat.lt_succ_iff_lt_or_eq.1 hji with hlt | rfl
    · rw [get_set_of_near hk h.mask x (by omega) (by omega)]
      exact hcopied j hj hlt
    · rw [RteRing.get_set_self, hxi]
  · have := h.reader
    revert this
    cases s.reader <;> exact id

omit hk

/-- Publishing the table by the store of `cons.head` keeps the invariant. -/
theorem RingInv.enqPublish {objTable : List α} {head : U32} {i : ℕ}
    (hpc : s.owner = .enqCopy objTable head i) (hx : objTable[i]? = none) :
    RingInv k start { s with
      ring := { s.ring with cons.head := head + BitVec.ofNat 32 objTable.length }
      owner := .enqDone (BitVec.ofNat 32 objTable.length)
      accepted := s.accepted ++ objTable } := by
  have howner := h.owner
  rw [hpc] at howner
  obtain ⟨hhead, hi, hroom, hcopied⟩ := howner
  -- all objects of the table are in their slots
  have hilen : objTable.length ≤ i := List.getElem?_eq_none_iff.1 hx
  refine { h with
    mask := h.mask, consHead := ?_, readOut_prefix := ?_, fits := ?_, holds := ?_,
    owner := trivial, reader := ?_ }
  · simp only [hhead, List.length_append]
    exact h.consHead.add _
  · exact h.readOut_prefix.trans (List.prefix_append _ _)
  · simpa only [List.length_append] using hroom
  · intro j hj hdeq
    rw [List.length_append] at hj
    -- the objects of before, and those that this store publishes
    by_cases hold : j < s.accepted.length
    · rw [List.getElem_append_left hold]
      exact h.holds j hold hdeq
    · rw [List.getElem_append_right (by omega)]
      have hcopy := hcopied (j - s.accepted.length) (by omega) (by omega)
      rwa [Nat.add_sub_cancel' (by omega)] at hcopy
  · -- the reader may have loaded the old head, which is not above the new one
    have hreader := h.reader
    revert hreader
    cases s.reader with
    | readLoadProd n cons =>
      rintro ⟨c, hshow, hge, hle⟩
      exact ⟨c, hshow, hge, by simp only [List.length_append]; omega⟩
    | readCopy n prod got =>
      rintro ⟨hprod, hbound, hlen, hgot⟩
      refine ⟨hprod, by simp only [List.length_append]; omega, hlen, hgot.trans ?_⟩
      rw [List.drop_append_of_le_length h.readOut_le]
      exact List.prefix_append _ _
    | _ => exact id

/-- Copying one object out of the slot behind the copied ones extends the copy by the next
object of the log. -/
theorem RingInv.copyOut {pos : U32} {got : List α} {m : ℕ} (hpos : Shows start pos m)
    (hge : s.dequeued.length ≤ m) (hlt : m + got.length < s.accepted.length)
    (hgot : got <+: s.accepted.drop m) :
    got ++ [s.ring.get (pos + BitVec.ofNat 32 got.length)] <+: s.accepted.drop m := by
  apply prefix_drop_concat hgot hlt
  rw [(hpos.add got.length : pos + _ = _)]
  exact h.holds _ hlt (by omega)

/-- Copying out one object to dequeue keeps the invariant. -/
theorem RingInv.deqCopyOut {n cons : U32} {got : List α} (hpc : s.owner = .deqCopy n cons got)
    (hlt : got.length < n.toNat) :
    RingInv k start { s with
      owner := .deqCopy n cons (got ++ [s.ring.get (cons + BitVec.ofNat 32 got.length)]) } := by
  have howner := h.owner
  rw [hpc] at howner
  obtain ⟨hcons, hbound, hlen, hgot⟩ := howner
  have hle' := h.confirmed_le
  have hle'' := h.readOut_le
  refine h.setOwner
    ⟨hcons, hbound, by simp only [List.length_append, List.length_singleton]; omega, ?_⟩
  exact h.copyOut (hcons ▸ h.consTail) le_rfl (by omega) hgot

/-- Copying out one object to read keeps the invariant. -/
theorem RingInv.readCopyOut {n prod : U32} {got : List α}
    (hpc : s.reader = .readCopy n prod got) (hlt : got.length < n.toNat) :
    RingInv k start { s with
      reader := .readCopy n prod (got ++ [s.ring.get (prod + BitVec.ofNat 32 got.length)]) } := by
  have hreader := h.reader
  rw [hpc] at hreader
  obtain ⟨hprod, hbound, hlen, hgot⟩ := hreader
  have hle := h.dequeued_le
  have hle' := h.confirmed_le
  refine h.setReader
    ⟨hprod, hbound, by simp only [List.length_append, List.length_singleton]; omega, ?_⟩
  exact h.copyOut (hprod ▸ h.prodHead) (by omega) (by omega) hgot

include hk

/-- All counts in the ring are less than `2 ^ 32` apart. -/
theorem RingInv.near {a b : ℕ} (ha : s.dequeued.length ≤ a) (hb : b ≤ s.accepted.length) :
    b - a < 2 ^ 32 := by
  have hpow : 2 ^ k ≤ 2 ^ 31 := Nat.pow_le_pow_right Nat.two_pos hk
  have hfits := h.fits
  omega

/-- The load of `cons.tail` in `gazelle_ring_sc_dequeue`, after a load of `prod.tail` that may
be stale by now, shows objects that can be dequeued. -/
theorem RingInv.deqAvail {n prod : U32} (hpc : s.owner = .deqLoadCons n prod) :
    s.dequeued.length + (RteRing.clamp n (prod - s.ring.cons.tail)).toNat ≤
      s.confirmed.length := by
  have howner := h.owner
  rw [hpc] at howner
  obtain ⟨p, hshow, hge, hle⟩ := howner
  have hle' := h.confirmed_le
  have hle'' := h.readOut_le
  exact (clamp_toNat h.consTail hshow hge (h.near hk le_rfl (by omega))).trans hle

/-- The load of `prod.head` in `gazelle_ring_read`, after a load of `cons.head` that may be
stale by now, shows objects that can be read. -/
theorem RingInv.readAvail {n cons : U32} (hpc : s.reader = .readLoadProd n cons) :
    s.readOut.length + (RteRing.clamp n (cons - s.ring.prod.head)).toNat ≤
      s.accepted.length := by
  have hreader := h.reader
  rw [hpc] at hreader
  obtain ⟨c, hshow, hge, hle⟩ := hreader
  have hle' := h.confirmed_le
  have hle'' := h.dequeued_le
  exact (clamp_toNat h.prodHead hshow hge (h.near hk (by omega) hle)).trans hle

omit hk

/-- Giving the slots back by the store of `cons.tail` keeps the invariant. -/
theorem RingInv.deqPublish {n cons : U32} {got : List α} (hpc : s.owner = .deqCopy n cons got)
    (hfull : ¬ got.length < n.toNat) :
    RingInv k start { s with
      ring := { s.ring with cons.tail := cons + n }
      owner := .deqDone got
      dequeued := s.dequeued ++ got } := by
  have howner := h.owner
  rw [hpc] at howner
  obtain ⟨hcons, hbound, hlen, hgot⟩ := howner
  have hn : got.length = n.toNat := by omega
  have hpre : s.dequeued ++ got <+: s.accepted :=
    append_prefix_of_drop
      (h.dequeued_prefix.trans (h.confirmed_prefix.trans h.readOut_prefix)) hgot
  refine { h with
    mask := h.mask, consTail := ?_, dequeued_prefix := ?_, fits := ?_, holds := ?_,
    owner := trivial, reader := ?_ }
  · simp only [hcons, List.length_append, hn]
    exact h.consTail.add_word n
  · exact List.prefix_of_prefix_length_le hpre (h.confirmed_prefix.trans h.readOut_prefix)
      (by simp only [List.length_append]; omega)
  · have hfits := h.fits
    simp only [List.length_append]
    omega
  · intro i (hi : i < s.accepted.length) hdeq
    rw [List.length_append] at hdeq
    exact h.holds i hi (by omega)
  · have hreader := h.reader
    revert hreader
    cases s.reader <;> exact id

/-- Handing the objects out by the store of `prod.head` keeps the invariant. -/
theorem RingInv.readPublish {n prod : U32} {got : List α}
    (hpc : s.reader = .readCopy n prod got) (hfull : ¬ got.length < n.toNat) :
    RingInv k start { s with
      ring := { s.ring with prod.head := prod + n }
      reader := .readDone got
      readOut := s.readOut ++ got } := by
  have hreader := h.reader
  rw [hpc] at hreader
  obtain ⟨hprod, hbound, hlen, hgot⟩ := hreader
  have hn : got.length = n.toNat := by omega
  refine { h with
    mask := h.mask, prodHead := ?_, confirmed_prefix := ?_, readOut_prefix := ?_,
    owner := ?_, reader := trivial }
  · simp only [hprod, List.length_append, hn]
    exact h.prodHead.add_word n
  · exact h.confirmed_prefix.trans (List.prefix_append _ _)
  · exact append_prefix_of_drop h.readOut_prefix hgot
  · have howner := h.owner
    revert howner
    cases s.owner <;> exact id

/-- Confirming by the store of `prod.tail` keeps the invariant. -/
theorem RingInv.overPublish {head : U32} (hpc : s.reader = .overStore head) :
    RingInv k start { s with
      ring := { s.ring with prod.tail := head }
      reader := .overDone
      confirmed := s.readOut } := by
  have hreader := h.reader
  rw [hpc] at hreader
  obtain rfl : head = s.ring.prod.head := hreader
  have hle := h.confirmed_le
  refine { h with
    mask := h.mask, prodTail := h.prodHead, confirmed_prefix := List.prefix_rfl,
    dequeued_prefix := h.dequeued_prefix.trans h.confirmed_prefix, owner := ?_,
    reader := trivial }
  have howner := h.owner
  revert howner
  cases s.owner with
  | deqLoadCons n prod =>
    rintro ⟨p, hshow, hge, hle'⟩
    exact ⟨p, hshow, hge, hle'.trans hle⟩
  | deqCopy n cons got =>
    rintro ⟨hcons, hbound, hlen, hgot⟩
    exact ⟨hcons, hbound.trans hle, hlen, hgot⟩
  | _ => exact id

/-- The slots from a count on hold the objects accepted there. -/
theorem RingInv.dequeueElems_eq {pos : U32} {m n : ℕ} (hpos : Shows start pos m)
    (hge : s.dequeued.length ≤ m) (hle : m + n ≤ s.accepted.length) :
    s.ring.dequeueElems pos n = (s.accepted.drop m).take n := by
  induction n generalizing pos m with
  | zero => rw [List.take_zero, RteRing.dequeueElems]
  | succ n ih =>
    have hget := h.holds m (by omega) hge
    have hnext : Shows start (pos + 1) (m + 1) := hpos.add 1
    rw [← (hpos : pos = _)] at hget
    rw [RteRing.dequeueElems, hget, List.drop_eq_getElem_cons (by omega : m < s.accepted.length),
      List.take_succ_cons, ih hnext (by omega) (by omega)]

end Steps

section Invariant

variable {s s' : RingSys α}

/-- Every access of the owner keeps the invariant. -/
theorem RingInv.ownerStep (hk : k ≤ 31) (h : RingInv k start s) (hs : s.ownerStep = some s') :
    RingInv k start s' := by
  cases hpc : s.owner with
  | idle => simp [RingSys.ownerStep, hpc] at hs
  | enqLoadHead objTable =>
    simp only [RingSys.ownerStep, hpc, Option.some.injEq] at hs
    have howner := h.owner
    rw [hpc] at howner
    -- the number of objects is the one that was checked at the call
    exact hs ▸ h.setOwner ⟨howner, rfl⟩
  | enqLoadTail objTable head =>
    have howner := h.owner
    rw [hpc] at howner
    obtain ⟨hlen, rfl⟩ := howner
    simp only [RingSys.ownerStep, hpc] at hs
    split at hs
    · -- not enough room, and nothing is stored
      exact Option.some.inj hs ▸ h.setOwner trivial
    · next hroom =>
      -- there is room for all of them
      exact Option.some.inj hs ▸ h.setOwner
        ⟨rfl, Nat.zero_le _, h.enqRoom hk hlen hroom, fun j _ hj => absurd hj (Nat.not_lt_zero j)⟩
  | enqCopy objTable head i =>
    simp only [RingSys.ownerStep, hpc] at hs
    split at hs
    · next x hx => exact Option.some.inj hs ▸ h.enqWrite hk hpc hx
    · next hx => exact Option.some.inj hs ▸ h.enqPublish hpc hx
  | enqDone n =>
    simp only [RingSys.ownerStep, hpc, Option.some.injEq] at hs
    exact hs ▸ h.setOwner trivial
  | deqLoadProd n =>
    simp only [RingSys.ownerStep, hpc, Option.some.injEq] at hs
    -- the counter that was loaded bounds what may be taken
    exact hs ▸ h.setOwner ⟨_, h.prodTail, h.dequeued_le, le_rfl⟩
  | deqLoadCons n prod =>
    simp only [RingSys.ownerStep, hpc] at hs
    split at hs
    · -- nothing to take
      exact Option.some.inj hs ▸ h.setOwner trivial
    · exact Option.some.inj hs ▸ h.setOwner
        -- there are as many as the copy takes
        ⟨rfl, h.deqAvail hk hpc, Nat.zero_le _, List.nil_prefix⟩
  | deqCopy n cons got =>
    simp only [RingSys.ownerStep, hpc] at hs
    split at hs
    · next hlt => exact Option.some.inj hs ▸ h.deqCopyOut hpc hlt
    · next hfull => exact Option.some.inj hs ▸ h.deqPublish hpc hfull
  | deqDone got =>
    simp only [RingSys.ownerStep, hpc, Option.some.injEq] at hs
    -- the call returns
    exact hs ▸ h.setOwner trivial

/-- Every access of the reader keeps the invariant. -/
theorem RingInv.readerStep (hk : k ≤ 31) (h : RingInv k start s)
    (hs : s.readerStep = some s') : RingInv k start s' := by
  cases hpc : s.reader with
  | idle => simp [RingSys.readerStep, hpc] at hs
  | readLoadCons n =>
    simp only [RingSys.readerStep, hpc, Option.some.injEq] at hs
    exact hs ▸ h.setReader ⟨_, h.consHead, h.readOut_le, le_rfl⟩
  | readLoadProd n cons =>
    simp only [RingSys.readerStep, hpc] at hs
    split at hs
    · exact Option.some.inj hs ▸ h.setReader trivial
    · exact Option.some.inj hs ▸ h.setReader
        ⟨rfl, h.readAvail hk hpc, Nat.zero_le _, List.nil_prefix⟩
  | readCopy n prod got =>
    simp only [RingSys.readerStep, hpc] at hs
    split at hs
    · next hlt => exact Option.some.inj hs ▸ h.readCopyOut hpc hlt
    · next hfull => exact Option.some.inj hs ▸ h.readPublish hpc hfull
  | readDone got =>
    simp only [RingSys.readerStep, hpc, Option.some.injEq] at hs
    exact hs ▸ h.setReader trivial
  | overLoad =>
    simp only [RingSys.readerStep, hpc, Option.some.injEq] at hs
    exact hs ▸ h.setReader rfl
  | overStore head =>
    simp only [RingSys.readerStep, hpc, Option.some.injEq] at hs
    exact hs ▸ h.overPublish hpc
  | overDone =>
    simp only [RingSys.readerStep, hpc, Option.some.injEq] at hs
    exact hs ▸ h.setReader trivial

/-- Every step of either thread keeps the invariant. -/
theorem RingInv.step (hk : k ≤ 31) (h : RingInv k start s) {a : RingAct α}
    (hs : s.step a = some s') : RingInv k start s' := by
  cases a with
  | enqueue objTable =>
    simp only [RingSys.step] at hs
    split at hs
    · split at hs
      · next hlen => exact Option.some.inj hs ▸ h.setOwner hlen
      · cases hs
    · cases hs
  | dequeue n =>
    simp only [RingSys.step] at hs
    split at hs
    · exact Option.some.inj hs ▸ h.setOwner trivial
    · cases hs
  | owner => exact h.ownerStep hk hs
  | read n =>
    simp only [RingSys.step] at hs
    split at hs
    · exact Option.some.inj hs ▸ h.setReader trivial
    · cases hs
  | readOver =>
    simp only [RingSys.step] at hs
    split at hs
    · exact Option.some.inj hs ▸ h.setReader trivial
    · cases hs
  | reader => exact h.readerStep hk hs

/-- The invariant holds in every interleaving. -/
theorem RingInv.reachable (hk : k ≤ 31) {slots : U32 → α}
    (hs : (system k start slots).Reachable s) : RingInv k start s := by
  refine Transition.System.invariant (I := RingInv k start) ?_ ?_ hs
  · rintro _ rfl
    exact RingInv.create k start slots
  · intro _ _ _ _ ih hstep
    exact ih.step hk hstep

/-- What one step may do to the histories: nothing, or what one operation of the FIFO does. -/
inductive HistoryStep (s s' : RingSys α) : Prop
  | same : s'.accepted = s.accepted → s'.readOut = s.readOut → s'.confirmed = s.confirmed →
      s'.dequeued = s.dequeued → HistoryStep s s'
  | accept (xs : List α) : s'.accepted = s.accepted ++ xs → s'.readOut = s.readOut →
      s'.confirmed = s.confirmed → s'.dequeued = s.dequeued → HistoryStep s s'
  | readOut (xs : List α) : s'.accepted = s.accepted → s'.readOut = s.readOut ++ xs →
      s'.confirmed = s.confirmed → s'.dequeued = s.dequeued → HistoryStep s s'
  | confirm : s'.accepted = s.accepted → s'.readOut = s.readOut → s'.confirmed = s.readOut →
      s'.dequeued = s.dequeued → HistoryStep s s'
  | dequeue (xs : List α) : s'.accepted = s.accepted → s'.readOut = s.readOut →
      s'.confirmed = s.confirmed → s'.dequeued = s.dequeued ++ xs → HistoryStep s s'

/-- Every access changes at most one history. -/
theorem historyStep_of_step {a : RingAct α} (hs : s.step a = some s') : HistoryStep s s' := by
  -- most accesses change no history at all
  have hcalls : ∀ {t : RingSys α}, some t = some s' → t.accepted = s.accepted →
      t.readOut = s.readOut → t.confirmed = s.confirmed → t.dequeued = s.dequeued →
      HistoryStep s s' := by
    intro t ht
    cases ht
    exact .same
  cases a with
  | owner =>
    simp only [RingSys.step, RingSys.ownerStep] at hs
    split at hs
    case h_4 objTable head i _ =>
      split at hs
      · exact hcalls hs rfl rfl rfl rfl
      · -- the store of `cons.head` in the enqueue
        exact Option.some.inj hs ▸ .accept objTable rfl rfl rfl rfl
    case h_8 n cons got _ =>
      split at hs
      · exact hcalls hs rfl rfl rfl rfl
      · -- the store of `cons.tail` in the dequeue
        exact Option.some.inj hs ▸ .dequeue got rfl rfl rfl rfl
    all_goals first
      | cases hs; done
      | exact hcalls hs rfl rfl rfl rfl
      | (split at hs <;> exact hcalls hs rfl rfl rfl rfl)
  | reader =>
    simp only [RingSys.step, RingSys.readerStep] at hs
    split at hs
    case h_4 n prod got _ =>
      split at hs
      · exact hcalls hs rfl rfl rfl rfl
      · -- the end of `gazelle_ring_read`
        exact Option.some.inj hs ▸ .readOut got rfl rfl rfl rfl
    -- the store of `prod.tail` in `gazelle_ring_read_over`
    case h_7 head _ => exact Option.some.inj hs ▸ .confirm rfl rfl rfl rfl
    all_goals first
      | cases hs; done
      | exact hcalls hs rfl rfl rfl rfl
      | (split at hs <;> exact hcalls hs rfl rfl rfl rfl)
  | enqueue objTable =>
    simp only [RingSys.step] at hs
    split at hs
    · split at hs
      · exact hcalls hs rfl rfl rfl rfl
      · cases hs
    · cases hs
  | _ =>
    simp only [RingSys.step] at hs
    split at hs
    · exact hcalls hs rfl rfl rfl rfl
    · cases hs

/-- The owner leaves the reader and what it has read alone. -/
theorem reader_of_ownerStep (hs : s.ownerStep = some s') :
    s'.reader = s.reader ∧ s'.readOut = s.readOut ∧ s'.confirmed = s.confirmed := by
  simp only [RingSys.ownerStep] at hs
  split at hs
  all_goals first
    | cases hs; done
    | exact Option.some.inj hs ▸ ⟨rfl, rfl, rfl⟩
    | (split at hs <;> exact Option.some.inj hs ▸ ⟨rfl, rfl, rfl⟩)

/-- A step leaves all slots alone, or is the copy of one object of a table being enqueued. -/
theorem get_of_step {a : RingAct α} (hs : s.step a = some s') :
    (∀ pos, s'.ring.get pos = s.ring.get pos) ∨
      ∃ objTable head i x, s.owner = .enqCopy objTable head i ∧ objTable[i]? = some x ∧
        s'.ring = s.ring.set (head + BitVec.ofNat 32 i) x := by
  -- only the copy in an enqueue writes a slot
  cases a with
  | owner =>
    simp only [RingSys.step, RingSys.ownerStep] at hs
    split at hs
    case h_4 objTable head i hpc =>
      split at hs
      · next x hx => exact .inr ⟨objTable, head, i, x, hpc, hx, Option.some.inj hs ▸ rfl⟩
      · exact .inl fun _ => Option.some.inj hs ▸ rfl
    all_goals first
      | cases hs; done
      | exact .inl fun _ => Option.some.inj hs ▸ rfl
      | (split at hs <;> exact .inl fun _ => Option.some.inj hs ▸ rfl)
  | reader =>
    simp only [RingSys.step, RingSys.readerStep] at hs
    split at hs
    all_goals first
      | cases hs; done
      | exact .inl fun _ => Option.some.inj hs ▸ rfl
      | (split at hs <;> exact .inl fun _ => Option.some.inj hs ▸ rfl)
  | enqueue objTable =>
    simp only [RingSys.step] at hs
    split at hs
    · split at hs
      · exact .inl fun _ => Option.some.inj hs ▸ rfl
      · cases hs
    · cases hs
  | _ =>
    simp only [RingSys.step] at hs
    split at hs
    · exact .inl fun _ => Option.some.inj hs ▸ rfl
    · cases hs

/-- No step overwrites the slot of an object that is accepted and not dequeued yet. -/
theorem RingInv.keeps_slots (hk : k ≤ 31) (h : RingInv k start s) {a : RingAct α}
    (hs : s.step a = some s') {i : ℕ} (hdeq : s.dequeued.length ≤ i)
    (hacc : i < s.accepted.length) :
    s'.ring.get (start + BitVec.ofNat 32 i) = s.ring.get (start + BitVec.ofNat 32 i) := by
  rcases get_of_step hs with hsame | ⟨objTable, head, j, x, hpc, hx, hring⟩
  · exact hsame _
  · have howner := h.owner
    rw [hpc] at howner
    obtain ⟨hhead, -, hroom, -⟩ := howner
    have hjlt : j < objTable.length := (List.getElem?_eq_some_iff.1 hx).1
    have hpos : head + BitVec.ofNat 32 j = start + BitVec.ofNat 32 (s.accepted.length + j) := by
      rw [hhead]
      exact (h.consHead.add j).unique rfl
    rw [hring, hpos, get_set_of_near hk h.mask x (by omega) (by omega)]

end Invariant

section Refinement

variable {s : RingSys α}

/-- The state of the FIFO that a state of the ring stands for. -/
structure Abstracts (s : RingSys α) (f : ZoneFifo α (2 ^ k - 1)) : Prop where
  /-- The log is what was accepted. -/
  log : f.log = s.accepted
  /-- As many objects are taken as were dequeued. -/
  taken : f.taken = s.dequeued.length
  /-- As many objects are confirmed. -/
  confirmed : f.confirmed = s.confirmed.length
  /-- As many objects are handed out. -/
  handed : f.handed = s.readOut.length

/-- Every interleaving on a ring of `2 ^ k` slots is simulated by a FIFO of `2 ^ k - 1`
objects: the loads and copies do nothing, each store of a counter is one operation. -/
theorem simulation (hk : k ≤ 31) (slots : U32 → α) :
    Transition.Simulation (system k start slots) (ZoneFifo.system α (2 ^ k - 1)) Abstracts where
  init := by
    rintro _ rfl
    exact ⟨ZoneFifo.empty, rfl, rfl, rfl, rfl, rfl⟩
  step := by
    intro s a s' f hreach hR hs
    have hinv' : RingInv k start s' := (RingInv.reachable hk hreach).step hk hs
    have hdeq := hinv'.dequeued_le
    have hout := hinv'.readOut_le
    have hfits := hinv'.fits
    -- one operation of the FIFO for each change of the history, and none where it stays
    cases historyStep_of_step hs with
    | same hacc hread hconf hdeq' =>
      exact .inl ⟨hR.log.trans hacc.symm, hR.taken.trans (by rw [hdeq']),
        hR.confirmed.trans (by rw [hconf]), hR.handed.trans (by rw [hread])⟩
    | accept xs hacc hread hconf hdeq' =>
      rw [hacc, List.length_append, hdeq', ← hR.log, ← hR.taken] at hfits
      exact .inr ⟨.put xs, f.put xs hfits, dif_pos hfits, by rw [hacc, ← hR.log]; rfl,
        hR.taken.trans (by rw [hdeq']), hR.confirmed.trans (by rw [hconf]),
        hR.handed.trans (by rw [hread])⟩
    | readOut xs hacc hread hconf hdeq' =>
      rw [hread, List.length_append, hacc, ← hR.handed, ← hR.log] at hout
      exact .inr ⟨.hand xs.length, f.hand xs.length hout, dif_pos hout, hR.log.trans hacc.symm,
        hR.taken.trans (by rw [hdeq']), hR.confirmed.trans (by rw [hconf]),
        by rw [hread, List.length_append, ← hR.handed]; rfl⟩
    | confirm hacc hread hconf hdeq' =>
      exact .inr ⟨.confirm, f.confirm, rfl, hR.log.trans hacc.symm,
        hR.taken.trans (by rw [hdeq']), hR.handed.trans (by rw [hconf]),
        hR.handed.trans (by rw [hread])⟩
    | dequeue xs hacc hread hconf hdeq' =>
      rw [hdeq', List.length_append, hconf, ← hR.taken, ← hR.confirmed] at hdeq
      exact .inr ⟨.take xs.length, f.take xs.length hdeq, dif_pos hdeq, hR.log.trans hacc.symm,
        by rw [hdeq', List.length_append, ← hR.taken]; rfl,
        hR.confirmed.trans (by rw [hconf]), hR.handed.trans (by rw [hread])⟩

/-- Going round modulo `2 ^ 32` from `cons.tail`, the counters come in the order `cons.tail`,
`prod.tail`, `prod.head`, `cons.head`, and `cons.head` comes at most the capacity after
`cons.tail`. -/
def Ordered (r : RteRing α) : Prop :=
  r.prod.tail - r.cons.tail ≤ r.prod.head - r.cons.tail ∧
    r.prod.head - r.cons.tail ≤ r.cons.head - r.cons.tail ∧
    r.cons.head - r.cons.tail ≤ r.capacity

/-- The counters are in order and never more than the capacity apart. -/
theorem RingInv.ordered (hk : k ≤ 31) (h : RingInv k start s) : Ordered s.ring := by
  have hle := h.dequeued_le
  have hle' := h.confirmed_le
  have hle'' := h.readOut_le
  have hfits := h.fits
  have htail := h.consTail.toNat_sub h.prodTail hle (h.near hk le_rfl (by omega))
  have hread := h.consTail.toNat_sub h.prodHead (by omega) (h.near hk le_rfl hle'')
  have hhead := h.consTail.toNat_sub h.consHead (by omega) (h.near hk le_rfl le_rfl)
  refine ⟨?_, ?_, ?_⟩
  · rw [BitVec.le_def, htail, hread]
    omega
  · rw [BitVec.le_def, hread, hhead]
    omega
  · rw [BitVec.le_def, hhead, h.capacity, capacity_toNat hk]
    omega

/-- The number of objects in the ring, read off the counters. -/
theorem RingInv.count_toNat (hk : k ≤ 31) (h : RingInv k start s) :
    (s.ring.cons.head - s.ring.cons.tail).toNat = s.accepted.length - s.dequeued.length := by
  have hle := h.dequeued_le
  have hle' := h.confirmed_le
  have hle'' := h.readOut_le
  exact h.consTail.toNat_sub h.consHead (by omega) (h.near hk le_rfl le_rfl)

/-- The room that `gazelle_ring_free_count` computes is the room there is. -/
theorem RingInv.freeCount_toNat (hk : k ≤ 31) (h : RingInv k start s) :
    s.ring.gazelleRingFreeCount.toNat = 2 ^ k - 1 - (s.accepted.length - s.dequeued.length) := by
  have hcount := h.count_toNat hk
  have hfits := h.fits
  have hle : s.ring.gazelleRingCount ≤ s.ring.capacity := by
    rw [BitVec.le_def, RteRing.gazelleRingCount, hcount, h.capacity, capacity_toNat hk]
    omega
  rw [RteRing.gazelleRingFreeCount, BitVec.toNat_sub_of_le hle, RteRing.gazelleRingCount, hcount,
    h.capacity, capacity_toNat hk]

/-- The objects enqueued and not read, read off the slots. -/
theorem RingInv.unread_eq (hk : k ≤ 31) (h : RingInv k start s) :
    s.ring.dequeueElems s.ring.prod.head s.ring.gazelleRingReadableCount.toNat =
      s.accepted.drop s.readOut.length := by
  have hle := h.dequeued_le
  have hle' := h.confirmed_le
  have hle'' := h.readOut_le
  have hcount : s.ring.gazelleRingReadableCount.toNat = s.accepted.length - s.readOut.length :=
    h.prodHead.toNat_sub h.consHead hle'' (h.near hk (by omega) le_rfl)
  rw [hcount, h.dequeueElems_eq h.prodHead (by omega) (by omega),
    List.take_of_length_le (by rw [List.length_drop])]

/-- The gazelle ring is a FIFO with three zones. In every interleaving of the owner's
`gazelle_ring_sp_enqueue` and `gazelle_ring_sc_dequeue` with the other thread's
`gazelle_ring_read` and `gazelle_ring_read_over`, whatever value the four counters start from:
the state is that of a reachable `ZoneFifo`; the counters are in order; objects are handed out
in the order they were accepted and dequeued in the order their read was confirmed; and the
slot of an object still to be read or dequeued is not overwritten by the next step. -/
theorem ring_refines_zoneFifo (hk : k ≤ 31) (slots : U32 → α)
    (hs : (system k start slots).Reachable s) :
    (∃ f : ZoneFifo α (2 ^ k - 1), (ZoneFifo.system α (2 ^ k - 1)).Reachable f ∧ Abstracts s f) ∧
      Ordered s.ring ∧ s.readOut <+: s.accepted ∧ s.dequeued <+: s.confirmed ∧
      s.confirmed <+: s.readOut ∧
      ∀ a s', s.step a = some s' → ∀ i < (s.ring.cons.head - s.ring.cons.tail).toNat,
        s'.ring.get (s.ring.cons.tail + BitVec.ofNat 32 i) =
          s.ring.get (s.ring.cons.tail + BitVec.ofNat 32 i) := by
  have h : RingInv k start s := RingInv.reachable hk hs
  refine ⟨(simulation hk slots).reachable hs, h.ordered hk, h.readOut_prefix, h.dequeued_prefix,
    h.confirmed_prefix, fun a s' hstep i hi => ?_⟩
  rw [h.count_toNat hk] at hi
  rw [(h.consTail.add i : s.ring.cons.tail + _ = _)]
  exact h.keeps_slots hk hstep (by omega) (by omega)

/-- One object enqueued, read and confirmed on a ring whose counters start just below
`2 ^ 32`. -/
theorem ring_refines_zoneFifo_wrapping :
    ∃ s : RingSys ℕ, s.confirmed = [7] ∧ Ordered s.ring ∧ s.readOut <+: s.accepted :=
  have hrun : (system 1 (BitVec.ofNat 32 (2 ^ 32 - 1)) fun _ => 0).run (create 1 _ fun _ => 0)
      [.enqueue [7], .owner, .owner, .read 1, .owner, .owner, .reader, .reader, .reader, .reader,
        .reader, .readOver, .reader, .reader] = some _ := rfl
  have h := ring_refines_zoneFifo (by decide) _
    (Transition.System.reachable_of_run (.init rfl) hrun)
  ⟨_, rfl, h.2.1, h.2.2.1⟩

end Refinement

end RingSys

end Gazelle
