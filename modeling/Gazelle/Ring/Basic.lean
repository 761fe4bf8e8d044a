import Gazelle.Counter.Wrap

/-!
# The gazelle ring

The single-producer single-consumer use that gazelle makes of `struct rte_ring`
(`src/common/dpdk_common.h`). The owner thread both enqueues and dequeues; the other thread reads
the objects in place and later confirms the read:

    cons.tail            prod.tail                prod.head                 cons.head

`gazelleRingSpEnqueue` advances `cons.head`, `gazelleRingRead` advances `prod.head`,
`gazelleRingReadOver` advances `prod.tail` to `prod.head`, and `gazelleRingScDequeue` advances
`cons.tail`.

This module has the data structure and the functions as they compute when nothing interferes;
`Gazelle.Ring.Interleaving` has them split into their memory accesses.
-/

namespace Gazelle

/-- `uint32_t`. -/
abbrev U32 := BitVec 32

/-- `PACKET_READ_SIZE`, which is also `GAZELLE_PACKET_READ_SIZE`. -/
def packetReadSize : U32 := 32

/-- The two counters that `struct rte_ring` keeps for each side. -/
structure HeadTail where
  /-- The head counter. -/
  head : U32
  /-- The tail counter. -/
  tail : U32
  deriving DecidableEq

/-- The part of `struct rte_ring` that the gazelle functions use, with objects of type `α`. -/
@[ext]
structure RteRing (α : Type*) where
  /-- The number of slots less one, which masks a counter to a slot. -/
  mask : U32
  /-- The number of objects the ring may hold. -/
  capacity : U32
  /-- The counters of the producer side. -/
  prod : HeadTail
  /-- The counters of the consumer side. -/
  cons : HeadTail
  /-- The slots. -/
  slots : U32 → α

namespace RteRing

variable {α : Type*}

/-- A ring of `2 ^ k` slots and capacity `2 ^ k - 1` whose four counters all read `start`. -/
def create (k : ℕ) (start : U32) (slots : U32 → α) : RteRing α where
  mask := BitVec.ofNat 32 (2 ^ k - 1)
  capacity := BitVec.ofNat 32 (2 ^ k - 1)
  prod := ⟨start, start⟩
  cons := ⟨start, start⟩
  slots := slots

/-- The slot of the counter value `pos`. -/
def slotOf (r : RteRing α) (pos : U32) : U32 := pos &&& r.mask

/-- The object in the slot of `pos`. -/
def get (r : RteRing α) (pos : U32) : α := r.slots (r.slotOf pos)

/-- Store an object in the slot of `pos`. -/
def set (r : RteRing α) (pos : U32) (x : α) : RteRing α :=
  { r with slots := Function.update r.slots (r.slotOf pos) x }

/-- `__rte_ring_enqueue_elems`: copy the table into the slots from `pos` on, wrapping at the end
of the array. -/
def enqueueElems (r : RteRing α) (pos : U32) : List α → RteRing α
  | [] => r
  | x :: xs => (r.set pos x).enqueueElems (pos + 1) xs

/-- `__rte_ring_dequeue_elems`: copy `n` objects out of the slots from `pos` on. -/
def dequeueElems (r : RteRing α) (pos : U32) : ℕ → List α
  | 0 => []
  | n + 1 => r.get pos :: r.dequeueElems (pos + 1) n

/-- `gazelle_ring_sp_enqueue`: all of the table or nothing. -/
def gazelleRingSpEnqueue (r : RteRing α) (objTable : List α) : U32 × RteRing α :=
  let n := BitVec.ofNat 32 objTable.length
  let head := r.cons.head
  let tail := r.cons.tail
  let entries := r.capacity + tail - head
  if n > entries then (0, r)
  else
    let r := r.enqueueElems head objTable
    (n, { r with cons.head := head + n })

/-- `if (n > entries) n = entries;`. -/
def clamp (n entries : U32) : U32 := if n > entries then entries else n

/-- `gazelle_ring_sc_dequeue`: at most `n` of the objects whose read is confirmed. -/
def gazelleRingScDequeue (r : RteRing α) (n : U32) : List α × RteRing α :=
  let prod := r.prod.tail
  let cons := r.cons.tail
  let entries := prod - cons
  let n := clamp n entries
  if n = 0 then ([], r)
  else (r.dequeueElems cons n.toNat, { r with cons.tail := cons + n })

/-- `gazelle_ring_read`: at most `n` of the objects not read yet, which stay in the ring. -/
def gazelleRingRead (r : RteRing α) (n : U32) : List α × RteRing α :=
  let cons := r.cons.head
  let prod := r.prod.head
  let entries := cons - prod
  let n := clamp n entries
  if n = 0 then ([], r)
  else (r.dequeueElems prod n.toNat, { r with prod.head := prod + n })

/-- `gazelle_ring_read_over`: confirm everything read so far. -/
def gazelleRingReadOver (r : RteRing α) : RteRing α :=
  { r with prod.tail := r.prod.head }

/-- `gazelle_ring_readover_count`: the objects confirmed and not dequeued. -/
def gazelleRingReadoverCount (r : RteRing α) : U32 := r.prod.tail - r.cons.tail

/-- `gazelle_ring_readable_count`: the objects enqueued and not read. -/
def gazelleRingReadableCount (r : RteRing α) : U32 := r.cons.head - r.prod.head

/-- `gazelle_ring_count`: the objects in the ring. -/
def gazelleRingCount (r : RteRing α) : U32 := r.cons.head - r.cons.tail

/-- `gazelle_ring_free_count`: the room left. -/
def gazelleRingFreeCount (r : RteRing α) : U32 := r.capacity - r.gazelleRingCount

section Frame

variable (r : RteRing α) (pos : U32) (x : α)

@[simp] theorem set_mask : (r.set pos x).mask = r.mask := rfl
@[simp] theorem set_capacity : (r.set pos x).capacity = r.capacity := rfl
@[simp] theorem set_prod : (r.set pos x).prod = r.prod := rfl
@[simp] theorem set_cons : (r.set pos x).cons = r.cons := rfl
@[simp] theorem set_slotOf (p : U32) : (r.set pos x).slotOf p = r.slotOf p := rfl

/-- The slot just written holds the object. -/
@[simp]
theorem get_set_self : (r.set pos x).get pos = x := by
  simp [get, set, slotOf]

/-- The other slots keep their objects. -/
theorem get_set_of_ne {p : U32} (h : r.slotOf p ≠ r.slotOf pos) :
    (r.set pos x).get p = r.get p := by
  simp [get, set, slotOf] at h ⊢
  simp [h]

end Frame

/-- `dequeueElems` copies as many objects as it is asked for. -/
@[simp]
theorem length_dequeueElems (r : RteRing α) (pos : U32) (n : ℕ) :
    (r.dequeueElems pos n).length = n := by
  induction n generalizing pos with
  | zero => rfl
  | succ n ih => simp [dequeueElems, ih]

end RteRing

end Gazelle
