import Gazelle.Lwip.SockData
import Gazelle.Ring.Sequential

/-!
# Draining a ring

`free_ring_pbuf` empties a ring whose owner and reader are gone. Its first loop reads and confirms
until nothing is readable, the second one dequeues and frees until nothing is confirmed. Both go
through an array of `SOCK_RECV_RING_SIZE` pointers, also when the ring is larger.

Here the pbufs are just handed to `pbuf_free`; `Gazelle.Lwip.SockReset` has what that does to them.

* `RteRing.Holds.readLoop`, `RteRing.Holds.freeLoop`: what each loop does to a ring at rest;
* `RteRing.Holds.freeRingPbuf_eq`: what the function does to the pbufs;
* `RingSys.free_ring_pbuf_drains`: the function on a ring in any reachable state.
-/

namespace Gazelle

/-- `SOCK_RECV_RING_SIZE`, the number of entries of the array `pbufs`. -/
def sockRecvRingSize : ℕ := 2 ^ sockRecvRingBits

/-- What `free_ring_pbuf` works on. -/
structure RingDrain (α : Type*) where
  /-- The ring. -/
  ring : RteRing α
  /-- The objects passed to `pbuf_free`, in this order. -/
  freed : List α
  /-- The largest number of entries of `pbufs` that a call filled. -/
  filled : ℕ

namespace RingDrain

variable {α : Type*}

/-- A round of the first loop: read into `pbufs`, and confirm. -/
def readRound (d : RingDrain α) : RingDrain α :=
  let pbufs := d.ring.gazelleRingRead recvRingSize
  { d with
    ring := pbufs.2.gazelleRingReadOver
    filled := max d.filled pbufs.1.length }

/-- The first loop. Nothing is returned when it takes more rounds. -/
def readLoop : ℕ → RingDrain α → Option (RingDrain α)
  | 0, _ => none
  | rounds + 1, d =>
    let d := d.readRound
    if d.ring.gazelleRingReadableCount = 0 then some d else readLoop rounds d

/-- A round of the second loop: dequeue into `pbufs`, and free them. -/
def freeRound (d : RingDrain α) : RingDrain α :=
  let pbufs := d.ring.gazelleRingScDequeue recvRingSize
  { d with
    ring := pbufs.2
    freed := d.freed ++ pbufs.1
    filled := max d.filled pbufs.1.length }

/-- The second loop. -/
def freeLoop : ℕ → RingDrain α → Option (RingDrain α)
  | 0, _ => none
  | rounds + 1, d =>
    let d := d.freeRound
    if d.ring.gazelleRingReadoverCount = 0 then some d else freeLoop rounds d

/-- `free_ring_pbuf`, when each loop may take `rounds` rounds. -/
def freeRingPbuf (rounds : ℕ) (ring : RteRing α) : Option (RingDrain α) :=
  (readLoop rounds { ring, freed := [], filled := 0 }).bind (freeLoop rounds)

end RingDrain

namespace RteRing

variable {α : Type*} {k : ℕ} {d : RingDrain α} {confirmed handed fresh : List α}

/-- A count of the ring is zero if and only if there is no such object. -/
theorem count_eq_zero_iff {count : U32} {l : List α} (h : count.toNat = l.length) :
    count = 0 ↔ l = [] := by
  rw [← BitVec.toNat_inj, h]
  exact List.length_eq_zero_iff

/-- A part of at most `RING_SIZE(SOCK_RECV_RING_SIZE)` objects fits into the array. -/
theorem length_take_recvRingSize (l : List α) :
    (l.take recvRingSize.toNat).length ≤ sockRecvRingSize := by
  rw [List.length_take]
  exact (Nat.min_le_left _ _).trans (by decide)

/-- A round that leaves something has taken something. -/
theorem length_drop_recvRingSize {l : List α} {rounds : ℕ} (hlen : l.length < rounds + 1)
    (hne : l.drop recvRingSize.toNat ≠ []) : (l.drop recvRingSize.toNat).length < rounds := by
  have hsize : recvRingSize.toNat = 127 := rfl
  have hpos := List.length_pos_iff.2 hne
  rw [List.length_drop] at hpos ⊢
  omega

/-- A round of the first loop confirms what was handed out, and the next objects with it. -/
theorem Holds.readRound (hk : k ≤ 31) (h : d.ring.Holds k confirmed handed fresh)
    (hfilled : d.filled ≤ sockRecvRingSize) :
    d.readRound.ring.Holds k (confirmed ++ (handed ++ fresh.take recvRingSize.toNat)) []
      (fresh.drop recvRingSize.toNat) ∧ d.readRound.filled ≤ sockRecvRingSize := by
  obtain ⟨hgot, hread⟩ := h.read hk recvRingSize
  refine ⟨hread.readOver, max_le hfilled ?_⟩
  rw [hgot]
  exact length_take_recvRingSize fresh

/-- A round of the second loop frees the next objects that are confirmed. -/
theorem Holds.freeRound (hk : k ≤ 31) (h : d.ring.Holds k confirmed handed fresh)
    (hfilled : d.filled ≤ sockRecvRingSize) :
    d.freeRound.ring.Holds k (confirmed.drop recvRingSize.toNat) handed fresh ∧
      d.freeRound.freed = d.freed ++ confirmed.take recvRingSize.toNat ∧
      d.freeRound.filled ≤ sockRecvRingSize := by
  obtain ⟨hgot, hdeq⟩ := h.scDequeue hk recvRingSize
  refine ⟨hdeq, congrArg (d.freed ++ ·) hgot, max_le hfilled ?_⟩
  rw [hgot]
  exact length_take_recvRingSize confirmed

/-- The first loop confirms every object of the ring, and frees none. -/
theorem Holds.readLoop (hk : k ≤ 31) (h : d.ring.Holds k confirmed handed fresh)
    (hfilled : d.filled ≤ sockRecvRingSize) {rounds : ℕ} (hrounds : fresh.length < rounds) :
    ∃ d', RingDrain.readLoop rounds d = some d' ∧
      d'.ring.Holds k (confirmed ++ handed ++ fresh) [] [] ∧
      d'.freed = d.freed ∧ d'.filled ≤ sockRecvRingSize := by
  induction rounds generalizing d confirmed handed fresh with
  | zero => exact absurd hrounds (Nat.not_lt_zero _)
  | succ rounds ih =>
    obtain ⟨hround, hmax⟩ := h.readRound hk hfilled
    have hzero := count_eq_zero_iff (hround.readable_toNat hk)
    have hsplit := List.take_append_drop recvRingSize.toNat fresh
    rw [RingDrain.readLoop]
    split
    · -- nothing is readable any more
      rename_i hnone
      rw [hzero.1 hnone, List.append_nil] at hsplit
      rw [hzero.1 hnone, hsplit, ← List.append_assoc] at hround
      exact ⟨_, rfl, hround, rfl, hmax⟩
    · rename_i hsome
      have hleft := length_drop_recvRingSize hrounds (mt hzero.2 hsome)
      obtain ⟨d', hrun, hall, hfreed, hfill⟩ := ih hround hmax hleft
      refine ⟨d', hrun, ?_, hfreed, hfill⟩
      rwa [List.append_nil, List.append_assoc, List.append_assoc, hsplit, ← List.append_assoc]
        at hall

/-- The second loop frees every confirmed object of the ring. -/
theorem Holds.freeLoop (hk : k ≤ 31) (h : d.ring.Holds k confirmed handed fresh)
    (hfilled : d.filled ≤ sockRecvRingSize) {rounds : ℕ} (hrounds : confirmed.length < rounds) :
    ∃ d', RingDrain.freeLoop rounds d = some d' ∧ d'.ring.Holds k [] handed fresh ∧
      d'.freed = d.freed ++ confirmed ∧ d'.filled ≤ sockRecvRingSize := by
  induction rounds generalizing d confirmed with
  | zero => exact absurd hrounds (Nat.not_lt_zero _)
  | succ rounds ih =>
    obtain ⟨hround, hgot, hmax⟩ := h.freeRound hk hfilled
    have hzero := count_eq_zero_iff (hround.readover_toNat hk)
    have hsplit := List.take_append_drop recvRingSize.toNat confirmed
    rw [RingDrain.freeLoop]
    split
    · -- nothing is confirmed any more
      rename_i hnone
      rw [hzero.1 hnone, List.append_nil] at hsplit
      rw [hzero.1 hnone] at hround
      rw [hsplit] at hgot
      exact ⟨_, rfl, hround, hgot, hmax⟩
    · rename_i hsome
      have hleft := length_drop_recvRingSize hrounds (mt hzero.2 hsome)
      obtain ⟨d', hrun, hall, hfreed, hfill⟩ := ih hround hmax hleft
      refine ⟨d', hrun, hall, ?_, hfill⟩
      rw [hfreed, hgot, List.append_assoc, hsplit]

/-! ### Freeing the pbufs -/

section Memory

variable {cfg : SockCfg} {d : RingDrain PbufPtr}

/-- The first loop is the one of `PbufMem.freeRingPbuf`. -/
theorem readAll_eq {rounds : ℕ} {d' : RingDrain PbufPtr}
    (h : RingDrain.readLoop rounds d = some d') : PbufMem.readAll rounds d.ring = d'.ring := by
  induction rounds generalizing d with
  | zero => cases h
  | succ rounds ih =>
    rw [RingDrain.readLoop] at h
    rw [PbufMem.readAll]
    split at h
    · rename_i hnone
      rw [← Option.some.inj h]
      exact if_pos hnone
    · rename_i hsome
      exact (if_neg hsome).trans (ih h)

/-- The second loop is the one of `PbufMem.freeRingPbuf`, which frees the objects passed to
`pbuf_free` in their order. -/
theorem dequeueAll_eq {rounds : ℕ} {d' : RingDrain PbufPtr} {m m₀ : PbufMem}
    (h : RingDrain.freeLoop rounds d = some d') (hm : m₀.freeAll cfg d.freed = m) :
    m.dequeueAll cfg rounds d.ring = m₀.freeAll cfg d'.freed := by
  induction rounds generalizing d m with
  | zero => cases h
  | succ rounds ih =>
    have hround : m₀.freeAll cfg d.freeRound.freed =
        m.freeAll cfg (d.ring.gazelleRingScDequeue recvRingSize).1 := by
      rw [← hm]
      exact List.foldl_append
    rw [RingDrain.freeLoop] at h
    rw [PbufMem.dequeueAll]
    split at h
    · rename_i hnone
      rw [← Option.some.inj h, hround]
      exact if_pos hnone
    · rename_i hsome
      exact (if_neg hsome).trans (ih h hround)

/-- What `PbufMem.freeRingPbuf` does to the pbufs: it frees every entry of the ring, in order. -/
theorem Holds.freeRingPbuf_eq {k : ℕ} {r : RteRing PbufPtr} {confirmed handed fresh : List PbufPtr}
    (hk : k ≤ 31) (h : r.Holds k confirmed handed fresh) (m : PbufMem) :
    m.freeRingPbuf cfg r = m.freeAll cfg (confirmed ++ handed ++ fresh) := by
  obtain ⟨d₁, hread, hall, hnone, hfill⟩ := Holds.readLoop
    (d := { ring := r, freed := [], filled := 0 }) hk h (Nat.zero_le _)
    (Nat.lt_add_one_of_le (h.readable_toNat hk).ge)
  obtain ⟨d₂, hfree, -, hfreed, -⟩ := hall.freeLoop hk hfill
    (Nat.lt_add_one_of_le (hall.readover_toNat hk).ge)
  rw [hnone, List.nil_append] at hfreed
  have hring : PbufMem.readAll (r.gazelleRingReadableCount.toNat + 1) r = d₁.ring :=
    readAll_eq hread
  rw [PbufMem.freeRingPbuf, hring, ← hfreed]
  exact dequeueAll_eq hfree (by rw [hnone]; rfl)

end Memory

/-- In an empty ring the four counters are equal. -/
theorem Holds.counters_eq {r : RteRing α} (h : r.Holds k [] [] []) :
    r.prod = ⟨r.cons.tail, r.cons.tail⟩ ∧ r.cons.head = r.cons.tail := by
  obtain ⟨start, past, h⟩ := h
  have hhead := h.prodHead
  have htail := h.prodTail
  have hcons := h.consHead
  simp only [atRest, List.append_nil] at hhead htail hcons
  exact ⟨congrArg₂ HeadTail.mk (hhead.unique h.consTail) (htail.unique h.consTail),
    hcons.unique h.consTail⟩

end RteRing

namespace RingSys

variable {α : Type*} {k : ℕ} {start : U32} {s : RingSys α}

/-- The ring of a reachable state in which nobody is using it. -/
theorem RingInv.holds_ring (h : RingInv k start s) (howner : s.owner = .idle)
    (hreader : s.reader = .idle) :
    ∃ confirmed handed fresh, s.ring.Holds k confirmed handed fresh ∧
      s.accepted = s.dequeued ++ (confirmed ++ handed ++ fresh) := by
  obtain ⟨ring, _, _, accepted, readOut, confirmed, dequeued⟩ := s
  obtain ⟨c, hc⟩ := h.dequeued_prefix
  obtain ⟨g, hg⟩ := h.confirmed_prefix
  obtain ⟨f, hf⟩ := h.readOut_prefix
  dsimp only at howner hreader hc hg hf
  subst howner hreader hc hg hf
  exact ⟨c, g, f, ⟨start, dequeued, h⟩, by simp only [List.append_assoc]⟩

/-- `free_ring_pbuf` on a ring of `2 ^ k` slots that nobody is using any more, in any state that the
functions of the ring can leave it in: both loops end, after at most as many rounds as the ring has
slots. The entries from `cons.tail` to `cons.head` are passed to `pbuf_free`, each once and in the
order of the ring; these are the objects accepted and not dequeued. The counters are equal at the
end, and no call fills more than the array. -/
theorem free_ring_pbuf_drains (hk : k ≤ 31) (slots : U32 → α)
    (hs : (system k start slots).Reachable s) (howner : s.owner = .idle)
    (hreader : s.reader = .idle) {rounds : ℕ} (hrounds : 2 ^ k ≤ rounds) :
    ∃ d, RingDrain.freeRingPbuf rounds s.ring = some d ∧
      d.freed = s.ring.dequeueElems s.ring.cons.tail s.ring.gazelleRingCount.toNat ∧
      s.accepted = s.dequeued ++ d.freed ∧
      d.ring.prod = ⟨d.ring.cons.tail, d.ring.cons.tail⟩ ∧ d.ring.cons.head = d.ring.cons.tail ∧
      d.filled ≤ sockRecvRingSize := by
  have h : RingInv k start s := RingInv.reachable hk hs
  obtain ⟨confirmed, handed, fresh, hring, haccepted⟩ := h.holds_ring howner hreader
  have hin : s.accepted.drop s.dequeued.length = confirmed ++ handed ++ fresh := by
    rw [haccepted, List.drop_left]
  -- what is in the ring is less than the number of its slots
  have hpos := Nat.two_pow_pos k
  have hlen : (confirmed ++ handed ++ fresh).length < rounds := by
    have hfits := h.fits
    rw [haccepted, List.length_append] at hfits
    omega
  have hfresh : fresh.length < rounds := by
    rw [List.length_append] at hlen
    omega
  obtain ⟨d₁, hread, hall, hnone, hfill⟩ := RteRing.Holds.readLoop
    (d := { ring := s.ring, freed := [], filled := 0 }) hk hring (Nat.zero_le _) hfresh
  obtain ⟨d₂, hfree, hempty, hfreed, hfill₂⟩ := hall.freeLoop hk hfill hlen
  obtain ⟨hprod, hcons⟩ := hempty.counters_eq
  rw [hnone, List.nil_append] at hfreed
  have helems := h.dequeueElems_eq (n := s.accepted.length - s.dequeued.length) h.consTail le_rfl
    (by rw [haccepted, List.length_append]; omega)
  rw [List.take_of_length_le (by rw [List.length_drop]), hin] at helems
  refine ⟨d₂, ?_, ?_, ?_, hprod, hcons, hfill₂⟩
  · rw [RingDrain.freeRingPbuf, hread]
    exact hfree
  · rw [hfreed, RteRing.gazelleRingCount, h.count_toNat hk, helems]
  · rw [hfreed, haccepted]

/-- A ring of four slots whose counters start just below `2 ^ 32`, with an object that is confirmed,
one that is only read and one that is not read. -/
theorem free_ring_pbuf_drains_wrapping :
    ∃ s : RingSys ℕ, s.accepted = [7, 8, 9] ∧ ∃ d, RingDrain.freeRingPbuf 4 s.ring = some d ∧
      d.freed = [7, 8, 9] := by
  have hrun : (system 2 (BitVec.ofNat 32 (2 ^ 32 - 1)) fun _ => 0).run
      (create 2 (BitVec.ofNat 32 (2 ^ 32 - 1)) fun _ => 0)
      [.enqueue [7, 8, 9], .owner, .owner, .owner, .owner, .owner, .owner, .owner,
        .read 1, .reader, .reader, .reader, .reader, .reader, .readOver, .reader, .reader, .reader,
        .read 1, .reader, .reader, .reader, .reader, .reader] = some _ := rfl
  obtain ⟨d, hd, -, hfreed, -⟩ := free_ring_pbuf_drains (by decide) _
    (Transition.System.reachable_of_run (.init rfl) hrun) rfl rfl le_rfl
  exact ⟨_, rfl, d, hd, hfreed.symm⟩

end RingSys

end Gazelle
