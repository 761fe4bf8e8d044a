import Gazelle.Ring.Refinement

/-!
# The gazelle ring when nothing interferes

A function of the ring that runs to its end makes the accesses of `Gazelle.Ring.Interleaving` one
after another, so what it does to the ring follows from `RingInv`. `RteRing.Holds` says what is in a
ring that nobody is using: the objects confirmed, those handed out and not confirmed, and those not
handed out.

* `Holds.scDequeue`, `Holds.read`, `Holds.readOver`, `Holds.spEnqueue`: one lemma for each function;
* `Holds.get_last`: the object confirmed last.
-/

namespace Gazelle

open WrapCounter RingSys

namespace RteRing

variable {α : Type*} {k : ℕ}

/-- A ring that nobody is using, with what was dequeued from it before. -/
def atRest (r : RteRing α) (past confirmed handed fresh : List α) : RingSys α where
  ring := r
  owner := .idle
  reader := .idle
  accepted := past ++ confirmed ++ handed ++ fresh
  readOut := past ++ confirmed ++ handed
  confirmed := past ++ confirmed
  dequeued := past

/-- A ring of `2 ^ k` slots that nobody is using: the objects that are confirmed, those that are
handed out, and the others. -/
def Holds (k : ℕ) (r : RteRing α) (confirmed handed fresh : List α) : Prop :=
  ∃ start past, RingInv k start (r.atRest past confirmed handed fresh)

/-- A ring just created is empty. -/
theorem Holds.create (k : ℕ) (start : U32) (slots : U32 → α) :
    Holds k (RteRing.create k start slots) [] [] [] :=
  ⟨start, [], RingInv.create k start slots⟩

/-- What `n` is clamped to. -/
theorem clamp_toNat_eq (n entries : U32) : (clamp n entries).toNat = min n.toNat entries.toNat := by
  unfold clamp
  split_ifs with hgt
  · rw [gt_iff_lt, BitVec.lt_def] at hgt
    omega
  · rw [gt_iff_lt, BitVec.not_lt, BitVec.le_def] at hgt
    omega

/-- Taking what the number available allows. -/
theorem take_clamp {l : List α} {n entries : U32} (h : entries.toNat = l.length) :
    l.take (clamp n entries).toNat = l.take n.toNat := by
  rw [clamp_toNat_eq, h, ← List.take_eq_take_min]

/-- What is left then. -/
theorem drop_clamp {l : List α} {n entries : U32} (h : entries.toNat = l.length) :
    l.drop (clamp n entries).toNat = l.drop n.toNat := by
  rw [clamp_toNat_eq, h, ← List.drop_eq_drop_min]

/-- Copying the rest of a table into its slots keeps the invariant. -/
theorem invariant_enqueueElems (hk : k ≤ 31) {start : U32} {table : List α} {head : U32} {n i : ℕ}
    {s : RingSys α} (h : RingInv k start s) (hpc : s.owner = .enqCopy table head i)
    (hn : i + n = table.length) :
    RingInv k start { s with
      ring := s.ring.enqueueElems (head + BitVec.ofNat 32 i) (table.drop i)
      owner := .enqCopy table head table.length } := by
  induction n generalizing s i with
  | zero =>
    obtain rfl : i = table.length := hn
    rw [List.drop_length, enqueueElems, ← hpc]
    exact h
  | succ n ih =>
    have hlt : i < table.length := by omega
    have hwrite := h.enqWrite hk hpc (List.getElem?_eq_getElem hlt)
    have hrest := ih hwrite rfl (by omega)
    have hnext : head + BitVec.ofNat 32 i + 1 = head + BitVec.ofNat 32 (i + 1) := by
      rw [BitVec.ofNat_add, BitVec.add_assoc]
      rfl
    rw [List.drop_eq_getElem_cons hlt, enqueueElems, hnext]
    exact hrest

section Calls

variable {r : RteRing α} {confirmed handed fresh : List α} (hk : k ≤ 31)
  (h : Holds k r confirmed handed fresh)

include hk h

/-- The objects not handed out. -/
theorem Holds.readable_toNat : (r.cons.head - r.prod.head).toNat = fresh.length := by
  obtain ⟨start, past, h⟩ := h
  have hle := h.dequeued_le
  have hle' := h.confirmed_le
  have hcount := h.prodHead.toNat_sub h.consHead h.readOut_le (h.near hk (by omega) le_rfl)
  refine hcount.trans ?_
  simp only [atRest, List.length_append]
  omega

/-- The objects confirmed. -/
theorem Holds.readover_toNat : (r.prod.tail - r.cons.tail).toNat = confirmed.length := by
  obtain ⟨start, past, h⟩ := h
  have hle' := h.confirmed_le
  have hle'' := h.readOut_le
  have hcount := h.consTail.toNat_sub h.prodTail h.dequeued_le (h.near hk le_rfl (by omega))
  refine hcount.trans ?_
  simp only [atRest, List.length_append]
  omega

/-- The room. -/
theorem Holds.freeCount_toNat :
    r.gazelleRingFreeCount.toNat =
      2 ^ k - 1 - (confirmed.length + handed.length + fresh.length) := by
  obtain ⟨start, past, h⟩ := h
  refine (h.freeCount_toNat hk).trans ?_
  simp only [atRest, List.length_append]
  omega

/-- `gazelle_ring_read` hands out the first objects that were not handed out. -/
theorem Holds.read (n : U32) :
    (r.gazelleRingRead n).1 = fresh.take n.toNat ∧
      Holds k (r.gazelleRingRead n).2 confirmed (handed ++ fresh.take n.toNat)
        (fresh.drop n.toNat) := by
  have hreadable := h.readable_toNat hk
  rw [← take_clamp hreadable, ← drop_clamp hreadable]
  obtain ⟨start, past, h⟩ := h
  unfold gazelleRingRead
  dsimp only
  generalize hm : clamp n (r.cons.head - r.prod.head) = m
  -- the clamp is at most the number of objects that are there
  have hle : m.toNat ≤ fresh.length := by
    rw [← hm, clamp_toNat_eq, hreadable]
    exact Nat.min_le_right _ _
  split_ifs with hzero
  · -- nothing is read, and the ring is the same
    have hnone : m.toNat = 0 := congrArg BitVec.toNat hzero
    rw [hnone, List.take_zero, List.drop_zero, List.append_nil]
    exact ⟨rfl, start, past, h⟩
  · have hgot : r.dequeueElems r.prod.head m.toNat = fresh.take m.toNat := by
      have helems := h.dequeueElems_eq (n := m.toNat) h.prodHead
        (Nat.le_trans h.dequeued_le h.confirmed_le)
        (by simp only [atRest, List.length_append]; omega)
      refine helems.trans ?_
      simp only [atRest, List.drop_left]
    refine ⟨hgot, start, past, ?_⟩
    -- the accesses of the call are those of one reader that nobody interrupts
    have hpc : ReaderInv start (r.atRest past confirmed handed fresh)
        (.readCopy m r.prod.head (fresh.take m.toNat)) := by
      refine ⟨rfl, ?_, ?_, ?_⟩
      · simp only [atRest, List.length_append]
        omega
      · rw [List.length_take]
        exact Nat.min_le_left _ _
      · simp only [atRest, List.drop_left]
        exact List.take_prefix _ _
    have hread := ((h.setReader hpc).readPublish rfl
      (by rw [List.length_take]; omega)).setReader (show ReaderInv start _ .idle from trivial)
    simpa only [atRest, List.append_assoc, List.take_append_drop] using hread

/-- `gazelle_ring_sc_dequeue` takes the first objects that are confirmed. -/
theorem Holds.scDequeue (n : U32) :
    (r.gazelleRingScDequeue n).1 = confirmed.take n.toNat ∧
      Holds k (r.gazelleRingScDequeue n).2 (confirmed.drop n.toNat) handed fresh := by
  have hreadover := h.readover_toNat hk
  rw [← take_clamp hreadover, ← drop_clamp hreadover]
  obtain ⟨start, past, h⟩ := h
  unfold gazelleRingScDequeue
  dsimp only
  -- as many as are confirmed, at most `n`
  generalize hm : clamp n (r.prod.tail - r.cons.tail) = m
  have hle : m.toNat ≤ confirmed.length := by
    rw [← hm, clamp_toNat_eq, hreadover]
    exact Nat.min_le_right _ _
  have hdrop : ((past ++ confirmed ++ handed ++ fresh).drop past.length).take m.toNat =
      confirmed.take m.toNat := by
    rw [List.append_assoc, List.append_assoc, List.drop_left, List.take_append_of_le_length hle]
  -- nothing is taken
  split_ifs with hzero
  · have hnone : m.toNat = 0 := congrArg BitVec.toNat hzero
    rw [hnone, List.take_zero, List.drop_zero]
    exact ⟨rfl, start, past, h⟩
  · -- what the copy reads are the first confirmed objects
    have hgot : r.dequeueElems r.cons.tail m.toNat = confirmed.take m.toNat := by
      have helems := h.dequeueElems_eq (n := m.toNat) h.consTail le_rfl
        (by simp only [atRest, List.length_append]; omega)
      exact helems.trans hdrop
    refine ⟨hgot, start, past ++ confirmed.take m.toNat, ?_⟩
    have hpc : OwnerInv k start (r.atRest past confirmed handed fresh)
        (.deqCopy m r.cons.tail (confirmed.take m.toNat)) := by
      refine ⟨rfl, ?_, ?_, ?_⟩
      · simp only [atRest, List.length_append]
        omega
      · rw [List.length_take]
        exact Nat.min_le_left _ _
      · rw [← hdrop]
        exact List.take_prefix _ _
    -- the store of `cons.tail` gives their places back
    have hdeq := ((h.setOwner hpc).deqPublish rfl
      (by rw [List.length_take]; omega)).setOwner (show OwnerInv k start _ .idle from trivial)
    -- they are past now, the others are still confirmed
    have hsplit : ∀ l : List α,
        confirmed.take m.toNat ++ (confirmed.drop m.toNat ++ l) = confirmed ++ l := by
      intro l
      rw [← List.append_assoc, List.take_append_drop]
    simpa only [atRest, List.append_assoc, hsplit, List.take_append_drop] using hdeq

/-- `gazelle_ring_sp_enqueue` takes a table that fits. -/
theorem Holds.spEnqueue {table : List α} (hlen : table.length ≤ r.gazelleRingFreeCount.toNat) :
    (r.gazelleRingSpEnqueue table).1.toNat = table.length ∧
      Holds k (r.gazelleRingSpEnqueue table).2 confirmed handed (fresh ++ table) := by
  have hfree := h.freeCount_toNat hk
  have hpow : 2 ^ k ≤ 2 ^ 31 := Nat.pow_le_pow_right Nat.two_pos hk
  obtain ⟨start, past, h⟩ := h
  have hnum : (BitVec.ofNat 32 table.length).toNat = table.length := by
    rw [BitVec.toNat_ofNat, Nat.mod_eq_of_lt (by omega)]
  have hroom : ¬ BitVec.ofNat 32 table.length > r.capacity + r.cons.tail - r.cons.head := by
    have htoNat := h.room_toNat hk
    rw [gt_iff_lt, BitVec.not_lt, BitVec.le_def, hnum]
    refine Nat.le_trans hlen (Nat.le_of_eq (hfree.trans (Eq.trans ?_ htoNat.symm)))
    simp only [atRest, List.length_append]
    omega
  have hpc : OwnerInv k start (r.atRest past confirmed handed fresh)
      (.enqCopy table r.cons.head 0) :=
    ⟨rfl, Nat.zero_le _, h.enqRoom hk (by omega) hroom, fun j _ hj => absurd hj (Nat.not_lt_zero j)⟩
  have hcopied := invariant_enqueueElems hk (n := table.length) (i := 0) (h.setOwner hpc) rfl
    (Nat.zero_add _)
  have hput := (hcopied.enqPublish rfl (List.getElem?_eq_none le_rfl)).setOwner
    (show OwnerInv k start _ .idle from trivial)
  unfold gazelleRingSpEnqueue
  dsimp only
  rw [if_neg hroom]
  refine ⟨hnum, start, past, ?_⟩
  have hhead : r.cons.head + BitVec.ofNat 32 0 = r.cons.head := BitVec.add_zero _
  simpa only [atRest, List.append_assoc, hhead, List.drop_zero] using hput

omit hk

/-- `gazelle_ring_read_over` confirms what is handed out. -/
theorem Holds.readOver : Holds k r.gazelleRingReadOver (confirmed ++ handed) [] fresh := by
  obtain ⟨start, past, h⟩ := h
  have hpc : ReaderInv start (r.atRest past confirmed handed fresh) (.overStore r.prod.head) := rfl
  have hover := ((h.setReader hpc).overPublish rfl).setReader
    (show ReaderInv start _ .idle from trivial)
  refine ⟨start, past, ?_⟩
  simpa only [atRest, gazelleRingReadOver, List.append_assoc, List.append_nil] using hover

omit h

/-- The object confirmed last is in the slot in front of `prod.tail`. -/
theorem Holds.get_last {x : α} (h : Holds k r (confirmed ++ [x]) handed fresh) :
    r.get (r.prod.tail - 1) = x := by
  obtain ⟨start, past, h⟩ := h
  have htail : Shows start (r.prod.tail - 1) (past ++ confirmed).length := by
    have hshow := h.prodTail
    simp only [atRest, ← List.append_assoc, List.length_append, List.length_singleton] at hshow
    rw [Shows, hshow, BitVec.ofNat_add, ← BitVec.add_assoc, List.length_append]
    exact BitVec.add_sub_cancel _ _
  have hget := h.holds (past ++ confirmed).length
    (by simp only [atRest, List.length_append, List.length_singleton]; omega)
    (by simp only [atRest, List.length_append]; omega)
  rw [htail]
  refine hget.trans ?_
  simp [atRest]

end Calls

end RteRing

end Gazelle
