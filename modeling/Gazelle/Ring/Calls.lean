import Gazelle.Ring.Refinement

/-!
# Calls of the ring functions

What a thread that calls a ring function relies on, in any interleaving with the other thread: from
the call on the histories of its own side are those of the call, until the function stores its
counter. There is one predicate for each function, with a lemma for the call, one for the steps of
the thread, and one for what the function returns.

* `RingSys.Enqueuing`: `gazelle_ring_sp_enqueue` takes the whole table exactly when there is room;
* `RingSys.Dequeuing`: `gazelle_ring_sc_dequeue` returns what it adds to the dequeued objects;
* `RingSys.Reading`: `gazelle_ring_read` returns what it adds to the objects read;
* `RingSys.FullReading`: it returns as many objects as it is asked for when they are there;
* `RingSys.Confirming`: `gazelle_ring_read_over` confirms all that was read;
* `RingSys.Resting`, `RingSys.ReaderResting`: no function is being called.
-/

namespace Gazelle

open WrapCounter

/-- The actions of the reading thread. -/
def RingAct.isReader {α : Type*} : RingAct α → Bool
  | .read _ | .readOver | .reader => true
  | _ => false

namespace RingSys

variable {α : Type*} {k : ℕ} {start : U32} {s s' : RingSys α}

/-! ## The other side -/

/-- The owner stands where it stood, with the same histories. -/
structure SameOwner (s s' : RingSys α) : Prop where
  /-- Where it stands. -/
  owner : s'.owner = s.owner
  /-- What it has accepted. -/
  accepted : s'.accepted = s.accepted
  /-- What it has dequeued. -/
  dequeued : s'.dequeued = s.dequeued

/-- The reader stands where it stood, with the same histories. -/
structure SameReader (s s' : RingSys α) : Prop where
  /-- Where it stands. -/
  reader : s'.reader = s.reader
  /-- What it has read. -/
  readOut : s'.readOut = s.readOut
  /-- What it has confirmed. -/
  confirmed : s'.confirmed = s.confirmed

theorem SameReader.refl (s : RingSys α) : SameReader s s := ⟨rfl, rfl, rfl⟩

/-- The reader leaves the owner and its histories alone. -/
theorem sameOwner_of_readerAct {a : RingAct α} (ha : a.isReader) (hs : s.step a = some s') :
    SameOwner s s' := by
  cases a with
  | enqueue objTable => cases ha
  | dequeue n => cases ha
  | owner => cases ha
  | read n =>
    simp only [RingSys.step] at hs
    split at hs
    · exact Option.some.inj hs ▸ ⟨rfl, rfl, rfl⟩
    · cases hs
  | readOver =>
    simp only [RingSys.step] at hs
    split at hs
    · exact Option.some.inj hs ▸ ⟨rfl, rfl, rfl⟩
    · cases hs
  | reader =>
    simp only [RingSys.step, RingSys.readerStep] at hs
    split at hs
    all_goals first
      | cases hs; done
      | exact Option.some.inj hs ▸ ⟨rfl, rfl, rfl⟩
      | (split at hs <;> exact Option.some.inj hs ▸ ⟨rfl, rfl, rfl⟩)

/-- The owner leaves the reader and its histories alone. -/
theorem sameReader_of_ownerAct {a : RingAct α} (hs : s.step a = some s') (ha : ¬ a.isReader) :
    SameReader s s' := by
  cases a with
  | enqueue objTable =>
    simp only [RingSys.step] at hs
    split at hs
    · split at hs
      · exact Option.some.inj hs ▸ ⟨rfl, rfl, rfl⟩
      · cases hs
    · cases hs
  | dequeue n =>
    simp only [RingSys.step] at hs
    split at hs
    · exact Option.some.inj hs ▸ ⟨rfl, rfl, rfl⟩
    · cases hs
  | owner =>
    obtain ⟨hreader, hread, hconf⟩ := reader_of_ownerStep hs
    exact ⟨hreader, hread, hconf⟩
  | read n => exact absurd rfl ha
  | readOver => exact absurd rfl ha
  | reader => exact absurd rfl ha

/-! ## `gazelle_ring_sp_enqueue` -/

/-- Where the owner stands in `gazelle_ring_sp_enqueue`. -/
def EnqueuePc (k : ℕ) (table acc deq : List α) (s : RingSys α) : OwnerPc α → Prop
  | .enqLoadHead t | .enqLoadTail t _ => t = table ∧ s.accepted = acc
  | .enqCopy t _ _ =>
    t = table ∧ s.accepted = acc ∧ acc.length + table.length ≤ deq.length + (2 ^ k - 1)
  | .enqDone n =>
    if acc.length + table.length ≤ deq.length + (2 ^ k - 1) then
      n = BitVec.ofNat 32 table.length ∧ s.accepted = acc ++ table
    else n = 0 ∧ s.accepted = acc
  | _ => False

/-- The owner enqueues `table`. It had accepted `acc` and dequeued `deq` before. -/
structure Enqueuing (k : ℕ) (table acc deq : List α) (s : RingSys α) : Prop where
  /-- Nothing is dequeued meanwhile. -/
  dequeued : s.dequeued = deq
  /-- The length of a table is a `uint32_t`. -/
  length_lt : table.length < 2 ^ 32
  /-- Where it stands. -/
  pc : EnqueuePc k table acc deq s s.owner

/-- The call of `gazelle_ring_sp_enqueue`. -/
theorem enqueuing_of_call {table : List α} (hs : s.step (.enqueue table) = some s') :
    Enqueuing k table s.accepted s.dequeued s' := by
  simp only [RingSys.step] at hs
  split at hs
  · split at hs
    · rename_i hlen
      obtain rfl := Option.some.inj hs
      exact ⟨rfl, hlen, rfl, rfl⟩
    · cases hs
  · cases hs

section Owner

variable {table acc deq : List α} {n : U32}

/-- The next access of the owner. -/
theorem Enqueuing.ownerStep (hk : k ≤ 31) (h : RingInv k start s)
    (hc : Enqueuing k table acc deq s) (hdone : ∀ n, s.owner ≠ .enqDone n)
    (hs : s.ownerStep = some s') : Enqueuing k table acc deq s' := by
  have hpc := hc.pc
  have hlen := hc.length_lt
  simp only [RingSys.ownerStep] at hs
  cases howner : s.owner with
  | enqLoadHead t =>
    simp only [howner] at hs hpc
    obtain rfl := Option.some.inj hs
    exact ⟨hc.dequeued, hlen, hpc⟩
  | enqLoadTail t head =>
    simp only [howner] at hs hpc
    obtain ⟨rfl, rfl⟩ := hpc
    obtain rfl := hc.dequeued
    have hinv := h.owner
    rw [howner] at hinv
    obtain ⟨-, rfl⟩ := hinv
    -- the room is what the histories say
    have hroom := h.room_toNat hk
    have hfits := h.fits
    have hle := h.dequeued_le
    have hle' := h.confirmed_le
    have hle'' := h.readOut_le
    split at hs
    · rename_i hgt
      obtain rfl := Option.some.inj hs
      rw [gt_iff_lt, BitVec.lt_def, hroom, BitVec.toNat_ofNat, Nat.mod_eq_of_lt hlen] at hgt
      refine ⟨rfl, hlen, ?_⟩
      simp only [EnqueuePc]
      rw [if_neg (by omega)]
      exact ⟨trivial, trivial⟩
    · rename_i hgt
      obtain rfl := Option.some.inj hs
      exact ⟨rfl, hlen, rfl, rfl, h.enqRoom hk hlen hgt⟩
  | enqCopy t head i =>
    simp only [howner] at hs hpc
    obtain ⟨rfl, hacc, hbound⟩ := hpc
    split at hs
    · obtain rfl := Option.some.inj hs
      exact ⟨hc.dequeued, hlen, rfl, hacc, hbound⟩
    · obtain rfl := Option.some.inj hs
      refine ⟨hc.dequeued, hlen, ?_⟩
      simp only [EnqueuePc]
      rw [if_pos hbound, hacc]
      exact ⟨trivial, rfl⟩
  | enqDone n => exact absurd howner (hdone n)
  | idle => rw [howner] at hpc; exact hpc.elim
  | deqLoadProd n => rw [howner] at hpc; exact hpc.elim
  | deqLoadCons n prod => rw [howner] at hpc; exact hpc.elim
  | deqCopy n cons got => rw [howner] at hpc; exact hpc.elim
  | deqDone got => rw [howner] at hpc; exact hpc.elim

/-- The table is taken as a whole when there is room. -/
theorem Enqueuing.accepted_of_fits (hc : Enqueuing k table acc deq s) (hdone : s.owner = .enqDone n)
    (hfits : acc.length + table.length ≤ deq.length + (2 ^ k - 1)) :
    n = BitVec.ofNat 32 table.length ∧ s.accepted = acc ++ table := by
  have hpc := hc.pc
  rw [hdone, EnqueuePc, if_pos hfits] at hpc
  exact hpc

/-- Nothing is taken when there is no room. -/
theorem Enqueuing.accepted_of_not_fits (hc : Enqueuing k table acc deq s)
    (hdone : s.owner = .enqDone n)
    (hfits : ¬ acc.length + table.length ≤ deq.length + (2 ^ k - 1)) :
    n = 0 ∧ s.accepted = acc := by
  have hpc := hc.pc
  rw [hdone, EnqueuePc, if_neg hfits] at hpc
  exact hpc

/-- Nothing is accepted before the function is done. -/
theorem Enqueuing.accepted_eq (hc : Enqueuing k table acc deq s)
    (hdone : ∀ n, s.owner ≠ .enqDone n) :
    s.accepted = acc := by
  have hpc := hc.pc
  revert hpc
  cases howner : s.owner with
  | enqLoadHead t => exact fun hpc => hpc.2
  | enqLoadTail t head => exact fun hpc => hpc.2
  | enqCopy t head i => exact fun hpc => hpc.2.1
  | enqDone n => exact absurd howner (hdone n)
  | _ => exact False.elim

/-- The table is accepted as a whole or not at all. -/
theorem Enqueuing.accepted_cases (hc : Enqueuing k table acc deq s) :
    s.accepted = acc ∨ s.accepted = acc ++ table := by
  by_cases hdone : ∃ n, s.owner = .enqDone n
  · obtain ⟨n, hdone⟩ := hdone
    by_cases hfits : acc.length + table.length ≤ deq.length + (2 ^ k - 1)
    · exact .inr (hc.accepted_of_fits hdone hfits).2
    · exact .inl (hc.accepted_of_not_fits hdone hfits).2
  · exact .inl (hc.accepted_eq fun n hn => hdone ⟨n, hn⟩)

/-- A call has not returned yet. -/
theorem owner_ne_enqDone_of_call (hs : s.step (.enqueue table) = some s') :
    ∀ n, s'.owner ≠ .enqDone n := by
  simp only [RingSys.step] at hs
  split at hs
  · split at hs
    · obtain rfl := Option.some.inj hs
      rintro _ ⟨⟩
    · cases hs
  · cases hs

/-! ## `gazelle_ring_sc_dequeue` -/

/-- Where the owner stands in `gazelle_ring_sc_dequeue`. -/
def DequeuePc (n : U32) (deq : List α) (s : RingSys α) : OwnerPc α → Prop
  | .deqLoadProd m | .deqLoadCons m _ => m = n ∧ s.dequeued = deq
  | .deqCopy m _ _ => m.toNat ≤ n.toNat ∧ s.dequeued = deq
  | .deqDone got => s.dequeued = deq ++ got ∧ got.length ≤ n.toNat
  | _ => False

/-- The owner dequeues `n` objects at most. It had accepted `acc` and dequeued `deq` before. -/
structure Dequeuing (n : U32) (acc deq : List α) (s : RingSys α) : Prop where
  /-- Nothing is accepted meanwhile. -/
  accepted : s.accepted = acc
  /-- Where it stands. -/
  pc : DequeuePc n deq s s.owner

/-- The call of `gazelle_ring_sc_dequeue`. -/
theorem dequeuing_of_call (hs : s.step (.dequeue n) = some s') :
    Dequeuing n s.accepted s.dequeued s' := by
  simp only [RingSys.step] at hs
  split at hs
  · obtain rfl := Option.some.inj hs
    exact ⟨rfl, rfl, rfl⟩
  · cases hs

/-- The number of objects that a call goes on with is at most what was asked for. -/
theorem clamp_le (n entries : U32) : (RteRing.clamp n entries).toNat ≤ n.toNat := by
  unfold RteRing.clamp
  split
  · rename_i hlt
    exact Nat.le_of_lt hlt
  · exact Nat.le_refl _

/-- The next access of the owner. -/
theorem Dequeuing.ownerStep (h : RingInv k start s) (hc : Dequeuing n acc deq s)
    (hdone : ∀ got, s.owner ≠ .deqDone got) (hs : s.ownerStep = some s') :
    Dequeuing n acc deq s' := by
  have hpc := hc.pc
  simp only [RingSys.ownerStep] at hs
  cases howner : s.owner with
  | deqLoadProd m =>
    simp only [howner] at hs hpc
    obtain rfl := Option.some.inj hs
    exact ⟨hc.accepted, hpc⟩
  | deqLoadCons m prod =>
    -- the number of objects is cut to what is there
    simp only [howner] at hs hpc
    obtain ⟨rfl, hdeq⟩ := hpc
    split at hs
    · obtain rfl := Option.some.inj hs
      exact ⟨hc.accepted, by simp [hdeq], Nat.zero_le _⟩
    · obtain rfl := Option.some.inj hs
      exact ⟨hc.accepted, clamp_le _ _, hdeq⟩
  | deqCopy m cons got =>
    simp only [howner] at hs hpc
    obtain ⟨hle, hdeq⟩ := hpc
    have hinv := h.owner
    rw [howner] at hinv
    obtain ⟨-, -, hgot, -⟩ := hinv
    -- the last object is copied, or the next one
    split at hs
    · obtain rfl := Option.some.inj hs
      exact ⟨hc.accepted, hle, hdeq⟩
    · obtain rfl := Option.some.inj hs
      exact ⟨hc.accepted, by rw [hdeq], hgot.trans hle⟩
  -- the call has not returned, and the owner is in no other one
  | deqDone got => exact absurd howner (hdone got)
  | idle => rw [howner] at hpc; exact hpc.elim
  | enqLoadHead t => rw [howner] at hpc; exact hpc.elim
  | enqLoadTail t head => rw [howner] at hpc; exact hpc.elim
  | enqCopy t head i => rw [howner] at hpc; exact hpc.elim
  | enqDone m => rw [howner] at hpc; exact hpc.elim

/-- The objects returned are those dequeued. -/
theorem Dequeuing.returned (hc : Dequeuing n acc deq s) {got : List α}
    (hdone : s.owner = .deqDone got) : s.dequeued = deq ++ got ∧ got.length ≤ n.toNat := by
  have hpc := hc.pc
  rw [hdone] at hpc
  exact hpc

/-- Nothing that was dequeued before is lost. -/
theorem Dequeuing.isPrefix_dequeued (hc : Dequeuing n acc deq s) : deq <+: s.dequeued := by
  have hpc := hc.pc
  revert hpc
  cases s.owner with
  | deqLoadProd m => exact fun hpc => hpc.2 ▸ List.prefix_refl _
  | deqLoadCons m prod => exact fun hpc => hpc.2 ▸ List.prefix_refl _
  | deqCopy m cons got => exact fun hpc => hpc.2 ▸ List.prefix_refl _
  | deqDone got => exact fun hpc => hpc.1 ▸ List.prefix_append _ _
  | _ => exact False.elim

end Owner

/-- Nothing is dequeued before the function is done. -/
theorem Dequeuing.dequeued_eq (hc : Dequeuing n acc deq s) (hdone : ∀ got, s.owner ≠ .deqDone got) :
    s.dequeued = deq := by
  have hpc := hc.pc
  revert hpc
  cases howner : s.owner with
  | deqLoadProd m => exact fun hpc => hpc.2
  | deqLoadCons m prod => exact fun hpc => hpc.2
  | deqCopy m cons got => exact fun hpc => hpc.2
  | deqDone got => exact absurd howner (hdone got)
  | _ => exact False.elim

/-- The return from a function changes nothing but where the owner stands. -/
theorem return_eq (hdone : (∃ n, s.owner = .enqDone n) ∨ ∃ got, s.owner = .deqDone got) :
    s.ownerStep = some { s with owner := .idle } := by
  rcases hdone with ⟨n, hdone⟩ | ⟨got, hdone⟩ <;> simp only [RingSys.ownerStep, hdone]

/-- The owner is outside the ring functions. It has accepted `acc` and dequeued `deq`. -/
structure Resting (acc deq : List α) (s : RingSys α) : Prop where
  /-- Where it stands. -/
  owner : s.owner = .idle
  /-- What it has accepted. -/
  accepted : s.accepted = acc
  /-- What it has dequeued. -/
  dequeued : s.dequeued = deq

/-- The call of `gazelle_ring_sp_enqueue` from outside the ring functions. -/
theorem Resting.enqueue {acc deq table : List α} (h : Resting acc deq s)
    (hs : s.step (.enqueue table) = some s') : Enqueuing k table acc deq s' := by
  have hcall := enqueuing_of_call (k := k) hs
  rwa [h.accepted, h.dequeued] at hcall

/-- The call of `gazelle_ring_sc_dequeue` from outside the ring functions. -/
theorem Resting.dequeue {acc deq : List α} {n : U32} (h : Resting acc deq s)
    (hs : s.step (.dequeue n) = some s') : Dequeuing n acc deq s' := by
  have hcall := dequeuing_of_call hs
  rwa [h.accepted, h.dequeued] at hcall

/-- The owner after a function has returned. -/
theorem resting_of_return (hdone : (∃ n, s.owner = .enqDone n) ∨ ∃ got, s.owner = .deqDone got)
    (hs : s.step .owner = some s') : Resting s.accepted s.dequeued s' := by
  obtain rfl := Option.some.inj ((return_eq hdone).symm.trans hs)
  exact ⟨rfl, rfl, rfl⟩

/-! ## `gazelle_ring_read` -/

section Reader

variable {out conf : List α} {n : U32}

/-- Where the reader stands in `gazelle_ring_read`. -/
def ReadPc (n : U32) (out : List α) (s : RingSys α) : ReaderPc α → Prop
  | .readLoadCons m | .readLoadProd m _ => m = n ∧ s.readOut = out
  | .readCopy m _ _ => m.toNat ≤ n.toNat ∧ s.readOut = out
  | .readDone got => s.readOut = out ++ got ∧ got.length ≤ n.toNat
  | _ => False

/-- The reader reads `n` objects at most. It had read `out` and confirmed `conf` before. -/
structure Reading (n : U32) (out conf : List α) (s : RingSys α) : Prop where
  /-- Nothing is confirmed meanwhile. -/
  confirmed : s.confirmed = conf
  /-- Where it stands. -/
  pc : ReadPc n out s s.reader

/-- The call of `gazelle_ring_read`. -/
theorem reading_of_call (hs : s.step (.read n) = some s') : Reading n s.readOut s.confirmed s' := by
  simp only [RingSys.step] at hs
  split at hs
  · obtain rfl := Option.some.inj hs
    exact ⟨rfl, rfl, rfl⟩
  · cases hs

/-- The next access of the reader. -/
theorem Reading.readerStep (h : RingInv k start s) (hc : Reading n out conf s)
    (hdone : ∀ got, s.reader ≠ .readDone got) (hs : s.readerStep = some s') :
    Reading n out conf s' := by
  have hpc := hc.pc
  simp only [RingSys.readerStep] at hs
  cases hreader : s.reader with
  | readLoadCons m =>
    simp only [hreader] at hs hpc
    obtain rfl := Option.some.inj hs
    exact ⟨hc.confirmed, hpc⟩
  | readLoadProd m cons =>
    simp only [hreader] at hs hpc
    obtain ⟨rfl, hout⟩ := hpc
    -- the number of objects is cut to what is there
    split at hs
    · obtain rfl := Option.some.inj hs
      exact ⟨hc.confirmed, by simp [hout], Nat.zero_le _⟩
    · obtain rfl := Option.some.inj hs
      exact ⟨hc.confirmed, clamp_le _ _, hout⟩
  | readCopy m prod got =>
    simp only [hreader] at hs hpc
    obtain ⟨hle, hout⟩ := hpc
    have hinv := h.reader
    rw [hreader] at hinv
    obtain ⟨-, -, hgot, -⟩ := hinv
    -- the last object is copied, or the next one
    split at hs
    · obtain rfl := Option.some.inj hs
      exact ⟨hc.confirmed, hle, hout⟩
    · obtain rfl := Option.some.inj hs
      exact ⟨hc.confirmed, by rw [hout], hgot.trans hle⟩
  -- the call has not returned, and the reader is in no other one
  | readDone got => exact absurd hreader (hdone got)
  | idle => rw [hreader] at hpc; exact hpc.elim
  | overLoad => rw [hreader] at hpc; exact hpc.elim
  | overStore head => rw [hreader] at hpc; exact hpc.elim
  | overDone => rw [hreader] at hpc; exact hpc.elim

/-- The objects returned are those read. -/
theorem Reading.returned (hc : Reading n out conf s) {got : List α}
    (hdone : s.reader = .readDone got) : s.readOut = out ++ got ∧ got.length ≤ n.toNat := by
  have hpc := hc.pc
  rw [hdone] at hpc
  exact hpc

/-- Nothing is read before the function is done. -/
theorem Reading.readOut_eq (hc : Reading n out conf s) (hdone : ∀ got, s.reader ≠ .readDone got) :
    s.readOut = out := by
  have hpc := hc.pc
  revert hpc
  cases hreader : s.reader with
  | readLoadCons m => exact fun hpc => hpc.2
  | readLoadProd m cons => exact fun hpc => hpc.2
  | readCopy m prod got => exact fun hpc => hpc.2
  | readDone got => exact absurd hreader (hdone got)
  | _ => exact False.elim

/-- Nothing that was read before is lost. -/
theorem Reading.isPrefix_readOut (hc : Reading n out conf s) : out <+: s.readOut := by
  have hpc := hc.pc
  revert hpc
  cases s.reader with
  | readLoadCons m => exact fun hpc => hpc.2 ▸ List.prefix_refl _
  | readLoadProd m cons => exact fun hpc => hpc.2 ▸ List.prefix_refl _
  | readCopy m prod got => exact fun hpc => hpc.2 ▸ List.prefix_refl _
  | readDone got => exact fun hpc => hpc.1 ▸ List.prefix_append _ _
  | _ => exact False.elim

/-- Where the reader stands in a `gazelle_ring_read` that finds all it is asked for. -/
def FullReadPc (start : U32) (n : U32) (out : List α) (s : RingSys α) : ReaderPc α → Prop
  | .readLoadCons m => m = n ∧ s.readOut = out ∧ out.length + n.toNat ≤ s.accepted.length
  | .readLoadProd m cons =>
    m = n ∧ s.readOut = out ∧
      ∃ c, Shows start cons c ∧ out.length + n.toNat ≤ c ∧ c ≤ s.accepted.length
  | .readCopy m _ _ => m = n ∧ s.readOut = out
  | .readDone got => s.readOut = out ++ got ∧ got.length = n.toNat
  | _ => False

/-- The reader reads `n` objects, which are there. It had read `out` and confirmed `conf` before. -/
structure FullReading (start : U32) (n : U32) (out conf : List α) (s : RingSys α) : Prop where
  /-- Nothing is confirmed meanwhile. -/
  confirmed : s.confirmed = conf
  /-- Where it stands. -/
  pc : FullReadPc start n out s s.reader

/-- What `gazelle_ring_readable_count` counts. -/
theorem RingInv.readableCount_toNat (hk : k ≤ 31) (h : RingInv k start s) :
    s.ring.gazelleRingReadableCount.toNat = s.accepted.length - s.readOut.length := by
  have hle := h.dequeued_le
  have hle' := h.confirmed_le
  exact h.prodHead.toNat_sub h.consHead h.readOut_le (h.near hk (by omega) le_rfl)

/-- A call of `gazelle_ring_read` after the readable objects were counted. -/
theorem fullReading_of_call (hk : k ≤ 31) (h : RingInv k start s)
    (hcount : n ≤ s.ring.gazelleRingReadableCount) (hs : s.step (.read n) = some s') :
    FullReading start n s.readOut s.confirmed s' := by
  have hle := h.readOut_le
  rw [BitVec.le_def, h.readableCount_toNat hk] at hcount
  simp only [RingSys.step] at hs
  split at hs
  · obtain rfl := Option.some.inj hs
    refine ⟨rfl, rfl, rfl, ?_⟩
    show s.readOut.length + n.toNat ≤ s.accepted.length
    omega
  · cases hs

/-- The next access of the reader. -/
theorem FullReading.readerStep (hk : k ≤ 31) (h : RingInv k start s)
    (hc : FullReading start n out conf s) (hdone : ∀ got, s.reader ≠ .readDone got)
    (hs : s.readerStep = some s') : FullReading start n out conf s' := by
  have hpc := hc.pc
  simp only [RingSys.readerStep] at hs
  cases hreader : s.reader with
  | readLoadCons m =>
    simp only [hreader] at hs hpc
    obtain ⟨rfl, hout, hle⟩ := hpc
    obtain rfl := Option.some.inj hs
    exact ⟨hc.confirmed, rfl, hout, _, h.consHead, hle, le_rfl⟩
  | readLoadProd m cons =>
    simp only [hreader] at hs hpc
    obtain ⟨rfl, hout, c, hshow, hge, hle⟩ := hpc
    have hle' := h.dequeued_le
    have hle'' := h.confirmed_le
    have hcount : (cons - s.ring.prod.head).toNat = c - s.readOut.length :=
      h.prodHead.toNat_sub hshow (by rw [hout]; omega) (h.near hk (by omega) hle)
    -- the stale counter shows enough
    have hclamp : RteRing.clamp m (cons - s.ring.prod.head) = m := by
      rw [RteRing.clamp, if_neg]
      rw [gt_iff_lt, BitVec.lt_def, hcount, hout]
      omega
    rw [hclamp] at hs
    split at hs
    · rename_i hzero
      obtain rfl := Option.some.inj hs
      exact ⟨hc.confirmed, by rw [hout, List.append_nil], by simp [hzero]⟩
    · obtain rfl := Option.some.inj hs
      exact ⟨hc.confirmed, rfl, hout⟩
  | readCopy m prod got =>
    simp only [hreader] at hs hpc
    obtain ⟨rfl, hout⟩ := hpc
    have hinv := h.reader
    rw [hreader] at hinv
    obtain ⟨-, -, hgot, -⟩ := hinv
    split at hs
    · obtain rfl := Option.some.inj hs
      exact ⟨hc.confirmed, rfl, hout⟩
    · rename_i hnot
      obtain rfl := Option.some.inj hs
      exact ⟨hc.confirmed, by rw [hout], by omega⟩
  | readDone got => exact absurd hreader (hdone got)
  | idle => rw [hreader] at hpc; exact hpc.elim
  | overLoad => rw [hreader] at hpc; exact hpc.elim
  | overStore head => rw [hreader] at hpc; exact hpc.elim
  | overDone => rw [hreader] at hpc; exact hpc.elim

/-- The objects returned are those read, as many as were asked for. -/
theorem FullReading.returned (hc : FullReading start n out conf s) {got : List α}
    (hdone : s.reader = .readDone got) : s.readOut = out ++ got ∧ got.length = n.toNat := by
  have hpc := hc.pc
  rw [hdone] at hpc
  exact hpc

/-! ## `gazelle_ring_read_over` -/

/-- Where the reader stands in `gazelle_ring_read_over`. -/
def ConfirmPc (out conf : List α) (s : RingSys α) : ReaderPc α → Prop
  | .overLoad | .overStore _ => s.confirmed = conf
  | .overDone => s.confirmed = out
  | _ => False

/-- The reader confirms. It has read `out` and had confirmed `conf` before. -/
structure Confirming (out conf : List α) (s : RingSys α) : Prop where
  /-- Nothing is read meanwhile. -/
  readOut : s.readOut = out
  /-- Where it stands. -/
  pc : ConfirmPc out conf s s.reader

/-- The call of `gazelle_ring_read_over`. -/
theorem confirming_of_call (hs : s.step .readOver = some s') :
    Confirming s.readOut s.confirmed s' := by
  simp only [RingSys.step] at hs
  split at hs
  · obtain rfl := Option.some.inj hs
    exact ⟨rfl, rfl⟩
  · cases hs

/-- The next access of the reader. -/
theorem Confirming.readerStep (hc : Confirming out conf s) (hdone : s.reader ≠ .overDone)
    (hs : s.readerStep = some s') : Confirming out conf s' := by
  have hpc := hc.pc
  simp only [RingSys.readerStep] at hs
  cases hreader : s.reader with
  | overLoad =>
    simp only [hreader] at hs hpc
    obtain rfl := Option.some.inj hs
    exact ⟨hc.readOut, hpc⟩
  | overStore head =>
    simp only [hreader] at hs hpc
    obtain rfl := Option.some.inj hs
    exact ⟨hc.readOut, hc.readOut⟩
  | overDone => exact absurd hreader hdone
  | idle => rw [hreader] at hpc; exact hpc.elim
  | readLoadCons m => rw [hreader] at hpc; exact hpc.elim
  | readLoadProd m cons => rw [hreader] at hpc; exact hpc.elim
  | readCopy m prod got => rw [hreader] at hpc; exact hpc.elim
  | readDone got => rw [hreader] at hpc; exact hpc.elim

/-- Before the store the reader has to load. -/
theorem Confirming.loads (hc : Confirming out conf s) (hstore : ∀ head, s.reader ≠ .overStore head)
    (hdone : s.reader ≠ .overDone) : s.reader = .overLoad := by
  have hpc := hc.pc
  revert hpc
  cases hreader : s.reader with
  | overLoad => exact fun _ => rfl
  | overStore head => exact absurd hreader (hstore head)
  | overDone => exact absurd hreader hdone
  | _ => exact False.elim

/-- All that was read is confirmed in the end. -/
theorem Confirming.confirmed_eq (hc : Confirming out conf s) (hdone : s.reader = .overDone) :
    s.confirmed = out := by
  have hpc := hc.pc
  rw [hdone] at hpc
  exact hpc

/-- Nothing is confirmed before the store. -/
theorem Confirming.confirmed_of_not_done (hc : Confirming out conf s)
    (hdone : s.reader ≠ .overDone) :
    s.confirmed = conf := by
  have hpc := hc.pc
  revert hpc
  cases hreader : s.reader with
  | overLoad => exact id
  | overStore head => exact id
  | overDone => exact absurd hreader hdone
  | _ => exact False.elim

/-- The reader is outside the ring functions. It has read `out` and confirmed `conf`. -/
structure ReaderResting (out conf : List α) (s : RingSys α) : Prop where
  /-- Where it stands. -/
  reader : s.reader = .idle
  /-- What it has read. -/
  readOut : s.readOut = out
  /-- What it has confirmed. -/
  confirmed : s.confirmed = conf

/-- The return from a function changes nothing but where the reader stands. -/
theorem readerReturn_eq (hdone : (∃ got, s.reader = .readDone got) ∨ s.reader = .overDone) :
    s.readerStep = some { s with reader := .idle } := by
  rcases hdone with ⟨got, hdone⟩ | hdone <;> simp only [RingSys.readerStep, hdone]

/-- The call of `gazelle_ring_read` from outside the ring functions. -/
theorem ReaderResting.read (h : ReaderResting out conf s) (hs : s.step (.read n) = some s') :
    Reading n out conf s' := by
  have hcall := reading_of_call hs
  rwa [h.readOut, h.confirmed] at hcall

/-- The call of `gazelle_ring_read_over` from outside the ring functions. -/
theorem ReaderResting.readOver (h : ReaderResting out conf s) (hs : s.step .readOver = some s') :
    Confirming out conf s' := by
  have hcall := confirming_of_call hs
  rwa [h.readOut, h.confirmed] at hcall

/-- The reader after a function has returned. -/
theorem readerResting_of_return (hdone : (∃ got, s.reader = .readDone got) ∨ s.reader = .overDone)
    (hs : s.step .reader = some s') : ReaderResting s.readOut s.confirmed s' := by
  obtain rfl := Option.some.inj ((readerReturn_eq hdone).symm.trans hs)
  exact ⟨rfl, rfl, rfl⟩

end Reader

/-! ## One side does not interfere with the other -/

section Frame

variable {table acc deq out conf : List α} {n : U32}

theorem Resting.congr (hc : Resting acc deq s) (h : SameOwner s s') : Resting acc deq s' :=
  ⟨h.owner.trans hc.owner, h.accepted.trans hc.accepted, h.dequeued.trans hc.dequeued⟩

theorem Enqueuing.congr (hc : Enqueuing k table acc deq s) (h : SameOwner s s') :
    Enqueuing k table acc deq s' := by
  refine ⟨h.dequeued.trans hc.dequeued, hc.length_lt, ?_⟩
  have hpc := hc.pc
  rw [h.owner]
  revert hpc
  cases s.owner <;> simp only [EnqueuePc, h.accepted] <;> exact id

theorem Dequeuing.congr (hc : Dequeuing n acc deq s) (h : SameOwner s s') :
    Dequeuing n acc deq s' := by
  refine ⟨h.accepted.trans hc.accepted, ?_⟩
  have hpc := hc.pc
  rw [h.owner]
  revert hpc
  cases s.owner <;> simp only [DequeuePc, h.dequeued] <;> exact id

theorem ReaderResting.congr (hc : ReaderResting out conf s) (h : SameReader s s') :
    ReaderResting out conf s' :=
  ⟨h.reader.trans hc.reader, h.readOut.trans hc.readOut, h.confirmed.trans hc.confirmed⟩

theorem Reading.congr (hc : Reading n out conf s) (h : SameReader s s') :
    Reading n out conf s' := by
  refine ⟨h.confirmed.trans hc.confirmed, ?_⟩
  have hpc := hc.pc
  rw [h.reader]
  revert hpc
  cases s.reader <;> simp only [ReadPc, h.readOut] <;> exact id

theorem FullReading.congr (hc : FullReading start n out conf s) (h : SameReader s s')
    (hacc : s.accepted <+: s'.accepted) : FullReading start n out conf s' := by
  refine ⟨h.confirmed.trans hc.confirmed, ?_⟩
  have hpc := hc.pc
  have hle := hacc.length_le
  rw [h.reader]
  cases hreader : s.reader with
  | readLoadCons m =>
    rw [hreader] at hpc
    exact ⟨hpc.1, h.readOut.trans hpc.2.1, hpc.2.2.trans hle⟩
  | readLoadProd m cons =>
    rw [hreader] at hpc
    obtain ⟨hm, hout, c, hshow, hge, hle'⟩ := hpc
    exact ⟨hm, h.readOut.trans hout, c, hshow, hge, hle'.trans hle⟩
  | readCopy m prod got =>
    rw [hreader] at hpc
    exact ⟨hpc.1, h.readOut.trans hpc.2⟩
  | readDone got =>
    rw [hreader] at hpc
    exact ⟨h.readOut.trans hpc.1, hpc.2⟩
  | _ => rw [hreader] at hpc; exact hpc.elim

/-- The owner only adds to what is accepted. -/
theorem accepted_prefix_of_step {a : RingAct α} (hs : s.step a = some s') :
    s.accepted <+: s'.accepted := by
  rcases historyStep_of_step hs with ⟨h, -, -, -⟩ | ⟨xs, h, -, -, -⟩ | ⟨xs, h, -, -, -⟩ |
    ⟨h, -, -, -⟩ | ⟨xs, h, -, -, -⟩
  · exact h ▸ List.prefix_rfl
  · exact h ▸ List.prefix_append _ _
  · exact h ▸ List.prefix_rfl
  · exact h ▸ List.prefix_rfl
  · exact h ▸ List.prefix_rfl

/-- What is confirmed grows. -/
theorem confirmed_length_le_of_step {k : ℕ} {start : U32} (h : RingInv k start s)
    {a : RingAct α} (hs : s.step a = some s') : s.confirmed.length ≤ s'.confirmed.length := by
  rcases historyStep_of_step hs with ⟨-, -, h, -⟩ | ⟨xs, -, -, h, -⟩ | ⟨xs, -, -, h, -⟩ |
    ⟨-, -, hconf, -⟩ | ⟨xs, -, -, h, -⟩
  · exact h ▸ le_rfl
  · exact h ▸ le_rfl
  · exact h ▸ le_rfl
  · exact hconf ▸ h.confirmed_le
  · exact h ▸ le_rfl

theorem Confirming.congr (hc : Confirming out conf s) (h : SameReader s s') :
    Confirming out conf s' := by
  refine ⟨h.readOut.trans hc.readOut, ?_⟩
  have hpc := hc.pc
  rw [h.reader]
  revert hpc
  cases s.reader <;> simp only [ConfirmPc, h.confirmed] <;> exact id

end Frame

end RingSys

end Gazelle
