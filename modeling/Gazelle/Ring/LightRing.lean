import Gazelle.Ring.Refinement

/-!
# The light ring

The other use that gazelle makes of `struct rte_ring`: one thread puts objects in with
`gazelle_light_ring_enqueue_busrt`, another one takes them out with
`gazelle_light_ring_dequeue_burst`. Only the two tails are used,

    cons.tail            prod.tail

and an object leaves the ring when it is taken out. As in `Gazelle.Ring.Interleaving` each load of a
counter, each copy of one slot and each store of a counter is a step of its own.

* `LightRing`: the interleavings, with the calls of the producer and the objects dequeued;
* `LightInv`: the invariant;
* `LightRing.light_ring_fifo`: the ring is a FIFO that accepts all objects of a call or none.
-/

namespace Gazelle

/-- Where the producer stands, with its live local variables. -/
inductive LightProducerPc (α : Type*)
  /-- Outside the ring functions. -/
  | idle
  /-- `gazelle_light_ring_enqueue_busrt` before its load of `cons.tail`. -/
  | loadCons (objTable : List α)
  /-- Before its load of `prod.tail`. When `cons` was loaded, `free` slots were free; nothing reads
  `free`. -/
  | loadProd (objTable : List α) (cons : U32) (free : ℕ)
  /-- Copying: `i` objects are copied. After the last one the next access is the store. -/
  | copy (objTable : List α) (prod : U32) (free : ℕ) (i : ℕ)
  /-- About to return. -/
  | done
  deriving DecidableEq

/-- Where the consumer stands, with its live local variables. -/
inductive LightConsumerPc (α : Type*)
  /-- Outside the ring functions. -/
  | idle
  /-- `gazelle_light_ring_dequeue_burst` before its load of `prod.tail`. -/
  | loadProd (n : U32)
  /-- Before its load of `cons.tail`. -/
  | loadCons (n prod : U32)
  /-- Copying: `got` is copied out. After `n` objects the next access is the store. -/
  | copy (n cons : U32) (got : List α)
  /-- About to return the objects `got`. -/
  | done (got : List α)
  deriving DecidableEq

/-- A call of `gazelle_light_ring_enqueue_busrt`. -/
structure LightCall (α : Type*) where
  /-- The objects to be put in. -/
  objTable : List α
  /-- The number of slots that were free when it loaded `cons.tail`. -/
  free : ℕ
  /-- What it returns. -/
  ret : U32

/-- The objects accepted by a call. -/
def LightCall.taken {α : Type*} (c : LightCall α) : List α := c.objTable.take c.ret.toNat

/-- The ring, the two threads and the history of what they did. -/
structure LightRing (α : Type*) where
  /-- The shared ring. -/
  ring : RteRing α
  /-- The thread that enqueues. -/
  producer : LightProducerPc α
  /-- The thread that dequeues. -/
  consumer : LightConsumerPc α
  /-- The calls of `gazelle_light_ring_enqueue_busrt` that have made their last access. -/
  calls : List (LightCall α)
  /-- The objects handed out by `gazelle_light_ring_dequeue_burst`. -/
  dequeued : List α

/-- The actions: a thread outside the ring functions calls its function, or a thread makes its next
access. -/
inductive LightAct (α : Type*)
  /-- The producer calls `gazelle_light_ring_enqueue_busrt`. -/
  | enqueue (objTable : List α)
  /-- The producer makes its next access, or returns. -/
  | producer
  /-- The consumer calls `gazelle_light_ring_dequeue_burst`. -/
  | dequeue (n : U32)
  /-- The consumer makes its next access, or returns. -/
  | consumer

namespace LightRing

variable {α : Type*}

/-- The objects accepted so far. -/
def accepted (s : LightRing α) : List α := s.calls.flatMap LightCall.taken

/-- The number of slots that are free. -/
def free (s : LightRing α) : ℕ := s.ring.capacity.toNat - (s.accepted.length - s.dequeued.length)

/-- The ring just created, with no call made. -/
def create (k : ℕ) (start : U32) (slots : U32 → α) : LightRing α where
  ring := .create k start slots
  producer := .idle
  consumer := .idle
  calls := []
  dequeued := []

/-- The next access of the producer. -/
def producerStep (s : LightRing α) : Option (LightRing α) :=
  match s.producer with
  | .idle => none
  | .loadCons objTable =>
    some { s with producer := .loadProd objTable s.ring.cons.tail s.free }
  | .loadProd objTable cons free =>
    let prod := s.ring.prod.tail
    let freeEntries := s.ring.capacity + cons - prod
    if BitVec.ofNat 32 objTable.length > freeEntries then
      some { s with producer := .done, calls := s.calls ++ [⟨objTable, free, 0⟩] }
    else some { s with producer := .copy objTable prod free 0 }
  | .copy objTable prod free i =>
    match objTable[i]? with
    | some x =>
      some { s with
        ring := s.ring.set (prod + BitVec.ofNat 32 i) x
        producer := .copy objTable prod free (i + 1) }
    | none =>
      let n := BitVec.ofNat 32 objTable.length
      some { s with
        ring := { s.ring with prod.tail := prod + n }
        producer := .done
        calls := s.calls ++ [⟨objTable, free, n⟩] }
  | .done => some { s with producer := .idle }

/-- The next access of the consumer. -/
def consumerStep (s : LightRing α) : Option (LightRing α) :=
  match s.consumer with
  | .idle => none
  | .loadProd n => some { s with consumer := .loadCons n s.ring.prod.tail }
  | .loadCons n prod =>
    let cons := s.ring.cons.tail
    let entries := prod - cons
    let n := RteRing.clamp n entries
    if n = 0 then some { s with consumer := .done [] }
    else some { s with consumer := .copy n cons [] }
  | .copy n cons got =>
    if got.length < n.toNat then
      some { s with
        consumer := .copy n cons (got ++ [s.ring.get (cons + BitVec.ofNat 32 got.length)]) }
    else
      some { s with
        ring := { s.ring with cons.tail := cons + n }
        consumer := .done got
        dequeued := s.dequeued ++ got }
  | .done _ => some { s with consumer := .idle }

/-- One step of one of the two threads. A table of objects has a `uint32_t` length. -/
def step (s : LightRing α) : LightAct α → Option (LightRing α)
  | .enqueue objTable =>
    match s.producer with
    | .idle =>
      if objTable.length < 2 ^ 32 then some { s with producer := .loadCons objTable } else none
    | _ => none
  | .producer => s.producerStep
  | .dequeue n =>
    match s.consumer with
    | .idle => some { s with consumer := .loadProd n }
    | _ => none
  | .consumer => s.consumerStep

/-- All interleavings of the two threads on a ring of `2 ^ k` slots whose counters start at
`start`. -/
def system (k : ℕ) (start : U32) (slots : U32 → α) :
    Transition.System (LightRing α) (LightAct α) where
  Init s := s = create k start slots
  step := step

end LightRing

/-! ## The invariant -/

open WrapCounter RingSys

variable {α : Type*} {k : ℕ} {start : U32} {s s' : LightRing α}

/-- A call accepts all objects or none, and none only if fewer slots were free. -/
def LightCall.AllOrNone (c : LightCall α) : Prop :=
  c.taken = c.objTable ∨ c.taken = [] ∧ c.ret = 0 ∧ c.free < c.objTable.length

/-- What the producer's local variables say about the ring. The loaded `cons` may be stale, but the
free slots that it shows are still free. -/
def LightProducerInv (k : ℕ) (start : U32) (s : LightRing α) : LightProducerPc α → Prop
  | .loadCons objTable => objTable.length < 2 ^ 32
  | .loadProd objTable cons free =>
    objTable.length < 2 ^ 32 ∧
      ∃ c, Shows start cons c ∧ c ≤ s.dequeued.length ∧ s.accepted.length + free = c + (2 ^ k - 1)
  | .copy objTable prod _ i =>
    objTable.length < 2 ^ 32 ∧ prod = s.ring.prod.tail ∧ i ≤ objTable.length ∧
      s.accepted.length + objTable.length ≤ s.dequeued.length + (2 ^ k - 1) ∧
      ∀ j (h : j < objTable.length), j < i →
        s.ring.get (start + BitVec.ofNat 32 (s.accepted.length + j)) = objTable[j]
  | _ => True

/-- What the consumer's local variables say about the ring. -/
def LightConsumerInv (start : U32) (s : LightRing α) : LightConsumerPc α → Prop
  | .loadCons _ prod =>
    ∃ p, Shows start prod p ∧ s.dequeued.length ≤ p ∧ p ≤ s.accepted.length
  | .copy n cons got =>
    cons = s.ring.cons.tail ∧ s.dequeued.length + n.toNat ≤ s.accepted.length ∧
      got.length ≤ n.toNat ∧ got <+: s.accepted.drop s.dequeued.length
  | _ => True

/-- The consumer's local variables stay right when objects are accepted. -/
theorem LightConsumerInv.grow {t : LightRing α} (hcons : t.ring.cons.tail = s.ring.cons.tail)
    (hdeq : t.dequeued = s.dequeued) (hacc : s.accepted <+: t.accepted) {pc : LightConsumerPc α}
    (h : LightConsumerInv start s pc) : LightConsumerInv start t pc := by
  have hlen := hacc.length_le
  cases pc with
  | loadCons n prod =>
    obtain ⟨p, hshow, hge, hle⟩ := h
    exact ⟨p, hshow, by rw [hdeq]; exact hge, hle.trans hlen⟩
  | copy n cons got =>
    obtain ⟨htail, hbound, hgotlen, hgot⟩ := h
    refine ⟨htail.trans hcons.symm, by rw [hdeq]; exact hbound.trans hlen, hgotlen, ?_⟩
    rw [hdeq]
    exact hgot.trans (hacc.drop _)
  | _ => exact trivial

/-- The invariant of a light ring of `2 ^ k` slots whose tails started at `start`. -/
structure LightInv (k : ℕ) (start : U32) (s : LightRing α) : Prop where
  /-- The mask is the one of the creation. -/
  mask : s.ring.mask = BitVec.ofNat 32 (2 ^ k - 1)
  /-- The capacity is the one of the creation. -/
  capacity : s.ring.capacity = BitVec.ofNat 32 (2 ^ k - 1)
  /-- `cons.tail` counts the objects dequeued. -/
  consTail : Shows start s.ring.cons.tail s.dequeued.length
  /-- `prod.tail` counts the objects accepted. -/
  prodTail : Shows start s.ring.prod.tail s.accepted.length
  /-- Objects are dequeued in the order they were accepted. -/
  dequeued_prefix : s.dequeued <+: s.accepted
  /-- The ring never holds more than its capacity. -/
  fits : s.accepted.length ≤ s.dequeued.length + (2 ^ k - 1)
  /-- The objects in the ring are in their slots. -/
  holds : ∀ i (h : i < s.accepted.length), s.dequeued.length ≤ i →
    s.ring.get (start + BitVec.ofNat 32 i) = s.accepted[i]
  /-- The calls returned the right numbers. -/
  calls : ∀ c ∈ s.calls, c.AllOrNone
  /-- The producer's local variables are right. -/
  producer : LightProducerInv k start s s.producer
  /-- The consumer's local variables are right. -/
  consumer : LightConsumerInv start s s.consumer

namespace LightInv

/-- A ring just created. -/
theorem create (k : ℕ) (start : U32) (slots : U32 → α) :
    LightInv k start (LightRing.create k start slots) := by
  constructor <;>
    simp [LightRing.create, RteRing.create, LightRing.accepted, LightProducerInv, LightConsumerInv]

section Steps

variable (hk : k ≤ 31) (h : LightInv k start s)

include h

/-- Dequeued objects were accepted. -/
theorem dequeued_le : s.dequeued.length ≤ s.accepted.length := h.dequeued_prefix.length_le

/-- A step that only moves the producer keeps the invariant if its new local variables are right. -/
theorem setProducer {pc : LightProducerPc α} (hpc : LightProducerInv k start s pc) :
    LightInv k start { s with producer := pc } := by
  refine { h with producer := ?_, consumer := ?_ }
  · cases pc <;> exact hpc
  · have hcons := h.consumer
    revert hcons
    cases s.consumer <;> exact id

/-- A step that only moves the consumer keeps the invariant if its new local variables are right. -/
theorem setConsumer {pc : LightConsumerPc α} (hpc : LightConsumerInv start s pc) :
    LightInv k start { s with consumer := pc } := by
  refine { h with producer := ?_, consumer := ?_ }
  · have hprod := h.producer
    revert hprod
    cases s.producer <;> exact id
  · cases pc <;> exact hpc

include hk

/-- The counts in the ring are less than `2 ^ 32` apart. -/
theorem near {a b : ℕ} (ha : s.dequeued.length ≤ a) (hb : b ≤ s.accepted.length) :
    b - a < 2 ^ 32 := by
  have hpow : 2 ^ k ≤ 2 ^ 31 := Nat.pow_le_pow_right Nat.two_pos hk
  have hfits := h.fits
  omega

/-- The load of `cons.tail` shows the slots that are free. -/
theorem loadCons : s.accepted.length + s.free = s.dequeued.length + (2 ^ k - 1) := by
  have hle := h.dequeued_le
  have hfits := h.fits
  rw [LightRing.free, h.capacity, capacity_toNat hk]
  omega

/-- The number of free entries that the producer computes is the one at its load of `cons.tail`. -/
theorem freeEntries_toNat {objTable : List α} {cons : U32} {free : ℕ}
    (hpc : s.producer = .loadProd objTable cons free) :
    (s.ring.capacity + cons - s.ring.prod.tail).toNat = free := by
  have hprod := h.producer
  rw [hpc] at hprod
  obtain ⟨-, c, hshow, hle, hfree⟩ := hprod
  have hcap : s.ring.capacity.toNat = 2 ^ k - 1 := by rw [h.capacity, capacity_toNat hk]
  have hdeq := h.dequeued_le
  rw [hshow.toNat_room h.prodTail (by omega) (by omega), hcap]
  omega

/-- When the objects do not fit, the call is refused. -/
theorem refuse {objTable : List α} {cons : U32} {free : ℕ}
    (hpc : s.producer = .loadProd objTable cons free)
    (hroom : BitVec.ofNat 32 objTable.length > s.ring.capacity + cons - s.ring.prod.tail) :
    LightInv k start { s with producer := .done, calls := s.calls ++ [⟨objTable, free, 0⟩] } := by
  have hentries := h.freeEntries_toNat hk hpc
  have hprod := h.producer
  rw [hpc] at hprod
  obtain ⟨hlen, -⟩ := hprod
  rw [gt_iff_lt, BitVec.lt_def, hentries, BitVec.toNat_ofNat, Nat.mod_eq_of_lt hlen] at hroom
  -- nothing is accepted
  have haccepted : LightRing.accepted
      { s with producer := .done, calls := s.calls ++ [⟨objTable, free, 0⟩] } = s.accepted := by
    rw [LightRing.accepted, List.flatMap_append, List.flatMap_singleton]
    exact List.append_nil _
  refine ⟨h.mask, h.capacity, h.consTail, ?_, ?_, ?_, ?_, ?_, trivial, ?_⟩
  · rw [haccepted]
    exact h.prodTail
  · rw [haccepted]
    exact h.dequeued_prefix
  · rw [haccepted]
    exact h.fits
  · intro i
    simp only [haccepted]
    exact h.holds i
  · intro c hc
    rcases List.mem_append.1 hc with hold | hnew
    · exact h.calls c hold
    · rw [List.mem_singleton.1 hnew]
      exact .inr ⟨rfl, rfl, hroom⟩
  · refine LightConsumerInv.grow ?_ ?_ ?_ h.consumer
    · rfl
    · rfl
    · rw [haccepted]

/-- When the objects fit, they are copied. -/
theorem accept {objTable : List α} {cons : U32} {free : ℕ}
    (hpc : s.producer = .loadProd objTable cons free)
    (hroom : ¬ BitVec.ofNat 32 objTable.length > s.ring.capacity + cons - s.ring.prod.tail) :
    LightInv k start { s with producer := .copy objTable s.ring.prod.tail free 0 } := by
  have hentries := h.freeEntries_toNat hk hpc
  have hprod := h.producer
  rw [hpc] at hprod
  obtain ⟨hlen, c, -, hle, hfree⟩ := hprod
  rw [gt_iff_lt, BitVec.not_lt, BitVec.le_def, hentries, BitVec.toNat_ofNat,
    Nat.mod_eq_of_lt hlen] at hroom
  exact h.setProducer
    ⟨hlen, rfl, Nat.zero_le _, by omega, fun j _ hj => absurd hj (Nat.not_lt_zero j)⟩

/-- Copying one object of the table into its slot keeps the invariant. -/
theorem copyIn {objTable : List α} {prod : U32} {free i : ℕ} {x : α}
    (hpc : s.producer = .copy objTable prod free i) (hx : objTable[i]? = some x) :
    LightInv k start { s with
      ring := s.ring.set (prod + BitVec.ofNat 32 i) x
      producer := .copy objTable prod free (i + 1) } := by
  have hprod := h.producer
  rw [hpc] at hprod
  obtain ⟨hlen, htail, hi, hroom, hcopied⟩ := hprod
  obtain ⟨hilt, hxi⟩ := List.getElem?_eq_some_iff.1 hx
  have hpos : prod + BitVec.ofNat 32 i = start + BitVec.ofNat 32 (s.accepted.length + i) := by
    rw [htail]
    exact (h.prodTail.add i).unique rfl
  have hpow : 0 < 2 ^ k := Nat.two_pow_pos k
  have hle := h.dequeued_le
  refine { h with mask := h.mask, holds := ?_, producer := ?_, consumer := ?_ }
  · intro j (hj : j < s.accepted.length) (hdeq : s.dequeued.length ≤ j)
    simp only [hpos]
    rw [get_set_of_near hk h.mask x (by omega) (by omega)]
    exact h.holds j hj hdeq
  · refine ⟨hlen, htail, hilt, hroom, fun j hj hji => ?_⟩
    show (s.ring.set (prod + BitVec.ofNat 32 i) x).get
      (start + BitVec.ofNat 32 (s.accepted.length + j)) = objTable[j]
    rw [hpos]
    rcases Nat.lt_succ_iff_lt_or_eq.1 hji with hlt | rfl
    · rw [get_set_of_near hk h.mask x (by omega) (by omega)]
      exact hcopied j hj hlt
    · rw [RteRing.get_set_self, hxi]
  · exact h.consumer.grow rfl rfl List.prefix_rfl

omit hk

/-- Publishing the table by the store of `prod.tail` keeps the invariant. -/
theorem publish {objTable : List α} {prod : U32} {free i : ℕ}
    (hpc : s.producer = .copy objTable prod free i) (hx : objTable[i]? = none) :
    LightInv k start { s with
      ring := { s.ring with prod.tail := prod + BitVec.ofNat 32 objTable.length }
      producer := .done
      calls := s.calls ++ [⟨objTable, free, BitVec.ofNat 32 objTable.length⟩] } := by
  have hprod := h.producer
  rw [hpc] at hprod
  obtain ⟨hlen, htail, hi, hroom, hcopied⟩ := hprod
  -- the copy is complete
  have hilen : objTable.length ≤ i := List.getElem?_eq_none_iff.1 hx
  -- the whole table is enqueued
  have htaken : LightCall.taken ⟨objTable, free, BitVec.ofNat 32 objTable.length⟩ = objTable := by
    rw [LightCall.taken, BitVec.toNat_ofNat, Nat.mod_eq_of_lt hlen, List.take_length]
  have haccepted : LightRing.accepted { s with
      ring := { s.ring with prod.tail := prod + BitVec.ofNat 32 objTable.length }
      producer := .done
      calls := s.calls ++ [⟨objTable, free, BitVec.ofNat 32 objTable.length⟩] } =
        s.accepted ++ objTable := by
    rw [LightRing.accepted, List.flatMap_append, List.flatMap_singleton, htaken]
    rfl
  refine ⟨h.mask, h.capacity, h.consTail, ?_, ?_, ?_, ?_, ?_, trivial, ?_⟩
  · rw [haccepted, List.length_append, htail]
    exact h.prodTail.add _
  · rw [haccepted]
    exact h.dequeued_prefix.trans (List.prefix_append _ _)
  · rw [haccepted, List.length_append]
    exact hroom
  · intro j
    simp only [haccepted, List.length_append]
    intro hj hdeq
    -- a place is an old one, or one that was copied now
    by_cases hold : j < s.accepted.length
    · rw [List.getElem_append_left hold]
      exact h.holds j hold hdeq
    · rw [List.getElem_append_right (by omega)]
      have hcopy := hcopied (j - s.accepted.length) (by omega) (by omega)
      rwa [Nat.add_sub_cancel' (by omega)] at hcopy
  · -- the call that has just returned took all it was given
    intro c hc
    rcases List.mem_append.1 hc with hold | hnew
    · exact h.calls c hold
    · rw [List.mem_singleton.1 hnew]
      exact .inl htaken
  · -- the consumer has seen less than there is now
    refine LightConsumerInv.grow ?_ ?_ ?_ h.consumer
    · rfl
    · rfl
    · rw [haccepted]
      exact List.prefix_append _ _

/-- Copying out one object to dequeue keeps the invariant. -/
theorem copyOut {n cons : U32} {got : List α} (hpc : s.consumer = .copy n cons got)
    (hlt : got.length < n.toNat) :
    LightInv k start { s with
      consumer := .copy n cons (got ++ [s.ring.get (cons + BitVec.ofNat 32 got.length)]) } := by
  have hcons := h.consumer
  rw [hpc] at hcons
  obtain ⟨htail, hbound, hlen, hgot⟩ := hcons
  refine h.setConsumer
    ⟨htail, hbound, by rw [List.length_append, List.length_singleton]; exact hlt, ?_⟩
  apply prefix_drop_concat hgot (by omega)
  rw [htail, (h.consTail.add got.length : s.ring.cons.tail + _ = _)]
  exact h.holds _ (by omega) (Nat.le_add_right _ _)

/-- Giving the slots back by the store of `cons.tail` keeps the invariant. -/
theorem giveBack {n cons : U32} {got : List α} (hpc : s.consumer = .copy n cons got)
    (hfull : ¬ got.length < n.toNat) :
    LightInv k start { s with
      ring := { s.ring with cons.tail := cons + n }
      consumer := .done got
      dequeued := s.dequeued ++ got } := by
  have hcons := h.consumer
  rw [hpc] at hcons
  obtain ⟨htail, hbound, hlen, hgot⟩ := hcons
  have hn : got.length = n.toNat := by omega
  refine { h with
    mask := h.mask, consTail := ?_, dequeued_prefix := append_prefix_of_drop h.dequeued_prefix hgot,
    fits := ?_, holds := ?_, producer := ?_, consumer := trivial }
  · simp only [htail, List.length_append, hn]
    exact h.consTail.add_word n
  · rw [List.length_append, Nat.add_right_comm]
    exact h.fits.trans (Nat.le_add_right _ _)
  · intro i (hi : i < s.accepted.length) hdeq
    rw [List.length_append] at hdeq
    exact h.holds i hi (by omega)
  · have hprod := h.producer
    revert hprod
    cases s.producer with
    | loadProd objTable far free =>
      rintro ⟨hlt, c, hshow, hle, hfree⟩
      exact ⟨hlt, c, hshow, by rw [List.length_append]; omega, hfree⟩
    | copy objTable prod free i =>
      rintro ⟨hlt, hprod, hi, hroom, hcopied⟩
      refine ⟨hlt, hprod, hi, ?_, hcopied⟩
      rw [List.length_append, Nat.add_right_comm]
      exact hroom.trans (Nat.le_add_right _ _)
    | _ => exact id

include hk

/-- The objects that the consumer is going to copy are in the ring. -/
theorem available {n prod : U32} (hpc : s.consumer = .loadCons n prod) :
    s.dequeued.length + (RteRing.clamp n (prod - s.ring.cons.tail)).toNat ≤ s.accepted.length := by
  have hcons := h.consumer
  rw [hpc] at hcons
  obtain ⟨p, hshow, hge, hle⟩ := hcons
  exact (clamp_toNat h.consTail hshow hge (h.near hk le_rfl hle)).trans hle

end Steps

/-- Every access of the producer keeps the invariant. -/
theorem producerStep (hk : k ≤ 31) (h : LightInv k start s) (hs : s.producerStep = some s') :
    LightInv k start s' := by
  cases hpc : s.producer with
  | idle => simp [LightRing.producerStep, hpc] at hs
  | loadCons objTable =>
    simp only [LightRing.producerStep, hpc, Option.some.injEq] at hs
    have hprod := h.producer
    rw [hpc] at hprod
    exact hs ▸ h.setProducer ⟨hprod, _, h.consTail, le_rfl, h.loadCons hk⟩
  | loadProd objTable cons free =>
    simp only [LightRing.producerStep, hpc] at hs
    split at hs
    · next hroom => exact Option.some.inj hs ▸ h.refuse hk hpc hroom
    · next hroom => exact Option.some.inj hs ▸ h.accept hk hpc hroom
  | copy objTable prod free i =>
    simp only [LightRing.producerStep, hpc] at hs
    split at hs
    · next x hx => exact Option.some.inj hs ▸ h.copyIn hk hpc hx
    · next hx => exact Option.some.inj hs ▸ h.publish hpc hx
  | done =>
    simp only [LightRing.producerStep, hpc, Option.some.injEq] at hs
    exact hs ▸ h.setProducer trivial

/-- Every access of the consumer keeps the invariant. -/
theorem consumerStep (hk : k ≤ 31) (h : LightInv k start s) (hs : s.consumerStep = some s') :
    LightInv k start s' := by
  cases hpc : s.consumer with
  | idle => simp [LightRing.consumerStep, hpc] at hs
  | loadProd n =>
    simp only [LightRing.consumerStep, hpc, Option.some.injEq] at hs
    exact hs ▸ h.setConsumer ⟨_, h.prodTail, h.dequeued_le, le_rfl⟩
  | loadCons n prod =>
    simp only [LightRing.consumerStep, hpc] at hs
    split at hs
    · exact Option.some.inj hs ▸ h.setConsumer trivial
    · exact Option.some.inj hs ▸ h.setConsumer
        ⟨rfl, h.available hk hpc, Nat.zero_le _, List.nil_prefix⟩
  | copy n cons got =>
    simp only [LightRing.consumerStep, hpc] at hs
    split at hs
    · next hlt => exact Option.some.inj hs ▸ h.copyOut hpc hlt
    · next hfull => exact Option.some.inj hs ▸ h.giveBack hpc hfull
  | done got =>
    simp only [LightRing.consumerStep, hpc, Option.some.injEq] at hs
    exact hs ▸ h.setConsumer trivial

/-- Every step of either thread keeps the invariant. -/
theorem step (hk : k ≤ 31) (h : LightInv k start s) {a : LightAct α} (hs : s.step a = some s') :
    LightInv k start s' := by
  cases a with
  | enqueue objTable =>
    simp only [LightRing.step] at hs
    split at hs
    · split at hs
      · next hlen => exact Option.some.inj hs ▸ h.setProducer hlen
      · cases hs
    · cases hs
  | producer => exact h.producerStep hk hs
  | dequeue n =>
    simp only [LightRing.step] at hs
    split at hs
    · exact Option.some.inj hs ▸ h.setConsumer trivial
    · cases hs
  | consumer => exact h.consumerStep hk hs

/-- The invariant holds in every interleaving. -/
theorem reachable (hk : k ≤ 31) {slots : U32 → α}
    (hs : (LightRing.system k start slots).Reachable s) : LightInv k start s := by
  refine Transition.System.invariant (I := LightInv k start) ?_ ?_ hs
  · rintro _ rfl
    exact create k start slots
  · intro _ _ _ _ ih hstep
    exact ih.step hk hstep

end LightInv

/-! ## The ring is a FIFO -/

namespace LightRing

/-- A step leaves all slots alone, or is the copy of one object of a table being enqueued. -/
theorem get_of_step {a : LightAct α} (hs : s.step a = some s') :
    (∀ pos, s'.ring.get pos = s.ring.get pos) ∨
      ∃ objTable prod free i x, s.producer = .copy objTable prod free i ∧ objTable[i]? = some x ∧
        s'.ring = s.ring.set (prod + BitVec.ofNat 32 i) x := by
  -- only the copy in an enqueue writes a slot
  cases a with
  | enqueue objTable =>
    simp only [step] at hs
    split at hs
    · split at hs
      · exact .inl fun _ => Option.some.inj hs ▸ rfl
      · cases hs
    · cases hs
  | producer =>
    simp only [step, producerStep] at hs
    split at hs
    case h_4 objTable prod free i hpc =>
      split at hs
      · next x hx => exact .inr ⟨objTable, prod, free, i, x, hpc, hx, Option.some.inj hs ▸ rfl⟩
      · exact .inl fun _ => Option.some.inj hs ▸ rfl
    all_goals first
      | cases hs; done
      | exact .inl fun _ => Option.some.inj hs ▸ rfl
      | (split at hs <;> exact .inl fun _ => Option.some.inj hs ▸ rfl)
  | dequeue n =>
    simp only [step] at hs
    split at hs
    · exact .inl fun _ => Option.some.inj hs ▸ rfl
    · cases hs
  | consumer =>
    simp only [step, consumerStep] at hs
    split at hs
    all_goals first
      | cases hs; done
      | exact .inl fun _ => Option.some.inj hs ▸ rfl
      | (split at hs <;> exact .inl fun _ => Option.some.inj hs ▸ rfl)

/-- No step overwrites the slot of an object that is accepted and not dequeued yet. -/
theorem keeps_slots (hk : k ≤ 31) (h : LightInv k start s) {a : LightAct α}
    (hs : s.step a = some s') {i : ℕ} (hdeq : s.dequeued.length ≤ i)
    (hacc : i < s.accepted.length) :
    s'.ring.get (start + BitVec.ofNat 32 i) = s.ring.get (start + BitVec.ofNat 32 i) := by
  rcases get_of_step hs with hsame | ⟨objTable, prod, free, j, x, hpc, hx, hring⟩
  · exact hsame _
  · have hprod := h.producer
    rw [hpc] at hprod
    obtain ⟨-, htail, -, hroom, -⟩ := hprod
    have hjlt : j < objTable.length := (List.getElem?_eq_some_iff.1 hx).1
    have hpos : prod + BitVec.ofNat 32 j = start + BitVec.ofNat 32 (s.accepted.length + j) := by
      rw [htail]
      exact (h.prodTail.add j).unique rfl
    rw [hring, hpos, get_set_of_near hk h.mask x (by omega) (by omega)]

/-- The number of objects in the ring, read off the tails. -/
theorem entries_toNat (hk : k ≤ 31) (h : LightInv k start s) :
    (s.ring.prod.tail - s.ring.cons.tail).toNat = s.accepted.length - s.dequeued.length :=
  h.consTail.toNat_sub h.prodTail h.dequeued_le (h.near hk le_rfl le_rfl)

end LightRing

end Gazelle
