import Gazelle.Lwip.SendStream

/-!
# Whose pbuf the application extends

`gazelle_ring_readlast` returns the pbuf that was confirmed last when it can take its lock and
`allow_in` is set. Both are in the pbuf, and the slot was read before: in between, the stack may
have returned and committed the pbuf, lwIP released it, and `replenish_send_idlembuf` of this or
another socket initialised it again. Then the application extends a pbuf that is not its own.

* `RecordedSys`: the socket with a record of the pbufs confirmed and returned;
* `RecordedSys.OwnsLast`: what the pbuf returned by `gazelle_ring_readlast` has to be;
* `WriteSys.NotReborn`: no pbuf read from the slot is initialised again;
* `RecordedSys.ownsLast_of_notReborn`: then the pbuf is the application's own.
-/

namespace Gazelle

open Linked

/-! ## What the application extends -/

namespace WriteSys

variable (s : WriteSys)

/-- The pbuf that `gazelle_ring_readlast` has returned, until `gazelle_ring_lastover`. -/
def extended : Option PbufPtr :=
  match s.writer with
  | .merge _ p | .mergeOver _ p | .attach _ p _ | .attachOver _ p => some p
  | _ => none

/-- The pbuf in the slot that `gazelle_ring_readlast` has chosen, and the first pbuf of a chain that
is confirmed while its `last` is not stored. -/
def reading : List PbufPtr :=
  match s.writer with
  | .lastSlot _ _ _ => s.ring.confirmed.getLast?.toList
  | .lastLock _ _ p | .lastTest _ _ p | .lastRefuse _ _ p => [p]
  | .directDone _ pbufs => pbufs.head?.toList
  | _ => []

/-- No such pbuf is initialised again, neither for the ring of the socket nor for another one. -/
def NotReborn : WriteAct → Prop
  | .replenish (some mbufs) => ∀ p ∈ s.reading, p ∉ mbufs
  | .lwip p b _ => p ∈ s.reading → b.allowIn = (s.heap p).allowIn ∧ b.locked = (s.heap p).locked
  | _ => True

/-- Whether an action initialises such a pbuf again is decidable. -/
instance : (a : WriteAct) → Decidable (s.NotReborn a)
  | .replenish (some mbufs) => inferInstanceAs (Decidable (∀ p ∈ s.reading, p ∉ mbufs))
  | .lwip p b _ => inferInstanceAs (Decidable (p ∈ s.reading →
      b.allowIn = (s.heap p).allowIn ∧ b.locked = (s.heap p).locked))
  | .write _ _ | .writer _ | .lwipData _ | .lwipOver | .replenish none | .stack | .release _ =>
    isTrue trivial

/-- The initialisations of pbufs. -/
def births (l : List PbufPtr) : List ℕ := l.map fun p => (s.heap p).born

end WriteSys

/-- A socket with a record of its pbufs, each by the number of its initialisation. Nothing reads the
record. -/
structure RecordedSys where
  /-- The socket. -/
  sys : WriteSys
  /-- The pbufs confirmed. -/
  confirmedBorn : List ℕ
  /-- The pbufs that `write_lwip_data` has returned. -/
  returnedBorn : List ℕ

namespace RecordedSys

/-- The record after a step to `s`. -/
def record (r : RecordedSys) (s : WriteSys) : RecordedSys where
  sys := s
  confirmedBorn :=
    r.confirmedBorn ++ s.births (s.ring.confirmed.drop r.sys.ring.confirmed.length)
  returnedBorn :=
    if s.returned = r.sys.returned then r.returnedBorn
    else r.returnedBorn ++ s.births s.returned.toList

/-- The socket with its record. -/
def system (cfg : SendCfg) (k : ℕ) : Transition.System RecordedSys WriteAct where
  Init r := (WriteSys.system cfg k).Init r.sys ∧ r.confirmedBorn = [] ∧ r.returnedBorn = []
  step r a := (r.sys.step cfg a).map r.record

/-- The pbuf that `gazelle_ring_readlast` has returned is the one confirmed last, it has not been
initialised since, and `write_lwip_data` has not returned it. -/
def OwnsLast (r : RecordedSys) : Prop :=
  ∀ p ∈ r.sys.extended, r.sys.ring.confirmed.getLast? = some p ∧
    r.confirmedBorn.getLast? = some (r.sys.heap p).born ∧
    (r.sys.heap p).born ∉ r.returnedBorn

end RecordedSys

/-! ## Pbufs that are kept -/

/-- A pbuf has not been initialised, and is not open again. -/
structure SendPbuf.Kept (b b' : SendPbuf) : Prop where
  /-- It has not been initialised. -/
  born : b'.born = b.born
  /-- Once closed it stays closed. -/
  allowIn : b'.allowIn = true → b.allowIn = true

namespace SendPbuf.Kept

variable {b b' : SendPbuf} {heap heap' : SendHeap} {p q : PbufPtr}

theorem refl (b : SendPbuf) : b.Kept b := ⟨rfl, id⟩

theorem of_eq (h : b' = b) : b.Kept b' := h ▸ refl b

/-- A store to one pbuf. -/
theorem modify {f : SendPbuf → SendPbuf} (h : ∀ b, SendPbuf.Kept b (f b)) (q : PbufPtr) :
    (heap q).Kept (heap.modify p f q) := by
  by_cases hq : q = p
  · rw [hq, SendHeap.modify_self]
    exact h _
  · rw [SendHeap.modify_of_ne hq]
    exact refl _

theorem of_sameLinks (h : b.SameLinks b') : b.Kept b' := ⟨h.born, fun ha => h.allowIn ▸ ha⟩

theorem trans {b'' : SendPbuf} (h : b.Kept b') (h' : b'.Kept b'') : b.Kept b'' :=
  ⟨h'.born.trans h.born, fun ha => h.allowIn (h'.allowIn ha)⟩

end SendPbuf.Kept

namespace WriteSys

variable {cfg : SendCfg} {k : ℕ} {start : U32} {s s' : WriteSys} {v v' : StreamView} {q : PbufPtr}

/-- Initialising other pbufs, linking pbufs and writing into them. -/
theorem kept_write {heap : SendHeap} {inits : ℕ} {mbufs l : List PbufPtr} {data : List Byte}
    (hq : q ∉ mbufs) :
    (heap q).Kept ((doAppWrite cfg (linkPbufs (initMbufs cfg heap inits mbufs) l) l data).1 q) := by
  have hinit : initMbufs cfg heap inits mbufs q = heap q := initMbufs_of_notMem hq
  refine .trans ⟨?_, fun ha => ?_⟩ (.of_sameLinks (doAppWrite_sameLinks data q))
  · exact (linkPbufs_field (·.born) (fun _ _ => rfl) q).trans (congrArg SendPbuf.born hinit)
  · rw [linkPbufs_field (·.allowIn) (fun _ _ => rfl) q, hinit] at ha
    exact ha

/-- The application keeps the pbufs of the send path but those that it has just allocated. -/
theorem kept_writerStep {alloc : Option (List PbufPtr)} (hs : s.writerStep cfg alloc = some s')
    (hplace : (s.heap q).place = .gazelle) (hclaimed : q ∉ s.claimed) :
    (s.heap q).Kept (s'.heap q) := by
  -- what is being allocated comes from the pool, so it is not the pbuf in question
  have hfresh : ∀ {n : ℕ} {mbufs : List PbufPtr}, AllocOk s.heap n mbufs → q ∉ mbufs := by
    intro n mbufs halloc hmem
    rw [halloc.2.2 q hmem] at hplace
    cases hplace
  cases hpc : s.writer with
  | idle =>
    simp only [WriteSys.writerStep, hpc] at hs
    cases hs
  | lastTail use c =>
    simp only [WriteSys.writerStep, hpc] at hs
    exact Option.some.inj hs ▸ .refl _
  | lastSlot use c tail =>
    simp only [WriteSys.writerStep, hpc] at hs
    split at hs
    · -- the last pbuf cannot be used, which writes no pbuf
      cases use <;> exact Option.some.inj hs ▸ .refl _
    · exact Option.some.inj hs ▸ .refl _
  | lastLock use c p =>
    -- taking the lock and giving it back change neither the birth nor `allow_append`
    simp only [WriteSys.writerStep, hpc] at hs
    split at hs
    · cases use <;> exact Option.some.inj hs ▸ .refl _
    · exact Option.some.inj hs ▸ .modify (f := .lock) (fun _ => ⟨rfl, id⟩) q
  | lastTest use c p =>
    simp only [WriteSys.writerStep, hpc] at hs
    exact Option.some.inj hs ▸ .refl _
  | lastRefuse use c p =>
    simp only [WriteSys.writerStep, hpc] at hs
    cases use <;> exact Option.some.inj hs ▸ .modify (f := .unlock) (fun _ => ⟨rfl, id⟩) q
  | merge c p =>
    simp only [WriteSys.writerStep, hpc, mergeStep] at hs
    obtain rfl := Option.some.inj hs
    split
    · -- merging links nothing and closes nothing
      exact .refl _
    split
    all_goals exact .modify (fun _ => .of_sameLinks mergeData_sameLinks) q
  | mergeOver c p =>
    simp only [WriteSys.writerStep, hpc] at hs
    exact Option.some.inj hs ▸ .modify (f := .unlock) (fun _ => ⟨rfl, id⟩) q
  | count c =>
    simp only [WriteSys.writerStep, hpc, WriteSys.countStep] at hs
    split at hs
    · exact Option.some.inj hs ▸ .refl _
    split at hs
    · exact Option.some.inj hs ▸ .refl _
    · obtain ⟨ring, -, rfl⟩ := Option.map_eq_some_iff.1 hs
      exact .refl _
  | attach c p num =>
    simp only [WriteSys.writerStep, hpc] at hs
    split at hs
    · exact Option.some.inj hs ▸ .refl _
    split at hs
    · rename_i mbufs halloc
      obtain rfl := Option.some.inj hs
      -- three writes: the new pbufs, the `next` of the end of the chain, the `last` of its head
      exact (kept_write (hfresh halloc)).trans
        (.trans (.modify (f := .setNext mbufs.head?) (fun _ => ⟨rfl, id⟩) q)
          (.modify (f := ({ · with last := mbufs.getLastD p })) (fun _ => ⟨rfl, id⟩) q))
    · cases hs
  | attachOver c p =>
    simp only [WriteSys.writerStep, hpc] at hs
    exact Option.some.inj hs ▸ .modify (f := .unlock) (fun _ => ⟨rfl, id⟩) q
  | attachAddr c p =>
    simp only [WriteSys.writerStep, hpc] at hs
    exact Option.some.inj hs ▸ .refl _
  | buffRead c num =>
    simp only [WriteSys.writerStep, hpc] at hs
    obtain ⟨ring, -, heq⟩ := Option.map_eq_some_iff.1 hs
    split at heq <;> exact heq ▸ .refl _
  | buffFill c pbufs =>
    -- the copy of the data
    simp only [WriteSys.writerStep, hpc, WriteSys.buffStep] at hs
    obtain ⟨ring, -, rfl⟩ := Option.map_eq_some_iff.1 hs
    exact .of_sameLinks (doAppWrite_sameLinks _ q)
  | buffOver c pbufs written =>
    simp only [WriteSys.writerStep, hpc] at hs
    obtain ⟨ring, -, heq⟩ := Option.map_eq_some_iff.1 hs
    split at heq <;> exact heq ▸ .refl _
  | buffDone c pbufs =>
    simp only [WriteSys.writerStep, hpc] at hs
    obtain ⟨ring, -, rfl⟩ := Option.map_eq_some_iff.1 hs
    exact .refl _
  | directAlloc c num =>
    simp only [WriteSys.writerStep, hpc] at hs
    split at hs
    · exact Option.some.inj hs ▸ .refl _
    split at hs
    · rename_i mbufs halloc
      obtain ⟨ring, -, rfl⟩ := Option.map_eq_some_iff.1 hs
      -- the pbufs allocated are claimed, the others keep all they have
      exact .of_eq (if_neg (hfresh halloc))
    · cases hs
  | directRead c mbufs =>
    simp only [WriteSys.writerStep, hpc] at hs
    obtain ⟨ring, -, heq⟩ := Option.map_eq_some_iff.1 hs
    split at heq <;> exact heq ▸ .refl _
  | directFill c pbufs =>
    simp only [WriteSys.writerStep, hpc, WriteSys.directStep] at hs
    obtain ⟨ring, -, rfl⟩ := Option.map_eq_some_iff.1 hs
    -- the pbuf that was read is in the ring's stock, only those behind it are claimed
    have hmem : q ∉ pbufs.tail := by
      rw [claimed, hpc] at hclaimed
      exact hclaimed
    exact kept_write hmem
  | directOver c pbufs written =>
    simp only [WriteSys.writerStep, hpc] at hs
    obtain ⟨ring, -, heq⟩ := Option.map_eq_some_iff.1 hs
    split at heq <;> exact heq ▸ .refl _
  | directDone c pbufs =>
    simp only [WriteSys.writerStep, hpc] at hs
    obtain ⟨ring, -, rfl⟩ := Option.map_eq_some_iff.1 hs
    exact .modify (f := ({ · with last := pbufs.getLastD 0 })) (fun _ => ⟨rfl, id⟩) q
  | ret c =>
    -- the store of `last`
    simp only [WriteSys.writerStep, hpc] at hs
    exact Option.some.inj hs ▸ .refl _

/-- So does the stack, unless it closes them. -/
theorem kept_stackStep (hs : s.stackStep = some s') : (s.heap q).Kept (s'.heap q) := by
  cases hpc : s.stack with
  | out =>
    simp only [WriteSys.stackStep, hpc] at hs
    cases hs
  | dequeue remainSize =>
    simp only [WriteSys.stackStep, hpc] at hs
    obtain ⟨ring, -, heq⟩ := Option.map_eq_some_iff.1 hs
    -- the ring is not in the heap
    split at heq <;> exact heq ▸ .refl _
  | readover p remainSize =>
    simp only [WriteSys.stackStep, hpc] at hs
    split at hs
    · exact Option.some.inj hs ▸ .refl _
    split at hs
    · -- `head` only says where a list of chains begins
      exact Option.some.inj hs ▸ .modify (f := ({ · with head := true })) (fun _ => ⟨rfl, id⟩) q
    · exact Option.some.inj hs ▸ .refl _
  | lock first p remainSize =>
    simp only [WriteSys.stackStep, hpc] at hs
    split at hs
    · -- another thread has the lock and this one spins
      cases hs
    · exact Option.some.inj hs ▸ .modify (f := .lock) (fun _ => ⟨rfl, id⟩) q
  | test first p remainSize =>
    simp only [WriteSys.stackStep, hpc] at hs
    split at hs
    · -- the pbuf is not the last one any more, and stays as it is
      exact Option.some.inj hs ▸ .refl _
    · -- the stack closes the pbuf, which is allowed
      exact Option.some.inj hs ▸ .modify (f := ({ · with allowIn := false }))
        (fun _ => ⟨rfl, fun ha => absurd ha Bool.false_ne_true⟩) q
  | unlockNull first p =>
    simp only [WriteSys.stackStep, hpc] at hs
    exact Option.some.inj hs ▸ .modify (f := fun b => { b.unlock with head := first || b.head })
      (fun _ => ⟨rfl, id⟩) q
  | unlock first p =>
    simp only [WriteSys.stackStep, hpc] at hs
    exact Option.some.inj hs ▸ .modify (f := .unlock) (fun _ => ⟨rfl, id⟩) q
  | detach first p =>
    -- it is cut off from what is behind it
    simp only [WriteSys.stackStep, hpc] at hs
    exact Option.some.inj hs ▸ .modify (f := .setNext none) (fun _ => ⟨rfl, id⟩) q
  | replenish mbufs =>
    simp only [WriteSys.stackStep, hpc] at hs
    obtain ⟨ring, -, heq⟩ := Option.map_eq_some_iff.1 hs
    split at heq
    · rename_i n hdone
      subst heq
      show (s.heap q).Kept ((if n = 0 then _ else s.heap) q)
      split
      · show (s.heap q).Kept (if q ∈ mbufs then _ else _)
        split
        · exact ⟨rfl, id⟩
        · exact .refl _
      · exact .refl _
    · exact heq ▸ .refl _

/-- No step opens a pbuf of the send path again. -/
theorem kept_step {a : WriteAct} (hs : s.step cfg a = some s')
    (hplace : (s.heap q).place = .gazelle) (hclaimed : q ∉ s.claimed) :
    (s.heap q).Kept (s'.heap q) := by
  -- what lwIP owns is no pbuf of the send path
  have hforeign : ∀ p, (s.heap p).place = .lwip → q ≠ p := by
    rintro p hp rfl
    cases hp.symm.trans hplace
  cases a with
  | write data addr =>
    simp only [WriteSys.step] at hs
    split at hs
    · split at hs
      · exact Option.some.inj hs ▸ .refl _
      · cases hs
    · cases hs
  | writer alloc => exact kept_writerStep hs hplace hclaimed
  | lwipData remainSize =>
    simp only [WriteSys.step] at hs
    split at hs
    · simp only [WriteSys.lwipData] at hs
      split at hs
      · exact Option.some.inj hs ▸ .refl _
      · split at hs
        · exact Option.some.inj hs ▸ .refl _
        · -- `next` is cut, which does not concern the flag
          exact Option.some.inj hs ▸ .modify (f := .setNext none) (fun _ => ⟨rfl, id⟩) q
      · obtain ⟨ring, -, rfl⟩ := Option.map_eq_some_iff.1 hs
        exact .refl _
    · cases hs
  | lwipOver =>
    simp only [WriteSys.step] at hs
    split at hs
    · -- the pbuf is handed to lwIP with its flag as it is
      exact Option.some.inj hs ▸ .modify (f := ({ · with place := .lwip })) (fun _ => ⟨rfl, id⟩) q
    · cases hs
  | replenish alloc =>
    simp only [WriteSys.step] at hs
    split at hs
    · rcases replenish_cases hs with rfl | ⟨mbufs, -, hrep⟩
      · exact .refl _
      · -- only mbufs of the pool are initialised, and this pbuf is none
        exact .of_eq (hrep.heap_of_notMem fun hmem => hrep.place_ne hmem hplace)
    · cases hs
  | stack => exact kept_stackStep hs
  | lwip p b addr =>
    simp only [WriteSys.step] at hs
    split at hs
    · rename_i hp
      -- lwIP and the driver write to their own pbufs
      exact Option.some.inj hs ▸ .of_eq (SendHeap.modify_of_ne
        (f := fun old => { b with place := .lwip, born := old.born }) (hforeign p hp))
    · cases hs
  | release p =>
    simp only [WriteSys.step] at hs
    split at hs
    · rename_i hp
      exact Option.some.inj hs ▸ .of_eq (SendHeap.modify_of_ne
        (f := ({ · with place := .pool })) (hforeign p hp))
    · cases hs

/-! ## What waits for the stack -/

/-- The application leaves what the stack uses, and may confirm pbufs. -/
structure WriterSide (s s' : WriteSys) : Prop extends SameStack s s' where
  /-- What is committed. -/
  committedBorn : s'.committedBorn = s.committedBorn
  /-- The ring. -/
  ring : s'.ring = s.ring ∨ ∃ a, s.ring.step a = some s'.ring

/-- The step of the application on its ring. -/
theorem writerSide_set {heap : SendHeap} {addr : PbufPtr → PbufAddr} {ring : RingSys PbufPtr}
    {remainLen : BitVec 32} {w : WriterPc} {inits : ℕ}
    {accepted : List (List Byte × Option PbufAddr)}
    (h : ring = s.ring ∨ ∃ a : RingAct PbufPtr, a.isReader ∧ s.ring.step a = some ring) :
    WriterSide s { s with heap, addr, ring, remainLen, writer := w, inits, accepted } := by
  rcases h with rfl | ⟨a, ha, hstep⟩
  · exact ⟨⟨⟨rfl, rfl, rfl⟩, rfl, rfl, rfl, rfl, rfl⟩, rfl, .inl rfl⟩
  · exact ⟨⟨RingSys.sameOwner_of_readerAct ha hstep, rfl, rfl, rfl, rfl, rfl⟩, rfl, .inr ⟨a, hstep⟩⟩

/-- `gazelle_ring_readlast` returns `NULL`. -/
theorem writerSide_lastFails {heap : SendHeap} {use : LastUse} {c : WriteCall} :
    WriterSide s ({ s with heap }.lastFails use c) := by
  cases use <;> exact writerSide_set (.inl rfl)

/-- The application leaves the stack where it is. -/
theorem writerSide_of_writerStep {alloc : Option (List PbufPtr)}
    (hs : s.writerStep cfg alloc = some s') : WriterSide s s' := by
  cases hpc : s.writer with
  | idle =>
    -- the call has not begun
    simp only [WriteSys.writerStep, hpc] at hs
    cases hs
  | lastTail use c =>
    simp only [WriteSys.writerStep, hpc] at hs
    -- no access to the ring
    exact Option.some.inj hs ▸ writerSide_set (.inl rfl)
  | lastSlot use c tail =>
    simp only [WriteSys.writerStep, hpc] at hs
    split at hs
    · -- the last pbuf cannot be used
      exact Option.some.inj hs ▸ writerSide_lastFails
    · exact Option.some.inj hs ▸ writerSide_set (.inl rfl)
  | lastLock use c p =>
    simp only [WriteSys.writerStep, hpc] at hs
    -- the lock is taken
    split at hs
    · exact Option.some.inj hs ▸ writerSide_lastFails
    · exact Option.some.inj hs ▸ writerSide_set (.inl rfl)
  | lastTest use c p =>
    simp only [WriteSys.writerStep, hpc] at hs
    exact Option.some.inj hs ▸ writerSide_set (.inl rfl)
  | lastRefuse use c p =>
    simp only [WriteSys.writerStep, hpc] at hs
    exact Option.some.inj hs ▸ writerSide_lastFails
  | merge c p =>
    simp only [WriteSys.writerStep, hpc, mergeStep] at hs
    -- merging writes the last pbuf, whatever its size
    obtain rfl := Option.some.inj hs
    split
    · exact writerSide_set (.inl rfl)
    split
    all_goals exact writerSide_set (.inl rfl)
  | mergeOver c p =>
    simp only [WriteSys.writerStep, hpc] at hs
    exact Option.some.inj hs ▸ writerSide_set (.inl rfl)
  | count c =>
    simp only [WriteSys.writerStep, hpc, WriteSys.countStep] at hs
    split at hs
    · exact Option.some.inj hs ▸ writerSide_set (.inl rfl)
    split at hs
    · exact Option.some.inj hs ▸ writerSide_set (.inl rfl)
    · -- the first access of `gazelle_ring_read`
      obtain ⟨ring, hstep, rfl⟩ := Option.map_eq_some_iff.1 hs
      exact writerSide_set (.inr ⟨_, rfl, hstep⟩)
  | attach c p num =>
    simp only [WriteSys.writerStep, hpc] at hs
    split at hs
    · exact Option.some.inj hs ▸ writerSide_set (.inl rfl)
    split at hs
    · exact Option.some.inj hs ▸ writerSide_set (.inl rfl)
    · cases hs
  | attachOver c p =>
    simp only [WriteSys.writerStep, hpc] at hs
    exact Option.some.inj hs ▸ writerSide_set (.inl rfl)
  | attachAddr c p =>
    simp only [WriteSys.writerStep, hpc] at hs
    exact Option.some.inj hs ▸ writerSide_set (.inl rfl)
  | buffRead c num =>
    simp only [WriteSys.writerStep, hpc] at hs
    obtain ⟨ring, hstep, heq⟩ := Option.map_eq_some_iff.1 hs
    -- `gazelle_ring_read` is the reader's, also when it finds less than was asked for
    split at heq <;> exact heq ▸ writerSide_set (.inr ⟨_, rfl, hstep⟩)
  | buffFill c pbufs =>
    simp only [WriteSys.writerStep, hpc, WriteSys.buffStep] at hs
    obtain ⟨ring, hstep, rfl⟩ := Option.map_eq_some_iff.1 hs
    exact writerSide_set (.inr ⟨_, rfl, hstep⟩)
  | buffOver c pbufs written =>
    simp only [WriteSys.writerStep, hpc] at hs
    obtain ⟨ring, hstep, heq⟩ := Option.map_eq_some_iff.1 hs
    split at heq <;> exact heq ▸ writerSide_set (.inr ⟨_, rfl, hstep⟩)
  | buffDone c pbufs =>
    simp only [WriteSys.writerStep, hpc] at hs
    obtain ⟨ring, hstep, rfl⟩ := Option.map_eq_some_iff.1 hs
    exact writerSide_set (.inr ⟨_, rfl, hstep⟩)
  | directAlloc c num =>
    simp only [WriteSys.writerStep, hpc] at hs
    split at hs
    · exact Option.some.inj hs ▸ writerSide_set (.inl rfl)
    split at hs
    · obtain ⟨ring, hstep, rfl⟩ := Option.map_eq_some_iff.1 hs
      exact writerSide_set (.inr ⟨_, rfl, hstep⟩)
    · -- an allocation outside the pool is not a step
      cases hs
  | directRead c mbufs =>
    simp only [WriteSys.writerStep, hpc] at hs
    obtain ⟨ring, hstep, heq⟩ := Option.map_eq_some_iff.1 hs
    split at heq <;> exact heq ▸ writerSide_set (.inr ⟨_, rfl, hstep⟩)
  | directFill c pbufs =>
    simp only [WriteSys.writerStep, hpc, WriteSys.directStep] at hs
    obtain ⟨ring, hstep, rfl⟩ := Option.map_eq_some_iff.1 hs
    exact writerSide_set (.inr ⟨_, rfl, hstep⟩)
  | directOver c pbufs written =>
    simp only [WriteSys.writerStep, hpc] at hs
    obtain ⟨ring, hstep, heq⟩ := Option.map_eq_some_iff.1 hs
    split at heq <;> exact heq ▸ writerSide_set (.inr ⟨_, rfl, hstep⟩)
  | directDone c pbufs =>
    simp only [WriteSys.writerStep, hpc] at hs
    obtain ⟨ring, hstep, rfl⟩ := Option.map_eq_some_iff.1 hs
    exact writerSide_set (.inr ⟨_, rfl, hstep⟩)
  | ret c =>
    simp only [WriteSys.writerStep, hpc] at hs
    exact Option.some.inj hs ▸ writerSide_set (.inl rfl)

/-- The stack leaves what is confirmed, and what waits for it was waiting or was what it had
detached before. -/
structure StackSide (s s' : WriteSys) : Prop where
  /-- What is confirmed. -/
  confirmed : s'.ring.confirmed = s.ring.confirmed
  /-- What is dequeued. -/
  dequeued : s.ring.dequeued.length ≤ s'.ring.dequeued.length
  /-- What waits. -/
  waiting : ∀ q ∈ s'.waiting, q ∈ s.waiting ∨ s.sendLastdata = some q
  /-- What is in `send_pre_del` stays there until it is committed. -/
  sendPreDel : ∀ q, s.sendPreDel = some q →
    s'.sendPreDel = some q ∨ (s'.sendPreDel = none ∧ (s.heap q).born ∈ s'.committedBorn)
  /-- What is committed. -/
  committedBorn : ∀ b ∈ s.committedBorn, b ∈ s'.committedBorn

/-- A step that leaves `send_pre_del` and what waits in the ring. -/
theorem stackSide_of_ringWaiting (hconf : s'.ring.confirmed = s.ring.confirmed)
    (hdeq : s.ring.dequeued.length ≤ s'.ring.dequeued.length)
    (hwaiting : s'.ringWaiting = s.ringWaiting) (hpre : s'.sendPreDel = s.sendPreDel)
    (hborn : s'.committedBorn = s.committedBorn) : StackSide s s' := by
  refine ⟨hconf, hdeq, fun q hq => .inl ?_, fun q hq => .inl (hpre.trans hq), fun b hb => ?_⟩
  · rw [waiting_eq, hwaiting, hpre] at hq
    exact hq
  · rw [hborn]
    exact hb

/-- A step outside the ring. -/
theorem stackSide_outside (hring : s'.ring = s.ring) (hout : StackPc.OutsideRing s.stack)
    (hout' : StackPc.OutsideRing s'.stack) (hpre : s'.sendPreDel = s.sendPreDel)
    (hborn : s'.committedBorn = s.committedBorn) : StackSide s s' := by
  refine stackSide_of_ringWaiting (congrArg _ hring) (hring ▸ le_rfl) ?_ hpre hborn
  rw [ringWaiting, ringWaiting, inHand_eq_nil hout, inHand_eq_nil hout', hring]

/-- The call of `write_lwip_data`. -/
theorem stackSide_lwipData {remainSize : BitVec 16} (hat : s.StackAt k) (hpc : s.stack = .out)
    (hs : s.lwipData remainSize = some s') : StackSide s s' := by
  simp only [StackAt, hpc] at hat
  have hout : StackPc.OutsideRing s.stack := by rw [hpc]; trivial
  simp only [WriteSys.lwipData] at hs
  split at hs
  · obtain rfl := Option.some.inj hs
    exact stackSide_outside rfl hout trivial rfl rfl
  · rename_i p hpre hlastdata
    split at hs
    · obtain rfl := Option.some.inj hs
      exact stackSide_outside rfl hout hout rfl rfl
    · obtain rfl := Option.some.inj hs
      refine ⟨rfl, le_rfl, fun q hq => ?_, fun q hq => ?_, fun b hb => hb⟩
      · rcases List.mem_append.1 hq with hq | hq
        · obtain rfl := List.mem_singleton.1 hq
          exact .inr hlastdata
        · exact .inl (List.mem_append_right _ hq)
      · cases hpre.symm.trans hq
  · obtain ⟨ring, hring, rfl⟩ := Option.map_eq_some_iff.1 hs
    have hdeq := RingSys.dequeuing_of_call hring
    have hreader := RingSys.sameReader_of_ownerAct hring (by simp [RingAct.isReader])
    have howner : ring.owner = .deqLoadProd 1 := by
      simp only [RingSys.step, hat, Option.some.injEq] at hring
      rw [← hring]
    have hdequeued : ring.dequeued = s.ring.dequeued :=
      hdeq.dequeued_eq (by rw [howner]; rintro _ ⟨⟩)
    refine stackSide_of_ringWaiting hreader.confirmed (congrArg List.length hdequeued).ge ?_ rfl rfl
    simp only [ringWaiting, inHand, hpc, howner, hreader.confirmed, hdequeued]

/-- The call of `replenish_send_idlembuf`. -/
theorem stackSide_replenish {alloc : Option (List PbufPtr)} (hpc : s.stack = .out)
    (hs : s.replenish cfg alloc = some s') : StackSide s s' := by
  rcases replenish_cases hs with rfl | ⟨mbufs, -, hrep⟩
  · exact stackSide_of_ringWaiting rfl le_rfl rfl rfl rfl
  · exact stackSide_of_ringWaiting hrep.sameWriter.reader.confirmed
      (congrArg List.length (hrep.enqueuing (k := 0)).dequeued).ge (hrep.ringWaiting hpc)
      hrep.sendPreDel hrep.committedBorn

/-- The steps of the stack thread. -/
theorem StreamInv.stackSide_stackStep (hk : k ≤ 31) (h : StreamInv k start s v)
    (hs : s.stackStep = some s') : StackSide s s' := by
  have hat := h.stack
  cases hpc : s.stack with
  | out =>
    simp only [WriteSys.stackStep, hpc] at hs
    cases hs
  | dequeue remainSize =>
    -- the stack has no pbuf while it dequeues
    simp only [StackAt, hpc] at hat
    obtain ⟨hpre, acc, deq, hdeq⟩ := hat
    simp only [WriteSys.stackStep, hpc] at hs
    obtain ⟨ring, hring, heq⟩ := Option.map_eq_some_iff.1 hs
    have hreader := RingSys.sameReader_of_ownerAct hring (by simp [RingAct.isReader])
    have hdeqGrows := (RingSys.grows_of_step hring).2.length_le
    split at heq <;> subst heq
    · -- the ring was empty
      rename_i hdone
      rw [RingSys.step, RingSys.return_eq (.inr ⟨_, hdone⟩)] at hring
      obtain rfl := Option.some.inj hring
      refine stackSide_of_ringWaiting rfl le_rfl ?_ rfl rfl
      simp only [ringWaiting, inHand, hpc, hdone]
    · -- what was dequeued still waits, now as `send_pre_del`
      rename_i p rest hdone
      have hdequeued : ring.dequeued = s.ring.dequeued := by
        rw [RingSys.step, RingSys.return_eq (.inr ⟨_, hdone⟩)] at hring
        rw [← Option.some.inj hring]
      refine ⟨hreader.confirmed, hdeqGrows, fun q hq => .inl ?_, fun q hq => ?_, fun b hb => hb⟩
      · rw [waiting_eq, ringWaiting, inHand] at hq
        simp only [List.nil_append, hreader.confirmed, hdequeued] at hq
        simp only [waiting, inHand, hpc, hdone, List.mem_append, List.mem_cons]
        rcases List.mem_append.1 hq with hq | hq
        · exact .inr (.inl (.inl (List.mem_singleton.1 hq)))
        · exact .inr (.inr hq)
      · cases hpre.symm.trans hq
    · -- an access of `gazelle_ring_sc_dequeue` that is not its last
      rename_i hnil hcons
      have hnotdone : ∀ got, s.ring.owner ≠ .deqDone got := by
        intro got hdone
        cases got with
        | nil => exact hnil hdone
        | cons p rest => exact hcons p rest hdone
      have hwaiting := ringWaiting_dequeue hk h.ring hdeq hpc hnotdone hring
      rw [hpc] at hwaiting
      exact stackSide_of_ringWaiting hreader.confirmed hdeqGrows hwaiting rfl rfl
  | replenish mbufs =>
    -- replenishing works on the other end of the ring
    simp only [StackAt, hpc] at hat
    obtain ⟨-, acc, deq, henq, -⟩ := hat
    simp only [WriteSys.stackStep, hpc] at hs
    obtain ⟨ring, hring, heq⟩ := Option.map_eq_some_iff.1 hs
    have hreader := RingSys.sameReader_of_ownerAct hring (by simp [RingAct.isReader])
    have hdeqGrows := (RingSys.grows_of_step hring).2.length_le
    split at heq <;> subst heq
    · -- the pbufs that did not fit are freed
      rename_i n hdone
      rw [RingSys.step, RingSys.return_eq (.inl ⟨_, hdone⟩)] at hring
      obtain rfl := Option.some.inj hring
      refine stackSide_of_ringWaiting rfl le_rfl ?_ rfl rfl
      simp only [ringWaiting, inHand, hpc]
    · -- what waits is not at this end
      rename_i hnotdone
      have hnext := henq.ownerStep hk h.ring hnotdone hring
      refine stackSide_of_ringWaiting hreader.confirmed hdeqGrows ?_ rfl rfl
      simp only [ringWaiting, inHand, hpc, hreader.confirmed, hnext.dequeued, henq.dequeued]
  | readover p remainSize =>
    have hout : StackPc.OutsideRing s.stack := by rw [hpc]; trivial
    simp only [WriteSys.stackStep, hpc] at hs
    split at hs
    · exact Option.some.inj hs ▸ stackSide_outside rfl hout trivial rfl rfl
    split at hs
    all_goals exact Option.some.inj hs ▸ stackSide_outside rfl hout trivial rfl rfl
  | lock first p remainSize =>
    have hout : StackPc.OutsideRing s.stack := by rw [hpc]; trivial
    simp only [WriteSys.stackStep, hpc] at hs
    split at hs
    · cases hs
    · exact Option.some.inj hs ▸ stackSide_outside rfl hout trivial rfl rfl
  | test first p remainSize =>
    have hout : StackPc.OutsideRing s.stack := by rw [hpc]; trivial
    simp only [WriteSys.stackStep, hpc] at hs
    split at hs
    all_goals exact Option.some.inj hs ▸ stackSide_outside rfl hout trivial rfl rfl
  | unlockNull first p =>
    have hout : StackPc.OutsideRing s.stack := by rw [hpc]; trivial
    simp only [WriteSys.stackStep, hpc] at hs
    exact Option.some.inj hs ▸ stackSide_outside rfl hout trivial rfl rfl
  | unlock first p =>
    have hout : StackPc.OutsideRing s.stack := by rw [hpc]; trivial
    simp only [WriteSys.stackStep, hpc] at hs
    exact Option.some.inj hs ▸ stackSide_outside rfl hout trivial rfl rfl
  | detach first p =>
    have hout : StackPc.OutsideRing s.stack := by rw [hpc]; trivial
    simp only [WriteSys.stackStep, hpc] at hs
    exact Option.some.inj hs ▸ stackSide_outside rfl hout trivial rfl rfl

/-- All steps but those of the application. -/
theorem StreamInv.stackSide (hk : k ≤ 31) (h : StreamInv k start s v) {a : WriteAct}
    (hs : s.step cfg a = some s') :
    WriterSide s s' ∨ StackSide s s' := by
  cases a with
  | write data addr =>
    simp only [WriteSys.step] at hs
    split at hs
    · split at hs
      · exact .inl (Option.some.inj hs ▸ writerSide_set (.inl rfl))
      · cases hs
    · cases hs
  | writer alloc => exact .inl (writerSide_of_writerStep hs)
  | lwipData remainSize =>
    simp only [WriteSys.step] at hs
    split at hs
    · rename_i hpc
      exact .inr (stackSide_lwipData h.stack hpc hs)
    · cases hs
  | lwipOver =>
    simp only [WriteSys.step] at hs
    split at hs
    · rename_i p hpc hreturned
      obtain rfl := Option.some.inj hs
      obtain ⟨hpre, -⟩ := h.returned p hreturned
      -- the pbuf committed is the only one that no longer waits
      refine .inr ⟨rfl, le_rfl, fun q hq => .inl (List.mem_append_right _ hq), fun q hq => .inr ?_,
        fun b hb => List.mem_append_left _ hb⟩
      obtain rfl : p = q := Option.some.inj (hpre.symm.trans hq)
      exact ⟨rfl, List.mem_append_right _ (List.mem_singleton_self _)⟩
    · cases hs
  | replenish alloc =>
    simp only [WriteSys.step] at hs
    split at hs
    · rename_i hpc
      -- the pbufs allocated are blank and do not wait
      exact .inr (stackSide_replenish hpc hs)
    · cases hs
  | stack => exact .inr (h.stackSide_stackStep hk hs)
  | lwip p b addr =>
    simp only [WriteSys.step] at hs
    split at hs
    · exact .inr (Option.some.inj hs ▸ stackSide_of_ringWaiting rfl le_rfl rfl rfl rfl)
    · cases hs
  | release p =>
    simp only [WriteSys.step] at hs
    split at hs
    · exact .inr (Option.some.inj hs ▸ stackSide_of_ringWaiting rfl le_rfl rfl rfl rfl)
    · cases hs

/-! ## The condition -/

/-- The pbuf that the application extends is still its own. -/
theorem StreamInv.holding (h : StreamInv k start s v) {p : PbufPtr} (hp : s.extended = some p) :
    s.Holding p := by
  have hat := h.writer
  cases hpc : s.writer with
  | merge c q =>
    simp only [extended, hpc, Option.some.injEq] at hp
    simp only [WriterIs, hpc] at hat
    exact hp ▸ hat.2.2
  | mergeOver c q =>
    simp only [extended, hpc, Option.some.injEq] at hp
    simp only [WriterIs, hpc] at hat
    exact hp ▸ hat.2.2
  | attach c q num =>
    simp only [extended, hpc, Option.some.injEq] at hp
    simp only [WriterIs, hpc] at hat
    exact hp ▸ hat.2.2
  | attachOver c q =>
    simp only [extended, hpc, Option.some.injEq] at hp
    simp only [WriterIs, hpc] at hat
    exact hp ▸ hat.2.2
  | _ =>
    simp only [extended, hpc] at hp
    cases hp

/-- What a write uses, it is reading or extends. -/
theorem mem_held {p : PbufPtr} (hp : p ∈ s.held) : p ∈ s.reading ∨ s.extended = some p := by
  unfold held at hp
  unfold reading extended
  cases hpc : s.writer
  all_goals
    rw [hpc] at hp
    simp only at hp ⊢
    first
      | exact .inl hp
      | exact .inr (congrArg some (List.mem_singleton.1 hp).symm)

/-- A pbuf that waits for the stack belongs to the send path. -/
theorem StreamInv.place_of_waiting (h : StreamInv k start s v) {p : PbufPtr} (hp : p ∈ s.waiting) :
    (s.heap p).place = .gazelle :=
  h.stock.owned.place p (mem_stockPbufs (h.mem_stock_of_waiting hp))

/-- The pbuf that the application extends is not initialised again. -/
theorem StreamInv.noReentry (h : StreamInv k start s v) {a : WriteAct} (ha : s.NotReborn a)
    (hs : s.step cfg a = some s') : s.NoReentry a ∨ s' = s := by
  have hplace : ∀ p, s.extended = some p → (s.heap p).place = .gazelle :=
    fun p hp => h.place_of_waiting (h.holding hp).waiting
  cases a with
  | replenish alloc =>
    cases alloc with
    | none => exact .inl trivial
    | some mbufs =>
      simp only [WriteSys.step] at hs
      split at hs
      swap
      · cases hs
      rcases replenish_cases hs with heq | ⟨_, heq, hrep⟩
      · exact .inr heq
      · obtain rfl := Option.some.inj heq
        refine .inl fun p hp hmem => ?_
        rcases mem_held hp with hp | hp
        · exact ha p hp hmem
        · exact hrep.place_ne hmem (hplace p hp)
  | lwip p b addr =>
    simp only [WriteSys.step] at hs
    split at hs
    · rename_i hp
      refine .inl fun hheld => ?_
      rcases mem_held hheld with hmem | hmem
      · exact ha hmem
      · cases hp.symm.trans (hplace p hmem)
    · cases hs
  | _ => exact .inl trivial

/-- Pbufs with the stack or in the ring keep their initialisation, and stay closed. -/
theorem StreamInv.kept (h : StreamInv k start s v) {a : WriteAct} (hs : s.step cfg a = some s')
    (hq : q ∈ s.taken v.rest v.left ++ cells v.chains) : (s.heap q).Kept (s'.heap q) := by
  refine kept_step hs (h.stock.owned.place q (mem_stockPbufs hq)) fun hmem => ?_
  have hnodup := h.stock.owned.nodup
  rw [cells_append, List.append_assoc, ← List.append_assoc] at hnodup
  refine (List.nodup_append.1 hnodup).2.2 q hq q ?_ rfl
  simp only [List.mem_append]
  tauto

/-- A pbuf that is closed or covered stays so while it is in `send_pre_del`. -/
theorem StreamInv.closedOrCovered (h : StreamInv k start s v) (h' : StreamInv k start s' v')
    {a : WriteAct} (hs : s.step cfg a = some s') {p : PbufPtr} (hpre : s.sendPreDel = some p)
    (hpre' : s'.sendPreDel = some p) (hside : WriterSide s s' ∨ StackSide s s')
    (hp : s.ClosedOrCovered p) : s'.ClosedOrCovered p := by
  have hmem : p ∈ s.taken v.rest v.left := by
    rw [taken, hpre]
    exact List.mem_cons_self
  have hmem' : p ∈ s'.taken v'.rest v'.left := by
    rw [taken, hpre']
    exact List.mem_cons_self
  rcases hp with hclosed | hcovered
  · refine .inl (Bool.eq_false_iff.2 fun hopen => ?_)
    have hold := (h.kept hs (List.mem_append_left _ hmem)).allowIn hopen
    exact Bool.false_ne_true (hclosed.symm.trans hold)
  · refine .inr ?_
    rcases hside with hside | hside
    · rcases hside.ring with heq | ⟨ra, hstep⟩
      · rw [heq]
        exact hcovered
      · have hgrows := h.ring.confirmed_grows hstep
        by_cases heq : s'.ring.confirmed = s.ring.confirmed
        · rw [heq]
          exact hcovered
        · -- pbufs were confirmed just now, and they wait in the ring
          refine h'.getLast_ne_of_taken ?_ hmem'
          rw [hside.owner.dequeued]
          refine h.ring.dequeued_le.trans_lt (lt_of_le_of_ne hgrows.length_le fun hlen => ?_)
          exact heq (hgrows.eq_of_length hlen).symm
    · rw [hside.confirmed]
      exact hcovered

/-- What waits for the stack and was confirmed last was waiting before, unless it is confirmed just
now. -/
theorem StreamInv.waiting_of_step (h : StreamInv k start s v)
    (hside : WriterSide s s' ∨ StackSide s s')
    (hconf : s'.ring.confirmed = s.ring.confirmed) {p : PbufPtr}
    (hlast : s.ring.confirmed.getLast? = some p) (hp : p ∈ s'.waiting) : p ∈ s.waiting := by
  rcases hside with hside | hside
  · rw [hside.toSameStack.waiting hconf] at hp
    exact hp
  · refine (hside.waiting p hp).resolve_right fun hdata => ?_
    have hchain := h.stackChains.chain_left
    rw [hdata] at hchain
    obtain ⟨left, hleft, -⟩ := Linked.eq_cons hchain
    exact h.apart p hlast (List.mem_append_right _ (hleft ▸ List.mem_cons_self))

end WriteSys

namespace RecordedSys

open WriteSys

variable {cfg : SendCfg} {k : ℕ} {start : U32} {r : RecordedSys} {s' : WriteSys} {v v' : StreamView}

/-- The invariant of the record. -/
structure LastInv (k : ℕ) (start : U32) (r : RecordedSys) (v : StreamView) : Prop where
  /-- The socket is right. -/
  stream : StreamInv k start r.sys v
  /-- The pbuf confirmed last has not been initialised while it waits for the stack. -/
  lastBorn : ∀ p, r.sys.ring.confirmed.getLast? = some p → p ∈ r.sys.waiting →
    r.confirmedBorn.getLast? = some (r.sys.heap p).born
  /-- A pbuf that was returned is committed, or is closed or covered. -/
  spent : ∀ b ∈ r.returnedBorn, b ∈ r.sys.committedBorn ∨
    ∃ p, r.sys.sendPreDel = some p ∧ (r.sys.heap p).born = b ∧ r.sys.ClosedOrCovered p

/-- The pbufs confirmed by a step are the last ones recorded. -/
theorem LastInv.lastBorn_step (h : LastInv k start r v) {a : WriteAct}
    (hs : r.sys.step cfg a = some s') (hside : WriterSide r.sys s' ∨ StackSide r.sys s')
    {p : PbufPtr}
    (hlast : s'.ring.confirmed.getLast? = some p) (hp : p ∈ s'.waiting) :
    (r.record s').confirmedBorn.getLast? = some (s'.heap p).born := by
  have hinv := h.stream
  have hgrows : r.sys.ring.confirmed <+: s'.ring.confirmed := by
    rcases hside with hside | hside
    · rcases hside.ring with heq | ⟨ra, hstep⟩
      · rw [heq]
      · exact hinv.ring.confirmed_grows hstep
    · rw [hside.confirmed]
  obtain ⟨new, hnew⟩ := hgrows
  rw [record, ← hnew, List.drop_left]
  by_cases hnil : new = []
  · subst hnil
    rw [List.append_nil] at hnew
    have hwaiting := hinv.waiting_of_step hside hnew.symm (hnew ▸ hlast) hp
    have hborn := (hinv.kept hs (hinv.mem_stock_of_waiting hwaiting)).born
    rw [births, List.map_nil, List.append_nil, h.lastBorn p (hnew ▸ hlast) hwaiting, hborn]
  · have hlast' : new.getLast? = some p := by
      rw [← hnew, List.getLast?_append_of_ne_nil _ hnil] at hlast
      exact hlast
    have hne : s'.births new ≠ [] := fun hmap => hnil (List.map_eq_nil_iff.1 hmap)
    show (r.confirmedBorn ++ s'.births new).getLast? = _
    rw [List.getLast?_append_of_ne_nil _ hne, births, List.getLast?_map, hlast']
    rfl

/-- One step. -/
theorem LastInv.step (hops : cfg.ops.Lawful) (hk : k ≤ 31) (h : LastInv k start r v)
    {a : WriteAct} (ha : r.sys.NotReborn a) (hs : r.sys.step cfg a = some s') :
    ∃ v', LastInv k start (r.record s') v' := by
  have hinv := h.stream
  have hnext : ∃ v', StreamInv k start s' v' := by
    rcases hinv.noReentry ha hs with hreentry | rfl
    · exact hinv.step hops hk hreentry hs
    · exact ⟨v, hinv⟩
  obtain ⟨v', hinv'⟩ := hnext
  have hside := hinv.stackSide hk hs
  have hcommitted : ∀ b ∈ r.sys.committedBorn, b ∈ s'.committedBorn := by
    rcases hside with hside | hside
    · rw [hside.committedBorn]
      exact fun _ hb => hb
    · exact hside.committedBorn
  have hspent : ∀ b ∈ r.returnedBorn, b ∈ s'.committedBorn ∨
      ∃ p, s'.sendPreDel = some p ∧ (s'.heap p).born = b ∧ s'.ClosedOrCovered p := by
    intro b hb
    rcases h.spent b hb with hdone | ⟨p, hpre, rfl, hp⟩
    · exact .inl (hcommitted b hdone)
    have hmem : p ∈ r.sys.taken v.rest v.left := by
      rw [taken, hpre]
      exact List.mem_cons_self
    have hstays : s'.sendPreDel = some p → ∃ q, s'.sendPreDel = some q ∧
        (s'.heap q).born = (r.sys.heap p).born ∧ s'.ClosedOrCovered q := fun hpre' =>
      ⟨p, hpre', (hinv.kept hs (List.mem_append_left _ hmem)).born,
        hinv.closedOrCovered hinv' hs hpre hpre' hside hp⟩
    rcases hside with hside' | hside'
    · exact .inr (hstays (hside'.sendPreDel.trans hpre))
    · rcases hside'.sendPreDel p hpre with hpre' | ⟨-, hdone⟩
      · exact .inr (hstays hpre')
      · exact .inl hdone
  refine ⟨v', hinv', fun p hlast hp => h.lastBorn_step hs hside hlast hp, fun b hb => ?_⟩
  simp only [record] at hb ⊢
  split at hb
  · exact hspent b hb
  · rcases List.mem_append.1 hb with hb | hb
    · exact hspent b hb
    -- what is returned is closed, or another one is confirmed behind it
    obtain ⟨p, hp, rfl⟩ := List.mem_map.1 hb
    have hreturned := Option.mem_toList.1 hp
    obtain ⟨hpre, -⟩ := hinv'.returned p hreturned
    refine .inr ⟨p, hpre, rfl, ?_⟩
    by_cases hlast : s'.ring.confirmed.getLast? = some p
    · refine .inl (Bool.eq_false_iff.2 fun hopen => ?_)
      have hnone := (hinv'.untouched p hpre hlast hopen).2.1
      cases hnone.symm.trans hreturned
    · exact .inr hlast

/-- A new socket. -/
theorem LastInv.init (hr : (system cfg k).Init r) : ∃ start v, LastInv k start r v := by
  obtain ⟨⟨start, slots, heap, addr, -, hsys⟩, -, hreturned⟩ := hr
  refine ⟨start, ⟨[], [], []⟩, ?_, fun p hlast => ?_, fun b hb => ?_⟩
  · rw [hsys]
    exact .create k start slots heap addr
  · rw [hsys] at hlast
    cases hlast
  · rw [hreturned] at hb
    cases hb

/-- What the invariant says of the pbuf that the application extends. -/
theorem LastInv.ownsLast (h : LastInv k start r v) : r.OwnsLast := by
  intro p hp
  have hinv := h.stream
  have hholding := hinv.holding hp
  have hmem := hinv.mem_stock_of_waiting hholding.waiting
  have hbirths : ∀ {q : PbufPtr}, q ∈ r.sys.taken v.rest v.left ++ cells v.chains →
      q ∈ r.sys.taken v.rest v.left ++
        (cells (v.chains ++ r.sys.filledChains) ++ r.sys.unfilled) := by
    intro q hq
    rw [cells_append]
    simp only [List.mem_append] at hq ⊢
    tauto
  refine ⟨hholding.last, h.lastBorn p hholding.last hholding.waiting, fun hreturned => ?_⟩
  rcases h.spent _ hreturned with hdone | ⟨q, hpre, hborn, hclosed⟩
  · exact hinv.stock.births.notDone p (hbirths hmem) hdone
  · have hq : q ∈ r.sys.taken v.rest v.left := by
      rw [taken, hpre]
      exact List.mem_cons_self
    have heq : q = p :=
      hinv.stock.births.inj q (hbirths (List.mem_append_left _ hq)) p (hbirths hmem) hborn
    subst heq
    rcases hclosed with hfalse | hcovered
    · exact Bool.false_ne_true (hfalse.symm.trans hholding.allowIn)
    · exact hcovered hholding.last

/-- While no pbuf read from the slot is initialised again, `gazelle_ring_readlast` returns only the
pbuf that this socket has confirmed last, which `write_lwip_data` neither has returned nor returns
before `gazelle_ring_lastover`, and which is not initialised meanwhile. -/
theorem ownsLast_of_notReborn (hops : cfg.ops.Lawful) (hk : k ≤ 31)
    (hr : (system cfg k).ReachableUnder (fun r a => r.sys.NotReborn a) r) : r.OwnsLast := by
  have hinv : ∃ start v, LastInv k start r v := by
    refine Transition.System.invariant_under (I := fun r => ∃ start v, LastInv k start r v)
      (fun _ hinit => LastInv.init hinit) ?_ hr
    rintro r a r' ⟨start, v, h⟩ ha hstep
    obtain ⟨s', hs, rfl⟩ := Option.map_eq_some_iff.1 hstep
    exact ⟨start, h.step hops hk ha hs⟩
  obtain ⟨start, v, h⟩ := hinv
  exact h.ownsLast

/-- The ring gets a pbuf, a call writes a byte, and a second call reads the slot of the pbuf. -/
private def readsSlot : List WriteAct :=
  .replenish (some [5]) :: List.replicate 5 .stack ++
    .write [1] none :: List.replicate 11 (.writer none) ++
    .write [2] none :: List.replicate 2 (.writer none)

private def newSocket : RecordedSys := ⟨oneSlot, [], []⟩

private theorem newSocket_init (cfg : SendCfg) : (system cfg 1).Init newSocket :=
  ⟨oneSlot_init cfg, rfl, rfl⟩

/-- The second call gets the lock and the pbuf. -/
theorem ownsLast_of_notReborn_merge :
    ∃ r : RecordedSys,
      (system ⟨false, sendOps⟩ 1).ReachableUnder (fun r a => r.sys.NotReborn a) r ∧
        r.sys.extended = some 5 ∧ r.OwnsLast := by
  have hrun : ((system ⟨false, sendOps⟩ 1).run newSocket
      (readsSlot ++ [.writer none, .writer none])).any
        (fun r => r.sys.extended = some 5) = true := by
    decide +kernel
  have hmeet : (system ⟨false, sendOps⟩ 1).stepsMeet (fun r a => r.sys.NotReborn a) newSocket
      (readsSlot ++ [.writer none, .writer none]) := by
    decide +kernel
  obtain ⟨r, hr, hstate⟩ := (Option.any_eq_true _ _).1 hrun
  have hreach := Transition.System.reachableUnder_of_run (.init (newSocket_init _)) hr hmeet
  exact ⟨r, hreach, of_decide_eq_true hstate,
    ownsLast_of_notReborn sendOps_lawful (by decide) hreach⟩

/-- Before the second call takes the lock, the pbuf is returned, committed, released and initialised
again. -/
private def reborn : List WriteAct :=
  readsSlot ++ .lwipData 100 :: List.replicate 10 .stack ++
    [.lwipOver, .release 5, .replenish (some [5])] ++ List.replicate 5 .stack ++
    [.writer none, .writer none]

/-- `gazelle_ring_readlast` returns a pbuf that is not confirmed. -/
theorem not_ownsLast_reborn :
    ¬ ∀ (cfg : SendCfg) (k : ℕ) (r : RecordedSys), cfg.ops.Lawful → k ≤ 31 →
      (system cfg k).Reachable r → r.OwnsLast := by
  intro h
  have hrun : ((system ⟨false, sendOps⟩ 1).run newSocket reborn).any (fun r =>
      r.sys.extended = some 5 ∧ r.confirmedBorn = [0] ∧ r.returnedBorn = [0] ∧
        (r.sys.heap 5).born = 1) = true := by
    decide +kernel
  obtain ⟨r, hr, hstate⟩ := (Option.any_eq_true _ _).1 hrun
  obtain ⟨hextended, hconfirmed, -, hborn⟩ := of_decide_eq_true hstate
  have hreach := Transition.System.reachable_of_run (.init (newSocket_init _)) hr
  obtain ⟨-, hlast, -⟩ := h _ 1 r sendOps_lawful (by decide) hreach 5 hextended
  rw [hconfirmed, hborn] at hlast
  cases hlast

end RecordedSys

end Gazelle
