import Gazelle.Lwip.StreamWriter

/-!
# The steps of the stack on the send stream

The steps of `write_lwip_data`, `write_lwip_over` and `replenish_send_idlembuf`, and those of lwIP,
keep the invariant of the send stream. `write_lwip_data` closes a pbuf under its lock, unless
another one is confirmed behind it; so the application does not extend a pbuf that is taken.

* `WriteSys.SameWriter.writerIs`: what a step of the stack has to leave alone;
* `WriteSys.StreamInv.returns`: a pbuf is detached from what is behind it;
* `WriteSys.StreamInv.stackStep`, `WriteSys.StreamInv.lwipOver`, `WriteSys.StreamInv.replenish`: the
  steps of the stack.
-/

namespace Gazelle

open Linked WrapCounter

namespace WriteSys

variable {cfg : SendCfg} {k : ℕ} {start : U32} {s s' : WriteSys} {v v' : StreamView}

/-! ## What the application sees -/

/-- The application has the pbuf whose lock it has. -/
theorem mem_held_of_writerLock {p : PbufPtr} (hp : s.writerLock = some p) : p ∈ s.held := by
  unfold writerLock at hp
  unfold held
  split at hp
  all_goals first
    | (rename_i hpc
       obtain rfl := Option.some.inj hp
       rw [hpc]
       exact List.mem_singleton_self _)
    | cases hp

/-- The pbufs that are filled and not confirmed. -/
theorem bytes_filled
    (hfilled : ∀ p ∈ cells s.filledChains, (s.heap p).SameBody (s'.heap p)) {l : List PbufPtr}
    (hl : ∀ p ∈ l, p ∈ cells s.filledChains) : s'.heap.bytes l = s.heap.bytes l :=
  SendHeap.bytes_congr fun p hp => (hfilled p (hl p hp)).bytes

/-- A step of the stack leaves the application where it is, if what it relies on is left. -/
theorem SameWriter.writerIs (h : SameWriter s s')
    (hdeq : s.ring.dequeued.length ≤ s'.ring.dequeued.length) (hs : s.WriterIs start)
    (hkept : ∀ p ∈ s.held, s.ring.confirmed.getLast? = some p → s.KeptLast p → s'.KeptLast p)
    (hholding : ∀ p, s.writerLock = some p → s.Holding p → s'.Holding p)
    (hfilled : ∀ p ∈ cells s.filledChains, (s.heap p).SameBody (s'.heap p))
    (hunfilled : ∀ p ∈ s.held, p ∉ s.unfilled → p ∉ s'.unfilled) : s'.WriterIs start := by
  -- the only field of the application's own knowledge that the stack could change is in the heap
  have hconf := h.reader.confirmed
  unfold WriterIs at hs ⊢
  rw [h.writer]
  cases hpc : s.writer with
  | idle =>
    rw [hpc] at hs
    exact h.rests hs
  | lastTail use c =>
    rw [hpc] at hs
    exact ⟨h.rests hs.1, hs.2⟩
  | lastSlot use c tail =>
    -- what was loaded is at most what the stack has dequeued by now
    rw [hpc] at hs
    obtain ⟨hrests, hc, n, hshows, hle, hlast⟩ := hs
    refine ⟨h.rests hrests, hc, n, hshows, hle.trans hdeq, fun hlt p hp => ?_⟩
    rw [hconf] at hlt hp
    have hmem : p ∈ s.held := by
      rw [held, hpc]
      exact Option.mem_toList.2 hp
    exact hkept p hmem hp (hlast hlt p hp)
  | lastLock use c p =>
    -- the pbuf is only known not to be closed while it is still the last one
    rw [hpc] at hs
    have hmem : p ∈ s.held := by
      rw [held, hpc]
      exact List.mem_singleton_self p
    exact ⟨h.rests hs.1, hs.2.1, hconf.symm ▸ hs.2.2.1, hkept p hmem hs.2.2.1 hs.2.2.2⟩
  | lastTest use c p =>
    rw [hpc] at hs
    have hmem : p ∈ s.held := by
      rw [held, hpc]
      exact List.mem_singleton_self p
    exact ⟨h.rests hs.1, hs.2.1, hconf.symm ▸ hs.2.2.1, hkept p hmem hs.2.2.1 hs.2.2.2⟩
  | lastRefuse use c p =>
    rw [hpc] at hs
    exact ⟨h.rests hs.1, hs.2⟩
  | merge c p =>
    -- the lock is held, so the stack does not close the pbuf
    rw [hpc] at hs
    exact ⟨h.rests hs.1, hs.2.1, hholding p (by rw [writerLock, hpc]) hs.2.2⟩
  | mergeOver c p =>
    rw [hpc] at hs
    exact ⟨h.rests hs.1, hs.2.1, hholding p (by rw [writerLock, hpc]) hs.2.2⟩
  | count c =>
    rw [hpc] at hs
    exact ⟨h.rests hs.1, hs.2⟩
  | attach c p num =>
    rw [hpc] at hs
    exact ⟨h.rests hs.1, hs.2.1, hholding p (by rw [writerLock, hpc]) hs.2.2⟩
  | attachOver c p =>
    rw [hpc] at hs
    exact ⟨h.rests hs.1, hs.2.1, hholding p (by rw [writerLock, hpc]) hs.2.2⟩
  | attachAddr c p =>
    rw [hpc] at hs
    exact ⟨h.rests hs.1, hs.2⟩
  | ret c =>
    rw [hpc] at hs
    exact ⟨h.rests hs.1, hs.2⟩
  | buffRead c num =>
    rw [hpc] at hs
    -- the ring may grow at the stack's end while the application reads at its own
    obtain ⟨⟨out, hread⟩, hc⟩ := hs
    exact ⟨⟨out, hread.congr h.reader h.grows⟩, hc⟩
  | buffFill c pbufs =>
    rw [hpc] at hs
    obtain ⟨⟨out, hrest⟩, hc⟩ := hs
    exact ⟨⟨out, hrest.congr h.reader⟩, hc⟩
  | buffOver c pbufs written =>
    rw [hpc] at hs
    obtain ⟨⟨out, hover, hnotdone⟩, hlen, hwritten, hbytes⟩ := hs
    -- the bytes in the pbufs filled are not touched
    refine ⟨⟨out, hover.congr h.reader, h.reader.reader.symm ▸ hnotdone⟩, hlen, hwritten, ?_⟩
    refine (bytes_filled hfilled fun p hp => ?_).trans hbytes
    rw [filledChains, hpc, cells_map_single]
    exact hp
  | buffDone c pbufs =>
    rw [hpc] at hs
    obtain ⟨⟨out, hover, hdone⟩, hc⟩ := hs
    exact ⟨⟨out, hover.congr h.reader, h.reader.reader.trans hdone⟩, hc⟩
  | directAlloc c num =>
    rw [hpc] at hs
    obtain ⟨hrests, hlen, hfits, hlt⟩ := hs
    -- the count that was seen can only have grown
    rw [h.reader.readOut]
    exact ⟨h.rests hrests, hlen, hfits, hlt.trans_le h.grows.length_le⟩
  | directRead c mbufs =>
    rw [hpc] at hs
    obtain ⟨⟨out, hread⟩, hc⟩ := hs
    exact ⟨⟨out, hread.congr h.reader h.grows⟩, hc⟩
  | directFill c pbufs =>
    rw [hpc] at hs
    obtain ⟨⟨out, p, mbufs, hpbufs, hrest⟩, hc⟩ := hs
    exact ⟨⟨out, p, mbufs, hpbufs, hrest.congr h.reader⟩, hc⟩
  | directOver c pbufs written =>
    rw [hpc] at hs
    obtain ⟨⟨out, p, mbufs, rfl, hover, hnotdone⟩, hlen, hwritten, hbytes⟩ := hs
    refine ⟨⟨out, p, mbufs, rfl, hover.congr h.reader, h.reader.reader.symm ▸ hnotdone⟩, hlen,
      hwritten, ?_⟩
    refine (bytes_filled hfilled fun q hq => ?_).trans hbytes
    rw [filledChains, hpc]
    exact mem_cells_of_mem List.mem_cons_self hq
  | directDone c pbufs =>
    rw [hpc] at hs
    obtain ⟨⟨out, hover, hdone⟩, hlen, p, mbufs, rfl, hp⟩ := hs
    refine ⟨⟨out, hover.congr h.reader, h.reader.reader.trans hdone⟩, hlen, p, mbufs, rfl, ?_⟩
    -- the stack gives back no pbuf that the application holds
    refine hunfilled p ?_ hp
    rw [held, hpc]
    exact List.mem_singleton_self p

/-! ## Steps that move no pbuf -/

/-- The bytes accepted are the same. -/
theorem SameWriter.acceptedBytes (h : SameWriter s s') : s'.acceptedBytes = s.acceptedBytes := by
  refine acceptedBytes_congr h.accepted ?_
  unfold current
  rw [h.writer]

theorem SameWriter.filledChains (h : SameWriter s s') : s'.filledChains = s.filledChains := by
  unfold WriteSys.filledChains
  rw [h.writer]

theorem SameWriter.claimed (h : SameWriter s s') : s'.claimed = s.claimed := by
  unfold WriteSys.claimed
  rw [h.writer]

theorem SameWriter.writerLock (h : SameWriter s s') : s'.writerLock = s.writerLock := by
  unfold WriteSys.writerLock
  rw [h.writer]

theorem SameWriter.held (h : SameWriter s s') : s'.held = s.held := by
  unfold WriteSys.held
  rw [h.writer, h.reader.confirmed]

/-- The last pbuf of a chain is the same when `last` is. -/
theorem SameWriter.lastOf (h : SameWriter s s') {p : PbufPtr}
    (hlast : (s'.heap p).last = (s.heap p).last) : s'.lastOf p = s.lastOf p := by
  unfold WriteSys.lastOf
  rw [h.writer, hlast]

/-- A step of the stack, or of lwIP, that leaves all pbufs of the send path where they are. -/
theorem StreamInv.setStackPc (h : StreamInv k start s v) (hsame : SameWriter s s')
    (hlists : SameLists s s') (hring : RingSys.RingInv k start s'.ring)
    (hbehind : RingSys.HoldsBehind start s'.ring)
    (hdeq : s.ring.dequeued.length ≤ s'.ring.dequeued.length)
    (hreturned : s'.returned = s.returned ∨ s'.returned = none)
    (hheap : ∀ q ∈ s.stockPbufs v, (s.heap q).SameBody (s'.heap q))
    (hlast : ∀ q ∈ s.stockPbufs v, (s'.heap q).last = (s.heap q).last)
    (hallow : ∀ q, q ∈ s.stockPbufs v ∨ q ∈ s.held →
      (s'.heap q).allowIn = (s.heap q).allowIn ∨
        ((s'.heap q).allowIn = false ∧ s.writerLock ≠ some q))
    (hcommitted : s'.committed = s.committed) (hstack : s'.StackAt k) (hstackIs : s'.StackIs)
    (hlocks : s'.LockInv) : StreamInv k start s' v := by
  refine h.congr hlists hring hbehind hreturned hheap (fun q hq ha => ?_)
    (fun q hq => hsame.lastOf (hlast q hq)) hsame.acceptedBytes ?_ ?_ hstack hstackIs hlocks
  · rcases hallow q (.inl hq) with heq | ⟨hfalse, -⟩
    · exact heq.symm.trans ha
    · exact absurd (hfalse.symm.trans ha) Bool.false_ne_true
  · rw [committedBytes, committedBytes, hcommitted]
  refine hsame.writerIs hdeq h.writer (fun p hp _ hkept => ?_) (fun p hp hholding => ?_)
    (fun p hp => hheap p ?_) fun p _ hnot => hlists.unfilled.symm ▸ hnot
  · rcases hkept with hwaiting | hclosed
    · exact .inl (hlists.waiting.symm ▸ hwaiting)
    · rcases hallow p (.inr hp) with heq | ⟨hfalse, -⟩
      · exact .inr (heq.trans hclosed)
      · exact .inr hfalse
  · refine ⟨hlists.confirmed.symm ▸ hholding.last, hlists.waiting.symm ▸ hholding.waiting, ?_⟩
    rcases hallow p (.inr (mem_held_of_writerLock hp)) with heq | ⟨-, hne⟩
    · exact heq.trans hholding.allowIn
    · exact absurd hp hne
  · rw [stockPbufs, cells_append]
    simp only [List.mem_append]
    tauto

/-- A step of the stack outside the ring. -/
theorem StreamInv.setOutside (h : StreamInv k start s v) {heap : SendHeap}
    {returned : Option PbufPtr} {pc : StackPc} (hout : StackPc.OutsideRing s.stack)
    (hout' : StackPc.OutsideRing pc) (hreturned : returned = s.returned ∨ returned = none)
    (hheap : ∀ q, (s.heap q).SameBody (heap q) ∧ (heap q).last = (s.heap q).last)
    (hallow : ∀ q, (heap q).allowIn = (s.heap q).allowIn ∨
      ((heap q).allowIn = false ∧ s.writerLock ≠ some q))
    (hstack : StackAt k { s with stack := pc })
    (hstackIs : StackIs { s with heap, returned, stack := pc })
    (hlocks : LockInv { s with heap, returned, stack := pc }) :
    StreamInv k start { s with heap, returned, stack := pc } v := by
  refine h.setStackPc ⟨.refl _, List.prefix_rfl, rfl, rfl⟩
    ⟨rfl, rfl, rfl, rfl, rfl, ?_, rfl, rfl, ?_⟩ h.ring h.behind le_rfl hreturned
    (fun q _ => (hheap q).1) (fun q _ => (hheap q).2) (fun q _ => hallow q) rfl ?_ hstackIs hlocks
  · unfold ringWaiting
    rw [inHand_eq_nil hout, inHand_eq_nil (by exact hout')]
  · unfold unfilled
    rw [replenishing_eq_nil hout, replenishing_eq_nil (by exact hout')]
    rfl
  · unfold StackAt at hstack ⊢
    cases pc <;> exact hstack

/-- The locks, when the stack takes one that is free. -/
theorem LockInv.stackTake (h : s.LockInv) {p : PbufPtr} {pc : StackPc}
    (hfree : ¬ (s.heap p).locked = true) (hpc : stackLock { s with stack := pc } = some p) :
    LockInv { s with heap := s.heap.modify p .lock, stack := pc } where
  writer q hq := by
    show (s.heap.modify p .lock q).locked = true
    by_cases heq : q = p
    · rw [heq, SendHeap.modify_self]
      rfl
    · rw [SendHeap.modify_of_ne heq]
      exact h.writer q hq
  stack q hq := by
    obtain rfl : p = q := Option.some.inj (hpc.symm.trans hq)
    show (s.heap.modify p .lock p).locked = true
    rw [SendHeap.modify_self]
    rfl
  apart q hq hq' := by
    obtain rfl : p = q := Option.some.inj (hpc.symm.trans hq')
    exact hfree (h.writer p hq)

/-- The locks, when the stack releases its own. -/
theorem LockInv.stackRelease (h : s.LockInv) {p : PbufPtr} {pc : StackPc}
    {f : SendPbuf → SendPbuf} (hp : s.stackLock = some p)
    (hpc : stackLock { s with stack := pc } = none) :
    LockInv { s with heap := s.heap.modify p f, stack := pc } := by
  refine ⟨fun q hq => ?_, fun q hq => ?_, fun q _ hq => ?_⟩
  · have hne : q ≠ p := by
      rintro rfl
      exact h.apart q hq hp
    show (s.heap.modify p f q).locked = true
    rw [SendHeap.modify_of_ne hne]
    exact h.writer q hq
  · cases hpc.symm.trans hq
  · cases hpc.symm.trans hq

/-- A store to one field of a pbuf. -/
theorem keeps_modify (heap : SendHeap) {p : PbufPtr} {f : SendPbuf → SendPbuf}
    (hbody : (heap p).SameBody (f (heap p))) (hlast : (f (heap p)).last = (heap p).last)
    (q : PbufPtr) :
    (heap q).SameBody (heap.modify p f q) ∧ (heap.modify p f q).last = (heap q).last :=
  ⟨SendPbuf.SameBody.modify hbody q, SendHeap.modify_field (·.last) hlast⟩

/-- While pbufs wait in the ring, the stack has not taken the last one. -/
theorem StreamInv.getLast_ne_of_taken (h : StreamInv k start s v)
    (hlt : s.ring.dequeued.length < s.ring.confirmed.length) {p : PbufPtr}
    (hp : p ∈ s.taken v.rest v.left) : s.ring.confirmed.getLast? ≠ some p := by
  intro hlast
  have hne : s.ringWaiting ≠ [] := by
    rw [ringWaiting]
    exact List.append_ne_nil_of_right_ne_nil _
      (List.ne_nil_of_length_pos (by rw [List.length_drop]; omega))
  have hmem := h.mem_cells (List.mem_of_getLast? (h.getLast_ringWaiting hne hlast))
  refine (List.nodup_append.1 h.stock.owned.nodup).2.2 p hp p ?_ rfl
  rw [cells_append]
  simp only [List.mem_append]
  tauto

/-- Something is confirmed behind the pbuf that was taken last. -/
theorem StreamInv.covered (h : StreamInv k start s v) {p : PbufPtr} {remainSize : BitVec 16}
    (hpc : s.stack = .readover p remainSize) (hcount : s.ring.ring.gazelleRingReadoverCount ≠ 0) :
    s.ring.confirmed.getLast? ≠ some p := by
  have hat := h.stack
  simp only [StackAt, hpc] at hat
  obtain ⟨howner, hpre⟩ := hat
  have hlt : s.ring.dequeued.length < s.ring.confirmed.length := by
    refine lt_of_le_of_ne h.ring.dequeued_le fun heq => hcount ?_
    rw [RteRing.gazelleRingReadoverCount, h.ring.prodTail, h.ring.consTail, heq, BitVec.sub_self]
    rfl
  refine h.getLast_ne_of_taken hlt ?_
  rw [taken, hpre]
  exact List.mem_cons_self

/-- `write_lwip_data` takes the lock and tests the length. -/
theorem StreamInv.lockTest (h : StreamInv k start s v) {first : Bool} {p : PbufPtr}
    {remainSize : BitVec 16}
    (hpc : s.stack = .lock first p remainSize ∨ s.stack = .test first p remainSize)
    (hs : s.stackStep = some s') : StreamInv k start s' v := by
  have hat := h.stack
  have his := h.stackIs
  rcases hpc with hpc | hpc
  all_goals
    simp only [StackAt, hpc] at hat
    simp only [StackIs, hpc] at his
    have hout : StackPc.OutsideRing s.stack := by rw [hpc]; trivial
    simp only [WriteSys.stackStep, hpc] at hs
  · split at hs
    · cases hs
    rename_i hfree
    obtain rfl := Option.some.inj hs
    exact h.setOutside hout trivial (.inl rfl)
      (keeps_modify s.heap ⟨⟨rfl, rfl, rfl⟩, rfl, rfl, rfl⟩ rfl)
      (fun q => .inl (SendHeap.modify_field (·.allowIn) rfl)) hat his (h.locks.stackTake hfree rfl)
  · have hlock : s.stackLock = some p := by rw [stackLock, hpc]
    split at hs
    · obtain rfl := Option.some.inj hs
      exact h.setOutside hout trivial (.inl rfl) (fun q => ⟨.refl _, rfl⟩) (fun q => .inl rfl) hat
        his (h.locks.congr (.inl rfl) (.inl hlock.symm) fun _ _ => rfl)
    · -- the pbuf is closed while the stack has its lock
      obtain rfl := Option.some.inj hs
      refine h.setOutside hout trivial (.inl rfl)
        (keeps_modify s.heap ⟨⟨rfl, rfl, rfl⟩, rfl, rfl, rfl⟩ rfl) (fun q => ?_) hat
        ⟨his, .inl ?_⟩ (h.locks.congr (.inl rfl) (.inl hlock.symm) fun q _ =>
          SendHeap.modify_field (·.locked) rfl)
      · by_cases hq : q = p
        · subst hq
          refine .inr ⟨?_, fun hw => h.locks.apart q hw hlock⟩
          rw [SendHeap.modify_self]
        · exact .inl (congrArg _ (SendHeap.modify_of_ne hq))
      · show (s.heap.modify p _ p).allowIn = false
        rw [SendHeap.modify_self]

/-- `write_lwip_data` releases the lock. -/
theorem StreamInv.unlocks (h : StreamInv k start s v) {first : Bool} {p : PbufPtr}
    (hpc : s.stack = .unlockNull first p ∨ s.stack = .unlock first p)
    (hs : s.stackStep = some s') : StreamInv k start s' v := by
  have hat := h.stack
  have his := h.stackIs
  rcases hpc with hpc | hpc
  all_goals
    simp only [StackAt, hpc] at hat
    simp only [StackIs, hpc] at his
    have hout : StackPc.OutsideRing s.stack := by rw [hpc]; trivial
    simp only [WriteSys.stackStep, hpc] at hs
  · have hlock : s.stackLock = some p := by rw [stackLock, hpc]
    obtain rfl := Option.some.inj hs
    exact h.setOutside hout trivial (.inl rfl)
      (keeps_modify s.heap ⟨⟨rfl, rfl, rfl⟩, rfl, rfl, rfl⟩ rfl)
      (fun q => .inl (SendHeap.modify_field (·.allowIn) rfl)) hat.1 trivial
      (h.locks.stackRelease hlock rfl)
  · have hlock : s.stackLock = some p := by rw [stackLock, hpc]
    obtain rfl := Option.some.inj hs
    refine h.setOutside hout trivial (.inl rfl)
      (keeps_modify s.heap ⟨⟨rfl, rfl, rfl⟩, rfl, rfl, rfl⟩ rfl)
      (fun q => .inl (SendHeap.modify_field (·.allowIn) rfl)) hat ⟨his.1, ?_⟩
      (h.locks.stackRelease hlock rfl)
    rcases his.2 with hclosed | hcovered
    · exact .inl ((SendHeap.modify_field (·.allowIn) rfl).trans hclosed)
    · exact .inr hcovered

/-- The test of `gazelle_ring_readover_count`. -/
theorem StreamInv.readover (h : StreamInv k start s v) {p : PbufPtr} {remainSize : BitVec 16}
    (hpc : s.stack = .readover p remainSize) (hs : s.stackStep = some s') :
    StreamInv k start s' v := by
  have hat := h.stack
  have his := h.stackIs
  simp only [StackAt, hpc] at hat
  simp only [StackIs, hpc] at his
  have hout : StackPc.OutsideRing s.stack := by rw [hpc]; trivial
  have hlock : s.stackLock = none := by rw [stackLock, hpc]
  simp only [WriteSys.stackStep, hpc] at hs
  split at hs
  · obtain rfl := Option.some.inj hs
    exact h.setOutside hout trivial (.inl rfl) (fun q => ⟨.refl _, rfl⟩) (fun q => .inl rfl) hat
      ⟨his.1, fun _ => his.2⟩ (h.locks.congr (.inl rfl) (.inl hlock.symm) fun _ _ => rfl)
  rename_i hcount
  split at hs
  · obtain rfl := Option.some.inj hs
    exact h.setOutside hout trivial (.inl rfl)
      (keeps_modify s.heap ⟨⟨rfl, rfl, rfl⟩, rfl, rfl, rfl⟩ rfl)
      (fun q => .inl (SendHeap.modify_field (·.allowIn) rfl)) hat.1 trivial
      (h.locks.congr (.inl rfl) (.inl hlock.symm) fun q _ => SendHeap.modify_field (·.locked) rfl)
  · obtain rfl := Option.some.inj hs
    exact h.setOutside hout trivial (.inl rfl) (fun q => ⟨.refl _, rfl⟩) (fun q => .inl rfl) hat
      ⟨⟨his.1, fun _ => his.2⟩, .inr (h.covered hpc hcount)⟩
      (h.locks.congr (.inl rfl) (.inl hlock.symm) fun _ _ => rfl)

/-! ## Steps that move pbufs -/

/-- The first pbuf that the stack has is detached from what is behind it, and returned. -/
theorem StreamInv.returns (h : StreamInv k start s v) {p : PbufPtr} {lastdata : Option PbufPtr}
    {left : List PbufPtr} (hout : StackPc.OutsideRing s.stack) (howner : s.ring.owner = .idle)
    (htaken : s.taken v.rest v.left = p :: left) (hclosed : s.ClosedOrCovered p)
    (hchain : s.heap.Chain lastdata left) :
    StreamInv k start { s with
      heap := s.heap.modify p (.setNext none)
      sendPreDel := some p
      sendLastdata := lastdata
      returned := some p
      stack := .out } { v with rest := [], left } := by
  -- `p` is the first pbuf of the stack, and is nowhere else
  have hnodup := h.stock.owned.nodup
  rw [htaken, List.cons_append, List.nodup_cons] at hnodup
  obtain ⟨hp, -⟩ := hnodup
  have hstock := h.stock
  rw [htaken] at hstock
  -- cutting it off changes its `next` and nothing else
  have hothers : ∀ q, q ≠ p → s.heap.modify p (.setNext none) q = s.heap q :=
    fun q hq => SendHeap.modify_of_ne hq
  have hallow : ∀ q, (s.heap.modify p (.setNext none) q).allowIn = (s.heap q).allowIn :=
    fun q => SendHeap.modify_field (·.allowIn) rfl
  have hsame : SameWriter s { s with
      heap := s.heap.modify p (.setNext none)
      sendPreDel := some p
      sendLastdata := lastdata
      returned := some p
      stack := .out } := ⟨.refl _, List.prefix_rfl, rfl, rfl⟩
  have hring : ringWaiting { s with stack := .out } = s.ringWaiting := by
    unfold ringWaiting
    rw [inHand_eq_nil hout, inHand_eq_nil (by trivial)]
  have hunfilled : unfilled { s with stack := .out } = s.unfilled := by
    unfold unfilled
    rw [replenishing_eq_nil hout, replenishing_eq_nil (by trivial)]
    rfl
  -- the stack had the pbuf already, or had none
  have hpre : ∀ q ∈ s.sendPreDel, q = p ∧ v.rest ++ v.left = left := by
    intro q hq
    rw [taken, Option.mem_def.1 hq] at htaken
    exact List.cons.inj htaken
  -- what is left was behind it before
  have hleft : ∀ q ∈ left, q ∈ v.rest ++ v.left := by
    intro q hq
    cases hnone : s.sendPreDel with
    | none =>
      rw [taken, hnone] at htaken
      exact htaken ▸ List.mem_cons_of_mem p hq
    | some q' => exact (hpre q' hnone).2 ▸ hq
  -- the stack had `p` as `send_pre_del`, or took it out of what it had
  have hwaiting : ∀ q ∈ s.waiting, q ∈ p :: s.ringWaiting := by
    intro q hq
    rcases List.mem_append.1 hq with hq | hq
    · exact (hpre q (Option.mem_toList.1 hq)).1 ▸ List.mem_cons_self
    · exact List.mem_cons_of_mem p hq
  have hwaiting' : ∀ q ∈ s.waiting, q ∈ [p] ++ ringWaiting { s with stack := .out } := by
    intro q hq
    rw [hring]
    exact hwaiting q hq
  refine ⟨h.ring, h.behind, fun q hq => ?_, ?_, howner, trivial, ?_, ?_, ?_, ?_, fun w hw => ?_,
    fun q hq => ?_, fun q hq hlast hq' => ?_, fun q hq hmem => h.apart q hq (hleft q hmem), ?_⟩
  · exact ⟨hq, rfl⟩
  · -- the application sees one pbuf less waiting only if that pbuf is closed
    refine hsame.writerIs le_rfl h.writer (fun q _ _ hkept => ?_) (fun q _ hholding => ?_)
      (fun q hq => ?_) fun q _ hnot => ?_
    · exact hkept.imp (hwaiting' q) fun hfalse => (hallow q).trans hfalse
    · exact ⟨hholding.last, hwaiting' q hholding.waiting, (hallow q).trans hholding.allowIn⟩
    · have hne : q ≠ p := by
        rintro rfl
        refine hp (List.mem_append_right _ (List.mem_append_left _ ?_))
        rw [cells_append]
        exact List.mem_append_right _ hq
      show (s.heap q).SameBody (s.heap.modify p (.setNext none) q)
      rw [hothers q hne]
      exact .refl _
    · exact hunfilled.symm ▸ hnot
  · exact h.locks.congr (.inl rfl) (.inr rfl) fun q _ => SendHeap.modify_field (·.locked) rfl
  · exact h.heads.trans hring.symm
  · refine ⟨fun hnone => absurd hnone (Option.some_ne_none p), fun q hq => ?_,
      hchain.congr fun q hq => ?_, .inl rfl⟩
    · -- the pbuf returned has no `next`
      obtain rfl := Option.some.inj hq
      show (s.heap.modify p (.setNext none) p).next = none
      rw [SendHeap.modify_self]
      rfl
    · -- the chain behind it is not changed
      exact congrArg SendPbuf.next (hothers q fun heq => hp (List.mem_append_left _ (heq ▸ hq)))
  · show StreamStock _ _ _ _ _ _ (unfilled { s with stack := .out })
    rw [hunfilled]
    exact hstock.detach
  · rw [hsame.lastOf (SendHeap.modify_field (·.last) rfl)]
    exact h.lasts w hw
  · refine (hsame.lastOf (SendHeap.modify_field (·.last) rfl)).trans (h.blankLasts q ?_)
    exact hunfilled ▸ hq
  · -- the pbuf is closed, or another one is confirmed behind it
    obtain rfl := Option.some.inj hq
    rcases hclosed with hfalse | hne
    · exact absurd (((hallow p).trans hfalse).symm.trans hq') Bool.false_ne_true
    · exact absurd hlast hne
  · -- the bytes stay with the stack until `write_lwip_over`
    have hbytes := h.bytes
    rw [htaken] at hbytes
    refine hsame.acceptedBytes.trans (hbytes.trans ?_)
    refine congrArg (s.committedBytes ++ ·) (SendHeap.bytes_congr fun q _ => ?_).symm
    exact SendHeap.modify_field (·.bytes) rfl

/-- The call of `write_lwip_data`. -/
theorem StreamInv.lwipData (hk : k ≤ 31) (h : StreamInv k start s v) {remainSize : BitVec 16}
    (hpc : s.stack = .out) (hs : s.lwipData remainSize = some s') :
    ∃ v', StreamInv k start s' v' := by
  have hat := h.stack
  simp only [StackAt, hpc] at hat
  have hout : StackPc.OutsideRing s.stack := by rw [hpc]; trivial
  have hlock : s.stackLock = none := by rw [stackLock, hpc]
  simp only [WriteSys.lwipData] at hs
  split at hs
  · rename_i p hpre
    obtain rfl := Option.some.inj hs
    exact ⟨v, h.setOutside hout trivial (.inr rfl) (fun q => ⟨.refl _, rfl⟩) (fun q => .inl rfl)
      ⟨hat, hpre⟩ ⟨rfl, fun hfirst => absurd hfirst Bool.false_ne_true⟩
      (h.locks.congr (.inl rfl) (.inl hlock.symm) fun _ _ => rfl)⟩
  · rename_i p hpre hlastdata
    have hrest := h.stackChains.pre_none hpre
    have hchain := h.stackChains.chain_left
    rw [hlastdata] at hchain
    obtain ⟨left, hleft, hnext⟩ := Linked.eq_cons hchain
    split at hs
    · obtain rfl := Option.some.inj hs
      refine ⟨v, ?_⟩
      have hset : StreamInv k start { s with heap := s.heap, returned := none, stack := .out } v :=
        h.setOutside hout trivial (.inr rfl) (fun q => ⟨.refl _, rfl⟩) (fun q => .inl rfl) hat
          trivial
          (h.locks.congr (.inl rfl) (.inl hlock.symm) fun _ _ => rfl)
      rw [← hpc] at hset
      exact hset
    · -- the next one of the chain that was detached before
      obtain rfl := Option.some.inj hs
      have htaken : s.taken v.rest v.left = p :: left := by
        rw [taken, hpre, hrest, hleft]
        rfl
      have hclosed : s.ClosedOrCovered p := .inr fun hlast =>
        h.apart p hlast (List.mem_append_right _ (hleft ▸ List.mem_cons_self))
      have hret := h.returns hout hat htaken hclosed hnext
      rw [← hpc] at hret
      exact ⟨{ v with rest := [], left }, hret⟩
  · rename_i hpre hlastdata
    obtain ⟨ring, hring, rfl⟩ := Option.map_eq_some_iff.1 hs
    have hdeq := RingSys.dequeuing_of_call hring
    have hsame := RingSys.sameReader_of_ownerAct hring (by simp [RingAct.isReader])
    have howner : ring.owner = .deqLoadProd 1 := by
      simp only [RingSys.step, hat, Option.some.injEq] at hring
      rw [← hring]
    have hdequeued : ring.dequeued = s.ring.dequeued :=
      hdeq.dequeued_eq (by rw [howner]; rintro _ ⟨⟩)
    refine ⟨v, h.setStackPc (sameWriter_of_ownerAct (by simp [RingAct.isReader]) hring rfl rfl)
      ⟨rfl, rfl, rfl, rfl, hsame.confirmed, ?_, rfl, rfl, ?_⟩ (h.ring.step hk hring)
      (h.behind.step hk h.ring hring) (congrArg List.length hdequeued).ge (.inr rfl)
        (fun q _ => .refl _)
      (fun _ _ => rfl) (fun _ _ => .inl rfl) rfl ⟨hpre, _, _, hdeq⟩ ⟨rfl, hlastdata⟩
      (h.locks.congr (.inl rfl) (.inr rfl) fun _ _ => rfl)⟩
    · simp only [ringWaiting, inHand, hpc, howner, hsame.confirmed, hdequeued]
    · simp only [unfilled, filledChains, replenishing, hpc, hsame.confirmed, hdeq.accepted]

/-- The rest of the chain is detached. -/
theorem StreamInv.detach (h : StreamInv k start s v) {first : Bool} {p : PbufPtr}
    (hpc : s.stack = .detach first p) (hs : s.stackStep = some s') :
    ∃ v', StreamInv k start s' v' := by
  have hat := h.stack
  have his := h.stackIs
  simp only [StackAt, hpc] at hat
  simp only [StackIs, hpc] at his
  obtain ⟨howner, hpre⟩ := hat
  obtain ⟨⟨-, hfirst⟩, hclosed⟩ := his
  have hout : StackPc.OutsideRing s.stack := by rw [hpc]; trivial
  have hchain := h.stackChains.pre_some p hpre
  simp only [WriteSys.stackStep, hpc] at hs
  obtain rfl := Option.some.inj hs
  -- what is behind it, or what was detached before
  have hrest : s.heap.Chain (if first || (s.heap p).next.isSome then (s.heap p).next
      else s.sendLastdata) (v.rest ++ v.left) := by
    cases hnext : (s.heap p).next with
    | none =>
      rw [hnext] at hchain
      have hrest : v.rest = [] := Linked.eq_nil hchain
      rw [hrest, List.nil_append, Option.isSome_none, Bool.or_false]
      split
      · rename_i hfirst'
        have hleft := h.stackChains.chain_left
        rwa [hfirst hfirst'] at hleft
      · exact h.stackChains.chain_left
    | some q =>
      rw [hnext] at hchain
      have hne : v.rest ≠ [] := by
        rintro hnil
        rw [hnil] at hchain
        cases hchain
      rw [h.stackChains.one.resolve_left hne, List.append_nil, Option.isSome_some, Bool.or_true,
        if_pos rfl]
      exact hchain
  have hret := h.returns hout howner (by rw [taken, hpre]; rfl) hclosed hrest
  refine ⟨{ v with rest := [], left := v.rest ++ v.left }, ?_⟩
  rw [hpre]
  exact hret

/-- What is dequeued is in hand. -/
theorem ringWaiting_dequeue (hk : k ≤ 31) (h : RingSys.RingInv k start s.ring)
    {acc deq : List PbufPtr}
    (hdeq : RingSys.Dequeuing 1 acc deq s.ring) {remainSize : BitVec 16}
    (hpc : s.stack = .dequeue remainSize) (hnotdone : ∀ got, s.ring.owner ≠ .deqDone got)
    {ring : RingSys PbufPtr} (hring : s.ring.step .owner = some ring) :
    ringWaiting { s with ring } = s.ringWaiting := by
  have hnext := hdeq.ownerStep h hnotdone hring
  have hdequeued := hdeq.dequeued_eq hnotdone
  have hreader := RingSys.sameReader_of_ownerAct hring (by simp [RingAct.isReader])
  have hinv := h.step hk hring
  obtain ⟨rest, hrest⟩ := hinv.dequeued_prefix
  have hbefore : s.inHand = [] := by
    unfold inHand
    split
    · rename_i hdone
      exact absurd hdone (hnotdone _)
    · rfl
  rw [ringWaiting, ringWaiting, hbefore, ← hreader.confirmed, ← hrest]
  unfold inHand
  simp only [hpc, List.nil_append]
  cases howner : ring.owner with
  | deqDone got =>
    simp only
    rw [(hnext.returned howner).1, List.drop_left, hdequeued, List.append_assoc, List.drop_left]
  | _ =>
    simp only [List.nil_append]
    have hdone' : ∀ got, ring.owner ≠ .deqDone got := fun got hgot => by
      rw [howner] at hgot
      cases hgot
    rw [hnext.dequeued_eq hdone', hdequeued]

/-- The pbuf that was dequeued becomes `send_pre_del`, with the chain behind it. -/
theorem StreamInv.takes (h : StreamInv k start s v) {p : PbufPtr} {remainSize : BitVec 16}
    (hpc : s.stack = .dequeue remainSize) (hdone : s.ring.owner = .deqDone [p])
    (hinv : RingSys.RingInv k start { s.ring with owner := .idle })
    (hbehind : RingSys.HoldsBehind start { s.ring with owner := .idle })
    (hreader : RingSys.SameReader s.ring { s.ring with owner := .idle }) :
    ∃ v', StreamInv k start { s with
      ring := { s.ring with owner := .idle }
      sendPreDel := some p
      stack := .readover p remainSize } v' := by
  have hat := h.stack
  have his := h.stackIs
  simp only [StackAt, hpc] at hat
  simp only [StackIs, hpc] at his
  obtain ⟨hpre, -⟩ := hat
  -- the pbuf dequeued is the first that waited, and the first chain of the ring is behind it
  have hwaiting : s.ringWaiting = p :: s.ring.confirmed.drop s.ring.dequeued.length := by
    simp only [ringWaiting, inHand, hpc, hdone, List.singleton_append]
  have hheads := h.heads
  rw [hwaiting] at hheads
  obtain ⟨⟨p', t⟩, chains, hchains, hp', hrest⟩ := List.map_eq_cons_iff.1 hheads
  obtain rfl : p = p' := hp'.symm
  -- the stack had nothing
  have hrest₀ := h.stackChains.pre_none hpre
  have hleft₀ : v.left = [] := by
    have hchain := h.stackChains.chain_left
    rw [his.2] at hchain
    exact Linked.eq_nil hchain
  have htaken : s.taken v.rest v.left = [] := by
    rw [taken, hpre, hrest₀, hleft₀]
    rfl
  have hstock := h.stock
  -- the first chain moves from the ring to the stack
  rw [htaken, hchains, List.cons_append] at hstock
  have hbytes := h.bytes
  rw [htaken, hchains, cells_cons] at hbytes
  have hlock : s.stackLock = none := by rw [stackLock, hpc]
  have hsame : SameWriter s { s with
      ring := { s.ring with owner := .idle }
      sendPreDel := some p
      stack := .readover p remainSize } := ⟨hreader, List.prefix_rfl, rfl, rfl⟩
  have hring : ringWaiting { s with
      ring := { s.ring with owner := .idle }
      sendPreDel := some p
      stack := .readover p remainSize } = s.ring.confirmed.drop s.ring.dequeued.length := rfl
  -- what the application can find waiting is the same, `p` is only in another place
  have hwaiting' : waiting { s with
      ring := { s.ring with owner := .idle }
      sendPreDel := some p
      stack := .readover p remainSize } = s.waiting := by
    rw [waiting_eq, waiting_eq, hring, hwaiting, hpre]
    rfl
  have hunfilled : unfilled { s with
      ring := { s.ring with owner := .idle }
      sendPreDel := some p
      stack := .readover p remainSize } = s.unfilled := by
    simp only [unfilled, filledChains, replenishing, hpc]
  refine ⟨⟨t, [], chains⟩, hinv, hbehind, fun q hq => ?_, ?_, ⟨rfl, rfl⟩, his,
    h.locks.congr (.inl rfl) (.inl hlock.symm) fun _ _ => rfl, hrest, ?_, ?_, fun w hw => ?_,
    fun q hq => ?_, fun q hq _ _ => ?_, fun q hq hmem => ?_, ?_⟩
  · -- nothing is returned while the stack dequeues
    rw [his.1] at hq
    cases hq
  · -- the application sees the same
    refine hsame.writerIs le_rfl h.writer (fun q _ _ hkept => ?_) (fun q _ hholding => ?_)
      (fun _ _ => .refl _) fun q _ hnot => hunfilled.symm ▸ hnot
    · exact hkept.imp (fun hq => hwaiting'.symm ▸ hq) id
    · exact ⟨hholding.last, hwaiting'.symm ▸ hholding.waiting, hholding.allowIn⟩
  · refine ⟨fun hnone => absurd hnone (Option.some_ne_none p), fun q hq => ?_, his.2, .inr rfl⟩
    obtain rfl := Option.some.inj hq
    exact hstock.chained (_, t) List.mem_cons_self
  · show StreamStock _ _ _ (p :: (t ++ [])) _ _ (unfilled _)
    rw [hunfilled, List.append_nil]
    exact hstock.take
  · -- the other chains are not changed
    refine (h.lasts w ?_).trans rfl
    rw [hchains]
    exact List.mem_cons_of_mem _ hw
  · exact h.blankLasts q (hunfilled ▸ hq)
  · -- the pbuf taken is not yet closed, so its `last` is the end of the chain
    obtain rfl := Option.some.inj hq
    refine ⟨rfl, his.1, (h.lasts (p, t) ?_).trans rfl⟩
    rw [hchains]
    exact List.mem_cons_self
  · -- the pbuf confirmed last is the head of a chain, so nothing is before it
    have hnodup := hstock.owned.nodup
    rw [List.nil_append, cells_cons, List.append_assoc, List.cons_append, List.nodup_cons] at hnodup
    have hlast := h.getLast_ringWaiting (by rw [hwaiting]; exact List.cons_ne_nil _ _) hq
    rw [hwaiting] at hlast
    rw [List.append_nil] at hmem
    rcases List.mem_cons.1 (List.mem_of_getLast? hlast) with rfl | hqmem
    · exact hnodup.1 (List.mem_append_left _ hmem)
    · rw [← hrest] at hqmem
      obtain ⟨w, hw, rfl⟩ := List.mem_map.1 hqmem
      have hcell : w.1 ∈ cells (chains ++ s.filledChains) :=
        mem_cells_of_mem (List.mem_append_left _ hw) List.mem_cons_self
      exact (List.nodup_append.1 hnodup.2).2.2 w.1 hmem w.1 (List.mem_append_left _ hcell) rfl
  · -- the bytes are in the same order as before
    show s.acceptedBytes = s.committedBytes ++ s.heap.bytes ((p :: (t ++ [])) ++ cells chains)
    rw [List.append_nil]
    exact hbytes

/-- The steps in `gazelle_ring_sc_dequeue`. -/
theorem StreamInv.dequeue (hk : k ≤ 31) (h : StreamInv k start s v) {remainSize : BitVec 16}
    (hpc : s.stack = .dequeue remainSize) (hs : s.stackStep = some s') :
    ∃ v', StreamInv k start s' v' := by
  have hat := h.stack
  have his := h.stackIs
  simp only [StackAt, hpc] at hat
  -- while it dequeues the stack has no pbuf and holds no lock
  simp only [StackIs, hpc] at his
  obtain ⟨hpre, acc, deq, hdeq⟩ := hat
  have hlock : s.stackLock = none := by rw [stackLock, hpc]
  simp only [WriteSys.stackStep, hpc] at hs
  obtain ⟨ring, hring, heq⟩ := Option.map_eq_some_iff.1 hs
  have hinv := h.ring.step hk hring
  have hbehind := h.behind.step hk h.ring hring
  have hreader := RingSys.sameReader_of_ownerAct hring (by simp [RingAct.isReader])
  have hgrows := RingSys.accepted_prefix_of_step hring
  have hdeqGrows := (RingSys.grows_of_step hring).2.length_le
  split at heq <;> subst heq
  · -- the ring was empty and the stack ends with nothing
    rename_i hdone
    rw [RingSys.step, RingSys.return_eq (.inr ⟨_, hdone⟩)] at hring
    obtain rfl := Option.some.inj hring
    refine ⟨v, h.setStackPc ⟨hreader, hgrows, rfl, rfl⟩
      ⟨rfl, rfl, rfl, rfl, rfl, ?_, rfl, rfl, ?_⟩ hinv hbehind hdeqGrows (.inl rfl)
      (fun q _ => .refl _) (fun _ _ => rfl) (fun _ _ => .inl rfl) rfl rfl trivial
      (h.locks.congr (.inl rfl) (.inl hlock.symm) fun _ _ => rfl)⟩
    · simp only [ringWaiting, inHand, hpc, hdone]
    · simp only [unfilled, filledChains, replenishing, hpc]
  · -- one pbuf was asked for, so one was returned
    rename_i p rest hdone
    obtain ⟨-, hlen⟩ := hdeq.returned hdone
    have hrest : rest = [] := by
      rw [← List.length_eq_zero_iff]
      simpa using hlen
    subst hrest
    rw [RingSys.step, RingSys.return_eq (.inr ⟨_, hdone⟩)] at hring
    obtain rfl := Option.some.inj hring
    exact h.takes hpc hdone hinv hbehind hreader
  · -- an access of `gazelle_ring_sc_dequeue` that is not its last
    rename_i hnil hcons
    have hnotdone : ∀ got, s.ring.owner ≠ .deqDone got := by
      intro got hdone
      cases got with
      | nil => exact hnil hdone
      | cons p rest => exact hcons p rest hdone
    have hnext := hdeq.ownerStep h.ring hnotdone hring
    have hwaiting := ringWaiting_dequeue hk h.ring hdeq hpc hnotdone hring
    rw [hpc] at hwaiting
    refine ⟨v, h.setStackPc ⟨hreader, hgrows, rfl, rfl⟩ ⟨rfl, rfl, rfl, rfl, hreader.confirmed,
      hwaiting, rfl, rfl, ?_⟩ hinv hbehind hdeqGrows (.inl rfl) (fun q _ => .refl _)
      (fun _ _ => rfl) (fun _ _ => .inl rfl) rfl ?_ ?_
      (h.locks.congr (.inl rfl) (.inl hlock.symm) fun _ _ => rfl)⟩
    · simp only [unfilled, filledChains, replenishing, hpc, hreader.confirmed, hnext.accepted,
        hdeq.accepted]
    · simp only [StackAt]
      exact ⟨hpre, acc, deq, hnext⟩
    · simp only [StackIs]
      exact his

/-- `write_lwip_over` commits the pbuf taken. -/
theorem StreamInv.lwipOver (h : StreamInv k start s v) {p : PbufPtr} (hpc : s.stack = .out)
    (hreturned : s.returned = some p) :
    StreamInv k start { s with
      heap := s.heap.modify p ({ · with place := .lwip })
      sendPreDel := none
      returned := none
      committedBorn := s.committedBorn ++ [(s.heap p).born]
      committed := s.committed ++ [s.content p] } v := by
  have hout : StackPc.OutsideRing s.stack := by rw [hpc]; trivial
  have hat := h.stack
  -- `p` was returned, and the stack has nothing before it
  obtain ⟨hpre, hrest⟩ := h.returned p hreturned
  have htaken : s.taken v.rest v.left = p :: v.left := by
    rw [taken, hpre, hrest]
    rfl
  have hnodup := h.stock.owned.nodup
  have hstock := h.stock
  have hbytes := h.bytes
  rw [htaken] at hnodup hstock hbytes
  have hp := (List.nodup_cons.1 hnodup).1
  have hothers : ∀ q, q ≠ p → s.heap.modify p ({ · with place := .lwip }) q = s.heap q :=
    fun q hq => SendHeap.modify_of_ne hq
  have hallow : ∀ q, (s.heap.modify p ({ · with place := .lwip }) q).allowIn = (s.heap q).allowIn :=
    fun q => SendHeap.modify_field (·.allowIn) rfl
  have hlastField : ∀ q, (s.heap.modify p ({ · with place := .lwip }) q).last = (s.heap q).last :=
    fun q => SendHeap.modify_field (·.last) rfl
  -- the application does not have it any more, unless it is closed
  have hclosed : s.ring.confirmed.getLast? = some p → (s.heap p).allowIn = false := by
    intro hlast
    by_contra hopen
    have hnone := (h.untouched p hpre hlast (Bool.eq_true_of_not_eq_false hopen)).2.1
    rw [hreturned] at hnone
    cases hnone
  -- so the application sees all others still waiting
  have hwaiting : ∀ q, q ≠ p → q ∈ s.waiting → q ∈ s.ringWaiting := by
    intro q hq hmem
    rcases List.mem_append.1 hmem with hmem | hmem
    · rw [hpre] at hmem
      exact absurd (List.mem_singleton.1 hmem) hq
    · exact hmem
  have hsame : SameWriter s { s with
      heap := s.heap.modify p ({ · with place := .lwip })
      sendPreDel := none
      returned := none
      committedBorn := s.committedBorn ++ [(s.heap p).born]
      committed := s.committed ++ [s.content p] } := ⟨.refl _, List.prefix_rfl, rfl, rfl⟩
  simp only [StackAt, hpc] at hat
  have hnone : ∀ q, (none : Option PbufPtr) ≠ some q := fun q heq => Option.some_ne_none q heq.symm
  refine ⟨h.ring, h.behind, fun q hq => absurd hq (Option.not_mem_none q), ?_, ?_, ?_, ?_, h.heads,
    ?_, ?_, fun w hw => ?_, fun q hq => ?_, fun q hq => absurd hq (hnone q), h.apart, ?_⟩
  · refine hsame.writerIs le_rfl h.writer (fun q _ hlast hkept => ?_) (fun q _ hholding => ?_)
      (fun q hq => ?_) fun q _ hnot => hnot
    · -- a pbuf that the application still looks at is closed
      by_cases hq : q = p
      · subst hq
        exact .inr ((hallow q).trans (hclosed hlast))
      · exact hkept.imp (hwaiting q hq) fun hfalse => (hallow q).trans hfalse
    · -- a pbuf that it holds open is not this one
      have hq : q ≠ p := by
        rintro rfl
        exact absurd ((hclosed hholding.last).symm.trans hholding.allowIn) Bool.false_ne_true
      exact ⟨hholding.last, hwaiting q hq hholding.waiting, (hallow q).trans hholding.allowIn⟩
    · -- and those it fills are not with the stack
      have hne : q ≠ p := by
        rintro rfl
        refine hp (List.mem_append_right _ (List.mem_append_left _ ?_))
        rw [cells_append]
        exact List.mem_append_right _ hq
      show (s.heap q).SameBody (s.heap.modify p ({ · with place := .lwip }) q)
      rw [hothers q hne]
      exact .refl _
  · simp only [StackAt, hpc]
    exact hat
  · simp only [StackIs, hpc]
  · exact h.locks.congr (.inl rfl) (.inl rfl) fun q _ => SendHeap.modify_field (·.locked) rfl
  · -- the rest of the chain stays with the stack
    refine ⟨fun _ => hrest, fun q hq => absurd hq (hnone q),
      h.stackChains.chain_left.congr fun q hq => ?_, .inl hrest⟩
    exact congrArg SendPbuf.next (hothers q fun heq => hp (List.mem_append_left _ (heq ▸ hq)))
  · show StreamStock _ _ _ (v.rest ++ v.left) _ _ _
    rw [hrest]
    exact hstock.commit hothers
  · exact (hsame.lastOf (hlastField w.1)) ▸ h.lasts w hw
  · exact (hsame.lastOf (hlastField q)).trans (h.blankLasts q hq)
  · -- the bytes of `p` move from what is sent to what is committed
    show s.acceptedBytes = (s.committed ++ [s.content p]).flatMap Prod.fst ++
      SendHeap.bytes _ ((v.rest ++ v.left) ++ cells v.chains)
    rw [hrest, List.nil_append, List.flatMap_append, List.append_assoc, hbytes]
    refine congrArg (s.committedBytes ++ ·) ?_
    have hkept : ∀ l, (s.heap.modify p ({ · with place := .lwip })).bytes l = s.heap.bytes l :=
      fun l => SendHeap.bytes_congr fun q _ => SendHeap.modify_field (·.bytes) rfl
    rw [hkept, List.flatMap_cons, List.flatMap_nil, List.append_nil]
    exact List.flatMap_cons

/-! ## Pbufs come from the pool and return to it -/

/-- The pbufs that are filled have been read. -/
theorem StreamInv.filled_le (h : StreamInv k start s v) :
    s.ring.confirmed.length + s.filledChains.length ≤ s.ring.accepted.length := by
  have hat := h.writer
  have hconfirmed := h.ring.confirmed_le
  have hread := h.ring.readOut_le
  unfold filledChains
  split
  · rename_i c pbufs written hpc
    simp only [WriterIs, hpc] at hat
    obtain ⟨⟨out, hover, hnotdone⟩, -⟩ := hat
    rw [hover.readOut, List.length_append] at hread
    rw [hover.confirmed_of_not_done hnotdone, List.length_map]
    exact hread
  · rename_i c p mbufs written hpc
    simp only [WriterIs, hpc] at hat
    obtain ⟨⟨out, p', mbufs', heq, hover, hnotdone⟩, -⟩ := hat
    rw [hover.readOut, List.length_append] at hread
    rw [hover.confirmed_of_not_done hnotdone]
    exact hread
  · rw [List.length_nil]
    omega

/-- Besides the chain in hand, the last pbuf of a chain is the one stored. -/
theorem lastOf_of_notMem {p : PbufPtr} (hfilled : p ∉ cells s.filledChains) (hheld : p ∉ s.held) :
    s.lastOf p = (s.heap p).last := by
  unfold lastOf
  split
  · rename_i c pbufs written hpc
    refine if_neg fun hhead => hfilled ?_
    obtain ⟨mbufs, rfl⟩ : ∃ mbufs, pbufs = p :: mbufs := List.head?_eq_some_iff.1 hhead
    rw [filledChains, hpc]
    exact mem_cells_of_mem List.mem_cons_self List.mem_cons_self
  · rename_i c pbufs hpc
    refine if_neg fun hhead => hheld ?_
    rw [held, hpc]
    exact Option.mem_toList.2 hhead
  · rfl

/-! ## The call of `replenish_send_idlembuf` -/

section Replenish

variable {mbufs : List PbufPtr}

theorem Replenishes.ringWaiting (h : Replenishes cfg s s' mbufs) (hpc : s.stack = .out) :
    s'.ringWaiting = s.ringWaiting := by
  rw [WriteSys.ringWaiting, WriteSys.ringWaiting, h.inHand hpc, h.sameWriter.reader.confirmed,
    (h.enqueuing (k := 0)).dequeued]

theorem Replenishes.unfilled (h : Replenishes cfg s s' mbufs) (hpc : s.stack = .out) :
    s'.unfilled = s.unfilled ++ mbufs := by
  rw [WriteSys.unfilled, WriteSys.unfilled, h.replenishing,
    replenishing_eq_nil (by rw [hpc]; trivial), h.accepted_eq, h.sameWriter.reader.confirmed,
    h.sameWriter.filledChains, List.append_nil]

theorem Replenishes.taken (h : Replenishes cfg s s' mbufs) (rest left : List PbufPtr) :
    s'.taken rest left = s.taken rest left :=
  congrArg (fun pre : Option PbufPtr => pre.toList ++ (rest ++ left)) h.sendPreDel

/-- What the send path has and what the write in progress uses is not initialised. -/
theorem StreamInv.replenish_heap (h : StreamInv k start s v) (hrep : Replenishes cfg s s' mbufs)
    (hheld : ∀ p ∈ s.held, p ∉ mbufs) {p : PbufPtr} (hp : p ∈ s.stockPbufs v ∨ p ∈ s.held) :
    s'.heap p = s.heap p := by
  refine hrep.heap_of_notMem fun hmem => ?_
  rcases hp with hp | hp
  · exact h.stock.notMem (hrep.place_ne hmem) hp
  · exact hheld p hp hmem

/-- The application is where it was. -/
theorem StreamInv.replenish_writerIs (h : StreamInv k start s v)
    (hrep : Replenishes cfg s s' mbufs) (hpc : s.stack = .out) (hheld : ∀ p ∈ s.held, p ∉ mbufs) :
    s'.WriterIs start := by
  have hallow : ∀ p ∈ s.held, (s'.heap p).allowIn = (s.heap p).allowIn := fun p hp =>
    congrArg SendPbuf.allowIn (h.replenish_heap hrep hheld (.inr hp))
  have hdeq := congrArg List.length (hrep.enqueuing (k := 0)).dequeued
  refine hrep.sameWriter.writerIs hdeq.ge h.writer (fun p hp _ hkept => ?_)
    (fun p hp hholding => ?_) (fun p hp => ?_) fun p hp hnot => ?_
  · exact hkept.imp (fun hmem => (hrep.waiting hpc).symm ▸ hmem) (hallow p hp).trans
  · exact ⟨hrep.sameWriter.reader.confirmed.symm ▸ hholding.last,
      (hrep.waiting hpc).symm ▸ hholding.waiting,
      (hallow p (mem_held_of_writerLock hp)).trans hholding.allowIn⟩
  · rw [h.replenish_heap hrep hheld (.inl ?_)]
    · exact .refl _
    · rw [stockPbufs, cells_append]
      simp only [List.mem_append]
      tauto
  · rw [hrep.unfilled hpc, List.mem_append]
    exact fun hmem => hmem.elim hnot (hheld p hp)

/-- The last pbufs of the chains are those they were. -/
theorem StreamInv.replenish_lastOf (h : StreamInv k start s v) (hrep : Replenishes cfg s s' mbufs)
    (hheld : ∀ p ∈ s.held, p ∉ mbufs) {p : PbufPtr} (hp : p ∈ s.stockPbufs v) :
    s'.lastOf p = s.lastOf p :=
  hrep.sameWriter.lastOf (congrArg SendPbuf.last (h.replenish_heap hrep hheld (.inl hp)))

/-- A new pbuf is its own last one. -/
theorem StreamInv.replenish_blankLasts (hops : cfg.ops.Lawful) (h : StreamInv k start s v)
    (hrep : Replenishes cfg s s' mbufs) (hpc : s.stack = .out) (hheld : ∀ p ∈ s.held, p ∉ mbufs) :
    ∀ p ∈ s'.unfilled, s'.lastOf p = p := by
  intro p hp
  rw [hrep.unfilled hpc] at hp
  rcases List.mem_append.1 hp with hp | hp
  · have hstock : p ∈ s.stockPbufs v :=
      List.mem_append_right _ (List.mem_append_right _ (List.mem_append_right _ hp))
    rw [h.replenish_lastOf hrep hheld hstock]
    exact h.blankLasts p hp
  · have hfresh : (initMbufs cfg s.heap s.inits mbufs p).Fresh p :=
      (initMbufs_fresh hops hrep.alloc.2.1 hp).1
    -- it is in no chain that is being filled, because it comes from the pool
    have hfilled : p ∉ cells s.filledChains := by
      refine fun hmem => h.stock.notMem (hrep.place_ne hp) ?_
      rw [cells_append]
      simp only [List.mem_append]
      tauto
    refine (lastOf_of_notMem (hrep.sameWriter.filledChains.symm ▸ hfilled) ?_).trans ?_
    · exact fun hmem => hheld p (hrep.sameWriter.held ▸ hmem) hp
    · rw [hrep.heap]
      exact hfresh.last

/-- The chains of the stack are left alone. -/
theorem StreamInv.replenish_stackChains (h : StreamInv k start s v)
    (hrep : Replenishes cfg s s' mbufs) (hheld : ∀ p ∈ s.held, p ∉ mbufs) :
    StackChains s'.heap s'.sendPreDel s'.sendLastdata v.rest v.left := by
  have hnext : ∀ p ∈ s.taken v.rest v.left, (s'.heap p).next = (s.heap p).next := fun p hp =>
    congrArg SendPbuf.next (h.replenish_heap hrep hheld
      (.inl (mem_stockPbufs (List.mem_append_left _ hp))))
  rw [hrep.sendPreDel, hrep.sendLastdata]
  refine ⟨h.stackChains.pre_none, fun p hp => ?_, ?_, h.stackChains.one⟩
  · have hmem : p ∈ s.taken v.rest v.left := by
      rw [WriteSys.taken, show s.sendPreDel = some p from hp]
      exact List.mem_cons_self
    rw [hnext p hmem]
    exact (h.stackChains.pre_some p hp).congr fun q hq =>
      hnext q (List.mem_append_right _ (List.mem_append_left _ hq))
  · exact h.stackChains.chain_left.congr fun q hq =>
      hnext q (List.mem_append_right _ (List.mem_append_right _ hq))

/-- `replenish_send_idlembuf`, up to its first access to the ring. -/
theorem StreamInv.replenish (hops : cfg.ops.Lawful) (hk : k ≤ 31) (h : StreamInv k start s v)
    {alloc : Option (List PbufPtr)} (hpc : s.stack = .out)
    (hreentry : s.NoReentry (.replenish alloc)) (hs : s.replenish cfg alloc = some s') :
    StreamInv k start s' v := by
  rcases replenish_cases hs with rfl | ⟨mbufs, rfl, hrep⟩
  · -- nothing is allocated
    exact h
  -- the allocator does not give what the application holds
  have hheld : ∀ p ∈ s.held, p ∉ mbufs := hreentry
  have hsame := hrep.sameWriter
  have hlock : s.stackLock = none := by rw [stackLock, hpc]
  have hlock' : s'.stackLock = none := by rw [stackLock, hrep.stack]
  refine ⟨h.ring.step hk hrep.ring, h.behind.step hk h.ring hrep.ring,
    hrep.returned.symm ▸ hrep.sendPreDel.symm ▸ h.returned, h.replenish_writerIs hrep hpc hheld,
    hrep.stackAt hk h.ring, ?_, ?_, h.heads.trans (hrep.ringWaiting hpc).symm,
    h.replenish_stackChains hrep hheld, ?_, fun w hw => ?_,
    h.replenish_blankLasts hops hrep hpc hheld, fun p hp hlast hallow => ?_,
    fun p hp => h.apart p (hsame.reader.confirmed ▸ hp), ?_⟩
  · rw [StackIs, hrep.stack]
    trivial
  · -- the stack holds no lock here, so only the application's counts
    refine h.locks.congr (.inl hsame.writerLock) (.inl (hlock'.trans hlock.symm)) fun p hp => ?_
    rcases hp with hp | hp
    · exact congrArg SendPbuf.locked
        (h.replenish_heap hrep hheld (.inr (mem_held_of_writerLock hp)))
    · cases hlock.symm.trans hp
  · -- the pbufs allocated join those that are blank
    rw [hrep.heap, hrep.inits, hrep.committedBorn, hrep.taken, hsame.filledChains, hsame.claimed,
      hrep.unfilled hpc]
    exact h.stock.replenish hops hrep.alloc.2.1 fun p hp => hrep.place_ne hp
  · -- the chains being filled are among the pbufs that keep everything
    rw [hsame.filledChains] at hw
    rw [h.replenish_lastOf hrep hheld (List.mem_append_right _
      (List.mem_append_left _ (mem_cells_of_mem hw List.mem_cons_self)))]
    exact h.lasts w hw
  · rw [hrep.sendPreDel] at hp
    have hmem : p ∈ s.stockPbufs v := by
      refine mem_stockPbufs (List.mem_append_left _ ?_)
      rw [WriteSys.taken, hp]
      exact List.mem_cons_self
    rw [h.replenish_heap hrep hheld (.inl hmem)] at hallow
    rw [h.replenish_lastOf hrep hheld hmem, hrep.returned]
    exact h.untouched p hp (hsame.reader.confirmed ▸ hlast) hallow
  · -- no byte was written
    rw [hsame.acceptedBytes, committedBytes, hrep.committed, hrep.taken]
    refine h.bytes.trans (congrArg (s.committedBytes ++ ·) ?_)
    exact (SendHeap.bytes_congr fun p hp =>
      congrArg SendPbuf.bytes (h.replenish_heap hrep hheld (.inl (mem_stockPbufs hp)))).symm

end Replenish

/-- The steps in `gazelle_ring_sp_enqueue`. -/
theorem StreamInv.replenishStep (hk : k ≤ 31) (h : StreamInv k start s v) {mbufs : List PbufPtr}
    (hpc : s.stack = .replenish mbufs) (hs : s.stackStep = some s') : StreamInv k start s' v := by
  have hat := h.stack
  simp only [StackAt, hpc] at hat
  obtain ⟨hne, acc, deq, henq, hfits⟩ := hat
  have hlock : s.stackLock = none := by rw [stackLock, hpc]
  simp only [WriteSys.stackStep, hpc] at hs
  obtain ⟨ring, hring, heq⟩ := Option.map_eq_some_iff.1 hs
  have hinv := h.ring.step hk hring
  have hbehind := h.behind.step hk h.ring hring
  have hreader := RingSys.sameReader_of_ownerAct hring (by simp [RingAct.isReader])
  have hgrows := RingSys.accepted_prefix_of_step hring
  have hdeqGrows := (RingSys.grows_of_step hring).2.length_le
  split at heq <;> subst heq
  · rename_i n hdone
    obtain ⟨hn, -⟩ := henq.accepted_of_fits hdone hfits
    have hnonzero : n ≠ 0 := by
      intro hzero
      have hlen := congrArg BitVec.toNat (hn.symm.trans hzero)
      rw [BitVec.toNat_ofNat, Nat.mod_eq_of_lt henq.length_lt] at hlen
      exact hne (List.length_eq_zero_iff.1 hlen)
    rw [RingSys.step, RingSys.return_eq (.inl ⟨_, hdone⟩)] at hring
    obtain rfl := Option.some.inj hring
    simp only [if_neg hnonzero]
    refine h.setStackPc ⟨hreader, hgrows, rfl, rfl⟩ ⟨rfl, rfl, rfl, rfl, rfl, ?_, rfl, rfl, ?_⟩ hinv
      hbehind hdeqGrows (.inl rfl) (fun _ _ => .refl _) (fun _ _ => rfl) (fun _ _ => .inl rfl) rfl
      rfl trivial (h.locks.congr (.inl rfl) (.inl hlock.symm) fun _ _ => rfl)
    · simp only [ringWaiting, inHand, hpc]
    · simp only [unfilled, filledChains, replenishing, hpc, hdone]
  · rename_i hnotdone
    have hnext := henq.ownerStep hk h.ring hnotdone hring
    have haccepted := henq.accepted_eq hnotdone
    refine h.setStackPc ⟨hreader, hgrows, rfl, rfl⟩
      ⟨rfl, rfl, rfl, rfl, hreader.confirmed, ?_, rfl, rfl, ?_⟩ hinv hbehind hdeqGrows (.inl rfl)
      (fun _ _ => .refl _) (fun _ _ => rfl) (fun _ _ => .inl rfl) rfl ?_ ?_
      (h.locks.congr (.inl rfl) (.inl hlock.symm) fun _ _ => rfl)
    · simp only [ringWaiting, inHand, hpc, hreader.confirmed, hnext.dequeued, henq.dequeued]
    · -- the last store of the function publishes the pbufs
      have hle := h.filled_le
      rw [haccepted] at hle
      rw [unfilled, unfilled, replenishing_of_not_done hpc hnotdone, haccepted]
      show ring.accepted.drop (ring.confirmed.length + s.filledChains.length) ++
        replenishing { s with ring, stack := .replenish mbufs } = _
      rw [hreader.confirmed]
      by_cases hdone : ∃ n, ring.owner = .enqDone n
      · obtain ⟨n, hdone⟩ := hdone
        rw [replenishing_of_done hdone, (hnext.accepted_of_fits hdone hfits).2,
          List.drop_append_of_le_length hle, List.append_nil]
      · have hdone' : ∀ n, ring.owner ≠ .enqDone n := fun n hn => hdone ⟨n, hn⟩
        rw [replenishing_of_not_done rfl hdone', hnext.accepted_eq hdone']
    · simp only [StackAt]
      exact ⟨hne, acc, deq, hnext, hfits⟩
    · simp only [StackIs]

/-- lwIP changes and releases pbufs of its own only. -/
theorem StreamInv.setForeign (h : StreamInv k start s v) {p : PbufPtr}
    (hplace : (s.heap p).place = .lwip) {f : SendPbuf → SendPbuf} {addr : PbufPtr → PbufAddr}
    (hheld : p ∈ s.held → (f (s.heap p)).allowIn = (s.heap p).allowIn ∧
      (f (s.heap p)).locked = (s.heap p).locked) :
    StreamInv k start { s with heap := s.heap.modify p f, addr } v := by
  -- a pbuf of lwIP is not one of the stream
  have hothers : ∀ q ∈ s.stockPbufs v, s.heap.modify p f q = s.heap q := by
    intro q hq
    refine SendHeap.modify_of_ne ?_
    rintro rfl
    exact h.stock.notMem (by rw [hplace]; rintro ⟨⟩) hq
  have hkept : ∀ q, q ∈ s.stockPbufs v ∨ q ∈ s.held →
      (s.heap.modify p f q).allowIn = (s.heap q).allowIn ∧
        (s.heap.modify p f q).locked = (s.heap q).locked := by
    -- the only pbuf that changes is one that the application may still look at
    intro q hq
    by_cases heq : q = p
    · rcases hq with hq | hq
      · rw [hothers q hq]
        exact ⟨rfl, rfl⟩
      · subst heq
        rw [SendHeap.modify_self]
        exact hheld hq
    · rw [SendHeap.modify_of_ne heq]
      exact ⟨rfl, rfl⟩
  have hat := h.stack
  have his := h.stackIs
  refine h.setStackPc ⟨.refl _, List.prefix_rfl, rfl, rfl⟩
    ⟨rfl, rfl, rfl, rfl, rfl, rfl, rfl, rfl, rfl⟩ h.ring h.behind le_rfl (.inl rfl)
    (fun q hq => ?_) (fun q hq => congrArg SendPbuf.last (hothers q hq))
    (fun q hq => .inl (hkept q hq).1) rfl ?_ ?_ ?_
  · show (s.heap q).SameBody (s.heap.modify p f q)
    rw [hothers q hq]
    exact .refl _
  · unfold StackAt at hat ⊢
    exact hat
  · -- while the stack holds the pbuf, what it knows of it is kept
    have hclosed : ∀ q, s.sendPreDel = some q → s.ClosedOrCovered q →
        ClosedOrCovered { s with heap := s.heap.modify p f, addr } q := by
      intro q hq hclosed
      have hmem : q ∈ s.stockPbufs v :=
        mem_stockPbufs (List.mem_append_left _ (by rw [taken, hq]; exact List.mem_cons_self))
      exact hclosed.imp_left fun hfalse => (hkept q (.inl hmem)).1.trans hfalse
    unfold StackAt at hat
    unfold StackIs at his ⊢
    cases hpc : s.stack with
    | unlock first q =>
      rw [hpc] at his hat
      exact ⟨his.1, hclosed q hat.2 his.2⟩
    | detach first q =>
      rw [hpc] at his hat
      exact ⟨his.1, hclosed q hat.2 his.2⟩
    | _ =>
      rw [hpc] at his
      exact his
  · -- neither is a lock changed
    refine h.locks.congr (.inl rfl) (.inl rfl) fun q hq => ?_
    rcases hq with hq | hq
    · exact (hkept q (.inr (mem_held_of_writerLock hq))).2
    · refine (hkept q (.inl (mem_stockPbufs (List.mem_append_left _ ?_)))).2
      rw [taken, sendPreDel_of_stackLock hat hq]
      exact List.mem_cons_self

/-! ## The steps of the stack thread -/

/-- The steps of the stack thread. -/
theorem StreamInv.stackStep (hk : k ≤ 31) (h : StreamInv k start s v)
    (hs : s.stackStep = some s') : ∃ v', StreamInv k start s' v' := by
  cases hpc : s.stack with
  | out =>
    simp only [WriteSys.stackStep, hpc] at hs
    cases hs
  | dequeue remainSize => exact h.dequeue hk hpc hs
  | replenish mbufs => exact ⟨v, h.replenishStep hk hpc hs⟩
  | readover p remainSize => exact ⟨v, h.readover hpc hs⟩
  | lock first p remainSize => exact ⟨v, h.lockTest (.inl hpc) hs⟩
  | test first p remainSize => exact ⟨v, h.lockTest (.inr hpc) hs⟩
  | unlockNull first p => exact ⟨v, h.unlocks (.inl hpc) hs⟩
  | unlock first p => exact ⟨v, h.unlocks (.inr hpc) hs⟩
  | detach first p => exact h.detach hpc hs

end WriteSys

end Gazelle
