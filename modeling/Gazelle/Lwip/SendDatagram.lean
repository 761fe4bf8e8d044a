import Gazelle.Lists.Messages
import Gazelle.Lwip.WriteSystem

/-!
# Datagrams sent by a UDP socket

`do_sendto` passes the destination to `write_stack_data`, which shares the send path of
`Gazelle.Lwip.WriteSystem` with the streams: a call whose data goes into pbufs of its own stores the
destination into them before it confirms them, but `app_direct_write` stores none, and merging and
attaching put the data behind the data of another call.

* `udp_send_keeps_destination`: the pbufs that the stack takes hold the data of single calls and
  carry their destinations, as long as every call writes into pbufs of its own;
* `udp_send_merges`: otherwise a pbuf holds the data of two calls.
-/

namespace Gazelle

open Messages

/-- The call that the application is in. -/
def WriterPc.call : WriterPc → Option WriteCall
  | .idle => none
  | .lastTail _ c | .lastSlot _ c _ | .lastLock _ c _ | .lastTest _ c _ | .lastRefuse _ c _
  | .merge c _ | .mergeOver c _ | .count c | .attach c _ _ | .attachOver c _ | .attachAddr c _
  | .buffRead c _ | .buffFill c _ | .buffOver c _ _ | .buffDone c _ | .directAlloc c _
  | .directRead c _ | .directFill c _ | .directOver c _ _ | .directDone c _ | .ret c => some c

namespace WriteSys

variable (s : WriteSys)

/-- What the call in progress has accepted so far. -/
def current : List (List Byte × Option PbufAddr) :=
  match s.writer.call with
  | some c => if c.sendLen = 0 then [] else [(c.data.take c.sendLen, c.addr)]
  | none => []

/-- The datagrams: what the calls have accepted, with their destinations. -/
def calls : List (List Byte × PbufAddr) :=
  (s.accepted ++ s.current).filterMap fun call => call.2.map (call.1, ·)

/-- The pbufs committed and the one just taken hold data of single calls, in the order of the calls,
and carry the destinations of the calls. -/
def KeepsDestination : Prop :=
  ∃ left, ReadsFrom s.calls (s.committed ++ s.returned.toList.map s.content) left

/-- The calls are those of `do_sendto` with a destination. -/
def SendsTo : WriteAct → Prop
  | .write _ addr => addr.isSome
  | _ => True

/-- The call writes into pbufs of its own and stores its destination into all of them:

* `merge_data_lastpbuf` finds a pbuf that is full or has a next one;
* `gazelle_ring_readlast` finds nothing to attach to;
* `app_direct_write` gets no pbufs. -/
def Orderly : WriteAct → Prop
  | .writer alloc =>
    match s.writer with
    | .merge _ p => (s.heap p).next.isSome ∨ mbufMaxDataLen ≤ (s.heap p).len.toNat
    | .attach _ _ _ => False
    | .directAlloc _ _ => alloc = none
    | _ => True
  | _ => True

/-! ## The pbufs of the send path -/

/-- What `gazelle_ring_sc_dequeue` is about to return. -/
def inHand : List PbufPtr :=
  match s.stack, s.ring.owner with
  | .dequeue _, .deqDone got => got
  | _, _ => []

/-- The pbufs that the stack takes next. -/
def waiting : List PbufPtr :=
  s.sendPreDel.toList ++ (s.inHand ++ s.ring.confirmed.drop s.ring.dequeued.length)

/-- The pbufs that are filled and not confirmed. -/
def filled : List PbufPtr :=
  match s.writer with
  | .buffOver _ pbufs _ => pbufs
  | _ => []

/-- The pbufs that `gazelle_ring_sp_enqueue` has not published. -/
def replenishing : List PbufPtr :=
  match s.stack, s.ring.owner with
  | .replenish _, .enqDone _ => []
  | .replenish mbufs, _ => mbufs
  | _, _ => []

/-- The pbufs that nobody has filled yet. -/
def blank : List PbufPtr :=
  s.ring.accepted.drop (s.ring.confirmed.length + s.filled.length) ++ s.replenishing

end WriteSys

/-- A pbuf that can take `MBUF_MAX_DATA_LEN` bytes. -/
structure SendPbuf.Blank (b : SendPbuf) : Prop where
  /-- Its length. -/
  len : b.len = BitVec.ofNat 16 mbufMaxDataLen
  /-- It is a chain of its own. -/
  totLen : b.totLen = BitVec.ofNat 16 mbufMaxDataLen
  /-- It has no next one. -/
  next : b.next = none

/-- A pbuf with the same data in the same place. -/
structure SendPbuf.SameData (b b' : SendPbuf) : Prop where
  /-- The memory. -/
  area : b'.area = b.area
  /-- The length. -/
  len : b'.len = b.len
  /-- The length of the chain. -/
  totLen : b'.totLen = b.totLen
  /-- The next one. -/
  next : b'.next = b.next
  /-- The owner. -/
  place : b'.place = b.place

namespace SendPbuf.SameData

variable {b b' b'' : SendPbuf}

theorem refl (b : SendPbuf) : b.SameData b := ⟨rfl, rfl, rfl, rfl, rfl⟩

theorem bytes (h : b.SameData b') : b'.bytes = b.bytes := by
  rw [SendPbuf.bytes, SendPbuf.bytes, h.len, h.area]

/-- A store that keeps the data keeps it in the whole heap. -/
theorem modify {heap : SendHeap} {p : PbufPtr} {f : SendPbuf → SendPbuf}
    (h : (heap p).SameData (f (heap p))) (q : PbufPtr) :
    (heap q).SameData (heap.modify p f q) := by
  by_cases hq : q = p
  · rw [hq, SendHeap.modify_self]
    exact h
  · rw [SendHeap.modify_of_ne hq]
    exact .refl _

end SendPbuf.SameData

/-- The pbufs of the send path: those that wait for the stack, those being confirmed and those that
are blank. -/
structure Stock (heap : SendHeap) (waiting filled blank : List PbufPtr) : Prop where
  /-- They are different. -/
  nodup : (waiting ++ (filled ++ blank)).Nodup
  /-- They belong to the send path. -/
  place : ∀ p ∈ waiting ++ (filled ++ blank), (heap p).place = .gazelle
  /-- Each that holds data is a chain of its own. -/
  next : ∀ p ∈ waiting ++ filled, (heap p).next = none
  /-- The others are blank. -/
  blank : ∀ p ∈ blank, (heap p).Blank

namespace Stock

variable {heap heap' : SendHeap} {waiting filled blank : List PbufPtr}

/-- Only the data of the pbufs matters. -/
theorem congr (h : Stock heap waiting filled blank)
    (hsame : ∀ p ∈ waiting ++ (filled ++ blank), (heap p).SameData (heap' p)) :
    Stock heap' waiting filled blank := by
  refine ⟨h.nodup, fun p hp => (hsame p hp).place.trans (h.place p hp), fun p hp => ?_,
    fun p hp => ?_⟩
  · have hmem : p ∈ waiting ++ (filled ++ blank) := by
      rw [← List.append_assoc]
      exact List.mem_append_left _ hp
    exact (hsame p hmem).next.trans (h.next p hp)
  · have hp' := h.blank p hp
    have hmem := hsame p (List.mem_append_right _ (List.mem_append_right _ hp))
    exact ⟨hmem.len.trans hp'.len, hmem.totLen.trans hp'.totLen, hmem.next.trans hp'.next⟩

/-- A pbuf of the stock is not in anyone else's hands. -/
theorem notMem (h : Stock heap waiting filled blank) {p : PbufPtr}
    (hp : (heap p).place ≠ .gazelle) : p ∉ waiting ++ (filled ++ blank) :=
  fun hmem => hp (h.place p hmem)

/-- The first blank pbufs are filled. -/
theorem fill {pbufs rest : List PbufPtr} (h : Stock heap waiting [] (pbufs ++ rest))
    (hlinks : ∀ p, (heap p).SameLinks (heap' p)) (hothers : ∀ p, p ∉ pbufs → heap' p = heap p) :
    Stock heap' waiting pbufs rest := by
  have hnodup := h.nodup
  rw [List.nil_append] at hnodup
  obtain ⟨-, htail, -⟩ := List.nodup_append.1 hnodup
  obtain ⟨-, -, hrest⟩ := List.nodup_append.1 htail
  have hmem : ∀ p, p ∈ waiting ++ (pbufs ++ rest) → p ∈ waiting ++ ([] ++ (pbufs ++ rest)) := by
    intro p hp
    rwa [List.nil_append]
  refine ⟨hnodup, fun p hp => ?_, fun p hp => ?_, fun p hp => ?_⟩
  · exact (hlinks p).place.trans (h.place p (hmem p hp))
  · rw [(hlinks p).next]
    rcases List.mem_append.1 hp with hp | hp
    · exact h.next p (List.mem_append_left _ hp)
    · exact (h.blank p (List.mem_append_left _ hp)).next
  · rw [hothers p fun hp' => hrest p hp' p hp rfl]
    exact h.blank p (List.mem_append_right _ hp)

/-- The pbufs filled are confirmed. -/
theorem confirm (h : Stock heap waiting filled blank) :
    Stock heap (waiting ++ filled) [] blank := by
  refine ⟨?_, fun p hp => h.place p ?_, fun p hp => h.next p ?_, h.blank⟩
  · rw [List.nil_append, List.append_assoc]
    exact h.nodup
  · rwa [List.nil_append, List.append_assoc] at hp
  · rwa [List.append_nil] at hp

/-- The first pbuf waiting is committed. -/
theorem commit {p : PbufPtr} (h : Stock heap (p :: waiting) filled blank)
    (hothers : ∀ q, q ≠ p → heap' q = heap q) : Stock heap' waiting filled blank := by
  obtain ⟨hp, hnodup⟩ := List.nodup_cons.1 h.nodup
  have hsame : ∀ q ∈ waiting ++ (filled ++ blank), heap' q = heap q := fun q hq =>
    hothers q fun heq => hp (heq ▸ hq)
  have hrest : Stock heap waiting filled blank :=
    ⟨hnodup, fun q hq => h.place q (List.mem_cons_of_mem p hq),
      fun q hq => h.next q (List.mem_cons_of_mem p hq), h.blank⟩
  exact hrest.congr fun q hq => hsame q hq ▸ SendPbuf.SameData.refl _

/-- Pbufs from the pool come in. -/
theorem replenish {mbufs : List PbufPtr} (h : Stock heap waiting filled blank)
    (hnodup : mbufs.Nodup) (hpool : ∀ p ∈ mbufs, (heap p).place ≠ .gazelle)
    (hothers : ∀ p, p ∉ mbufs → heap' p = heap p)
    (hblank : ∀ p ∈ mbufs, (heap' p).Blank ∧ (heap' p).place = .gazelle) :
    Stock heap' waiting filled (blank ++ mbufs) := by
  have hdisjoint : ∀ p ∈ waiting ++ (filled ++ blank), p ∉ mbufs := fun p hp hmem =>
    h.notMem (hpool p hmem) hp
  have hsame : Stock heap' waiting filled blank := h.congr fun p hp =>
    hothers p (hdisjoint p hp) ▸ SendPbuf.SameData.refl _
  have hassoc :
      waiting ++ (filled ++ (blank ++ mbufs)) = (waiting ++ (filled ++ blank)) ++ mbufs := by
    simp only [List.append_assoc]
  refine ⟨?_, fun p hp => ?_, hsame.next, fun p hp => ?_⟩
  · rw [hassoc]
    exact List.nodup_append.2
      ⟨h.nodup, hnodup, fun p hp q hq heq => hdisjoint p hp (heq ▸ hq)⟩
  · rw [hassoc] at hp
    rcases List.mem_append.1 hp with hp | hp
    · exact hsame.place p hp
    · exact (hblank p hp).2
  · rcases List.mem_append.1 hp with hp | hp
    · exact hsame.blank p hp
    · exact (hblank p hp).1

end Stock

/-! ## The invariant -/

/-- The call has put nothing into pbufs yet. -/
structure WriteCall.Unsent (c : WriteCall) : Prop where
  /-- Nothing is in pbufs. -/
  sendLen : c.sendLen = 0
  /-- There is data. -/
  data : c.data ≠ []
  /-- The number of pbufs is a `uint32_t`. -/
  writeNum : WriteSys.writeNum c < 2 ^ 32
  /-- There is a destination. -/
  addr : c.addr.isSome

/-- The data of the call needs `n` pbufs. -/
structure WriteCall.Needs (c : WriteCall) (n : ℕ) : Prop extends c.Unsent where
  /-- The last one is needed. -/
  lt : (n - 1) * mbufMaxDataLen < c.data.length
  /-- They are enough. -/
  le : c.data.length ≤ n * mbufMaxDataLen

/-- `write_num` pbufs hold the data, and no fewer. -/
theorem WriteCall.Unsent.needs {c : WriteCall} (hc : c.Unsent) : c.Needs (WriteSys.writeNum c) := by
  refine ⟨hc, ?_, ?_⟩
  all_goals
    have hpos := List.length_pos_iff.2 hc.data
    unfold WriteSys.writeNum mbufMaxDataLen
    rw [hc.sendLen]
    omega

/-- With fewer pbufs the data is cut to what fills them up. -/
theorem WriteCall.Unsent.cut {c : WriteCall} (hc : c.Unsent) {avail : ℕ} (hpos : 0 < avail)
    (hlt : avail < WriteSys.writeNum c) :
    WriteCall.Needs { c with data := c.data.take (avail * mbufMaxDataLen) } avail := by
  have hneeds := hc.needs.lt
  have hnum := hc.writeNum
  have hlen : (c.data.take (avail * mbufMaxDataLen)).length = avail * mbufMaxDataLen := by
    rw [List.length_take, Nat.min_eq_left]
    unfold mbufMaxDataLen at hneeds ⊢
    omega
  refine ⟨⟨hc.sendLen, ?_, ?_, hc.addr⟩, ?_, ?_⟩
  · rw [← List.length_pos_iff, hlen]
    exact Nat.mul_pos hpos (by decide)
  · unfold WriteSys.writeNum
    simp only [hlen, hc.sendLen]
    unfold mbufMaxDataLen
    omega
  · simp only [hlen]
    unfold mbufMaxDataLen
    omega
  · exact le_of_eq hlen

namespace WriteSys

/-- The application is in no function of the ring, and has confirmed all it has read. -/
def ReaderRests (ring : RingSys PbufPtr) : Prop := ∃ out, RingSys.ReaderResting out out ring

/-- What holds where the application stands. -/
def WriterAt (start : U32) (s : WriteSys) : Prop :=
  match s.writer with
  | .idle => ReaderRests s.ring
  | .lastTail _ c | .lastSlot _ c _ | .lastLock _ c _ | .lastTest _ c _ | .lastRefuse _ c _
  | .merge c _ | .mergeOver c _ | .count c | .attach c _ _ | .directAlloc c _ =>
    ReaderRests s.ring ∧ c.Unsent
  | .ret c => ReaderRests s.ring ∧ c.addr.isSome
  | .buffRead c num => (∃ out, RingSys.FullReading start num out out s.ring) ∧ c.Needs num.toNat
  | .buffFill c pbufs =>
    (∃ out, RingSys.ReaderResting (out ++ pbufs) out s.ring) ∧ c.Needs pbufs.length
  | .buffOver c pbufs written =>
    (∃ out, RingSys.Confirming (out ++ pbufs) out s.ring ∧ s.ring.reader ≠ .overDone) ∧
      written = c.data.length ∧ c.Unsent ∧
      ∃ dest, c.addr = some dest ∧ ReadsFrom [(c.data, dest)] (pbufs.map s.content) []
  | .buffDone c _ =>
    (∃ out, RingSys.Confirming out out s.ring ∧ s.ring.reader = .overDone) ∧ c.addr.isSome
  | _ => False

/-- What holds where the stack stands. -/
def StackAt (k : ℕ) (s : WriteSys) : Prop :=
  match s.stack with
  | .out => s.ring.owner = .idle
  | .dequeue _ => s.sendPreDel = none ∧ ∃ acc deq, RingSys.Dequeuing 1 acc deq s.ring
  | .replenish mbufs =>
    mbufs ≠ [] ∧ ∃ acc deq, RingSys.Enqueuing k mbufs acc deq s.ring ∧
      acc.length + mbufs.length ≤ deq.length + (2 ^ k - 1)
  | .readover p _ | .lock _ p _ | .test _ p _ | .unlockNull _ p | .unlock _ p | .detach _ p =>
    s.ring.owner = .idle ∧ s.sendPreDel = some p

/-- The invariant of a UDP socket whose calls write into pbufs of their own. -/
structure DatagramInv (k : ℕ) (start : U32) (s : WriteSys) : Prop where
  /-- The ring is right. -/
  ring : RingSys.RingInv k start s.ring
  /-- No chain is left over. -/
  sendLastdata : s.sendLastdata = none
  /-- What was taken is in `send_pre_del`. -/
  returned : ∀ p ∈ s.returned, s.sendPreDel = some p
  /-- The application is right. -/
  writer : s.WriterAt start
  /-- The stack is right. -/
  stack : s.StackAt k
  /-- The pbufs are right. -/
  stock : Stock s.heap s.waiting s.filled s.blank
  /-- What is committed or waits for the stack is the data of the calls. -/
  reads : ReadsFrom s.calls (s.committed ++ s.waiting.map s.content) []

variable {cfg : SendCfg} {k : ℕ} {start : U32} {s s' : WriteSys}

/-- An unsent call has accepted nothing. -/
theorem current_of_unsent {c : WriteCall} (hcall : s.writer.call = some c) (hc : c.Unsent) :
    s.current = [] := by
  simp only [current, hcall, if_pos hc.sendLen]

/-- The datagrams depend on what is accepted only. -/
theorem calls_congr (hacc : s'.accepted = s.accepted) (hcurrent : s'.current = s.current) :
    s'.calls = s.calls := by
  rw [calls, calls, hacc, hcurrent]

/-- A call that has sent its data adds its datagram. -/
theorem calls_of_sent {c : WriteCall} {dest : PbufAddr} (hacc : s'.accepted = s.accepted)
    (hcurrent : s.current = []) (hcall : s'.writer.call = some c) (hsent : c.sendLen ≠ 0)
    (hdest : c.addr = some dest) : s'.calls = s.calls ++ [(c.data.take c.sendLen, dest)] := by
  have hcurrent' : s'.current = [(c.data.take c.sendLen, some dest)] := by
    simp only [current, hcall, if_neg hsent, hdest]
  rw [calls, calls, hacc, hcurrent, hcurrent', List.append_nil, List.filterMap_append]
  rfl

/-- The contents of pbufs with the same data are the same. -/
theorem content_congr {p : PbufPtr} (hheap : (s.heap p).SameData (s'.heap p))
    (haddr : s'.addr p = s.addr p) : s'.content p = s.content p := by
  rw [content, content, hheap.bytes, haddr]

/-! ### The application leaves the stack alone -/

/-- Nothing that the stack uses has changed. -/
structure SameStack (s s' : WriteSys) : Prop where
  /-- The owner's side of the ring. -/
  owner : RingSys.SameOwner s.ring s'.ring
  /-- `send_pre_del`. -/
  sendPreDel : s'.sendPreDel = s.sendPreDel
  /-- `send_lastdata`. -/
  sendLastdata : s'.sendLastdata = s.sendLastdata
  /-- What was returned. -/
  returned : s'.returned = s.returned
  /-- Where it stands. -/
  stack : s'.stack = s.stack
  /-- What is committed. -/
  committed : s'.committed = s.committed

theorem SameStack.inHand (h : SameStack s s') : s'.inHand = s.inHand := by
  unfold WriteSys.inHand
  rw [h.stack, h.owner.owner]

theorem SameStack.waiting (h : SameStack s s') (hconf : s'.ring.confirmed = s.ring.confirmed) :
    s'.waiting = s.waiting := by
  unfold WriteSys.waiting
  rw [h.inHand, h.sendPreDel, hconf, h.owner.dequeued]

theorem SameStack.replenishing (h : SameStack s s') : s'.replenishing = s.replenishing := by
  unfold WriteSys.replenishing
  rw [h.stack, h.owner.owner]

theorem SameStack.stackAt (h : SameStack s s') (hs : s.StackAt k) : s'.StackAt k := by
  unfold StackAt at hs ⊢
  rw [h.stack]
  cases hpc : s.stack with
  | out =>
    rw [hpc] at hs
    exact h.owner.owner.trans hs
  | dequeue remainSize =>
    rw [hpc] at hs
    obtain ⟨hnone, acc, deq, hdeq⟩ := hs
    exact ⟨h.sendPreDel.trans hnone, acc, deq, hdeq.congr h.owner⟩
  | replenish mbufs =>
    rw [hpc] at hs
    obtain ⟨hne, acc, deq, henq, hfits⟩ := hs
    exact ⟨hne, acc, deq, henq.congr h.owner, hfits⟩
  | _ =>
    rw [hpc] at hs
    exact ⟨h.owner.owner.trans hs.1, h.sendPreDel.trans hs.2⟩

/-- What waits for the stack is still the data of the calls. -/
theorem DatagramInv.reads_of_same (h : DatagramInv k start s) (hsame : SameStack s s')
    (hconf : s'.ring.confirmed = s.ring.confirmed) (hcalls : s'.calls = s.calls)
    (hcontent : ∀ p ∈ s.waiting, s'.content p = s.content p) :
    ReadsFrom s'.calls (s'.committed ++ s'.waiting.map s'.content) [] := by
  rw [hcalls, hsame.committed, hsame.waiting hconf, List.map_congr_left hcontent]
  exact h.reads

/-- A step of the application that keeps the data of the pbufs. -/
theorem DatagramInv.setWriter (h : DatagramInv k start s) (hsame : SameStack s s')
    (hconf : s'.ring.confirmed = s.ring.confirmed) (hring : RingSys.RingInv k start s'.ring)
    (hfilled : s'.filled = s.filled)
    (hheap : ∀ p, (s.heap p).SameData (s'.heap p)) (haddr : s'.addr = s.addr)
    (hcalls : s'.calls = s.calls) (hwriter : s'.WriterAt start) : DatagramInv k start s' := by
  have hblank : s'.blank = s.blank := by
    rw [blank, blank, hsame.replenishing, hsame.owner.accepted, hconf, hfilled]
  refine ⟨hring, hsame.sendLastdata.trans h.sendLastdata, fun p hp => ?_, hwriter,
    hsame.stackAt h.stack, ?_,
    h.reads_of_same hsame hconf hcalls fun p _ => content_congr (hheap p) (congrFun haddr p)⟩
  · rw [hsame.returned] at hp
    exact hsame.sendPreDel.trans (h.returned p hp)
  · rw [hsame.waiting hconf, hfilled, hblank]
    exact h.stock.congr fun p _ => hheap p

/-- A step of a call that has sent nothing, outside the ring. -/
theorem DatagramInv.setUnsent (h : DatagramInv k start s) {c : WriteCall} {heap : SendHeap}
    {w : WriterPc} {remainLen : BitVec 32} (hcall : s.writer.call = some c) (hc : c.Unsent)
    (hfilled : s.filled = []) (hheap : ∀ p, (s.heap p).SameData (heap p))
    (hcall' : w.call = some c) (hfilled' : filled { s with writer := w } = [])
    (hwriter : WriterAt start { s with writer := w }) :
    DatagramInv k start { s with heap, writer := w, remainLen } := by
  refine h.setWriter ⟨⟨rfl, rfl, rfl⟩, rfl, rfl, rfl, rfl, rfl⟩ rfl h.ring
    (hfilled'.trans hfilled.symm) hheap rfl (calls_congr rfl ?_) ?_
  · rw [current_of_unsent hcall hc]
    exact current_of_unsent hcall' hc
  · -- a filled pbuf would be needed to see the heap
    unfold WriterAt at hwriter ⊢
    cases w with
    | buffOver c pbufs written =>
      obtain rfl : pbufs = [] := hfilled'
      exact hwriter
    | _ => exact hwriter

/-! ### The steps of the application -/

/-- `gazelle_ring_readlast` fails. -/
theorem DatagramInv.lastFails (h : DatagramInv k start s) {use : LastUse} {c : WriteCall}
    {heap : SendHeap} (hcall : s.writer.call = some c) (hc : c.Unsent) (hfilled : s.filled = [])
    (hrests : ReaderRests s.ring) (hheap : ∀ p, (s.heap p).SameData (heap p)) :
    DatagramInv k start ({ s with heap }.lastFails use c) := by
  cases use with
  | merge => exact h.setUnsent hcall hc hfilled hheap rfl rfl ⟨hrests, hc⟩
  | attach num => exact h.setUnsent hcall hc hfilled hheap rfl rfl ⟨hrests, hc.addr⟩

theorem sameData_lock (heap : SendHeap) (p q : PbufPtr) :
    (heap q).SameData (heap.modify p .lock q) :=
  SendPbuf.SameData.modify ⟨rfl, rfl, rfl, rfl, rfl⟩ q

theorem sameData_unlock (heap : SendHeap) (p q : PbufPtr) :
    (heap q).SameData (heap.modify p .unlock q) :=
  SendPbuf.SameData.modify ⟨rfl, rfl, rfl, rfl, rfl⟩ q

/-- The calls of `gazelle_ring_read` in `write_stack_data`. -/
theorem DatagramInv.buffCall (hk : k ≤ 31) (h : DatagramInv k start s) {c cut : WriteCall}
    {num : U32} {ring : RingSys PbufPtr} (hcall : s.writer.call = some c) (hc : c.Unsent)
    (hfilled : s.filled = []) (hrests : ReaderRests s.ring) (hneeds : cut.Needs num.toNat)
    (hcount : num ≤ s.ring.ring.gazelleRingReadableCount)
    (hring : s.ring.step (.read num) = some ring) :
    DatagramInv k start { s with ring, writer := .buffRead cut num } := by
  obtain ⟨out, hrest⟩ := hrests
  have hread := RingSys.fullReading_of_call hk h.ring hcount hring
  have hconfirmed := hread.confirmed
  rw [hrest.readOut, hrest.confirmed] at hread
  refine h.setWriter ⟨RingSys.sameOwner_of_readerAct rfl hring, rfl, rfl, rfl, rfl, rfl⟩ hconfirmed
    (h.ring.step hk hring) hfilled.symm (fun _ => .refl _) rfl (calls_congr rfl ?_)
    ⟨⟨out, hread⟩, hneeds⟩
  rw [current_of_unsent hcall hc]
  exact current_of_unsent rfl hneeds.toUnsent

/-- `write_stack_data` chooses how to write the data. -/
theorem DatagramInv.countStep (hk : k ≤ 31) (h : DatagramInv k start s) {c : WriteCall}
    (hpc : s.writer = .count c) (hs : s.countStep cfg c = some s') : DatagramInv k start s' := by
  have hat := h.writer
  simp only [WriterAt, hpc] at hat
  obtain ⟨hrests, hc⟩ := hat
  have hcall : s.writer.call = some c := by rw [hpc]; rfl
  have hfilled : s.filled = [] := by simp only [filled, hpc]
  have hnum : (BitVec.ofNat 32 (writeNum c)).toNat = writeNum c := by
    rw [BitVec.toNat_ofNat, Nat.mod_eq_of_lt hc.writeNum]
  simp only [WriteSys.countStep] at hs
  split at hs
  · obtain rfl := Option.some.inj hs
    split
    · exact h.setUnsent hcall hc hfilled (fun _ => .refl _) rfl rfl ⟨hrests, hc⟩
    · exact h.setUnsent hcall hc hfilled (fun _ => .refl _) rfl rfl ⟨hrests, hc.addr⟩
  rename_i havail
  split at hs
  · obtain rfl := Option.some.inj hs
    exact h.setUnsent hcall hc hfilled (fun _ => .refl _) rfl rfl ⟨hrests, hc⟩
  obtain ⟨ring, hring, rfl⟩ := Option.map_eq_some_iff.1 hs
  by_cases hcut : s.ring.ring.gazelleRingReadableCount < BitVec.ofNat 32 (writeNum c)
  · simp only [if_pos hcut] at hring ⊢
    have hcutNat := hcut
    rw [BitVec.lt_def, hnum] at hcutNat
    have havailPos : 0 < s.ring.ring.gazelleRingReadableCount.toNat := by
      rw [Nat.pos_iff_ne_zero]
      exact fun hzero => havail (BitVec.eq_of_toNat_eq hzero)
    exact h.buffCall hk hcall hc hfilled hrests (hc.cut havailPos hcutNat)
      (BitVec.le_refl _) hring
  · simp only [if_neg hcut] at hring ⊢
    exact h.buffCall hk hcall hc hfilled hrests (hnum.symm ▸ hc.needs)
      (BitVec.not_lt.1 hcut) hring

/-- The steps in `gazelle_ring_read`. -/
theorem DatagramInv.buffRead (hk : k ≤ 31) (h : DatagramInv k start s) {c : WriteCall} {num : U32}
    {alloc : Option (List PbufPtr)} (hpc : s.writer = .buffRead c num)
    (hs : s.writerStep cfg alloc = some s') : DatagramInv k start s' := by
  have hat := h.writer
  simp only [WriterAt, hpc] at hat
  obtain ⟨⟨out, hread⟩, hneeds⟩ := hat
  have hcurrent : s.current = [] := current_of_unsent (by rw [hpc]; rfl) hneeds.toUnsent
  have hfilled : s.filled = [] := by simp only [filled, hpc]
  simp only [writerStep, hpc] at hs
  obtain ⟨ring, hring, heq⟩ := Option.map_eq_some_iff.1 hs
  have hinv := h.ring.step hk hring
  have howner := RingSys.sameOwner_of_readerAct rfl hring
  split at heq <;> subst heq
  · rename_i pbufs hdone
    obtain ⟨hreturned, hlen⟩ := hread.returned hdone
    have hconfirmed := hread.confirmed
    rw [RingSys.step, RingSys.readerReturn_eq (.inl ⟨_, hdone⟩)] at hring
    obtain rfl := Option.some.inj hring
    refine h.setWriter ⟨howner, rfl, rfl, rfl, rfl, rfl⟩ rfl hinv hfilled.symm
      (fun _ => .refl _) rfl (calls_congr rfl ?_) ⟨⟨out, rfl, hreturned, hconfirmed⟩, ?_⟩
    · rw [hcurrent]
      exact current_of_unsent rfl hneeds.toUnsent
    · rw [hlen]
      exact hneeds
  · rename_i hnotdone
    have hnext := hread.readerStep hk h.ring (fun pbufs hdone => hnotdone pbufs hdone) hring
    refine h.setWriter ⟨howner, rfl, rfl, rfl, rfl, rfl⟩
      (hnext.confirmed.trans hread.confirmed.symm) hinv hfilled.symm (fun _ => .refl _) rfl
        (calls_congr rfl ?_) ⟨⟨out, hnext⟩, hneeds⟩
    rw [hcurrent]
    exact current_of_unsent rfl hneeds.toUnsent

/-- Pbufs that hold the data of a call and carry its destination are its datagram in pieces. -/
theorem reads_pieces {heap : SendHeap} {addr : PbufPtr → PbufAddr} {dest : PbufAddr}
    {pbufs : List PbufPtr} (hne : ∀ p ∈ pbufs, (heap p).bytes ≠ [])
    (haddr : ∀ p ∈ pbufs, addr p = dest) :
    ReadsFrom [(heap.bytes pbufs, dest)]
      (pbufs.map fun p => ((heap p).bytes, some (addr p))) [] := by
  have hpieces : ReadsFrom
      [((pbufs.map fun p => ((heap p).bytes, some (addr p))).flatMap Prod.fst, dest)]
      (pbufs.map fun p => ((heap p).bytes, some (addr p))) [] := by
    refine ReadsFrom.pieces fun g hg => ?_
    obtain ⟨p, hp, rfl⟩ := List.mem_map.1 hg
    refine ⟨hne p hp, fun x hx => ?_⟩
    rw [Option.mem_some_iff] at hx
    rw [← hx, haddr p hp]
  rwa [List.flatMap_map] at hpieces

/-- What `do_app_write` does with blank pbufs, as many as the data needs. -/
theorem doAppWrite_blank (hops : cfg.ops.Lawful) {heap : SendHeap} {c : WriteCall}
    {pbufs : List PbufPtr} (hnodup : pbufs.Nodup) (hblank : ∀ p ∈ pbufs, (heap p).Blank)
    (hneeds : c.Needs pbufs.length) :
    (doAppWrite cfg heap pbufs c.data).1.bytes pbufs = c.data ∧
      (doAppWrite cfg heap pbufs c.data).2 = c.data.length ∧
      ∀ p ∈ pbufs, ((doAppWrite cfg heap pbufs c.data).1 p).bytes ≠ [] := by
  have hpos : 0 < pbufs.length := by
    rw [Nat.pos_iff_ne_zero]
    intro hzero
    have hlen := hneeds.le
    rw [hzero, Nat.zero_mul] at hlen
    exact hneeds.data (List.length_eq_zero_iff.1 (Nat.le_zero.1 hlen))
  have hfits : Fits pbufs.length c.data := ⟨hpos, hneeds.lt.le, hneeds.le⟩
  have hlen := fun p hp => (hblank p hp).len
  have htot := fun p hp => (hblank p hp).totLen
  have hspec := doAppWrite_spec hops hnodup hlen htot hfits
  exact ⟨hspec.1, hspec.2, doAppWrite_ne_nil hops hnodup hlen htot hfits hneeds.lt⟩

/-- The pbufs read are the first of the blank ones. -/
theorem DatagramInv.blank_eq (h : DatagramInv k start s) {out pbufs : List PbufPtr}
    (hfilled : s.filled = []) (hrest : RingSys.ReaderResting (out ++ pbufs) out s.ring) :
    s.blank = pbufs ++ (s.ring.accepted.drop (out.length + pbufs.length) ++ s.replenishing) := by
  obtain ⟨rest, haccepted⟩ := h.ring.readOut_prefix
  rw [hrest.readOut] at haccepted
  have hdrop : s.ring.accepted.drop (out.length + pbufs.length) = rest := by
    rw [← haccepted, ← List.length_append, List.drop_left]
  rw [hdrop, blank, hfilled, hrest.confirmed, ← haccepted, List.append_assoc, List.length_nil,
    Nat.add_zero, List.drop_left, List.append_assoc]

/-- `app_buff_write` writes the data and the destination. -/
theorem DatagramInv.buffStep (hops : cfg.ops.Lawful) (hk : k ≤ 31) (h : DatagramInv k start s)
    {c : WriteCall} {pbufs : List PbufPtr} (hpc : s.writer = .buffFill c pbufs)
    (hs : s.buffStep cfg c pbufs = some s') : DatagramInv k start s' := by
  have hat := h.writer
  simp only [WriterAt, hpc] at hat
  obtain ⟨⟨out, hrest⟩, hneeds⟩ := hat
  have hfilled : s.filled = [] := by simp only [filled, hpc]
  obtain ⟨dest, hdest⟩ := Option.isSome_iff_exists.1 hneeds.addr
  simp only [WriteSys.buffStep, hneeds.sendLen, List.drop_zero, hdest] at hs
  obtain ⟨ring, hring, rfl⟩ := Option.map_eq_some_iff.1 hs
  have howner := RingSys.sameOwner_of_readerAct rfl hring
  have hconfirming := RingSys.confirming_of_call hring
  rw [hrest.readOut, hrest.confirmed] at hconfirming
  have hnotdone : ring.reader ≠ .overDone := by
    simp only [RingSys.step, hrest.reader, Option.some.injEq] at hring
    rw [← hring]
    rintro ⟨⟩
  have hconfirmed : ring.confirmed = s.ring.confirmed :=
    (hconfirming.confirmed_of_not_done hnotdone).trans hrest.confirmed.symm
  have hstock := h.stock
  rw [hfilled, h.blank_eq hfilled hrest] at hstock
  have hnodup := hstock.nodup
  rw [List.nil_append] at hnodup
  obtain ⟨-, htail, hdisjoint⟩ := List.nodup_append.1 hnodup
  have hfill : Stock (doAppWrite cfg s.heap pbufs c.data).1 _ _ _ :=
    hstock.fill (fun p => doAppWrite_sameLinks c.data p) fun p hp => doAppWrite_of_notMem hp
  obtain ⟨hbytes, hwritten, hne⟩ := doAppWrite_blank hops (List.nodup_append.1 htail).1
    (fun p hp => hstock.blank p (List.mem_append_left _ hp)) hneeds
  have hreads : ReadsFrom [((doAppWrite cfg s.heap pbufs c.data).1.bytes pbufs, dest)]
      (pbufs.map fun p => (((doAppWrite cfg s.heap pbufs c.data).1 p).bytes,
        some (storeAddrs s.addr (some dest) pbufs p))) [] :=
    reads_pieces hne fun p hp => if_pos hp
  rw [hbytes] at hreads
  -- what waits for the stack is not touched
  have hwaiting : ∀ p ∈ s.waiting, p ∉ pbufs := fun p hp hp' =>
    hdisjoint p hp p (List.mem_append_left _ hp') rfl
  have hsame : SameStack s { s with
      heap := (doAppWrite cfg s.heap pbufs c.data).1
      addr := storeAddrs s.addr (some dest) pbufs
      ring
      writer := .buffOver c pbufs (doAppWrite cfg s.heap pbufs c.data).2 } :=
    ⟨howner, rfl, rfl, rfl, rfl, rfl⟩
  refine ⟨h.ring.step hk hring, h.sendLastdata, h.returned, ⟨⟨out, hconfirming, hnotdone⟩,
    hwritten, hneeds.toUnsent, dest, hdest, hreads⟩, hsame.stackAt h.stack, ?_, ?_⟩
  · rw [hsame.waiting hconfirmed]
    show Stock _ s.waiting pbufs (ring.accepted.drop (ring.confirmed.length + pbufs.length) ++ _)
    rw [hsame.replenishing, howner.accepted, hconfirmed, hrest.confirmed]
    exact hfill
  · have hcurrent : s.current = [] := current_of_unsent (by rw [hpc]; rfl) hneeds.toUnsent
    refine h.reads_of_same hsame hconfirmed (calls_congr rfl ?_) fun p hp => content_congr ?_ ?_
    · rw [hcurrent]
      exact current_of_unsent rfl hneeds.toUnsent
    · show (s.heap p).SameData ((doAppWrite cfg s.heap pbufs c.data).1 p)
      rw [doAppWrite_of_notMem (hwaiting p hp)]
      exact .refl _
    · exact if_neg (hwaiting p hp)

/-- The steps in the `gazelle_ring_read_over` of `app_buff_write`. -/
theorem DatagramInv.buffOver (hk : k ≤ 31) (h : DatagramInv k start s) {c : WriteCall}
    {pbufs : List PbufPtr} {written : ℕ} {alloc : Option (List PbufPtr)}
    (hpc : s.writer = .buffOver c pbufs written) (hs : s.writerStep cfg alloc = some s') :
    DatagramInv k start s' := by
  have hat := h.writer
  simp only [WriterAt, hpc] at hat
  obtain ⟨⟨out, hover, hnotdone⟩, rfl, hc, dest, hdest, hpieces⟩ := hat
  have hfilled : s.filled = pbufs := by simp only [filled, hpc]
  have hcurrent : s.current = [] := current_of_unsent (by rw [hpc]; rfl) hc
  simp only [writerStep, hpc] at hs
  obtain ⟨ring, hring, heq⟩ := Option.map_eq_some_iff.1 hs
  have hinv := h.ring.step hk hring
  have howner := RingSys.sameOwner_of_readerAct rfl hring
  have hnext := hover.readerStep hnotdone hring
  split at heq
  · -- the store of `prod.tail`: the pbufs wait for the stack from now on
    rename_i head hstore
    have hconfirmed := hover.confirmed_of_not_done hnotdone
    simp only [RingSys.step, RingSys.readerStep, hstore, Option.some.injEq] at hring
    subst hring
    have hdequeued := h.ring.dequeued_le
    have hsame : SameStack s s' := heq ▸ ⟨howner, rfl, rfl, rfl, rfl, rfl⟩
    have hwaiting : s'.waiting = s.waiting ++ pbufs := by
      rw [waiting, hsame.sendPreDel, hsame.inHand, hsame.owner.dequeued]
      have hconfirmed' : s'.ring.confirmed = s.ring.confirmed ++ pbufs := by
        rw [← heq, hconfirmed]
        exact hover.readOut
      rw [hconfirmed', List.drop_append_of_le_length hdequeued, waiting, List.append_assoc,
        List.append_assoc]
    have hcalls : s'.calls = s.calls ++ [(c.data, dest)] := by
      have hne : c.sendLen + c.data.length ≠ 0 := by
        have hpos := List.length_pos_iff.2 hc.data
        omega
      have hacc : s'.accepted = s.accepted := by rw [← heq]
      have hcall : s'.writer.call = some { c with sendLen := c.sendLen + c.data.length } := by
        rw [← heq]
        rfl
      have hsent := calls_of_sent hacc hcurrent hcall hne hdest
      simpa only [hc.sendLen, Nat.zero_add, List.take_length] using hsent
    have hreads := (h.reads.append [(c.data, dest)]).trans hpieces
    rw [← hcalls, List.append_assoc, ← List.map_append, ← hwaiting] at hreads
    have hstock := h.stock.confirm
    rw [blank, hfilled, ← hwaiting] at hstock
    subst heq
    refine ⟨hinv, h.sendLastdata, h.returned, ⟨⟨_, ⟨hover.readOut, hover.readOut⟩, rfl⟩, hc.addr⟩,
      hsame.stackAt h.stack, ?_, hreads⟩
    have hlen : s.ring.readOut.length + 0 = s.ring.confirmed.length + pbufs.length := by
      rw [Nat.add_zero, hover.readOut, List.length_append, hconfirmed]
    show Stock s.heap _ [] (s.ring.accepted.drop (s.ring.readOut.length + 0) ++ s.replenishing)
    rw [hlen]
    exact hstock
  subst heq
  · rename_i hnotstore
    have hload := hover.loads hnotstore hnotdone
    have hconfirmed := hnext.confirmed_of_not_done (by
      simp only [RingSys.step, RingSys.readerStep, hload, Option.some.injEq] at hring
      rw [← hring]
      rintro ⟨⟩)
    refine h.setWriter ⟨howner, rfl, rfl, rfl, rfl, rfl⟩
      (hconfirmed.trans (hover.confirmed_of_not_done hnotdone).symm) hinv hfilled.symm
      (fun _ => .refl _) rfl (calls_congr rfl (hcurrent.symm ▸ current_of_unsent rfl hc))
      ⟨⟨out, hnext, ?_⟩, rfl, hc, dest, hdest, hpieces⟩
    simp only [RingSys.step, RingSys.readerStep, hload, Option.some.injEq] at hring
    rw [← hring]
    rintro ⟨⟩

/-- The end of `app_buff_write`. -/
theorem DatagramInv.buffDone (hk : k ≤ 31) (h : DatagramInv k start s) {c : WriteCall}
    {pbufs : List PbufPtr} {alloc : Option (List PbufPtr)} (hpc : s.writer = .buffDone c pbufs)
    (hs : s.writerStep cfg alloc = some s') : DatagramInv k start s' := by
  have hat := h.writer
  simp only [WriterAt, hpc] at hat
  obtain ⟨⟨out, hover, hdone⟩, haddr⟩ := hat
  have hconfirmed := hover.confirmed_eq hdone
  simp only [writerStep, hpc] at hs
  obtain ⟨ring, hring, rfl⟩ := Option.map_eq_some_iff.1 hs
  have hinv := h.ring.step hk hring
  rw [RingSys.step, RingSys.readerReturn_eq (.inr hdone)] at hring
  obtain rfl := Option.some.inj hring
  refine h.setWriter ⟨⟨rfl, rfl, rfl⟩, rfl, rfl, rfl, rfl, rfl⟩ rfl hinv ?_ (fun _ => .refl _) rfl
    (calls_congr rfl ?_) ⟨⟨out, rfl, hover.readOut, hconfirmed⟩, haddr⟩
  · simp only [filled, hpc]
  · simp only [current, hpc, WriterPc.call]

/-- The return of a call. -/
theorem DatagramInv.ret (h : DatagramInv k start s) {c : WriteCall}
    {alloc : Option (List PbufPtr)} (hpc : s.writer = .ret c)
    (hs : s.writerStep cfg alloc = some s') : DatagramInv k start s' := by
  have hat := h.writer
  simp only [WriterAt, hpc] at hat
  simp only [writerStep, hpc] at hs
  obtain rfl := Option.some.inj hs
  refine h.setWriter ⟨⟨rfl, rfl, rfl⟩, rfl, rfl, rfl, rfl, rfl⟩ rfl h.ring ?_ (fun _ => .refl _) rfl
    ?_ hat.1
  · simp only [filled, hpc]
  · simp only [calls, current, hpc, WriterPc.call, List.append_nil]
    split <;> simp

/-- The steps of an application whose calls write into pbufs of their own. -/
theorem DatagramInv.writerStep (hops : cfg.ops.Lawful) (hk : k ≤ 31) (h : DatagramInv k start s)
    {alloc : Option (List PbufPtr)} (horder : s.Orderly (.writer alloc))
    (hs : s.writerStep cfg alloc = some s') : DatagramInv k start s' := by
  have hat := h.writer
  -- a chain is being confirmed at one place only
  have hfilled : (∀ c pbufs written, s.writer ≠ .buffOver c pbufs written) → s.filled = [] := by
    intro hne
    unfold filled
    split
    · rename_i hpc
      exact absurd hpc (hne _ _ _)
    · rfl
  cases hpc : s.writer with
  | idle => simp only [WriteSys.writerStep, hpc] at hs; cases hs
  | buffRead c num => exact h.buffRead hk hpc hs
  | buffFill c pbufs =>
    simp only [WriteSys.writerStep, hpc] at hs
    exact h.buffStep hops hk hpc hs
  | buffOver c pbufs written => exact h.buffOver hk hpc hs
  | buffDone c pbufs => exact h.buffDone hk hpc hs
  | ret c => exact h.ret hpc hs
  | count c =>
    simp only [WriteSys.writerStep, hpc] at hs
    exact h.countStep hk hpc hs
  | lastTail use c =>
    simp only [WriterAt, hpc] at hat
    simp only [WriteSys.writerStep, hpc] at hs
    exact Option.some.inj hs ▸ h.setUnsent (by rw [hpc]; rfl) hat.2
      (hfilled (by rw [hpc]; rintro _ _ _ ⟨⟩)) (fun _ => .refl _) rfl rfl hat
  | lastSlot use c tail =>
    simp only [WriterAt, hpc] at hat
    simp only [WriteSys.writerStep, hpc] at hs
    have hnil := hfilled (by rw [hpc]; rintro _ _ _ ⟨⟩)
    split at hs
    · -- no last pbuf, and the call falls back to a pbuf of its own
      exact Option.some.inj hs ▸ h.lastFails (by rw [hpc]; rfl) hat.2 hnil hat.1 fun _ => .refl _
    · exact Option.some.inj hs ▸
        h.setUnsent (by rw [hpc]; rfl) hat.2 hnil (fun _ => .refl _) rfl rfl hat
  | lastLock use c p =>
    simp only [WriterAt, hpc] at hat
    simp only [WriteSys.writerStep, hpc] at hs
    have hnil := hfilled (by rw [hpc]; rintro _ _ _ ⟨⟩)
    split at hs
    · -- the last pbuf is not taken, and the call falls back to a pbuf of its own
      exact Option.some.inj hs ▸ h.lastFails (by rw [hpc]; rfl) hat.2 hnil hat.1 fun _ => .refl _
    · exact Option.some.inj hs ▸
        h.setUnsent (by rw [hpc]; rfl) hat.2 hnil (sameData_lock s.heap p) rfl rfl hat
  | lastTest use c p =>
    simp only [WriterAt, hpc] at hat
    simp only [WriteSys.writerStep, hpc] at hs
    have hnil := hfilled (by rw [hpc]; rintro _ _ _ ⟨⟩)
    obtain rfl := Option.some.inj hs
    -- whatever the test finds, nothing was written
    split
    · cases use with
      | merge => exact h.setUnsent (by rw [hpc]; rfl) hat.2 hnil (fun _ => .refl _) rfl rfl hat
      | attach num => exact h.setUnsent (by rw [hpc]; rfl) hat.2 hnil (fun _ => .refl _) rfl rfl hat
    · exact h.setUnsent (by rw [hpc]; rfl) hat.2 hnil (fun _ => .refl _) rfl rfl hat
  | lastRefuse use c p =>
    simp only [WriterAt, hpc] at hat
    simp only [WriteSys.writerStep, hpc] at hs
    exact Option.some.inj hs ▸ h.lastFails (by rw [hpc]; rfl) hat.2
      (hfilled (by rw [hpc]; rintro _ _ _ ⟨⟩)) hat.1 (sameData_unlock s.heap p)
  | merge c p =>
    simp only [WriterAt, hpc] at hat
    simp only [Orderly, hpc] at horder
    -- the call finds no room for merging, and goes on
    simp only [WriteSys.writerStep, hpc, mergeStep, if_pos horder] at hs
    exact Option.some.inj hs ▸ h.setUnsent (by rw [hpc]; rfl) hat.2
      (hfilled (by rw [hpc]; rintro _ _ _ ⟨⟩)) (fun _ => .refl _) rfl rfl hat
  | mergeOver c p =>
    simp only [WriterAt, hpc] at hat
    simp only [WriteSys.writerStep, hpc] at hs
    -- so nothing of it was sent
    have hpos := List.length_pos_iff.2 hat.2.data
    rw [if_neg (by rw [hat.2.sendLen]; omega)] at hs
    exact Option.some.inj hs ▸ h.setUnsent (by rw [hpc]; rfl) hat.2
      (hfilled (by rw [hpc]; rintro _ _ _ ⟨⟩)) (sameData_unlock s.heap p) rfl rfl hat
  | attach c p num =>
    -- an orderly call does not attach
    simp only [Orderly, hpc] at horder
  | directAlloc c num =>
    simp only [WriterAt, hpc] at hat
    simp only [Orderly, hpc] at horder
    -- the allocation fails in an orderly run
    simp only [WriteSys.writerStep, hpc, horder] at hs
    exact Option.some.inj hs ▸ h.setUnsent (by rw [hpc]; rfl) hat.2
      (hfilled (by rw [hpc]; rintro _ _ _ ⟨⟩)) (fun _ => .refl _) rfl rfl ⟨hat.1, hat.2.addr⟩
  -- the steps of `app_direct_write` are not reached
  | _ => simp only [WriterAt, hpc] at hat

/-! ### The stack leaves the application alone -/

/-- Nothing that the application uses has changed. -/
structure SameWriter (s s' : WriteSys) : Prop where
  /-- The reader's side of the ring. -/
  reader : RingSys.SameReader s.ring s'.ring
  /-- Pbufs may have come into the ring. -/
  grows : s.ring.accepted <+: s'.ring.accepted
  /-- Where it stands. -/
  writer : s'.writer = s.writer
  /-- What it has accepted. -/
  accepted : s'.accepted = s.accepted

theorem SameWriter.filled (h : SameWriter s s') : s'.filled = s.filled := by
  unfold WriteSys.filled
  rw [h.writer]

theorem SameWriter.calls (h : SameWriter s s') : s'.calls = s.calls := by
  refine calls_congr h.accepted ?_
  unfold current
  rw [h.writer]

theorem SameWriter.rests (h : SameWriter s s') (hs : ReaderRests s.ring) : ReaderRests s'.ring := by
  obtain ⟨out, hrest⟩ := hs
  exact ⟨out, hrest.congr h.reader⟩

theorem SameWriter.writerAt (h : SameWriter s s') (hs : s.WriterAt start)
    (hcontent : ∀ p ∈ s.filled, s'.content p = s.content p) : s'.WriterAt start := by
  unfold WriterAt at hs ⊢
  rw [h.writer]
  cases hpc : s.writer with
  | idle =>
    rw [hpc] at hs
    exact h.rests hs
  | buffRead c num =>
    rw [hpc] at hs
    obtain ⟨⟨out, hread⟩, hneeds⟩ := hs
    exact ⟨⟨out, hread.congr h.reader h.grows⟩, hneeds⟩
  | buffFill c pbufs =>
    rw [hpc] at hs
    obtain ⟨⟨out, hrest⟩, hneeds⟩ := hs
    exact ⟨⟨out, hrest.congr h.reader⟩, hneeds⟩
  | buffOver c pbufs written =>
    rw [hpc] at hs
    obtain ⟨⟨out, hover, hnotdone⟩, hwritten, hc, dest, hdest, hpieces⟩ := hs
    -- the pieces that were filled have the same content after the step of another thread
    have hsame : pbufs.map s'.content = pbufs.map s.content :=
      List.map_congr_left fun p hp => hcontent p (by rwa [WriteSys.filled, hpc])
    exact ⟨⟨out, hover.congr h.reader, h.reader.reader.symm ▸ hnotdone⟩, hwritten, hc, dest, hdest,
      hsame.symm ▸ hpieces⟩
  | buffDone c pbufs =>
    rw [hpc] at hs
    obtain ⟨⟨out, hover, hdone⟩, haddr⟩ := hs
    exact ⟨⟨out, hover.congr h.reader, h.reader.reader.trans hdone⟩, haddr⟩
  -- a datagram is not attached to a chain, and takes no direct way around the ring
  | attachOver c p => rw [hpc] at hs; exact hs.elim
  | attachAddr c p => rw [hpc] at hs; exact hs.elim
  | directRead c mbufs => rw [hpc] at hs; exact hs.elim
  | directFill c pbufs => rw [hpc] at hs; exact hs.elim
  | directOver c pbufs written => rw [hpc] at hs; exact hs.elim
  | directDone c pbufs => rw [hpc] at hs; exact hs.elim
  | _ =>
    rw [hpc] at hs
    exact ⟨h.rests hs.1, hs.2⟩

/-- A step of the stack. -/
theorem DatagramInv.setStack (h : DatagramInv k start s) (hsame : SameWriter s s')
    (hring : RingSys.RingInv k start s'.ring) (hlast : s'.sendLastdata = none)
    (hreturned : ∀ p ∈ s'.returned, s'.sendPreDel = some p) (hstack : s'.StackAt k)
    (hstock : Stock s'.heap s'.waiting s.filled s'.blank)
    (hcontent : ∀ p ∈ s.filled, s'.content p = s.content p)
    (hreads : ReadsFrom s.calls (s'.committed ++ s'.waiting.map s'.content) []) :
    DatagramInv k start s' :=
  ⟨hring, hlast, hreturned, hsame.writerAt h.writer hcontent, hstack, hsame.filled.symm ▸ hstock,
    hsame.calls.symm ▸ hreads⟩

/-- A step of the stack that leaves the pbufs where they are, with their data. -/
theorem DatagramInv.setStackPc (h : DatagramInv k start s) (hsame : SameWriter s s')
    (hring : RingSys.RingInv k start s'.ring) (hlast : s'.sendLastdata = none)
    (hreturned : ∀ p ∈ s'.returned, s'.sendPreDel = some p) (hstack : s'.StackAt k)
    (hwaiting : s'.waiting = s.waiting) (hblank : s'.blank = s.blank)
    (hheap : ∀ p ∈ s.waiting ++ (s.filled ++ s.blank), (s.heap p).SameData (s'.heap p))
    (haddr : ∀ p ∈ s.waiting ++ (s.filled ++ s.blank), s'.addr p = s.addr p)
    (hcommitted : s'.committed = s.committed) :
    DatagramInv k start s' := by
  have hcontent : ∀ p ∈ s.waiting ++ (s.filled ++ s.blank), s'.content p = s.content p :=
    fun p hp => content_congr (hheap p hp) (haddr p hp)
  refine h.setStack hsame hring hlast hreturned hstack ?_ (fun p hp => hcontent p ?_) ?_
  · rw [hwaiting, hblank]
    exact h.stock.congr hheap
  · exact List.mem_append_right _ (List.mem_append_left _ hp)
  · rw [hwaiting, hcommitted,
      List.map_congr_left fun p hp => hcontent p (List.mem_append_left _ hp)]
    exact h.reads

/-- The stack is outside `gazelle_ring_sc_dequeue` and `gazelle_ring_sp_enqueue`. -/
def StackPc.OutsideRing : StackPc → Prop
  | .dequeue _ | .replenish _ => False
  | _ => True

theorem inHand_eq_nil (h : StackPc.OutsideRing s.stack) : s.inHand = [] := by
  unfold inHand
  split
  · rename_i hpc _
    rw [hpc] at h
    exact h.elim
  · rfl

theorem replenishing_eq_nil (h : StackPc.OutsideRing s.stack) : s.replenishing = [] := by
  unfold replenishing
  split
  · rfl
  · rename_i hpc _
    rw [hpc] at h
    exact h.elim
  · rfl

theorem replenishing_of_done {n : U32} (hdone : s.ring.owner = .enqDone n) :
    s.replenishing = [] := by
  unfold replenishing
  rw [hdone]
  cases s.stack <;> rfl

theorem replenishing_of_not_done {mbufs : List PbufPtr} (hpc : s.stack = .replenish mbufs)
    (hdone : ∀ n, s.ring.owner ≠ .enqDone n) : s.replenishing = mbufs := by
  unfold replenishing
  rw [hpc]
  cases howner : s.ring.owner with
  | enqDone n => exact absurd howner (hdone n)
  | _ => rfl

/-- A step of the stack outside the ring. -/
theorem DatagramInv.setOutside (h : DatagramInv k start s) {heap : SendHeap}
    {last returned : Option PbufPtr} {pc : StackPc} (hout : StackPc.OutsideRing s.stack)
    (hout' : StackPc.OutsideRing pc) (hlast : last = none)
    (hreturned : ∀ p ∈ returned, s.sendPreDel = some p) (hstack : StackAt k { s with stack := pc })
    (hheap : ∀ p ∈ s.waiting ++ (s.filled ++ s.blank), (s.heap p).SameData (heap p)) :
    DatagramInv k start { s with heap, sendLastdata := last, returned, stack := pc } := by
  refine h.setStackPc ⟨.refl _, List.prefix_rfl, rfl, rfl⟩ h.ring hlast hreturned ?_ ?_ ?_ hheap
    (fun _ _ => rfl) rfl
  · unfold StackAt at hstack ⊢
    cases pc <;> exact hstack
  · unfold waiting
    rw [inHand_eq_nil hout, inHand_eq_nil (by exact hout')]
  · unfold blank
    rw [replenishing_eq_nil hout, replenishing_eq_nil (by exact hout')]
    rfl

/-- The owner's steps leave the application's side of the ring alone. -/
theorem sameWriter_of_ownerAct {a : RingAct PbufPtr} (ha : ¬ a.isReader)
    (hring : s.ring.step a = some s'.ring) (hwriter : s'.writer = s.writer)
    (haccepted : s'.accepted = s.accepted) : SameWriter s s' :=
  ⟨RingSys.sameReader_of_ownerAct hring ha, RingSys.accepted_prefix_of_step hring, hwriter,
    haccepted⟩

namespace Replenishes

variable {mbufs : List PbufPtr}

theorem heap (h : Replenishes cfg s s' mbufs) : s'.heap = initMbufs cfg s.heap s.inits mbufs :=
  congrArg WriteSys.heap h.eq

theorem stack (h : Replenishes cfg s s' mbufs) : s'.stack = .replenish mbufs :=
  congrArg WriteSys.stack h.eq

theorem inits (h : Replenishes cfg s s' mbufs) : s'.inits = s.inits + mbufs.length :=
  congrArg WriteSys.inits h.eq

theorem sendPreDel (h : Replenishes cfg s s' mbufs) : s'.sendPreDel = s.sendPreDel := by
  rw [h.eq]

theorem sendLastdata (h : Replenishes cfg s s' mbufs) : s'.sendLastdata = s.sendLastdata := by
  rw [h.eq]

theorem returned (h : Replenishes cfg s s' mbufs) : s'.returned = s.returned := by
  rw [h.eq]

theorem committedBorn (h : Replenishes cfg s s' mbufs) : s'.committedBorn = s.committedBorn := by
  rw [h.eq]

theorem committed (h : Replenishes cfg s s' mbufs) : s'.committed = s.committed := by
  rw [h.eq]

theorem sameWriter (h : Replenishes cfg s s' mbufs) : SameWriter s s' :=
  sameWriter_of_ownerAct (by simp [RingAct.isReader]) h.ring (by rw [h.eq]) (by rw [h.eq])

theorem enqueuing (h : Replenishes cfg s s' mbufs) :
    RingSys.Enqueuing k mbufs s.ring.accepted s.ring.dequeued s'.ring :=
  RingSys.enqueuing_of_call h.ring

theorem owner (h : Replenishes cfg s s' mbufs) : s'.ring.owner = .enqLoadHead mbufs := by
  have hring := h.ring
  simp only [RingSys.step] at hring
  split at hring
  · split at hring
    · rw [← Option.some.inj hring]
    · cases hring
  · cases hring

/-- The ring has not got them yet. -/
theorem accepted_eq (h : Replenishes cfg s s' mbufs) : s'.ring.accepted = s.ring.accepted :=
  (h.enqueuing (k := 0)).accepted_eq (by rw [h.owner]; rintro _ ⟨⟩)

theorem ne_nil (h : Replenishes cfg s s' mbufs) : mbufs ≠ [] := by
  rintro rfl
  exact h.room (BitVec.eq_of_toNat_eq h.alloc.1.symm)

/-- They are none of the pbufs of the send path. -/
theorem place_ne (h : Replenishes cfg s s' mbufs) {p : PbufPtr} (hp : p ∈ mbufs) :
    (s.heap p).place ≠ .gazelle :=
  h.alloc.place_ne hp

theorem heap_of_notMem (h : Replenishes cfg s s' mbufs) {p : PbufPtr} (hp : p ∉ mbufs) :
    s'.heap p = s.heap p :=
  (congrFun h.heap p).trans (initMbufs_of_notMem hp)

/-- They fit into the ring. -/
theorem stackAt (hk : k ≤ 31) (hring : RingSys.RingInv k start s.ring)
    (h : Replenishes cfg s s' mbufs) : s'.StackAt k := by
  have hfreeCount := hring.freeCount_toNat hk
  have hfits := hring.fits
  have hle := hring.dequeued_le.trans (hring.confirmed_le.trans hring.readOut_le)
  have hlen := h.alloc.1
  unfold StackAt
  rw [h.stack]
  exact ⟨h.ne_nil, _, _, h.enqueuing, by omega⟩

theorem inHand (h : Replenishes cfg s s' mbufs) (hpc : s.stack = .out) : s'.inHand = s.inHand := by
  rw [WriteSys.inHand, WriteSys.inHand, h.stack, hpc]

theorem waiting (h : Replenishes cfg s s' mbufs) (hpc : s.stack = .out) :
    s'.waiting = s.waiting := by
  rw [WriteSys.waiting, WriteSys.waiting, h.inHand hpc, h.sameWriter.reader.confirmed,
    (h.enqueuing (k := 0)).dequeued, h.sendPreDel]

theorem replenishing (h : Replenishes cfg s s' mbufs) : s'.replenishing = mbufs :=
  replenishing_of_not_done h.stack (by rw [h.owner]; rintro _ ⟨⟩)

theorem blank (h : Replenishes cfg s s' mbufs) (hpc : s.stack = .out) :
    s'.blank = s.blank ++ mbufs := by
  rw [WriteSys.blank, WriteSys.blank, h.replenishing, replenishing_eq_nil (by rw [hpc]; trivial),
    h.accepted_eq, h.sameWriter.reader.confirmed, h.sameWriter.filled, List.append_nil]

end Replenishes

/-- A pbuf that is taken is a chain of its own. -/
theorem DatagramInv.next_eq_none (h : DatagramInv k start s) {p : PbufPtr}
    (hp : s.sendPreDel = some p) : (s.heap p).next = none := by
  refine h.stock.next p (List.mem_append_left _ ?_)
  rw [waiting, hp]
  exact List.mem_cons_self

/-- The call of `write_lwip_data`. -/
theorem DatagramInv.lwipData (hk : k ≤ 31) (h : DatagramInv k start s) {remainSize : BitVec 16}
    (hpc : s.stack = .out) (hs : s.lwipData remainSize = some s') : DatagramInv k start s' := by
  have hat := h.stack
  simp only [StackAt, hpc] at hat
  have hout : StackPc.OutsideRing s.stack := by
    rw [hpc]
    trivial
  simp only [WriteSys.lwipData] at hs
  split at hs
  · rename_i p hpre
    obtain rfl := Option.some.inj hs
    exact h.setOutside hout trivial h.sendLastdata
      (fun _ hq => absurd hq (Option.not_mem_none _)) ⟨hat, hpre⟩ fun _ _ => .refl _
  · rename_i hlast
    rw [h.sendLastdata] at hlast
    cases hlast
  · rename_i hpre _
    obtain ⟨ring, hring, rfl⟩ := Option.map_eq_some_iff.1 hs
    have hdeq := RingSys.dequeuing_of_call hring
    have hsame := RingSys.sameReader_of_ownerAct hring (by simp [RingAct.isReader])
    have howner : ring.owner = .deqLoadProd 1 := by
      simp only [RingSys.step, hat, Option.some.injEq] at hring
      rw [← hring]
    have hdequeued : ring.dequeued = s.ring.dequeued :=
      hdeq.dequeued_eq (by rw [howner]; rintro _ ⟨⟩)
    refine h.setStackPc (sameWriter_of_ownerAct (by simp [RingAct.isReader]) hring rfl rfl)
      (h.ring.step hk hring) h.sendLastdata (fun _ hq => absurd hq (Option.not_mem_none _))
      ⟨hpre, _, _, hdeq⟩ ?_ ?_ (fun _ _ => .refl _)
      (fun _ _ => rfl) rfl
    · simp only [waiting, inHand, hpc, howner, hsame.confirmed, hdequeued]
    · simp only [blank, filled, replenishing, hpc, hsame.confirmed, hdeq.accepted]

/-- The steps in `gazelle_ring_sc_dequeue`. -/
theorem DatagramInv.dequeue (hk : k ≤ 31) (h : DatagramInv k start s) {remainSize : BitVec 16}
    (hpc : s.stack = .dequeue remainSize) (hs : s.stackStep = some s') :
    DatagramInv k start s' := by
  have hat := h.stack
  simp only [StackAt, hpc] at hat
  obtain ⟨hpre, acc, deq, hdeq⟩ := hat
  simp only [WriteSys.stackStep, hpc] at hs
  obtain ⟨ring, hring, heq⟩ := Option.map_eq_some_iff.1 hs
  have hinv := h.ring.step hk hring
  have hreader := RingSys.sameReader_of_ownerAct hring (by simp [RingAct.isReader])
  have hgrows := RingSys.accepted_prefix_of_step hring
  -- nothing was taken before
  have hreturned : s.returned = none := by
    rw [Option.eq_none_iff_forall_not_mem]
    intro p hp
    have := h.returned p hp
    rw [hpre] at this
    cases this
  split at heq <;> subst heq
  · rename_i hdone
    rw [RingSys.step, RingSys.return_eq (.inr ⟨_, hdone⟩)] at hring
    obtain rfl := Option.some.inj hring
    refine h.setStackPc ⟨hreader, hgrows, rfl, rfl⟩ hinv h.sendLastdata h.returned rfl ?_ ?_
      (fun _ _ => .refl _)
      (fun _ _ => rfl) rfl
    · simp only [waiting, inHand, hpc, hdone]
    · simp only [blank, filled, replenishing, hpc]
  · rename_i p rest hdone
    obtain ⟨-, hlen⟩ := hdeq.returned hdone
    have hrest : rest = [] := by
      rw [← List.length_eq_zero_iff]
      simpa using hlen
    subst hrest
    rw [RingSys.step, RingSys.return_eq (.inr ⟨_, hdone⟩)] at hring
    obtain rfl := Option.some.inj hring
    refine h.setStackPc ⟨hreader, hgrows, rfl, rfl⟩ hinv h.sendLastdata
      (fun q hq => by rw [hreturned] at hq; cases hq) ⟨rfl, rfl⟩ ?_ ?_ (fun _ _ => .refl _)
      (fun _ _ => rfl) rfl
    · simp only [waiting, inHand, hpc, hdone, hpre]
      rfl
    · simp only [blank, filled, replenishing, hpc]
  · rename_i hnil hcons
    have hnotdone : ∀ got, s.ring.owner ≠ .deqDone got := by
      intro got hdone
      cases got with
      | nil => exact hnil hdone
      | cons p rest => exact hcons p rest hdone
    have hnext := hdeq.ownerStep h.ring hnotdone hring
    have hdequeued := hdeq.dequeued_eq hnotdone
    refine h.setStackPc ⟨hreader, hgrows, rfl, rfl⟩ hinv h.sendLastdata h.returned
      (by simp only [StackAt]; exact ⟨hpre, acc, deq, hnext⟩) ?_ ?_ (fun _ _ => .refl _)
      (fun _ _ => rfl) rfl
    · -- what is dequeued is in hand
      obtain ⟨rest, hrest⟩ := hinv.dequeued_prefix
      have hbefore : s.inHand = [] := by
        unfold inHand
        split
        · rename_i hdone
          exact absurd hdone (hnotdone _)
        · rfl
      rw [waiting, waiting, hbefore, ← hreader.confirmed, ← hrest]
      unfold inHand
      simp only [List.nil_append]
      split
      · rename_i got hdone
        rw [(hnext.returned hdone).1, List.drop_left, hdequeued, List.append_assoc, List.drop_left]
      · rename_i hnotdone'
        have hdone' : ∀ got, ring.owner ≠ .deqDone got := fun got hgot => hnotdone' _ got rfl hgot
        rw [hnext.dequeued_eq hdone', hdequeued, List.nil_append]
    · simp only [blank, filled, replenishing, hpc, hreader.confirmed, hnext.accepted, hdeq.accepted]

/-- The pbufs that are filled have been read. -/
theorem DatagramInv.filled_le (h : DatagramInv k start s) :
    s.ring.confirmed.length + s.filled.length ≤ s.ring.accepted.length := by
  have hat := h.writer
  have hconfirmed := h.ring.confirmed_le
  have hread := h.ring.readOut_le
  unfold filled
  split
  · rename_i c pbufs written hpc
    simp only [WriterAt, hpc] at hat
    obtain ⟨⟨out, hover, hnotdone⟩, -⟩ := hat
    rw [hover.readOut, List.length_append] at hread
    rw [hover.confirmed_of_not_done hnotdone]
    exact hread
  · rw [List.length_nil]
    omega

/-- The call of `replenish_send_idlembuf`. -/
theorem DatagramInv.replenish (hops : cfg.ops.Lawful) (hk : k ≤ 31) (h : DatagramInv k start s)
    {alloc : Option (List PbufPtr)} (hpc : s.stack = .out) (hs : s.replenish cfg alloc = some s') :
    DatagramInv k start s' := by
  rcases replenish_cases hs with rfl | ⟨mbufs, -, hrep⟩
  · exact h
  have hothers : ∀ p ∈ s.waiting ++ (s.filled ++ s.blank), p ∉ mbufs := fun p hp hmem =>
    h.stock.notMem (hrep.place_ne hmem) hp
  have hcontent : ∀ p ∈ s.waiting ++ (s.filled ++ s.blank), s'.content p = s.content p := by
    intro p hp
    refine content_congr ?_ ?_
    · rw [hrep.heap_of_notMem (hothers p hp)]
      exact .refl _
    · rw [hrep.eq]
      exact if_neg (hothers p hp)
  refine h.setStack hrep.sameWriter (h.ring.step hk hrep.ring)
    (hrep.sendLastdata.trans h.sendLastdata) ?_ (hrep.stackAt hk h.ring) ?_
    (fun p hp => hcontent p ?_) ?_
  · rw [hrep.returned, hrep.sendPreDel]
    exact h.returned
  · -- the new pbufs are blank
    rw [hrep.waiting hpc, hrep.blank hpc, hrep.heap]
    refine h.stock.replenish hrep.alloc.2.1 (fun p hp => hrep.place_ne hp)
      (fun p hp => initMbufs_of_notMem hp) fun p hp => ?_
    obtain ⟨hfresh, hplace⟩ : (initMbufs cfg s.heap s.inits mbufs p).Fresh p ∧ _ :=
      initMbufs_fresh hops hrep.alloc.2.1 hp
    exact ⟨⟨hfresh.len, hfresh.totLen, hfresh.next⟩, hplace⟩
  · exact List.mem_append_right _ (List.mem_append_left _ hp)
  · rw [hrep.waiting hpc, hrep.committed,
      List.map_congr_left fun p hp => hcontent p (List.mem_append_left _ hp)]
    exact h.reads

/-- The steps in `gazelle_ring_sp_enqueue`. -/
theorem DatagramInv.replenishStep (hk : k ≤ 31) (h : DatagramInv k start s) {mbufs : List PbufPtr}
    (hpc : s.stack = .replenish mbufs) (hs : s.stackStep = some s') : DatagramInv k start s' := by
  have hat := h.stack
  simp only [StackAt, hpc] at hat
  obtain ⟨hne, acc, deq, henq, hfits⟩ := hat
  simp only [WriteSys.stackStep, hpc] at hs
  obtain ⟨ring, hring, heq⟩ := Option.map_eq_some_iff.1 hs
  have hinv := h.ring.step hk hring
  have hreader := RingSys.sameReader_of_ownerAct hring (by simp [RingAct.isReader])
  have hgrows := RingSys.accepted_prefix_of_step hring
  split at heq <;> subst heq
  · rename_i n hdone
    obtain ⟨hn, -⟩ := henq.accepted_of_fits hdone hfits
    have hnonzero : n ≠ 0 := by
      intro hzero
      have hlen := congrArg BitVec.toNat (hn.symm.trans hzero)
      rw [BitVec.toNat_ofNat, Nat.mod_eq_of_lt henq.length_lt] at hlen
      exact hne (List.length_eq_zero_iff.1 hlen)
    rw [RingSys.step, RingSys.return_eq (.inl ⟨_, hdone⟩)] at hring
    obtain rfl := Option.some.inj hring
    simp only [if_neg hnonzero]
    refine h.setStackPc ⟨hreader, hgrows, rfl, rfl⟩ hinv h.sendLastdata h.returned rfl ?_ ?_
      (fun _ _ => .refl _) (fun _ _ => rfl) rfl
    · simp only [waiting, inHand, hpc]
    · simp only [blank, filled, replenishing, hpc, hdone]
  · rename_i hnotdone
    have hnext := henq.ownerStep hk h.ring hnotdone hring
    have haccepted := henq.accepted_eq hnotdone
    refine h.setStackPc ⟨hreader, hgrows, rfl, rfl⟩ hinv h.sendLastdata h.returned
      ⟨hne, acc, deq, hnext, hfits⟩ ?_ ?_ (fun _ _ => .refl _) (fun _ _ => rfl) rfl
    · simp only [waiting, inHand, hpc, hreader.confirmed, hnext.dequeued, henq.dequeued]
    · -- the last store of the function publishes the pbufs
      have hle := h.filled_le
      rw [haccepted] at hle
      rw [blank, blank, replenishing_of_not_done hpc hnotdone, haccepted]
      show ring.accepted.drop (ring.confirmed.length + s.filled.length) ++
        replenishing { s with ring, stack := .replenish mbufs } = _
      rw [hreader.confirmed]
      by_cases hdone : ∃ n, ring.owner = .enqDone n
      · obtain ⟨n, hdone⟩ := hdone
        rw [replenishing_of_done hdone, (hnext.accepted_of_fits hdone hfits).2,
          List.drop_append_of_le_length hle, List.append_nil]
      · have hdone' : ∀ n, ring.owner ≠ .enqDone n := fun n hn => hdone ⟨n, hn⟩
        rw [replenishing_of_not_done rfl hdone', hnext.accepted_eq hdone']

/-- The steps of the stack thread. -/
theorem DatagramInv.stackStep (hk : k ≤ 31) (h : DatagramInv k start s)
    (hs : s.stackStep = some s') : DatagramInv k start s' := by
  have hat := h.stack
  cases hpc : s.stack with
  | out => simp only [WriteSys.stackStep, hpc] at hs; cases hs
  | dequeue remainSize => exact h.dequeue hk hpc hs
  | replenish mbufs => exact h.replenishStep hk hpc hs
  | readover p remainSize =>
    simp only [StackAt, hpc] at hat
    have hout : StackPc.OutsideRing s.stack := by rw [hpc]; trivial
    simp only [WriteSys.stackStep, hpc] at hs
    -- `send_pre_del` has no pbuf behind it
    split at hs
    · exact Option.some.inj hs ▸
        h.setOutside hout trivial h.sendLastdata h.returned hat fun _ _ => .refl _
    split at hs
    · exact Option.some.inj hs ▸ h.setOutside hout trivial h.sendLastdata h.returned hat.1
        fun q _ => SendPbuf.SameData.modify ⟨rfl, rfl, rfl, rfl, rfl⟩ q
    · exact Option.some.inj hs ▸
        h.setOutside hout trivial h.sendLastdata h.returned hat fun _ _ => .refl _
  | lock first p remainSize =>
    simp only [StackAt, hpc] at hat
    have hout : StackPc.OutsideRing s.stack := by rw [hpc]; trivial
    simp only [WriteSys.stackStep, hpc] at hs
    split at hs
    · -- the application has the lock
      cases hs
    · exact Option.some.inj hs ▸ h.setOutside hout trivial h.sendLastdata h.returned hat
        fun q _ => sameData_lock s.heap p q
  | test first p remainSize =>
    simp only [StackAt, hpc] at hat
    have hout : StackPc.OutsideRing s.stack := by rw [hpc]; trivial
    simp only [WriteSys.stackStep, hpc] at hs
    -- the flags are no part of the data
    split at hs
    · exact Option.some.inj hs ▸
        h.setOutside hout trivial h.sendLastdata h.returned hat fun _ _ => .refl _
    · exact Option.some.inj hs ▸ h.setOutside hout trivial h.sendLastdata h.returned hat
        fun q _ => SendPbuf.SameData.modify ⟨rfl, rfl, rfl, rfl, rfl⟩ q
  | unlockNull first p =>
    simp only [StackAt, hpc] at hat
    have hout : StackPc.OutsideRing s.stack := by rw [hpc]; trivial
    simp only [WriteSys.stackStep, hpc] at hs
    exact Option.some.inj hs ▸ h.setOutside hout trivial h.sendLastdata h.returned hat.1
      fun q _ => SendPbuf.SameData.modify ⟨rfl, rfl, rfl, rfl, rfl⟩ q
  | unlock first p =>
    simp only [StackAt, hpc] at hat
    have hout : StackPc.OutsideRing s.stack := by rw [hpc]; trivial
    simp only [WriteSys.stackStep, hpc] at hs
    exact Option.some.inj hs ▸ h.setOutside hout trivial h.sendLastdata h.returned hat
      fun q _ => sameData_unlock s.heap p q
  | detach first p =>
    simp only [StackAt, hpc] at hat
    have hout : StackPc.OutsideRing s.stack := by rw [hpc]; trivial
    -- a pbuf of its own has nothing behind it, so nothing is cut off
    have hnext := h.next_eq_none hat.2
    simp only [WriteSys.stackStep, hpc, hnext, Option.isSome_none, Bool.or_false] at hs
    refine Option.some.inj hs ▸ h.setOutside hout trivial ?_ (fun q hq => ?_) hat.1 fun q _ =>
      SendPbuf.SameData.modify ⟨rfl, rfl, rfl, hnext.symm, rfl⟩ q
    · split
      · rfl
      · -- nothing remains in `send_lastdata` either way
        exact h.sendLastdata
    · exact (Option.mem_some_iff.1 hq) ▸ hat.2

/-- `write_lwip_over` commits the pbuf taken. -/
theorem DatagramInv.lwipOver (h : DatagramInv k start s) {p : PbufPtr} (hpc : s.stack = .out)
    (hreturned : s.returned = some p) :
    DatagramInv k start { s with
      heap := s.heap.modify p ({ · with place := .lwip })
      sendPreDel := none
      returned := none
      committedBorn := s.committedBorn ++ [(s.heap p).born]
      committed := s.committed ++ [s.content p] } := by
  have hout : StackPc.OutsideRing s.stack := by rw [hpc]; trivial
  have hat := h.stack
  have hstock := h.stock
  have hreads := h.reads
  have hnil := inHand_eq_nil hout
  -- the pbuf that lwIP was handed is the first one that waits
  have hwaiting : s.waiting = p :: s.ring.confirmed.drop s.ring.dequeued.length := by
    rw [waiting, hnil, h.returned p hreturned]
    rfl
  rw [hwaiting] at hstock hreads
  have hothers : ∀ q, q ≠ p → s.heap.modify p ({ · with place := .lwip }) q = s.heap q :=
    fun q hq => SendHeap.modify_of_ne hq
  have hp := (List.nodup_cons.1 hstock.nodup).1
  -- the others are not written
  have hcontent : ∀ q ∈ s.ring.confirmed.drop s.ring.dequeued.length ++ (s.filled ++ s.blank),
      content { s with heap := s.heap.modify p ({ · with place := .lwip }) } q = s.content q := by
    intro q hq
    refine content_congr ?_ rfl
    show (s.heap q).SameData (s.heap.modify p ({ · with place := .lwip }) q)
    rw [hothers q fun heq => hp (heq ▸ hq)]
    exact .refl _
  have hwaiting' : waiting { s with sendPreDel := none } =
      s.ring.confirmed.drop s.ring.dequeued.length := by
    have hnil' : inHand { s with sendPreDel := none } = [] := hnil
    rw [waiting, hnil']
    rfl
  have hblank : blank { s with sendPreDel := none } = s.blank := rfl
  refine h.setStack ⟨.refl _, List.prefix_rfl, rfl, rfl⟩ h.ring h.sendLastdata
    (fun _ hq => absurd hq (Option.not_mem_none _)) ?_ ?_
    (fun q hq => hcontent q (List.mem_append_right _ (List.mem_append_left _ hq))) ?_
  · simp only [StackAt, hpc] at hat ⊢
    exact hat
  · -- it leaves the stock, and what is read grows by its content
    show Stock _ (waiting { s with sendPreDel := none }) _ _
    rw [hwaiting']
    exact hstock.commit hothers
  · show ReadsFrom s.calls ((s.committed ++ [s.content p]) ++
      (waiting { s with sendPreDel := none }).map _) []
    rw [hwaiting', List.append_assoc]
    have hmap := List.map_congr_left fun q hq => hcontent q (List.mem_append_left _ hq)
    exact hmap ▸ hreads

/-- lwIP changes and releases pbufs of its own only. -/
theorem DatagramInv.setForeign (h : DatagramInv k start s) {p : PbufPtr}
    (hplace : (s.heap p).place = .lwip) {f : SendPbuf → SendPbuf} {addr : PbufPtr → PbufAddr}
    (haddr : ∀ q, q ≠ p → addr q = s.addr q) :
    DatagramInv k start { s with heap := s.heap.modify p f, addr } := by
  have hothers : ∀ q ∈ s.waiting ++ (s.filled ++ s.blank), q ≠ p := by
    rintro q hq rfl
    exact h.stock.notMem (by rw [hplace]; rintro ⟨⟩) hq
  refine h.setStackPc ⟨.refl _, List.prefix_rfl, rfl, rfl⟩ h.ring h.sendLastdata h.returned ?_ rfl
    rfl (fun q hq => ?_) (fun q hq => haddr q (hothers q hq)) rfl
  · have hat := h.stack
    unfold StackAt at hat ⊢
    exact hat
  · show (s.heap q).SameData (s.heap.modify p f q)
    rw [SendHeap.modify_of_ne (hothers q hq)]
    exact .refl _

/-- The call of `write_stack_data`. -/
theorem DatagramInv.write (h : DatagramInv k start s) {c : WriteCall} {w : WriterPc}
    (hpc : s.writer = .idle) (hc : c.Unsent) (hw : w = .count c ∨ w = .lastTail .merge c) :
    DatagramInv k start { s with writer := w } := by
  have hat := h.writer
  simp only [WriterAt, hpc] at hat
  have hcurrent : s.current = [] := by simp only [current, hpc, WriterPc.call]
  have hfilled : s.filled = [] := by simp only [filled, hpc]
  rcases hw with rfl | rfl
  all_goals
    refine h.setWriter ⟨⟨rfl, rfl, rfl⟩, rfl, rfl, rfl, rfl, rfl⟩ rfl h.ring hfilled.symm
      (fun _ => .refl _) rfl (calls_congr rfl ?_) ⟨hat, hc⟩
    rw [hcurrent]
    exact current_of_unsent rfl hc

/-- One step of the socket. -/
theorem DatagramInv.step (hops : cfg.ops.Lawful) (hk : k ≤ 31) (h : DatagramInv k start s)
    {a : WriteAct} (hsends : SendsTo a) (horder : s.Orderly a) (hs : s.step cfg a = some s') :
    DatagramInv k start s' := by
  cases a with
  | write data addr =>
    simp only [WriteSys.step] at hs
    split at hs
    · rename_i hpc
      split at hs
      · rename_i hdata
        obtain rfl := Option.some.inj hs
        -- the call begins with a count of its pbufs, or with the room that the last one has
        refine h.write hpc ⟨rfl, hdata.1, hdata.2, hsends⟩ ?_
        split
        · exact .inl rfl
        · exact .inr rfl
      · cases hs
    · cases hs
  | writer alloc => exact h.writerStep hops hk horder hs
  | lwipData remainSize =>
    simp only [WriteSys.step] at hs
    split at hs
    · rename_i hpc
      exact h.lwipData hk hpc hs
    · cases hs
  | lwipOver =>
    simp only [WriteSys.step] at hs
    split at hs
    · rename_i p hpc hreturned
      exact Option.some.inj hs ▸ h.lwipOver hpc hreturned
    · cases hs
  | replenish alloc =>
    simp only [WriteSys.step] at hs
    split at hs
    · rename_i hpc
      exact h.replenish hops hk hpc hs
    · cases hs
  | stack => exact h.stackStep hk hs
  | lwip p b addr =>
    simp only [WriteSys.step] at hs
    split at hs
    · rename_i hplace
      -- lwIP and the driver write to pbufs that have left the socket
      exact Option.some.inj hs ▸ h.setForeign hplace fun q hq => Function.update_of_ne hq ..
    · cases hs
  | release p =>
    simp only [WriteSys.step] at hs
    split at hs
    · rename_i hplace
      exact Option.some.inj hs ▸ h.setForeign hplace fun _ _ => rfl
    · cases hs

/-- A new socket. -/
theorem DatagramInv.create (k : ℕ) (start : U32) (slots : U32 → PbufPtr) (heap : SendHeap)
    (addr : PbufPtr → PbufAddr) : DatagramInv k start (create k start slots heap addr) where
  ring := .create k start slots
  sendLastdata := rfl
  returned _ hp := absurd hp (Option.not_mem_none _)
  writer := ⟨[], rfl, rfl, rfl⟩
  stack := rfl
  stock := ⟨List.nodup_nil, fun _ hp => absurd hp List.not_mem_nil,
    fun _ hp => absurd hp List.not_mem_nil, fun _ hp => absurd hp List.not_mem_nil⟩
  reads := .done []

/-- The pbuf that was returned is the first that waits for the stack. -/
theorem DatagramInv.returned_prefix (h : DatagramInv k start s) :
    s.returned.toList <+: s.waiting := by
  cases hreturned : s.returned with
  | none => exact List.nil_prefix
  | some p =>
    rw [waiting, h.returned p hreturned]
    exact List.prefix_append _ _

/-- A UDP socket whose calls write into pbufs of their own, under all interleavings with its stack.
Each pbuf that `write_lwip_data` has returned holds data of one call and carries the destination of
this call; and all that the calls have accepted is in such pbufs, taken or waiting for the stack. -/
theorem udp_send_keeps_destination (hops : cfg.ops.Lawful) (hk : k ≤ 31)
    (hs : (system cfg k).ReachableUnder (fun s a => SendsTo a ∧ s.Orderly a) s) :
    s.KeepsDestination ∧ ReadsFrom s.calls (s.committed ++ s.waiting.map s.content) [] := by
  have hinv : ∃ start, DatagramInv k start s := by
    refine Transition.System.invariant_under (I := fun s => ∃ start, DatagramInv k start s) ?_ ?_ hs
    · rintro t ⟨start, slots, heap, addr, -, rfl⟩
      exact ⟨start, .create k start slots heap addr⟩
    · rintro t a t' ⟨start, h⟩ ⟨hsends, horder⟩ hstep
      exact ⟨start, h.step hops hk hsends horder hstep⟩
  obtain ⟨start, h⟩ := hinv
  refine ⟨?_, h.reads⟩
  obtain ⟨rest, hrest⟩ := h.returned_prefix
  have hreads := h.reads
  rw [← hrest, List.map_append, ← List.append_assoc] at hreads
  obtain ⟨left, hleft, -⟩ := hreads.exists_of_append
  exact ⟨left, hleft⟩

/-- Whether a call has a destination is decidable. -/
instance (a : WriteAct) : Decidable (SendsTo a) := by
  unfold SendsTo
  split <;> infer_instance

/-- So is whether it writes into pbufs of its own. -/
instance (s : WriteSys) (a : WriteAct) : Decidable (s.Orderly a) := by
  unfold Orderly
  split
  · split <;> infer_instance
  · infer_instance

/-- lwIP's functions. -/
def sendOps : SendOps where
  pbufAllocedCustom length b := { b with len := length, totLen := length, next := none }
  pbufTake b data := copyTo b.area 0 data
  pbufTakeAt b data offset := copyTo b.area offset data

theorem sendOps_lawful : sendOps.Lawful where
  pbufAllocedCustom _ _ := ⟨rfl, rfl, rfl⟩
  pbufTake _ _ _ _ := rfl
  pbufTakeAt _ _ _ _ _ _ := rfl

/-- A socket whose ring has one usable slot, with a pool of empty pbufs. -/
def oneSlot : WriteSys :=
  create 1 0 (fun _ => 0)
    (fun p =>
      { area := fun _ => 0
        len := 0
        totLen := 0
        next := none
        last := p
        allowIn := false
        head := false
        locked := false
        place := .pool
        born := 0 })
    fun _ => ⟨0, 0⟩

theorem oneSlot_init (cfg : SendCfg) : (system cfg 1).Init oneSlot :=
  ⟨0, _, oneSlot.heap, _, fun _ => nofun, rfl⟩

/-- A socket with the same pool whose ring has three usable slots. -/
private def threeSlots : WriteSys := create 2 0 (fun _ => 0) oneSlot.heap oneSlot.addr

/-- The ring gets three pbufs. A call sends one byte, which the stack takes; a second call sends two
bytes to another port, and the stack takes them, too. -/
private def twoCalls : List WriteAct :=
  .replenish (some [5, 6, 7]) :: List.replicate 7 .stack ++
    .write [1] (some ⟨1, 7⟩) :: List.replicate 11 (.writer none) ++
    .lwipData 100 :: List.replicate 10 .stack ++ .lwipOver ::
    .write [2, 3] (some ⟨1, 8⟩) :: List.replicate 13 (.writer none) ++
    .lwipData 100 :: List.replicate 10 .stack

/-- The bytes of the two calls come in pbufs of their own, with their destinations. -/
theorem udp_send_keeps_destination_two :
    ∃ s : WriteSys,
      (system ⟨false, sendOps⟩ 2).ReachableUnder (fun s a => SendsTo a ∧ s.Orderly a) s ∧
        s.committed ++ s.returned.toList.map s.content =
          [([1], some ⟨1, 7⟩), ([2, 3], some ⟨1, 8⟩)] ∧ s.KeepsDestination := by
  have hinit : (system ⟨false, sendOps⟩ 2).Init threeSlots :=
    ⟨0, _, oneSlot.heap, _, fun _ => nofun, rfl⟩
  have hrun : ((system ⟨false, sendOps⟩ 2).run threeSlots twoCalls).any (fun s =>
      s.committed ++ s.returned.toList.map s.content =
        [([1], some ⟨1, 7⟩), ([2, 3], some ⟨1, 8⟩)]) = true := by
    decide +kernel
  have hmeet : (system ⟨false, sendOps⟩ 2).stepsMeet (fun s a => SendsTo a ∧ s.Orderly a) threeSlots
      twoCalls := by
    decide +kernel
  obtain ⟨s, hs, hstate⟩ := (Option.any_eq_true _ _).1 hrun
  have hreach := Transition.System.reachableUnder_of_run (.init hinit) hs hmeet
  exact ⟨s, hreach, of_decide_eq_true hstate,
    (udp_send_keeps_destination sendOps_lawful (by decide) hreach).1⟩

/-- The ring gets a pbuf, a call sends one byte, `more` happens, and the stack takes the pbuf. -/
private def oneByte (more : List WriteAct) : List WriteAct :=
  .replenish (some [5]) :: List.replicate 5 .stack ++
    .write [1] (some ⟨1, 7⟩) :: List.replicate 11 (.writer none) ++ more ++
    .lwipData 100 :: List.replicate 10 .stack

/-- A second call puts its byte into the pbuf of the first. -/
theorem udp_send_merges :
    ¬ ∀ (cfg : SendCfg) (k : ℕ) (s : WriteSys), cfg.ops.Lawful → k ≤ 31 →
      (system cfg k).ReachableUnder (fun _ a => SendsTo a) s → s.KeepsDestination := by
  intro h
  have hrun : ((system ⟨false, sendOps⟩ 1).run oneSlot
      (oneByte (.write [2] (some ⟨1, 8⟩) :: List.replicate 7 (.writer none)))).any (fun s =>
        s.committed ++ s.returned.toList.map s.content = [([1, 2], some ⟨1, 7⟩)] ∧
          s.calls = [([1], ⟨1, 7⟩), ([2], ⟨1, 8⟩)]) = true := by
    decide +kernel
  have hmeet : (system ⟨false, sendOps⟩ 1).stepsMeet (fun _ a => SendsTo a) oneSlot
      (oneByte (.write [2] (some ⟨1, 8⟩) :: List.replicate 7 (.writer none))) := by
    decide +kernel
  obtain ⟨s, hs, hstate⟩ := (Option.any_eq_true _ _).1 hrun
  obtain ⟨htaken, hcalls⟩ := of_decide_eq_true hstate
  have hreach := Transition.System.reachableUnder_of_run (.init (oneSlot_init _)) hs hmeet
  obtain ⟨left, hleft⟩ := h _ 1 s sendOps_lawful (by decide) hreach
  rw [htaken, hcalls] at hleft
  -- no call has sent the two bytes
  obtain ⟨m, hm, hin, -⟩ := hleft.exists_message List.mem_cons_self
  have hlen := hin.length_le
  rcases List.mem_cons.1 hm with rfl | hm
  · exact absurd hlen (by decide)
  · obtain rfl := List.mem_singleton.1 hm
    exact absurd hlen (by decide)

end WriteSys

end Gazelle
