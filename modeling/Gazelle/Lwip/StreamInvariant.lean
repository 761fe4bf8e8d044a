import Gazelle.Lwip.StreamStock
import Gazelle.Ring.LastSlot

/-!
# The invariant of the send stream

A call of `write_stack_data` puts its data behind the data in the pbuf confirmed last, into pbufs of
the ring, or into pbufs from the pool that it hangs behind a pbuf of the ring. The stack takes the
chains from the ring, takes them apart and commits their pbufs one by one. The application finds the
pbuf confirmed last in a slot of the ring and only then takes its lock and tests `allow_in`; both
are in the pbuf, which may have been committed, released and initialised again in between.

* `WriteSys.NoReentry`: no pbuf that a write is using is initialised again;
* `WriteSys.StreamInv`: where the pbufs are, who has which lock, and that the bytes accepted are
  those committed, with the stack, or in the confirmed part of the ring;
* `WriteSys.StreamInv.congr`, `WriteSys.StreamInv.setWriter`: the steps that move no pbuf.
-/

namespace Gazelle

open Linked WrapCounter

namespace WriteSys

variable (s : WriteSys)

/-! ## What a write uses -/

/-- The pbufs that the write in progress has read from the ring, or is about to look at: after
the load of `cons.tail` the last pbuf counts, and before the store of `last` the first one of a
chain. -/
def held : List PbufPtr :=
  match s.writer with
  | .lastSlot _ _ _ => s.ring.confirmed.getLast?.toList
  | .lastLock _ _ p | .lastTest _ _ p | .lastRefuse _ _ p | .merge _ p | .mergeOver _ p
  | .attach _ p _ | .attachOver _ p => [p]
  | .directDone _ pbufs => pbufs.head?.toList
  | _ => []

/-- No pbuf that the write in progress uses is initialised again, neither for the ring of the socket
nor for another one. -/
def NoReentry : WriteAct → Prop
  | .replenish (some mbufs) => ∀ p ∈ s.held, p ∉ mbufs
  | .lwip p b _ => p ∈ s.held → b.allowIn = (s.heap p).allowIn ∧ b.locked = (s.heap p).locked
  | _ => True

/-- Whether an action initialises no pbuf in use is decidable. -/
instance (a : WriteAct) : Decidable (s.NoReentry a) := by
  unfold NoReentry
  split <;> infer_instance

/-! ## Where the pbufs are -/

/-- The pbufs of the ring that the stack has not taken. -/
def ringWaiting : List PbufPtr := s.inHand ++ s.ring.confirmed.drop s.ring.dequeued.length

/-- The chains that are filled and not confirmed. -/
def filledChains : List (PbufPtr × List PbufPtr) :=
  match s.writer with
  | .buffOver _ pbufs _ => pbufs.map fun p => (p, [])
  | .directOver _ (p :: mbufs) _ => [(p, mbufs)]
  | _ => []

/-- The pbufs that `app_direct_write` has allocated and not initialised. -/
def claimed : List PbufPtr :=
  match s.writer with
  | .directRead _ mbufs => mbufs
  | .directFill _ pbufs => pbufs.tail
  | _ => []

/-- The pbufs that nobody has filled yet. -/
def unfilled : List PbufPtr :=
  s.ring.accepted.drop (s.ring.confirmed.length + s.filledChains.length) ++ s.replenishing

/-- The last pbuf of the chain of `p`, also while the store of `last` is due. -/
def lastOf (p : PbufPtr) : PbufPtr :=
  match s.writer with
  | .directOver _ pbufs _ | .directDone _ pbufs =>
    if pbufs.head? = some p then pbufs.getLastD 0 else (s.heap p).last
  | _ => (s.heap p).last

/-- The pbufs that the stack has taken: `send_pre_del`, what is behind it, and `send_lastdata`. -/
def taken (rest left : List PbufPtr) : List PbufPtr := s.sendPreDel.toList ++ (rest ++ left)

/-- The bytes accepted so far. -/
def acceptedBytes : List Byte := (s.accepted ++ s.current).flatMap Prod.fst

/-- The bytes committed. -/
def committedBytes : List Byte := s.committed.flatMap Prod.fst

/-- The chains that the stack works on: the pbufs `rest` behind `send_pre_del` and the pbufs `left`
from `send_lastdata` on, of which there are not both. -/
structure StackChains (heap : SendHeap) (pre lastdata : Option PbufPtr) (rest left : List PbufPtr) :
    Prop where
  /-- Nothing is behind no pbuf. -/
  pre_none : pre = none → rest = []
  /-- The chain behind `send_pre_del`. -/
  pre_some : ∀ p, pre = some p → heap.Chain (heap p).next rest
  /-- The chain from `send_lastdata` on. -/
  chain_left : heap.Chain lastdata left
  /-- The stack detaches the one before it has the other. -/
  one : rest = [] ∨ left = []

/-! ## Where the application stands -/

/-- The application has the pbuf confirmed last, and the stack has not taken it. -/
structure Holding (p : PbufPtr) : Prop where
  /-- It was confirmed last. -/
  last : s.ring.confirmed.getLast? = some p
  /-- The stack has not committed it. -/
  waiting : p ∈ s.waiting
  /-- Nor has it returned it. -/
  allowIn : (s.heap p).allowIn = true

/-- The stack has not committed the pbuf, or has closed it before. -/
def KeptLast (p : PbufPtr) : Prop := p ∈ s.waiting ∨ (s.heap p).allowIn = false

end WriteSys

/-- The application neither has filled pbufs that are not confirmed nor allocated ones. -/
def WriterPc.Plain : WriterPc → Prop
  | .buffOver _ _ _ | .directRead _ _ | .directFill _ _ | .directOver _ _ _ | .directDone _ _ =>
    False
  | _ => True

/-- The data of the call that is not in pbufs yet. -/
def WriteCall.left (c : WriteCall) : List Byte := c.data.drop c.sendLen

/-- What is in pbufs was merged into one pbuf. -/
structure WriteCall.Fine (c : WriteCall) : Prop where
  /-- It is data of the call. -/
  sendLen_le : c.sendLen ≤ c.data.length
  /-- It was merged. -/
  merged : c.sendLen ≤ mbufMaxDataLen
  /-- The number of pbufs is a `uint32_t`. -/
  writeNum : WriteSys.writeNum c < 2 ^ 32

/-- The use of the last pbuf goes with the call. -/
def LastUse.Fits (use : LastUse) (c : WriteCall) : Prop :=
  match use with
  | .merge => c.sendLen = 0 ∧ c.data ≠ []
  | .attach num => Gazelle.Fits num.toNat c.left

namespace WriteSys

/-- What holds where the application stands. -/
def WriterIs (start : U32) (s : WriteSys) : Prop :=
  match s.writer with
  | .idle => ReaderRests s.ring
  | .lastTail use c => ReaderRests s.ring ∧ c.Fine ∧ use.Fits c
  | .lastSlot use c tail => ReaderRests s.ring ∧ (c.Fine ∧ use.Fits c) ∧
    ∃ n, Shows start tail n ∧ n ≤ s.ring.dequeued.length ∧
      (n < s.ring.confirmed.length → ∀ p, s.ring.confirmed.getLast? = some p → s.KeptLast p)
  | .lastLock use c p | .lastTest use c p => ReaderRests s.ring ∧ (c.Fine ∧ use.Fits c) ∧
    s.ring.confirmed.getLast? = some p ∧ s.KeptLast p
  | .lastRefuse use c _ => ReaderRests s.ring ∧ c.Fine ∧ use.Fits c
  | .merge c p => ReaderRests s.ring ∧ (c.Fine ∧ LastUse.merge.Fits c) ∧ s.Holding p
  | .mergeOver c p => ReaderRests s.ring ∧ c.Fine ∧ s.Holding p
  | .count c => ReaderRests s.ring ∧ c.Fine ∧ c.sendLen < c.data.length
  | .attach c p num => ReaderRests s.ring ∧ (c.Fine ∧ Fits num.toNat c.left) ∧ s.Holding p
  | .attachOver c p => ReaderRests s.ring ∧ c.sendLen ≤ c.data.length ∧ s.Holding p
  | .attachAddr c _ | .ret c => ReaderRests s.ring ∧ c.sendLen ≤ c.data.length
  | .buffRead c num => (∃ out, RingSys.FullReading start num out out s.ring) ∧
    c.sendLen ≤ c.data.length ∧ Fits num.toNat c.left
  | .buffFill c pbufs => (∃ out, RingSys.ReaderResting (out ++ pbufs) out s.ring) ∧
    c.sendLen ≤ c.data.length ∧ Fits pbufs.length c.left
  | .buffOver c pbufs written =>
    (∃ out, RingSys.Confirming (out ++ pbufs) out s.ring ∧ s.ring.reader ≠ .overDone) ∧
      c.sendLen ≤ c.data.length ∧ written = c.left.length ∧ s.heap.bytes pbufs = c.left
  | .buffDone c _ => (∃ out, RingSys.Confirming out out s.ring ∧ s.ring.reader = .overDone) ∧
    c.sendLen ≤ c.data.length
  | .directAlloc c num => ReaderRests s.ring ∧ c.sendLen ≤ c.data.length ∧ Fits num.toNat c.left ∧
    s.ring.readOut.length < s.ring.accepted.length
  | .directRead c mbufs => (∃ out, RingSys.FullReading start 1 out out s.ring) ∧
    c.sendLen ≤ c.data.length ∧ Fits (mbufs.length + 1) c.left
  | .directFill c pbufs => (∃ out p mbufs, pbufs = p :: mbufs ∧
      RingSys.ReaderResting (out ++ [p]) out s.ring) ∧
    c.sendLen ≤ c.data.length ∧ Fits pbufs.length c.left
  | .directOver c pbufs written =>
    (∃ out p mbufs, pbufs = p :: mbufs ∧ RingSys.Confirming (out ++ [p]) out s.ring ∧
      s.ring.reader ≠ .overDone) ∧
      c.sendLen ≤ c.data.length ∧ written = c.left.length ∧ s.heap.bytes pbufs = c.left
  | .directDone c pbufs => (∃ out, RingSys.Confirming out out s.ring ∧ s.ring.reader = .overDone) ∧
    c.sendLen ≤ c.data.length ∧ ∃ p mbufs, pbufs = p :: mbufs ∧ p ∉ s.unfilled

/-- The pbuf is closed, or is not the last one. -/
def ClosedOrCovered (s : WriteSys) (p : PbufPtr) : Prop :=
  (s.heap p).allowIn = false ∨ s.ring.confirmed.getLast? ≠ some p

/-- What holds where the stack stands, besides `StackAt`. -/
def StackIs (s : WriteSys) : Prop :=
  match s.stack with
  | .out | .replenish _ => True
  | .dequeue _ | .readover _ _ => s.returned = none ∧ s.sendLastdata = none
  | .lock first _ _ | .test first _ _ | .unlockNull first _ =>
    s.returned = none ∧ (first = true → s.sendLastdata = none)
  | .unlock first p | .detach first p =>
    (s.returned = none ∧ (first = true → s.sendLastdata = none)) ∧ s.ClosedOrCovered p

/-- The lock that the application has. -/
def writerLock (s : WriteSys) : Option PbufPtr :=
  match s.writer with
  | .lastTest _ _ p | .lastRefuse _ _ p | .merge _ p | .mergeOver _ p | .attach _ p _
  | .attachOver _ p => some p
  | _ => none

/-- The lock that the stack has. -/
def stackLock (s : WriteSys) : Option PbufPtr :=
  match s.stack with
  | .test _ p _ | .unlockNull _ p | .unlock _ p => some p
  | _ => none

/-- The locks that the two threads have are taken, and are different ones. -/
structure LockInv (s : WriteSys) : Prop where
  /-- The lock of the application. -/
  writer : ∀ p, s.writerLock = some p → (s.heap p).locked = true
  /-- The lock of the stack. -/
  stack : ∀ p, s.stackLock = some p → (s.heap p).locked = true
  /-- They are different. -/
  apart : ∀ p, s.writerLock = some p → s.stackLock ≠ some p

/-! ## The invariant -/

/-- The lists that the invariant speaks of. -/
structure StreamView where
  /-- The pbufs behind `send_pre_del`. -/
  rest : List PbufPtr
  /-- The pbufs from `send_lastdata` on. -/
  left : List PbufPtr
  /-- The chains of the ring. -/
  chains : List (PbufPtr × List PbufPtr)

/-- The invariant of a socket. -/
structure StreamInv (k : ℕ) (start : U32) (s : WriteSys) (v : StreamView) : Prop where
  /-- The ring is right. -/
  ring : RingSys.RingInv k start s.ring
  /-- The slot of the last pbuf still holds it. -/
  behind : RingSys.HoldsBehind start s.ring
  /-- What was returned is in `send_pre_del`, and nothing is behind it. -/
  returned : ∀ p ∈ s.returned, s.sendPreDel = some p ∧ v.rest = []
  /-- The application is right. -/
  writer : s.WriterIs start
  /-- The stack is right. -/
  stack : s.StackAt k
  /-- The stack has detached what it has to. -/
  stackIs : s.StackIs
  /-- The locks are right. -/
  locks : s.LockInv
  /-- The chains of the ring are those of its pbufs. -/
  heads : v.chains.map Prod.fst = s.ringWaiting
  /-- The chains of the stack. -/
  stackChains : StackChains s.heap s.sendPreDel s.sendLastdata v.rest v.left
  /-- The pbufs are right. -/
  stock : StreamStock s.heap s.inits s.committedBorn (s.taken v.rest v.left)
    (v.chains ++ s.filledChains) s.claimed s.unfilled
  /-- The last pbufs of the chains are right. -/
  lasts : ∀ w ∈ v.chains ++ s.filledChains, (w.1 :: w.2).getLast? = some (s.lastOf w.1)
  /-- A blank pbuf is its own last one. -/
  blankLasts : ∀ p ∈ s.unfilled, s.lastOf p = p
  /-- The pbuf confirmed last is still a whole chain when it is taken and not closed. -/
  untouched : ∀ p, s.sendPreDel = some p → s.ring.confirmed.getLast? = some p →
    (s.heap p).allowIn = true →
    v.left = [] ∧ s.returned = none ∧ (p :: v.rest).getLast? = some (s.lastOf p)
  /-- It is never behind another one. -/
  apart : ∀ p, s.ring.confirmed.getLast? = some p → p ∉ v.rest ++ v.left
  /-- What is accepted is committed or with the stack or in the ring. -/
  bytes : s.acceptedBytes =
    s.committedBytes ++ s.heap.bytes (s.taken v.rest v.left ++ cells v.chains)

variable {cfg : SendCfg} {k : ℕ} {start : U32} {s s' : WriteSys} {v : StreamView}

/-! ### The lists -/

/-- All pbufs of the invariant. -/
def stockPbufs (s : WriteSys) (v : StreamView) : List PbufPtr :=
  s.taken v.rest v.left ++ (cells (v.chains ++ s.filledChains) ++ (s.claimed ++ s.unfilled))

theorem filledChains_eq_nil (h : s.writer.Plain) : s.filledChains = [] := by
  unfold filledChains
  split
  · rename_i hpc
    rw [hpc] at h
    exact h.elim
  · rename_i hpc
    rw [hpc] at h
    exact h.elim
  · rfl

theorem claimed_eq_nil (h : s.writer.Plain) : s.claimed = [] := by
  unfold claimed
  split
  · rename_i hpc
    rw [hpc] at h
    exact h.elim
  · rename_i hpc
    rw [hpc] at h
    exact h.elim
  · rfl

theorem lastOf_eq (h : s.writer.Plain) (p : PbufPtr) : s.lastOf p = (s.heap p).last := by
  unfold lastOf
  split
  · rename_i hpc
    rw [hpc] at h
    exact h.elim
  · rename_i hpc
    rw [hpc] at h
    exact h.elim
  · rfl

theorem waiting_eq : s.waiting = s.sendPreDel.toList ++ s.ringWaiting := rfl

/-- The pbufs that wait in the ring are the last ones confirmed. -/
theorem StreamInv.ringWaiting_suffix (h : StreamInv k start s v) :
    s.ringWaiting <:+ s.ring.confirmed := by
  have hat := h.stack
  unfold ringWaiting inHand
  split
  · rename_i hpc hdone
    simp only [StackAt, hpc] at hat
    obtain ⟨-, acc, deq, hdeq⟩ := hat
    obtain ⟨rest, hrest⟩ := h.ring.dequeued_prefix
    rw [← hrest, List.drop_left, (hdeq.returned hdone).1, List.append_assoc]
    exact List.suffix_append _ _
  · exact List.drop_suffix _ _

/-- The pbuf confirmed last is the last one that waits in the ring, if one waits. -/
theorem StreamInv.getLast_ringWaiting (h : StreamInv k start s v) (hne : s.ringWaiting ≠ [])
    {p : PbufPtr} (hlast : s.ring.confirmed.getLast? = some p) :
    s.ringWaiting.getLast? = some p := by
  obtain ⟨l, hl⟩ := h.ringWaiting_suffix
  rw [← hl, List.getLast?_append_of_ne_nil _ hne] at hlast
  exact hlast

/-- The pbufs of the ring are the heads of chains. -/
theorem StreamInv.mem_cells (h : StreamInv k start s v) {p : PbufPtr} (hp : p ∈ s.ringWaiting) :
    p ∈ cells v.chains := by
  rw [← h.heads] at hp
  obtain ⟨w, hw, rfl⟩ := List.mem_map.1 hp
  exact mem_cells_of_mem hw List.mem_cons_self

/-- What waits for the stack belongs to the send path. -/
theorem StreamInv.mem_stock_of_waiting (h : StreamInv k start s v) {p : PbufPtr}
    (hp : p ∈ s.waiting) : p ∈ s.taken v.rest v.left ++ cells v.chains := by
  rcases List.mem_append.1 hp with hp | hp
  · exact List.mem_append_left _ (List.mem_append_left _ hp)
  · exact List.mem_append_right _ (h.mem_cells hp)

theorem mem_stockPbufs {p : PbufPtr} (hp : p ∈ s.taken v.rest v.left ++ cells v.chains) :
    p ∈ s.stockPbufs v := by
  rw [stockPbufs, cells_append]
  simp only [List.mem_append] at hp ⊢
  tauto

/-- Where the pbuf is that the application has: at the end of the ring, or with the stack and the
ring is empty. -/
theorem StreamInv.last_cases (h : StreamInv k start s v) {p : PbufPtr}
    (hlast : s.ring.confirmed.getLast? = some p) (hwaiting : p ∈ s.waiting) :
    (∃ ws t, v.chains = ws ++ [(p, t)]) ∨ (s.sendPreDel = some p ∧ v.chains = []) := by
  by_cases hne : s.ringWaiting = []
  · right
    have hnil : v.chains = [] := List.map_eq_nil_iff.1 (h.heads.trans hne)
    rw [waiting_eq, hne, List.append_nil, Option.mem_toList] at hwaiting
    exact ⟨hwaiting, hnil⟩
  · left
    have hring := h.getLast_ringWaiting hne hlast
    rw [← h.heads, List.getLast?_map, Option.map_eq_some_iff] at hring
    obtain ⟨⟨p', t⟩, hw, rfl⟩ := hring
    obtain ⟨ws, hws⟩ := List.getLast?_eq_some_iff.1 hw
    exact ⟨ws, t, hws⟩

/-! ### Steps that move no pbuf -/

/-- The lists of the invariant have not changed. -/
structure SameLists (s s' : WriteSys) : Prop where
  /-- `send_pre_del`. -/
  sendPreDel : s'.sendPreDel = s.sendPreDel
  /-- `send_lastdata`. -/
  sendLastdata : s'.sendLastdata = s.sendLastdata
  /-- The number of initialisations. -/
  inits : s'.inits = s.inits
  /-- What is committed. -/
  committedBorn : s'.committedBorn = s.committedBorn
  /-- What is confirmed. -/
  confirmed : s'.ring.confirmed = s.ring.confirmed
  /-- What waits in the ring. -/
  ringWaiting : s'.ringWaiting = s.ringWaiting
  /-- What is filled. -/
  filledChains : s'.filledChains = s.filledChains
  /-- What is claimed. -/
  claimed : s'.claimed = s.claimed
  /-- What is unfilled. -/
  unfilled : s'.unfilled = s.unfilled

theorem SameLists.taken (h : SameLists s s') (rest left : List PbufPtr) :
    s'.taken rest left = s.taken rest left := by
  rw [WriteSys.taken, WriteSys.taken, h.sendPreDel]

theorem SameLists.waiting (h : SameLists s s') : s'.waiting = s.waiting := by
  rw [waiting_eq, waiting_eq, h.sendPreDel, h.ringWaiting]

/-- The steps that leave all pbufs where they are. -/
theorem StreamInv.congrSpot (h : StreamInv k start s v) (hsame : SameLists s s')
    (hring : RingSys.RingInv k start s'.ring) (hbehind : RingSys.HoldsBehind start s'.ring)
    (hreturned : s'.returned = s.returned ∨ s'.returned = none)
    (hheap : ∀ q ∈ s.stockPbufs v, (s.heap q).SameSpot (s'.heap q))
    (hblank : ∀ q ∈ s.unfilled, (s'.heap q).Blank)
    (hallow : ∀ q ∈ s.stockPbufs v, (s'.heap q).allowIn = true → (s.heap q).allowIn = true)
    (hlast : ∀ q ∈ s.stockPbufs v, s'.lastOf q = s.lastOf q)
    (hbytes : s'.acceptedBytes =
      s'.committedBytes ++ s'.heap.bytes (s.taken v.rest v.left ++ cells v.chains))
    (hwriter : s'.WriterIs start) (hstack : s'.StackAt k) (hstackIs : s'.StackIs)
    (hlocks : s'.LockInv) : StreamInv k start s' v where
  ring := hring
  behind := hbehind
  returned p hp := by
    -- nothing is given back, or it is the same pbuf
    rcases hreturned with heq | heq
    · rw [heq] at hp
      exact ⟨hsame.sendPreDel.trans (h.returned p hp).1, (h.returned p hp).2⟩
    · rw [heq] at hp
      cases hp
  writer := hwriter
  stack := hstack
  stackIs := hstackIs
  locks := hlocks
  heads := h.heads.trans hsame.ringWaiting.symm
  stackChains := by
    -- no pbuf of the stack is linked otherwise
    have hmem : ∀ q ∈ s.taken v.rest v.left, (s'.heap q).next = (s.heap q).next := fun q hq =>
      (hheap q (mem_stockPbufs (List.mem_append_left _ hq))).next
    rw [hsame.sendPreDel, hsame.sendLastdata]
    refine ⟨h.stackChains.pre_none, fun p hp => ?_, ?_, h.stackChains.one⟩
    · rw [hmem p (by rw [WriteSys.taken, hp]; exact List.mem_cons_self)]
      exact (h.stackChains.pre_some p hp).congr fun q hq => hmem q
        (List.mem_append_right _ (List.mem_append_left _ hq))
    · exact h.stackChains.chain_left.congr fun q hq => hmem q
        (List.mem_append_right _ (List.mem_append_right _ hq))
  stock := by
    rw [hsame.taken, hsame.inits, hsame.committedBorn, hsame.filledChains, hsame.claimed,
      hsame.unfilled]
    exact h.stock.congr hheap hblank
  lasts w hw := by
    rw [hsame.filledChains] at hw
    -- the head of a chain is one of the pbufs that the step keeps
    have hmem : w.1 ∈ s.stockPbufs v := List.mem_append_right _
      (List.mem_append_left _ (mem_cells_of_mem hw List.mem_cons_self))
    rw [hlast _ hmem]
    exact h.lasts w hw
  blankLasts p hp := by
    rw [hsame.unfilled] at hp
    have hmem : p ∈ s.stockPbufs v := List.mem_append_right _
      (List.mem_append_right _ (List.mem_append_right _ hp))
    exact (hlast p hmem).trans (h.blankLasts p hp)
  untouched p hp hlastp hallowp := by
    rw [hsame.sendPreDel] at hp
    rw [hsame.confirmed] at hlastp
    have hmem : p ∈ s.stockPbufs v := mem_stockPbufs
      (List.mem_append_left _ (by rw [WriteSys.taken, hp]; exact List.mem_cons_self))
    -- a pbuf that is open now was open before
    obtain ⟨hleft, hnone, heq⟩ := h.untouched p hp hlastp (hallow p hmem hallowp)
    refine ⟨hleft, ?_, (hlast p hmem).symm ▸ heq⟩
    rcases hreturned with hr | hr
    · exact hr.trans hnone
    · exact hr
  apart p hp := h.apart p (hsame.confirmed ▸ hp)
  bytes := by
    rw [hsame.taken]
    exact hbytes

/-- The steps that also keep the data. -/
theorem StreamInv.congr (h : StreamInv k start s v) (hsame : SameLists s s')
    (hring : RingSys.RingInv k start s'.ring) (hbehind : RingSys.HoldsBehind start s'.ring)
    (hreturned : s'.returned = s.returned ∨ s'.returned = none)
    (hheap : ∀ q ∈ s.stockPbufs v, (s.heap q).SameBody (s'.heap q))
    (hallow : ∀ q ∈ s.stockPbufs v, (s'.heap q).allowIn = true → (s.heap q).allowIn = true)
    (hlast : ∀ q ∈ s.stockPbufs v, s'.lastOf q = s.lastOf q)
    (hbytes : s'.acceptedBytes = s.acceptedBytes)
    (hcommitted : s'.committedBytes = s.committedBytes)
    (hwriter : s'.WriterIs start) (hstack : s'.StackAt k) (hstackIs : s'.StackIs)
    (hlocks : s'.LockInv) : StreamInv k start s' v := by
  refine h.congrSpot hsame hring hbehind hreturned (fun q hq => (hheap q hq).toSameSpot)
    (fun q hq => (hheap q ?_).blank (h.stock.blank q hq)) hallow hlast ?_ hwriter hstack hstackIs
    hlocks
  · exact List.mem_append_right _ (List.mem_append_right _ (List.mem_append_right _ hq))
  · rw [hbytes, hcommitted, h.bytes, SendHeap.bytes_congr fun q hq =>
      (hheap q (mem_stockPbufs hq)).bytes]

/-! ### The application leaves the stack alone -/

theorem SameStack.ringWaiting (h : SameStack s s')
    (hconf : s'.ring.confirmed = s.ring.confirmed) : s'.ringWaiting = s.ringWaiting := by
  rw [WriteSys.ringWaiting, WriteSys.ringWaiting, h.inHand, hconf, h.owner.dequeued]

theorem SameStack.stackIs (h : SameStack s s') (hs : s.StackIs)
    (hclosed : ∀ p, s.sendPreDel = some p → s.ClosedOrCovered p → s'.ClosedOrCovered p)
    (hat : s.StackAt k) : s'.StackIs := by
  unfold StackIs at hs ⊢
  unfold StackAt at hat
  rw [h.stack, h.returned, h.sendLastdata]
  cases hpc : s.stack with
  | unlock first p =>
    rw [hpc] at hs hat
    exact ⟨hs.1, hclosed p hat.2 hs.2⟩
  | detach first p =>
    rw [hpc] at hs hat
    exact ⟨hs.1, hclosed p hat.2 hs.2⟩
  | _ =>
    rw [hpc] at hs
    exact hs

theorem SameStack.stackLock (h : SameStack s s') : s'.stackLock = s.stackLock := by
  unfold WriteSys.stackLock
  rw [h.stack]

/-- Without a store to a lock the locks stay right. -/
theorem LockInv.congr (h : s.LockInv)
    (hwriter : s'.writerLock = s.writerLock ∨ s'.writerLock = none)
    (hstack : s'.stackLock = s.stackLock ∨ s'.stackLock = none)
    (hlocked : ∀ p, s.writerLock = some p ∨ s.stackLock = some p →
      (s'.heap p).locked = (s.heap p).locked) : s'.LockInv where
  writer p hp := by
    rcases hwriter with heq | heq
    · rw [heq] at hp
      exact (hlocked p (.inl hp)).trans (h.writer p hp)
    · rw [heq] at hp
      cases hp
  stack p hp := by
    rcases hstack with heq | heq
    · rw [heq] at hp
      exact (hlocked p (.inr hp)).trans (h.stack p hp)
    · rw [heq] at hp
      cases hp
  apart p hp := by
    rcases hwriter with heq | heq
    · rw [heq] at hp
      rcases hstack with heq' | heq'
      · rw [heq']
        exact h.apart p hp
      · rw [heq']
        rintro ⟨⟩
    · rw [heq] at hp
      cases hp

/-- A step of the application that leaves the pbufs where they are, with their data. -/
theorem StreamInv.setWriter (h : StreamInv k start s v) (hsame : SameStack s s')
    (hring : RingSys.RingInv k start s'.ring) (hbehind : RingSys.HoldsBehind start s'.ring)
    (hconf : s'.ring.confirmed = s.ring.confirmed) (hinits : s'.inits = s.inits)
    (hborn : s'.committedBorn = s.committedBorn) (hfilled : s'.filledChains = s.filledChains)
    (hclaimed : s'.claimed = s.claimed)
    (hheap : ∀ q ∈ s.stockPbufs v, (s.heap q).SameBody (s'.heap q))
    (hallow : ∀ q ∈ s.stockPbufs v, (s'.heap q).allowIn = (s.heap q).allowIn)
    (hlast : ∀ q ∈ s.stockPbufs v, s'.lastOf q = s.lastOf q)
    (hbytes : s'.acceptedBytes = s.acceptedBytes) (hwriter : s'.WriterIs start)
    (hlocks : s'.LockInv) : StreamInv k start s' v := by
  have hunfilled : s'.unfilled = s.unfilled := by
    rw [unfilled, unfilled, hsame.replenishing, hsame.owner.accepted, hconf, hfilled]
  refine h.congr ⟨hsame.sendPreDel, hsame.sendLastdata, hinits, hborn, hconf,
    hsame.ringWaiting hconf, hfilled, hclaimed, hunfilled⟩ hring hbehind (.inl hsame.returned) hheap
    (fun q hq ha => (hallow q hq).symm.trans ha) hlast hbytes ?_ hwriter (hsame.stackAt h.stack)
    (hsame.stackIs h.stackIs (fun p hp hclosed => ?_) h.stack) hlocks
  · rw [committedBytes, committedBytes, hsame.committed]
  · have hmem : p ∈ s.stockPbufs v := mem_stockPbufs
      (List.mem_append_left _ (by rw [taken, hp]; exact List.mem_cons_self))
    rw [ClosedOrCovered, hallow p hmem, hconf]
    exact hclosed

/-- The bytes accepted depend on the calls only. -/
theorem acceptedBytes_congr (hacc : s'.accepted = s.accepted) (hcurrent : s'.current = s.current) :
    s'.acceptedBytes = s.acceptedBytes := by
  rw [acceptedBytes, acceptedBytes, hacc, hcurrent]

/-- What the call has accepted is the data that is in pbufs. -/
theorem acceptedBytes_of_call {c : WriteCall} (hcall : s.writer.call = some c) :
    s.acceptedBytes = s.accepted.flatMap Prod.fst ++ c.data.take c.sendLen := by
  rw [acceptedBytes, List.flatMap_append, current, hcall]
  congr 1
  by_cases hzero : c.sendLen = 0
  · simp only [hzero, if_true, List.flatMap_nil, List.take_zero]
  · simp only [if_neg hzero, List.flatMap_cons, List.flatMap_nil, List.append_nil]

/-- A step of the application outside the ring that changes no more than locks and addresses. -/
theorem StreamInv.setPlain (h : StreamInv k start s v) {heap : SendHeap}
    {addr : PbufPtr → PbufAddr} {w : WriterPc} {remainLen : BitVec 32} (hplain : s.writer.Plain)
    (hplain' : w.Plain) (hcurrent : current { s with writer := w } = s.current)
    (hheap : ∀ q, (s.heap q).SameBody (heap q) ∧ (heap q).allowIn = (s.heap q).allowIn ∧
      (heap q).last = (s.heap q).last)
    (hwriter : WriterIs start { s with heap, addr, writer := w, remainLen })
    (hlocks : LockInv { s with heap, addr, writer := w, remainLen }) :
    StreamInv k start { s with heap, addr, writer := w, remainLen } v := by
  refine h.setWriter ⟨⟨rfl, rfl, rfl⟩, rfl, rfl, rfl, rfl, rfl⟩ h.ring h.behind rfl rfl rfl ?_ ?_
    (fun q _ => (hheap q).1) (fun q _ => (hheap q).2.1) (fun q _ => ?_)
    (acceptedBytes_congr rfl hcurrent) hwriter hlocks
  · rw [filledChains_eq_nil hplain]
    exact filledChains_eq_nil (s := { s with heap, addr, writer := w, remainLen }) hplain'
  · rw [claimed_eq_nil hplain]
    exact claimed_eq_nil (s := { s with heap, addr, writer := w, remainLen }) hplain'
  · rw [lastOf_eq hplain, lastOf_eq (s := { s with heap, addr, writer := w, remainLen }) hplain']
    exact (hheap q).2.2

/-- A step that changes no pbuf and leaves the lock of the application, if any. -/
theorem StreamInv.setPc (h : StreamInv k start s v) {w : WriterPc} {remainLen : BitVec 32}
    (hplain : s.writer.Plain) (hplain' : w.Plain)
    (hcurrent : current { s with writer := w } = s.current)
    (hlock : writerLock { s with writer := w } = s.writerLock ∨
      writerLock { s with writer := w } = none)
    (hwriter : WriterIs start { s with writer := w, remainLen }) :
    StreamInv k start { s with writer := w, remainLen } v :=
  h.setPlain hplain hplain' hcurrent (fun _ => ⟨.refl _, rfl, rfl⟩) hwriter
    (h.locks.congr hlock (.inl rfl) fun _ _ => rfl)

/-- The application takes a lock that is free. -/
theorem LockInv.writerTake (h : s.LockInv) {p : PbufPtr} {w : WriterPc}
    (hfree : ¬ (s.heap p).locked = true) (hw : writerLock { s with writer := w } = some p) :
    LockInv { s with heap := s.heap.modify p .lock, writer := w } where
  writer q hq := by
    obtain rfl : p = q := Option.some.inj (hw.symm.trans hq)
    show (s.heap.modify p .lock p).locked = true
    rw [SendHeap.modify_self]
    rfl
  stack q hq := by
    show (s.heap.modify p .lock q).locked = true
    by_cases heq : q = p
    · rw [heq, SendHeap.modify_self]
      rfl
    · rw [SendHeap.modify_of_ne heq]
      exact h.stack q hq
  apart q hq hq' := by
    obtain rfl : p = q := Option.some.inj (hw.symm.trans hq)
    exact hfree (h.stack p hq')

/-- The application releases its lock. -/
theorem LockInv.writerRelease (h : s.LockInv) {p : PbufPtr} {w : WriterPc} {remainLen : BitVec 32}
    (hw : s.writerLock = some p) (hw' : writerLock { s with writer := w } = none) :
    LockInv { s with heap := s.heap.modify p .unlock, writer := w, remainLen } := by
  refine ⟨fun q hq => ?_, fun q hq => ?_, fun q hq => ?_⟩
  · cases hw'.symm.trans hq
  · have hne : q ≠ p := by
      rintro rfl
      exact h.apart q hw hq
    show (s.heap.modify p .unlock q).locked = true
    rw [SendHeap.modify_of_ne hne]
    exact h.stack q hq
  · cases hw'.symm.trans hq

/-- Operations on locks keep the rest. -/
theorem keeps_lock (heap : SendHeap) (p q : PbufPtr) :
    (heap q).SameBody (heap.modify p .lock q) ∧
      (heap.modify p .lock q).allowIn = (heap q).allowIn ∧
      (heap.modify p .lock q).last = (heap q).last :=
  ⟨SendPbuf.SameBody.modify ⟨⟨rfl, rfl, rfl⟩, rfl, rfl, rfl⟩ q,
    SendHeap.modify_field (·.allowIn) rfl, SendHeap.modify_field (·.last) rfl⟩

theorem keeps_unlock (heap : SendHeap) (p q : PbufPtr) :
    (heap q).SameBody (heap.modify p .unlock q) ∧
      (heap.modify p .unlock q).allowIn = (heap q).allowIn ∧
      (heap.modify p .unlock q).last = (heap q).last :=
  ⟨SendPbuf.SameBody.modify ⟨⟨rfl, rfl, rfl⟩, rfl, rfl, rfl⟩ q,
    SendHeap.modify_field (·.allowIn) rfl, SendHeap.modify_field (·.last) rfl⟩

end WriteSys

end Gazelle
