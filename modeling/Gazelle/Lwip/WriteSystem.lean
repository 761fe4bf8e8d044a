import Gazelle.Lwip.SendPbuf
import Gazelle.Ring.Calls

/-!
# The send path of a socket under two threads

One application thread calls `write_stack_data`; the stack thread calls `write_lwip_data`,
`write_lwip_over` and `replenish_send_idlembuf`. The functions are split at their accesses to the
counters of `send_ring` and at the operations on `pbuf_lock`; what lies between two of them is one
step. lwIP changes the pbufs that it owns, and releases them to the pool.

`WriteSys` also records what the calls have accepted and what the stack has committed. Nothing reads
these histories.
-/

namespace Gazelle

/-- A call of `write_stack_data`. -/
structure WriteCall where
  /-- `buf` up to `len`. -/
  data : List Byte
  /-- The destination, `none` for `addr == NULL`. -/
  addr : Option PbufAddr
  /-- `send_len`: the bytes that are in pbufs already. -/
  sendLen : ℕ
  deriving DecidableEq

/-- What `gazelle_ring_readlast` is called for. -/
inductive LastUse
  /-- By `merge_data_lastpbuf`. -/
  | merge
  /-- For `app_direct_attach` with `write_num` pbufs. -/
  | attach (writeNum : U32)
  deriving DecidableEq

/-- Where the application stands in `write_stack_data`. -/
inductive WriterPc
  /-- Outside. -/
  | idle
  /-- `gazelle_ring_readlast` before its load of `cons.tail`. -/
  | lastTail (use : LastUse) (c : WriteCall)
  /-- Before it reads the slot of the last pbuf. -/
  | lastSlot (use : LastUse) (c : WriteCall) (tail : U32)
  /-- Before `pthread_spin_trylock`. -/
  | lastLock (use : LastUse) (c : WriteCall) (p : PbufPtr)
  /-- Before the test of `allow_in`. -/
  | lastTest (use : LastUse) (c : WriteCall) (p : PbufPtr)
  /-- Before the unlock when the test has failed. -/
  | lastRefuse (use : LastUse) (c : WriteCall) (p : PbufPtr)
  /-- `merge_data_lastpbuf` with the last pbuf. -/
  | merge (c : WriteCall) (p : PbufPtr)
  /-- Before its `gazelle_ring_lastover`. -/
  | mergeOver (c : WriteCall) (p : PbufPtr)
  /-- Before `gazelle_ring_readable_count`. -/
  | count (c : WriteCall)
  /-- `app_direct_attach` with the last pbuf. -/
  | attach (c : WriteCall) (p : PbufPtr) (writeNum : U32)
  /-- Before the `gazelle_ring_lastover` after it. -/
  | attachOver (c : WriteCall) (p : PbufPtr)
  /-- Before the store of the destination. -/
  | attachAddr (c : WriteCall) (p : PbufPtr)
  /-- `app_buff_write` in `gazelle_ring_read`. -/
  | buffRead (c : WriteCall) (writeNum : U32)
  /-- Before `do_app_write`. -/
  | buffFill (c : WriteCall) (pbufs : List PbufPtr)
  /-- In `gazelle_ring_read_over`, with the bytes written. -/
  | buffOver (c : WriteCall) (pbufs : List PbufPtr) (written : ℕ)
  /-- Before the store of `remain_len`. -/
  | buffDone (c : WriteCall) (pbufs : List PbufPtr)
  /-- `app_direct_write` before its allocation. -/
  | directAlloc (c : WriteCall) (writeNum : U32)
  /-- In `gazelle_ring_read`, with the pbufs allocated. -/
  | directRead (c : WriteCall) (mbufs : List PbufPtr)
  /-- Before the initialisation and `do_app_write`. -/
  | directFill (c : WriteCall) (pbufs : List PbufPtr)
  /-- In `gazelle_ring_read_over`, with the bytes written. -/
  | directOver (c : WriteCall) (pbufs : List PbufPtr) (written : ℕ)
  /-- Before the stores of `last` and `remain_len`. -/
  | directDone (c : WriteCall) (pbufs : List PbufPtr)
  /-- About to return. -/
  | ret (c : WriteCall)
  deriving DecidableEq

/-- Where the stack thread stands. `first` tells the pbuf just dequeued from the one that was left
in `send_pre_del`. -/
inductive StackPc
  /-- Outside. -/
  | out
  /-- `write_lwip_data` in `gazelle_ring_sc_dequeue`. -/
  | dequeue (remainSize : BitVec 16)
  /-- Before `gazelle_ring_readover_count`. -/
  | readover (p : PbufPtr) (remainSize : BitVec 16)
  /-- Before `pthread_spin_lock`. -/
  | lock (first : Bool) (p : PbufPtr) (remainSize : BitVec 16)
  /-- Before the test of `tot_len`. -/
  | test (first : Bool) (p : PbufPtr) (remainSize : BitVec 16)
  /-- Before the unlock when the pbuf is too long. -/
  | unlockNull (first : Bool) (p : PbufPtr)
  /-- Before the unlock when the pbuf is taken. -/
  | unlock (first : Bool) (p : PbufPtr)
  /-- Before the rest of the chain is detached. -/
  | detach (first : Bool) (p : PbufPtr)
  /-- `replenish_send_idlembuf` in `gazelle_ring_sp_enqueue`. -/
  | replenish (mbufs : List PbufPtr)
  deriving DecidableEq

/-- The sending side of a socket with the pbufs of its pool. -/
structure WriteSys where
  /-- The pbufs. -/
  heap : SendHeap
  /-- `addr` and `port` of the pbufs. -/
  addr : PbufPtr → PbufAddr
  /-- `send_ring` with the two threads in its functions. -/
  ring : RingSys PbufPtr
  /-- `send_pre_del`. -/
  sendPreDel : Option PbufPtr
  /-- `send_lastdata`. -/
  sendLastdata : Option PbufPtr
  /-- `remain_len`. -/
  remainLen : BitVec 32
  /-- The application. -/
  writer : WriterPc
  /-- The stack thread. -/
  stack : StackPc
  /-- What the last call of `write_lwip_data` returned, until `write_lwip_over`. -/
  returned : Option PbufPtr
  /-- The number of pbufs initialised. -/
  inits : ℕ
  /-- The bytes that the calls have accepted, with the destination of the call. -/
  accepted : List (List Byte × Option PbufAddr)
  /-- The pbufs committed, by the number of their initialisation. -/
  committedBorn : List ℕ
  /-- Their payload, `addr` and `port`. -/
  committed : List (List Byte × Option PbufAddr)

/-- The actions. -/
inductive WriteAct
  /-- The application calls `write_stack_data`. -/
  | write (data : List Byte) (addr : Option PbufAddr)
  /-- It makes its next step; an allocation returns `alloc`. -/
  | writer (alloc : Option (List PbufPtr))
  /-- The stack calls `write_lwip_data`. -/
  | lwipData (remainSize : BitVec 16)
  /-- The stack calls `write_lwip_over`. -/
  | lwipOver
  /-- The stack calls `replenish_send_idlembuf`, whose allocation returns `alloc`. -/
  | replenish (alloc : Option (List PbufPtr))
  /-- The stack makes its next step. -/
  | stack
  /-- lwIP, or who else has it, changes a pbuf. -/
  | lwip (p : PbufPtr) (b : SendPbuf) (addr : PbufAddr)
  /-- A pbuf returns to the pool. -/
  | release (p : PbufPtr)

/-- `rte_pktmbuf_alloc_bulk` may return these `n` pbufs. -/
def AllocOk (heap : SendHeap) (n : ℕ) (mbufs : List PbufPtr) : Prop :=
  mbufs.length = n ∧ mbufs.Nodup ∧ ∀ p ∈ mbufs, (heap p).place = .pool

/-- Whether an allocation may return these pbufs is decidable. -/
instance (heap : SendHeap) (n : ℕ) (mbufs : List PbufPtr) : Decidable (AllocOk heap n mbufs) := by
  unfold AllocOk
  infer_instance

/-- The pbufs that an allocation returns do not belong to the send path. -/
theorem AllocOk.place_ne {heap : SendHeap} {n : ℕ} {mbufs : List PbufPtr}
    (h : AllocOk heap n mbufs) {p : PbufPtr} (hp : p ∈ mbufs) : (heap p).place ≠ .gazelle := by
  rw [h.2.2 p hp]
  rintro ⟨⟩

/-- The send path takes pbufs from the pool. -/
def SendHeap.claim (heap : SendHeap) (mbufs : List PbufPtr) : SendHeap := fun p =>
  if p ∈ mbufs then { heap p with place := .gazelle } else heap p

/-- The addresses after the initialisation of pbufs. -/
def initAddrs (addr : PbufPtr → PbufAddr) (mbufs : List PbufPtr) : PbufPtr → PbufAddr := fun p =>
  if p ∈ mbufs then ⟨0, 0⟩ else addr p

/-- The loop that stores a destination into pbufs. -/
def storeAddrs (addr : PbufPtr → PbufAddr) (dest : Option PbufAddr) (pbufs : List PbufPtr) :
    PbufPtr → PbufAddr := fun p =>
  match dest with
  | some dest => if p ∈ pbufs then dest else addr p
  | none => addr p

/-- The lock of a pbuf is taken. -/
def SendPbuf.lock (b : SendPbuf) : SendPbuf := { b with locked := true }

/-- The lock of a pbuf is released. -/
def SendPbuf.unlock (b : SendPbuf) : SendPbuf := { b with locked := false }

namespace WriteSys

variable (cfg : SendCfg) (s : WriteSys)

/-- `write_num`. -/
def writeNum (c : WriteCall) : ℕ :=
  (c.data.length - c.sendLen + mbufMaxDataLen - 1) / mbufMaxDataLen

/-! ## The application -/

/-- `gazelle_ring_readlast` returns `NULL`. -/
def lastFails (use : LastUse) (c : WriteCall) : WriteSys :=
  match use with
  | .merge => { s with remainLen := 0, writer := .count c }
  | .attach _ => { s with remainLen := 0, writer := .ret c }

/-- The body of `merge_data_lastpbuf`. -/
def mergeStep (c : WriteCall) (p : PbufPtr) : WriteSys :=
  let b := s.heap p
  if b.next.isSome ∨ mbufMaxDataLen ≤ b.len.toNat then
    { s with remainLen := 0, writer := .mergeOver c p }
  else
    let room := mbufMaxDataLen - b.len.toNat
    if c.data.length ≤ room then
      { s with
        heap := s.heap.modify p (mergeData cfg c.data)
        remainLen := BitVec.ofNat 32 (room - c.data.length)
        writer := .mergeOver { c with sendLen := c.data.length } p }
    else
      { s with
        heap := s.heap.modify p (mergeData cfg (c.data.take room))
        remainLen := 0
        writer := .mergeOver { c with sendLen := room } p }

/-- The part of `write_stack_data` that chooses how the data is written. -/
def countStep (c : WriteCall) : Option WriteSys :=
  let num := BitVec.ofNat 32 (writeNum c)
  let writeAvail := s.ring.ring.gazelleRingReadableCount
  if writeAvail = 0 then
    some { s with writer := if cfg.expandSendRing then .lastTail (.attach num) c else .ret c }
  else if cfg.expandSendRing ∧ writeAvail < num then some { s with writer := .directAlloc c num }
  else
    -- without `expand_send_ring` the data is cut to the pbufs that are there
    let cut := if writeAvail < num then
        { c with data := c.data.take (writeAvail.toNat * mbufMaxDataLen) }
      else c
    let num := if writeAvail < num then writeAvail else num
    (s.ring.step (.read num)).map fun ring => { s with ring, writer := .buffRead cut num }

/-- The body of `app_direct_attach` with the pbufs allocated. -/
def attachStep (c : WriteCall) (p : PbufPtr) (mbufs : List PbufPtr) : WriteSys :=
  let heap := linkPbufs (initMbufs cfg s.heap s.inits mbufs) mbufs
  let written := doAppWrite cfg heap mbufs (c.data.drop c.sendLen)
  { s with
    heap := (written.1.modify (written.1 p).last (.setNext mbufs.head?)).modify p fun b =>
      { b with last := mbufs.getLastD p }
    addr := initAddrs s.addr mbufs
    inits := s.inits + mbufs.length
    writer := .attachOver { c with sendLen := c.sendLen + written.2 } p }

/-- The initialisation and the writing in `app_direct_write`, whose first pbuf is from the ring. -/
def directStep (c : WriteCall) (pbufs : List PbufPtr) : Option WriteSys :=
  let heap := linkPbufs (initMbufs cfg s.heap s.inits pbufs.tail) pbufs
  let written := doAppWrite cfg heap pbufs (c.data.drop c.sendLen)
  (s.ring.step .readOver).map fun ring =>
    { s with
      heap := written.1
      addr := initAddrs s.addr pbufs.tail
      ring
      inits := s.inits + pbufs.tail.length
      writer := .directOver c pbufs written.2 }

/-- The writing in `app_buff_write`. -/
def buffStep (c : WriteCall) (pbufs : List PbufPtr) : Option WriteSys :=
  let written := doAppWrite cfg s.heap pbufs (c.data.drop c.sendLen)
  (s.ring.step .readOver).map fun ring =>
    { s with
      heap := written.1
      addr := storeAddrs s.addr c.addr pbufs
      ring
      writer := .buffOver c pbufs written.2 }

/-- The next step of the application. -/
def writerStep (alloc : Option (List PbufPtr)) : Option WriteSys :=
  match s.writer with
  | .idle => none
  | .lastTail use c => some { s with writer := .lastSlot use c s.ring.ring.cons.tail }
  | .lastSlot use c tail =>
    let last := s.ring.ring.prod.tail - 1
    if last + 1 = tail ∨ s.ring.ring.capacity < last + 1 - tail then some (s.lastFails use c)
    else some { s with writer := .lastLock use c (s.ring.ring.get last) }
  | .lastLock use c p =>
    if (s.heap p).locked then some (s.lastFails use c)
    else some { s with heap := s.heap.modify p .lock, writer := .lastTest use c p }
  | .lastTest use c p =>
    some { s with
      writer :=
        if (s.heap p).allowIn then
          match use with
          | .merge => .merge c p
          | .attach num => .attach c p num
        else .lastRefuse use c p }
  | .lastRefuse use c p => some ({ s with heap := s.heap.modify p .unlock }.lastFails use c)
  | .merge c p => some (s.mergeStep cfg c p)
  | .mergeOver c p =>
    some { s with
      heap := s.heap.modify p .unlock
      writer := if c.data.length ≤ c.sendLen then .ret c else .count c }
  | .count c => s.countStep cfg c
  | .attach c p num =>
    match alloc with
    | none => some { s with writer := .attachOver c p }
    | some mbufs =>
      if AllocOk s.heap num.toNat mbufs then some (s.attachStep cfg c p mbufs) else none
  | .attachOver c p => some { s with heap := s.heap.modify p .unlock, writer := .attachAddr c p }
  | .attachAddr c p =>
    some { s with addr := storeAddrs s.addr c.addr [p], remainLen := 0, writer := .ret c }
  | .buffRead c num =>
    (s.ring.step .reader).map fun ring =>
      match s.ring.reader with
      | .readDone pbufs => { s with ring, writer := .buffFill c pbufs }
      | _ => { s with ring, writer := .buffRead c num }
  | .buffFill c pbufs => s.buffStep cfg c pbufs
  | .buffOver c pbufs written =>
    (s.ring.step .reader).map fun ring =>
      match s.ring.reader with
      | .overStore _ =>
        { s with ring, writer := .buffDone { c with sendLen := c.sendLen + written } pbufs }
      | _ => { s with ring, writer := .buffOver c pbufs written }
  | .buffDone c pbufs =>
    (s.ring.step .reader).map fun ring =>
      { s with
        ring
        remainLen := BitVec.ofNat 32 mbufMaxDataLen -
          (s.heap (pbufs.getLastD 0)).len.setWidth 32
        writer := .ret c }
  | .directAlloc c num =>
    match alloc with
    | none => some { s with writer := .ret c }
    | some mbufs =>
      if AllocOk s.heap (num.toNat - 1) mbufs then
        (s.ring.step (.read 1)).map fun ring =>
          { s with heap := s.heap.claim mbufs, ring, writer := .directRead c mbufs }
      else none
  | .directRead c mbufs =>
    (s.ring.step .reader).map fun ring =>
      match s.ring.reader with
      | .readDone pbufs => { s with ring, writer := .directFill c (pbufs ++ mbufs) }
      | _ => { s with ring, writer := .directRead c mbufs }
  | .directFill c pbufs => s.directStep cfg c pbufs
  | .directOver c pbufs written =>
    (s.ring.step .reader).map fun ring =>
      match s.ring.reader with
      | .overStore _ =>
        { s with ring, writer := .directDone { c with sendLen := c.sendLen + written } pbufs }
      | _ => { s with ring, writer := .directOver c pbufs written }
  | .directDone c pbufs =>
    (s.ring.step .reader).map fun ring =>
      { s with
        heap := s.heap.modify (pbufs.headD 0) fun b => { b with last := pbufs.getLastD 0 }
        ring
        remainLen := 0
        writer := .ret c }
  | .ret c =>
    some { s with
      writer := .idle
      accepted :=
        if c.sendLen = 0 then s.accepted
        else s.accepted ++ [(c.data.take c.sendLen, c.addr)] }

/-! ## The stack thread -/

/-- `write_lwip_data` up to its first access to the ring or to a lock. -/
def lwipData (remainSize : BitVec 16) : Option WriteSys :=
  match s.sendPreDel, s.sendLastdata with
  | some p, _ => some { s with returned := none, stack := .lock false p remainSize }
  | none, some p =>
    if remainSize < (s.heap p).totLen then some { s with returned := none }
    else
      some { s with
        heap := s.heap.modify p (.setNext none)
        sendPreDel := some p
        sendLastdata := (s.heap p).next
        returned := some p }
  | none, none =>
    (s.ring.step (.dequeue 1)).map fun ring =>
      { s with ring, returned := none, stack := .dequeue remainSize }

/-- `replenish_send_idlembuf` up to its first access to the ring. -/
def replenish (alloc : Option (List PbufPtr)) : Option WriteSys :=
  if s.ring.ring.gazelleRingFreeCount = 0 then some s
  else
    match alloc with
    | none => some s
    | some mbufs =>
      if AllocOk s.heap s.ring.ring.gazelleRingFreeCount.toNat mbufs then
        (s.ring.step (.enqueue mbufs)).map fun ring =>
          { s with
            heap := initMbufs cfg s.heap s.inits mbufs
            addr := initAddrs s.addr mbufs
            ring
            inits := s.inits + mbufs.length
            stack := .replenish mbufs }
      else none

/-- The next step of the stack thread. -/
def stackStep : Option WriteSys :=
  match s.stack with
  | .out => none
  | .dequeue remainSize =>
    (s.ring.step .owner).map fun ring =>
      match s.ring.owner with
      | .deqDone [] => { s with ring, stack := .out }
      | .deqDone (p :: _) => { s with ring, sendPreDel := some p, stack := .readover p remainSize }
      | _ => { s with ring }
  | .readover p remainSize =>
    if s.ring.ring.gazelleRingReadoverCount = 0 then
      some { s with stack := .lock true p remainSize }
    else if remainSize < (s.heap p).totLen then
      some { s with heap := s.heap.modify p ({ · with head := true }), stack := .out }
    else some { s with stack := .detach true p }
  | .lock first p remainSize =>
    if (s.heap p).locked then none
    else some { s with heap := s.heap.modify p .lock, stack := .test first p remainSize }
  | .test first p remainSize =>
    if remainSize < (s.heap p).totLen then some { s with stack := .unlockNull first p }
    else
      some { s with
        heap := s.heap.modify p ({ · with allowIn := false })
        stack := .unlock first p }
  | .unlockNull first p =>
    some { s with
      heap := s.heap.modify p fun b => { b.unlock with head := first || b.head }
      stack := .out }
  | .unlock first p => some { s with heap := s.heap.modify p .unlock, stack := .detach first p }
  | .detach first p =>
    some { s with
      heap := s.heap.modify p (.setNext none)
      sendLastdata :=
        if first || (s.heap p).next.isSome then (s.heap p).next else s.sendLastdata
      returned := some p
      stack := .out }
  | .replenish mbufs =>
    (s.ring.step .owner).map fun ring =>
      match s.ring.owner with
      | .enqDone n =>
        { s with
          heap := if n = 0 then
              fun p => if p ∈ mbufs then { s.heap p with place := .pool } else s.heap p
            else s.heap
          ring
          stack := .out }
      | _ => { s with ring }

/-- The content of a pbuf: its payload, with `addr` and `port`. -/
def content (p : PbufPtr) : List Byte × Option PbufAddr := ((s.heap p).bytes, some (s.addr p))

/-! ## The system -/

/-- One step. A buffer is short enough for `write_num` to be a `uint32_t`. -/
def step : WriteAct → Option WriteSys
  | .write data addr =>
    match s.writer with
    | .idle =>
      let c : WriteCall := { data, addr, sendLen := 0 }
      if data ≠ [] ∧ writeNum c < 2 ^ 32 then
        some { s with writer := if s.remainLen = 0 then .count c else .lastTail .merge c }
      else none
    | _ => none
  | .writer alloc => s.writerStep cfg alloc
  | .lwipData remainSize =>
    match s.stack with
    | .out => s.lwipData remainSize
    | _ => none
  | .lwipOver =>
    match s.stack, s.returned with
    | .out, some p =>
      some { s with
        heap := s.heap.modify p ({ · with place := .lwip })
        sendPreDel := none
        returned := none
        committedBorn := s.committedBorn ++ [(s.heap p).born]
        committed := s.committed ++ [s.content p] }
    | _, _ => none
  | .replenish alloc =>
    match s.stack with
    | .out => s.replenish cfg alloc
    | _ => none
  | .stack => s.stackStep
  | .lwip p b addr =>
    if (s.heap p).place = .lwip then
      some { s with
        heap := s.heap.modify p fun old => { b with place := .lwip, born := old.born }
        addr := Function.update s.addr p addr }
    else none
  | .release p =>
    if (s.heap p).place = .lwip then
      some { s with heap := s.heap.modify p ({ · with place := .pool }) }
    else none

/-- A socket with an empty `send_ring` of `2 ^ k` slots and a pool of pbufs. -/
def create (k : ℕ) (start : U32) (slots : U32 → PbufPtr) (heap : SendHeap)
    (addr : PbufPtr → PbufAddr) : WriteSys where
  heap := heap
  addr := addr
  ring := .create k start slots
  sendPreDel := none
  sendLastdata := none
  remainLen := 0
  writer := .idle
  stack := .out
  returned := none
  inits := 0
  accepted := []
  committedBorn := []
  committed := []

/-- All interleavings of the application with the stack thread, on a ring of `2 ^ k` slots. The pool
has pbufs that nobody uses yet. -/
def system (k : ℕ) : Transition.System WriteSys WriteAct where
  Init s := ∃ start slots heap addr,
    (∀ p, (heap p).place ≠ .gazelle) ∧ s = create k start slots heap addr
  step := step cfg

/-! ## The call of `replenish_send_idlembuf` -/

/-- `replenish_send_idlembuf` has pbufs for the ring and calls `gazelle_ring_sp_enqueue`. -/
structure Replenishes (s' : WriteSys) (mbufs : List PbufPtr) : Prop where
  /-- The ring has room. -/
  room : s.ring.ring.gazelleRingFreeCount ≠ 0
  /-- The pbufs are from the pool, as many as there is room for. -/
  alloc : AllocOk s.heap s.ring.ring.gazelleRingFreeCount.toNat mbufs
  /-- They are for the ring. -/
  ring : s.ring.step (.enqueue mbufs) = some s'.ring
  /-- They are initialised, and nothing else changes. -/
  eq : s' = { s with
    heap := initMbufs cfg s.heap s.inits mbufs
    addr := initAddrs s.addr mbufs
    ring := s'.ring
    inits := s.inits + mbufs.length
    stack := .replenish mbufs }

variable {cfg s}

/-- `replenish_send_idlembuf` returns at once or enqueues what it has allocated. -/
theorem replenish_cases {s' : WriteSys} {alloc : Option (List PbufPtr)}
    (hs : s.replenish cfg alloc = some s') :
    s' = s ∨ ∃ mbufs, alloc = some mbufs ∧ Replenishes cfg s s' mbufs := by
  simp only [replenish] at hs
  split at hs
  · exact .inl (Option.some.inj hs).symm
  rename_i hroom
  split at hs
  · exact .inl (Option.some.inj hs).symm
  rename_i mbufs
  split at hs
  · rename_i halloc
    obtain ⟨ring, hring, rfl⟩ := Option.map_eq_some_iff.1 hs
    exact .inr ⟨mbufs, rfl, hroom, halloc, hring, rfl⟩
  · cases hs

end WriteSys

end Gazelle
