import Gazelle.Lwip.RecvStream
import Gazelle.Lwip.WriteSystem
import Gazelle.Ring.Sequential

/-!
# The pbufs of a socket and their release

What a socket has of pbufs: `recv_ring`, `send_ring`, `recv_lastdata`, `send_lastdata` and
`send_pre_del`. Here each function runs to its end before the next one starts, and the pbufs of both
directions are cells of one heap, with their reference counts.

* `PbufMem`, `pbufFree`: the pbufs, and `pbuf_free` as a log of the references it drops;
* `SockData.system`: what happens to the data of a socket, in any order;
* `SockData.resetSockData`: what closing the socket does to it;
* `SockData.FreesOnce`: it releases the pbufs of the socket, and each one once.
-/

namespace Gazelle

open Linked

/-- `SOCK_RECV_RING_SIZE` is `2 ^ sockRecvRingBits`. -/
def sockRecvRingBits : ℕ := 7

/-- `RING_SIZE(SOCK_RECV_RING_SIZE)`. -/
def recvRingSize : U32 := 127

/-- The settings of a socket, and the pbufs there are. -/
structure SockCfg extends SendCfg where
  /-- `pbuf_remove_header`. -/
  pbufRemoveHeader : SendPbuf → BitVec 16 → SendPbuf
  /-- The addresses of pbufs are below this number. -/
  pbufNum : ℕ
  /-- `send_ring_size` is two to this power. -/
  sendRingBits : ℕ
  /-- `send_ring_size` is at most `SOCK_SEND_RING_SIZE_MAX`. -/
  sendRingBits_le : sendRingBits ≤ 11

/-- What lwIP documents of its functions. -/
structure SockCfg.Lawful (cfg : SockCfg) : Prop where
  /-- Those of the send path. -/
  ops : cfg.ops.Lawful
  /-- Removing a header moves the start of the data. -/
  pbufRemoveHeader : ∀ (b : SendPbuf) (n : BitVec 16), b.SameLinks (cfg.pbufRemoveHeader b n)

/-! ## Pbufs with reference counts -/

/-- The pbufs, with the references to them. -/
structure PbufMem where
  /-- The pbufs. -/
  heap : SendHeap
  /-- `ref`. Here a count that is dropped too often becomes negative. -/
  ref : PbufPtr → ℤ
  /-- The pbufs of which `pbuf_free` has dropped a reference, in this order; nothing reads this. -/
  dropped : List PbufPtr

/-- `pbuf_free`: the references to a chain are dropped from its head on, as long as they become
zero. -/
def pbufFree : ℕ → PbufMem → Option PbufPtr → PbufMem
  | pbufNum + 1, m, some p =>
    let ref := m.ref p - 1
    let m := { m with ref := Function.update m.ref p ref, dropped := m.dropped ++ [p] }
    if ref = 0 then
      pbufFree pbufNum { m with heap := m.heap.modify p ({ · with place := .pool }) }
        (m.heap p).next
    else m
  | _, m, _ => m

namespace PbufMem

variable (cfg : SockCfg) (m : PbufMem)

/-- The loop that calls `pbuf_free` for the entries of an array. -/
def freeAll (pbufs : List PbufPtr) : PbufMem :=
  pbufs.foldl (fun m p => pbufFree cfg.pbufNum m (some p)) m

/-- Pbufs of the pool are initialised, with one reference each. -/
def initPbufs (mbufs : List PbufPtr) : PbufMem :=
  { m with
    heap := initMbufs cfg.toSendCfg m.heap 0 mbufs
    ref := fun p => if p ∈ mbufs then 1 else m.ref p }

/-- `rte_pktmbuf_alloc_bulk` may return these `n` pbufs. -/
def PoolOk (n : ℕ) (mbufs : List PbufPtr) : Prop :=
  AllocOk m.heap n mbufs ∧ ∀ p ∈ mbufs, p < cfg.pbufNum

/-- Whether the pool may return pbufs is decidable. -/
instance (n : ℕ) (mbufs : List PbufPtr) : Decidable (m.PoolOk cfg n mbufs) := by
  unfold PoolOk
  infer_instance

/-- lwIP may hand over these chains: they are its own, and nobody else refers to them. -/
def Handed (chains : List (PbufPtr × List PbufPtr)) : Prop :=
  (cells chains).Nodup ∧ (∀ c ∈ chains, Chained (fun p => (m.heap p).next) c) ∧
    ∀ p ∈ cells chains, (m.heap p).place = .lwip ∧ m.ref p = 1 ∧ p < cfg.pbufNum

/-- Whether lwIP may hand over chains is decidable. -/
instance (chains : List (PbufPtr × List PbufPtr)) : Decidable (m.Handed cfg chains) := by
  unfold Handed
  infer_instance

/-- The loop of `pbuf_free_partial`. -/
def freePartialLoop : ℕ → SendHeap → Option PbufPtr → BitVec 16 → SendHeap × Option PbufPtr
  | pbufNum + 1, heap, some p, freeLen =>
    if freeLen = 0 then (heap, some p)
    else if (heap p).len ≤ freeLen then
      freePartialLoop pbufNum heap (heap p).next (freeLen - (heap p).len)
    else (heap.modify p (cfg.pbufRemoveHeader · freeLen), some p)
  | _, heap, o, _ => (heap, o)

/-- `pbuf_free_partial`, which frees nothing: it returns what is left of the chain. -/
def pbufFreePartial (p : PbufPtr) (freeLen : BitVec 16) : PbufMem × Option PbufPtr :=
  let totLen : BitVec 32 := (m.heap p).totLen.setWidth 32 - freeLen.setWidth 32
  let left := freePartialLoop cfg cfg.pbufNum m.heap (some p) freeLen
  let heap := match left.2 with
    | some q => left.1.modify q ({ · with totLen := totLen.setWidth 16 })
    | none => left.1
  ({ m with heap }, left.2)

/-! ## Closing -/

/-- The loop of `free_ring_pbuf` that confirms everything in the ring. -/
def readAll : ℕ → RteRing PbufPtr → RteRing PbufPtr
  | 0, r => r
  | rounds + 1, r =>
    let r := (r.gazelleRingRead recvRingSize).2.gazelleRingReadOver
    if r.gazelleRingReadableCount = 0 then r else readAll rounds r

/-- The loop of `free_ring_pbuf` that frees everything confirmed. -/
def dequeueAll : ℕ → RteRing PbufPtr → PbufMem → PbufMem
  | 0, _, m => m
  | rounds + 1, r, m =>
    let got := r.gazelleRingScDequeue recvRingSize
    let m := m.freeAll cfg got.1
    if got.2.gazelleRingReadoverCount = 0 then m else dequeueAll rounds got.2 m

/-- `free_ring_pbuf`. Each round of a loop but the last takes an entry of the ring. -/
def freeRingPbuf (r : RteRing PbufPtr) : PbufMem :=
  let r := readAll (r.gazelleRingReadableCount.toNat + 1) r
  dequeueAll cfg (r.gazelleRingReadoverCount.toNat + 1) r m

/-- A ring is freed with its pbufs, if there is one. -/
def freeRing : Option (RteRing PbufPtr) → PbufMem
  | some r => m.freeRingPbuf cfg r
  | none => m

/-- `free_list_pbuf`: each pbuf is cut off and freed. -/
def freeListPbuf : ℕ → PbufMem → Option PbufPtr → PbufMem
  | rounds + 1, m, some p =>
    let cut := { m with heap := m.heap.modify p (.setNext none) }
    freeListPbuf rounds (pbufFree cfg.pbufNum cut (some p)) (m.heap p).next
  | _, m, _ => m

end PbufMem

/-! ## The socket -/

/-- The data of a socket. -/
structure SockData where
  /-- The pbufs. -/
  mem : PbufMem
  /-- `recv_ring`. -/
  recvRing : Option (RteRing PbufPtr)
  /-- `send_ring`. -/
  sendRing : Option (RteRing PbufPtr)
  /-- `recv_lastdata`. -/
  recvLastdata : Option PbufPtr
  /-- `send_lastdata`. -/
  sendLastdata : Option PbufPtr
  /-- `send_pre_del`. -/
  sendPreDel : Option PbufPtr
  /-- `remain_len`. -/
  remainLen : BitVec 32
  /-- What the last call of `write_lwip_data` returned, until `write_lwip_over`. -/
  returned : Option PbufPtr

/-- What happens to the data of a socket. -/
inductive SockAct
  /-- `read_lwip_data`, which gets these chains from lwIP, and then an error or not. -/
  | recv (chains : List (PbufPtr × List PbufPtr)) (err : Bool)
  /-- `read_stack_data` with a buffer of this length. -/
  | read (len : BitVec 64)
  /-- `write_stack_data`; an allocation returns `alloc`. -/
  | write (data : List Byte) (alloc : Option (List PbufPtr))
  /-- `write_lwip_data`. -/
  | lwipData (remainSize : BitVec 16)
  /-- `write_lwip_over`. -/
  | lwipOver
  /-- `replenish_send_idlembuf`, whose allocation returns `alloc`. -/
  | replenish (alloc : Option (List PbufPtr))
  /-- lwIP, or another socket, takes a pbuf of the pool or changes one it has. -/
  | lwip (p : PbufPtr) (b : SendPbuf) (ref : ℤ)
  /-- A pbuf of theirs returns to the pool. -/
  | release (p : PbufPtr)

namespace SockData

variable (cfg : SockCfg) (s : SockData)

/-- `reset_sock_data`. -/
def resetSockData : SockData :=
  let m := s.mem.freeRing cfg s.recvRing
  let m := m.freeRing cfg s.sendRing
  let m := m.freeListPbuf cfg cfg.pbufNum s.sendLastdata
  let m := pbufFree cfg.pbufNum m s.sendPreDel
  let m := pbufFree cfg.pbufNum m s.recvLastdata
  { mem := m
    recvRing := none
    sendRing := none
    recvLastdata := none
    sendLastdata := none
    sendPreDel := none
    remainLen := 0
    returned := none }

/-! ## Receiving -/

/-- `read_lwip_data`. When an error comes before any byte, the call returns without the chains it
got until then. -/
def readLwipData (chains : List (PbufPtr × List PbufPtr)) (err : Bool) : Option SockData :=
  match s.recvRing with
  | none => none
  | some r =>
    let dequeued := r.gazelleRingScDequeue recvRingSize
    let m := s.mem.freeAll cfg dequeued.1
    if dequeued.2.gazelleRingFreeCount = 0 then
      some { s with mem := m, recvRing := some dequeued.2 }
    else if m.Handed cfg chains ∧ chains.length ≤ dequeued.2.gazelleRingFreeCount.toNat then
      if err ∧ ∀ c ∈ chains, (m.heap c.1).totLen = 0 then
        some { s with mem := m, recvRing := some dequeued.2 }
      else
        let put := dequeued.2.gazelleRingSpEnqueue (chains.map Prod.fst)
        let m := { m with heap := m.heap.claim (cells chains) }
        some { s with
          mem := m.freeAll cfg ((chains.map Prod.fst).drop put.1.toNat)
          recvRing := some put.2 }
    else none

/-- The pbuf that `read_stack_data` copies from next. -/
def nextPbuf (r : RteRing PbufPtr) : Option (PbufPtr × RteRing PbufPtr) :=
  match s.recvLastdata with
  | some p => some (p, r)
  | none =>
    let read := r.gazelleRingRead 1
    read.1.head?.map fun p => (p, read.2)

/-- The loop of `read_stack_data`. Each round but the last finishes a chain. -/
def readLoop : ℕ → BitVec 64 → RteRing PbufPtr → SockData → SockData
  | 0, _, r, s => { s with recvRing := some r }
  | rounds + 1, recvLeft, r, s =>
    if recvLeft = 0 then { s with recvRing := some r }
    else
      match s.nextPbuf r with
      | none => { s with recvRing := some r }
      | some (p, r) =>
        let totLen := (s.mem.heap p).totLen
        let copyLen := copyLen recvLeft totLen
        if copyLen < totLen.setWidth 32 then
          let left := s.mem.pbufFreePartial cfg p (copyLen.setWidth 16)
          { s with mem := left.1, recvRing := some r, recvLastdata := left.2 }
        else
          readLoop rounds (recvLeft - copyLen.setWidth 64) r.gazelleRingReadOver
            { s with recvLastdata := none }

/-- `read_stack_data`; `Gazelle.Lwip.RecvStream` has the bytes it copies. -/
def readStackData (len : BitVec 64) : Option SockData :=
  s.recvRing.map fun r => readLoop cfg (r.gazelleRingReadableCount.toNat + 2) len r s

/-! ## Sending -/

/-- `gazelle_ring_readlast`. The lock of the pbuf is released before the function that takes it
returns, so it is left out here. -/
def readlast (r : RteRing PbufPtr) : Option PbufPtr :=
  let tail := r.cons.tail
  let last := r.prod.tail - 1
  if last + 1 = tail ∨ r.capacity < last + 1 - tail then none
  else
    let p := r.get last
    if (s.mem.heap p).locked ∨ ¬ (s.mem.heap p).allowIn then none else some p

/-- `merge_data_lastpbuf`: the bytes merged. -/
def mergeDataLastpbuf (r : RteRing PbufPtr) (data : List Byte) : ℕ × SockData :=
  match s.readlast r with
  | none => (0, { s with remainLen := 0 })
  | some p =>
    let b := s.mem.heap p
    if b.next.isSome ∨ mbufMaxDataLen ≤ b.len.toNat then (0, { s with remainLen := 0 })
    else
      let room := mbufMaxDataLen - b.len.toNat
      let sendLen := min room data.length
      (sendLen, { s with
        mem.heap := s.mem.heap.modify p (mergeData cfg.toSendCfg (data.take sendLen))
        remainLen := BitVec.ofNat 32 (room - sendLen) })

/-- `app_buff_write`. -/
def appBuffWrite (r : RteRing PbufPtr) (data : List Byte) (num : U32) : SockData :=
  let read := r.gazelleRingRead num
  let heap := (doAppWrite cfg.toSendCfg s.mem.heap read.1 data).1
  { s with
    mem.heap := heap
    sendRing := some read.2.gazelleRingReadOver
    remainLen := BitVec.ofNat 32 mbufMaxDataLen - (heap (read.1.getLastD 0)).len.setWidth 32 }

/-- `app_direct_write`. -/
def appDirectWrite (r : RteRing PbufPtr) (data : List Byte) (num : U32)
    (alloc : Option (List PbufPtr)) : Option SockData :=
  match alloc with
  | none => some s
  | some mbufs =>
    if s.mem.PoolOk cfg (num.toNat - 1) mbufs then
      let read := r.gazelleRingRead 1
      let pbufs := read.1 ++ mbufs
      let m := s.mem.initPbufs cfg mbufs
      let heap := (doAppWrite cfg.toSendCfg (linkPbufs m.heap pbufs) pbufs data).1
      some { s with
        mem := { m with
          heap := heap.modify (pbufs.headD 0) ({ · with last := pbufs.getLastD 0 }) }
        sendRing := some read.2.gazelleRingReadOver
        remainLen := 0 }
    else none

/-- `app_direct_attach`. -/
def appDirectAttach (p : PbufPtr) (data : List Byte) (num : U32) (alloc : Option (List PbufPtr)) :
    Option SockData :=
  match alloc with
  | none => some s
  | some mbufs =>
    if s.mem.PoolOk cfg num.toNat mbufs then
      let m := s.mem.initPbufs cfg mbufs
      let heap := (doAppWrite cfg.toSendCfg (linkPbufs m.heap mbufs) mbufs data).1
      let heap := heap.modify (heap p).last (.setNext mbufs.head?)
      some { s with
        mem := { m with heap := heap.modify p ({ · with last := mbufs.getLastD 0 }) } }
    else none

/-- `write_stack_data` behind the merging, with the data that is not merged. -/
def writeRest (r : RteRing PbufPtr) (data : List Byte) (sendLen : ℕ)
    (alloc : Option (List PbufPtr)) : Option SockData :=
  let num := BitVec.ofNat 32 ((data.length - sendLen + mbufMaxDataLen - 1) / mbufMaxDataLen)
  let writeAvail := r.gazelleRingReadableCount
  if writeAvail = 0 then
    if cfg.expandSendRing then
      match s.readlast r with
      | some p =>
        (s.appDirectAttach cfg p (data.drop sendLen) num alloc).map ({ · with remainLen := 0 })
      | none => some { s with remainLen := 0 }
    else some s
  else if cfg.expandSendRing then
    if num ≤ writeAvail then some (s.appBuffWrite cfg r (data.drop sendLen) num)
    else s.appDirectWrite cfg r (data.drop sendLen) num alloc
  else if writeAvail < num then
    -- the data is cut to the pbufs that are there
    let cut := data.take (writeAvail.toNat * mbufMaxDataLen)
    some (s.appBuffWrite cfg r (cut.drop sendLen) writeAvail)
  else some (s.appBuffWrite cfg r (data.drop sendLen) num)

/-- `write_stack_data`. A buffer is short enough for `write_num` to be a `uint32_t`. -/
def writeStackData (data : List Byte) (alloc : Option (List PbufPtr)) : Option SockData :=
  match s.sendRing with
  | none => none
  | some r =>
    if data = [] then some s
    else if 2 ^ 32 ≤ (data.length + mbufMaxDataLen - 1) / mbufMaxDataLen then none
    else
      let merged := if s.remainLen = 0 then (0, s) else s.mergeDataLastpbuf cfg r data
      if data.length ≤ merged.1 then some merged.2
      else merged.2.writeRest cfg r data merged.1 alloc

/-- `write_lwip_data` with the pbuf in `send_pre_del`. -/
def writePreDel (p : PbufPtr) (remainSize : BitVec 16) : SockData :=
  let b := s.mem.heap p
  if remainSize < b.totLen then { s with returned := none }
  else
    { s with
      mem.heap := s.mem.heap.modify p ({ · with allowIn := false, next := none })
      sendLastdata := if b.next.isSome then b.next else s.sendLastdata
      returned := some p }

/-- `write_lwip_data` with the pbuf in `send_lastdata`. -/
def writeLastdata (p : PbufPtr) (remainSize : BitVec 16) : SockData :=
  let b := s.mem.heap p
  if remainSize < b.totLen then { s with returned := none }
  else
    { s with
      mem.heap := s.mem.heap.modify p (.setNext none)
      sendPreDel := some p
      sendLastdata := b.next
      returned := some p }

/-- `write_lwip_data` with the pbuf just dequeued. -/
def writeDequeued (r : RteRing PbufPtr) (p : PbufPtr) (remainSize : BitVec 16) : SockData :=
  let b := s.mem.heap p
  let s := { s with sendRing := some r, sendPreDel := some p }
  if remainSize < b.totLen then
    { s with mem.heap := s.mem.heap.modify p ({ · with head := true }), returned := none }
  else
    { s with
      mem.heap := s.mem.heap.modify p fun b =>
        { b with
          allowIn := if r.gazelleRingReadoverCount = 0 then false else b.allowIn
          next := none }
      sendLastdata := b.next
      returned := some p }

/-- `write_lwip_data`. -/
def writeLwipData (remainSize : BitVec 16) : Option SockData :=
  match s.sendRing with
  | none => none
  | some r =>
    match s.sendPreDel, s.sendLastdata with
    | some p, _ => some (s.writePreDel p remainSize)
    | none, some p => some (s.writeLastdata p remainSize)
    | none, none =>
      let got := r.gazelleRingScDequeue 1
      match got.1 with
      | [] => some { s with sendRing := some got.2, returned := none }
      | p :: _ => some (s.writeDequeued got.2 p remainSize)

/-- `write_lwip_over`, after a call of `write_lwip_data` that returned a pbuf. -/
def writeLwipOver : Option SockData :=
  s.returned.map fun p =>
    { s with
      mem.heap := s.mem.heap.modify p ({ · with place := .lwip })
      sendPreDel := none
      returned := none }

/-- `replenish_send_idlembuf`. -/
def replenishSendIdlembuf (alloc : Option (List PbufPtr)) : Option SockData :=
  match s.sendRing with
  | none => none
  | some r =>
    if r.gazelleRingFreeCount = 0 then some s
    else
      match alloc with
      | none => some s
      | some mbufs =>
        if s.mem.PoolOk cfg r.gazelleRingFreeCount.toNat mbufs then
          let put := r.gazelleRingSpEnqueue mbufs
          some { s with
            mem := (s.mem.initPbufs cfg mbufs).freeAll cfg (mbufs.drop put.1.toNat)
            sendRing := some put.2 }
        else none

/-! ## The system -/

/-- One call, or something that others do to their pbufs. -/
def step : SockAct → Option SockData
  | .recv chains err => s.readLwipData cfg chains err
  | .read len => s.readStackData cfg len
  | .write data alloc => s.writeStackData cfg data alloc
  | .lwipData remainSize => s.writeLwipData remainSize
  | .lwipOver => s.writeLwipOver
  | .replenish alloc => s.replenishSendIdlembuf cfg alloc
  | .lwip p b ref =>
    if (s.mem.heap p).place ≠ .gazelle then
      some { s with
        mem := { s.mem with
          heap := s.mem.heap.modify p fun _ => { b with place := .lwip }
          ref := Function.update s.mem.ref p ref } }
    else none
  | .release p =>
    if (s.mem.heap p).place = .lwip then
      some { s with mem.heap := s.mem.heap.modify p ({ · with place := .pool }) }
    else none

/-- A ring that was created, or `NULL`. -/
def Created (k : ℕ) (ring : Option (RteRing PbufPtr)) : Prop :=
  ∀ r, ring = some r → ∃ start slots, r = .create k start slots

/-- A socket as `gazelle_init_sock` makes it, up to its `replenish_send_idlembuf`, and what may
happen to its data until it is closed. -/
def system : Transition.System SockData SockAct where
  Init s :=
    Created sockRecvRingBits s.recvRing ∧ Created cfg.sendRingBits s.sendRing ∧
      s.recvLastdata = none ∧ s.sendLastdata = none ∧ s.sendPreDel = none ∧ s.remainLen = 0 ∧
      s.returned = none ∧ ∀ p, (s.mem.heap p).place ≠ .gazelle
  step := step cfg

/-- The pbufs of which `reset_sock_data` drops a reference. -/
def resetDrops : List PbufPtr :=
  ({ s with mem.dropped := [] }.resetSockData cfg).mem.dropped

/-- `reset_sock_data` drops one reference of each pbuf that the socket owns and none of another
pbuf, and the pbufs it drops a reference of are in the pool afterwards. -/
structure FreesOnce : Prop where
  /-- No pbuf is freed twice. -/
  nodup : (s.resetDrops cfg).Nodup
  /-- The pbufs of the socket are freed, and no others. -/
  owned : ∀ p, p ∈ s.resetDrops cfg ↔ (s.mem.heap p).place = .gazelle
  /-- They return to the pool. -/
  pool : ∀ p ∈ s.resetDrops cfg, ((s.resetSockData cfg).mem.heap p).place = .pool

end SockData

end Gazelle
