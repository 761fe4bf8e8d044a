import Gazelle.Ring.Basic
import Gazelle.Transition.System

/-!
# The gazelle ring under two threads

The functions of `Gazelle.Ring.Basic` split into their memory accesses: every load of a counter,
every copy of one slot and every store of a counter is a step of its own. A program counter
holds the local variables that are live between two accesses. The owner thread runs
`gazelle_ring_sp_enqueue` and `gazelle_ring_sc_dequeue` in any order, the other thread
`gazelle_ring_read` and `gazelle_ring_read_over`.

`RingSys` also records what the functions did: the objects accepted, handed out, confirmed and
dequeued so far. Nothing reads these histories.
-/

namespace Gazelle

/-- Where the owner thread stands, with its live local variables. -/
inductive OwnerPc (α : Type*)
  /-- Outside the ring functions. -/
  | idle
  /-- `gazelle_ring_sp_enqueue` before its load of `cons.head`. -/
  | enqLoadHead (objTable : List α)
  /-- Before its load of `cons.tail`. -/
  | enqLoadTail (objTable : List α) (head : U32)
  /-- Copying: `i` objects are copied. After the last one the next access is the store. -/
  | enqCopy (objTable : List α) (head : U32) (i : ℕ)
  /-- About to return `n`. -/
  | enqDone (n : U32)
  /-- `gazelle_ring_sc_dequeue` before its load of `prod.tail`. -/
  | deqLoadProd (n : U32)
  /-- Before its load of `cons.tail`. -/
  | deqLoadCons (n prod : U32)
  /-- Copying: `got` is copied out. After `n` objects the next access is the store. -/
  | deqCopy (n cons : U32) (got : List α)
  /-- About to return the objects `got`. -/
  | deqDone (got : List α)
  deriving DecidableEq

/-- Where the reading thread stands, with its live local variables. -/
inductive ReaderPc (α : Type*)
  /-- Outside the ring functions. -/
  | idle
  /-- `gazelle_ring_read` before its load of `cons.head`. -/
  | readLoadCons (n : U32)
  /-- Before its load of `prod.head`. -/
  | readLoadProd (n cons : U32)
  /-- Copying: `got` is copied out. After `n` objects the next access is the store. -/
  | readCopy (n prod : U32) (got : List α)
  /-- About to return the objects `got`. -/
  | readDone (got : List α)
  /-- `gazelle_ring_read_over` before its load of `prod.head`. -/
  | overLoad
  /-- Before its store of `prod.tail`. -/
  | overStore (head : U32)
  /-- About to return. -/
  | overDone
  deriving DecidableEq

/-- A ring, the two threads using it and the history of what they did. -/
structure RingSys (α : Type*) where
  /-- The shared ring. -/
  ring : RteRing α
  /-- The thread that enqueues and dequeues. -/
  owner : OwnerPc α
  /-- The thread that reads. -/
  reader : ReaderPc α
  /-- The objects accepted by `gazelle_ring_sp_enqueue`. -/
  accepted : List α
  /-- The objects handed out by `gazelle_ring_read`. -/
  readOut : List α
  /-- Those of them that a `gazelle_ring_read_over` confirmed. -/
  confirmed : List α
  /-- The objects handed out by `gazelle_ring_sc_dequeue`. -/
  dequeued : List α

/-- The actions: a thread outside the ring functions calls one, or makes its next access. -/
inductive RingAct (α : Type*)
  /-- The owner calls `gazelle_ring_sp_enqueue`. -/
  | enqueue (objTable : List α)
  /-- The owner calls `gazelle_ring_sc_dequeue`. -/
  | dequeue (n : U32)
  /-- The owner makes its next access, or returns. -/
  | owner
  /-- The reader calls `gazelle_ring_read`. -/
  | read (n : U32)
  /-- The reader calls `gazelle_ring_read_over`. -/
  | readOver
  /-- The reader makes its next access, or returns. -/
  | reader

namespace RingSys

variable {α : Type*}

/-- The ring just created, with no call made. -/
def create (k : ℕ) (start : U32) (slots : U32 → α) : RingSys α where
  ring := .create k start slots
  owner := .idle
  reader := .idle
  accepted := []
  readOut := []
  confirmed := []
  dequeued := []

/-- The next access of the owner. -/
def ownerStep (s : RingSys α) : Option (RingSys α) :=
  match s.owner with
  | .idle => none
  | .enqLoadHead objTable => some { s with owner := .enqLoadTail objTable s.ring.cons.head }
  | .enqLoadTail objTable head =>
    let tail := s.ring.cons.tail
    let entries := s.ring.capacity + tail - head
    if BitVec.ofNat 32 objTable.length > entries then some { s with owner := .enqDone 0 }
    else some { s with owner := .enqCopy objTable head 0 }
  | .enqCopy objTable head i =>
    match objTable[i]? with
    | some x =>
      some { s with
        ring := s.ring.set (head + BitVec.ofNat 32 i) x
        owner := .enqCopy objTable head (i + 1) }
    | none =>
      let n := BitVec.ofNat 32 objTable.length
      some { s with
        ring := { s.ring with cons.head := head + n }
        owner := .enqDone n
        accepted := s.accepted ++ objTable }
  | .enqDone _ => some { s with owner := .idle }
  | .deqLoadProd n => some { s with owner := .deqLoadCons n s.ring.prod.tail }
  | .deqLoadCons n prod =>
    let cons := s.ring.cons.tail
    let entries := prod - cons
    let n := RteRing.clamp n entries
    if n = 0 then some { s with owner := .deqDone [] }
    else some { s with owner := .deqCopy n cons [] }
  | .deqCopy n cons got =>
    if got.length < n.toNat then
      some { s with
        owner := .deqCopy n cons (got ++ [s.ring.get (cons + BitVec.ofNat 32 got.length)]) }
    else
      some { s with
        ring := { s.ring with cons.tail := cons + n }
        owner := .deqDone got
        dequeued := s.dequeued ++ got }
  | .deqDone _ => some { s with owner := .idle }

/-- The next access of the reader. -/
def readerStep (s : RingSys α) : Option (RingSys α) :=
  match s.reader with
  | .idle => none
  | .readLoadCons n => some { s with reader := .readLoadProd n s.ring.cons.head }
  | .readLoadProd n cons =>
    let prod := s.ring.prod.head
    let entries := cons - prod
    let n := RteRing.clamp n entries
    if n = 0 then some { s with reader := .readDone [] }
    else some { s with reader := .readCopy n prod [] }
  | .readCopy n prod got =>
    if got.length < n.toNat then
      some { s with
        reader := .readCopy n prod (got ++ [s.ring.get (prod + BitVec.ofNat 32 got.length)]) }
    else
      some { s with
        ring := { s.ring with prod.head := prod + n }
        reader := .readDone got
        readOut := s.readOut ++ got }
  | .readDone _ => some { s with reader := .idle }
  | .overLoad => some { s with reader := .overStore s.ring.prod.head }
  | .overStore head =>
    some { s with
      ring := { s.ring with prod.tail := head }
      reader := .overDone
      confirmed := s.readOut }
  | .overDone => some { s with reader := .idle }

/-- One step of one of the two threads. A table of objects has a `uint32_t` length. -/
def step (s : RingSys α) : RingAct α → Option (RingSys α)
  | .enqueue objTable =>
    match s.owner with
    | .idle =>
      if objTable.length < 2 ^ 32 then some { s with owner := .enqLoadHead objTable } else none
    | _ => none
  | .dequeue n =>
    match s.owner with
    | .idle => some { s with owner := .deqLoadProd n }
    | _ => none
  | .owner => s.ownerStep
  | .read n =>
    match s.reader with
    | .idle => some { s with reader := .readLoadCons n }
    | _ => none
  | .readOver =>
    match s.reader with
    | .idle => some { s with reader := .overLoad }
    | _ => none
  | .reader => s.readerStep

/-- All interleavings of the two threads on a ring of `2 ^ k` slots whose counters start at
`start`. -/
def system (k : ℕ) (start : U32) (slots : U32 → α) :
    Transition.System (RingSys α) (RingAct α) where
  Init s := s = create k start slots
  step := step

end RingSys

end Gazelle
