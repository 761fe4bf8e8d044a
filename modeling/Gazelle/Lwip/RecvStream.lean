import Gazelle.Lwip.Pbuf
import Gazelle.Ring.Refinement

/-!
# The receive stream of a TCP socket

The stack enqueues chains into `recv_ring` and takes back what is read; `read_stack_data` copies
from the oldest chain, keeps the rest of a chain it has not finished in `recv_lastdata`, and
confirms the entry of the ring when it has finished it. The ring runs access by access, as in
`Gazelle.Ring.Interleaving`.

* `RecvSys.system`: all interleavings of the stack and the thread that reads;
* `recv_stream_integrity`: no byte is lost, duplicated or reordered, and an entry is confirmed
  only after its last byte is copied to the application.
-/

namespace Gazelle

open Pbuf

/-- Where the application stands in `read_stack_data`, with `recv_left` and the bytes that are in
`buf` already. -/
inductive ReadStackPc
  /-- Outside. -/
  | idle
  /-- At the head of the loop. -/
  | loop (recvLeft : BitVec 64) (buf : List Byte)
  /-- In `gazelle_ring_read`. -/
  | ringRead (recvLeft : BitVec 64) (buf : List Byte)
  /-- Before the copy from `pbuf`. -/
  | copy (pbuf : List Pbuf) (recvLeft : BitVec 64) (buf : List Byte)
  /-- In `gazelle_ring_read_over`. -/
  | readOver (recvLeft : BitVec 64) (buf : List Byte)
  /-- About to return. -/
  | ret (buf : List Byte)

/-- The bytes that the call in progress has copied to the application. -/
def ReadStackPc.buf : ReadStackPc → List Byte
  | .idle => []
  | .loop _ buf | .ringRead _ buf | .copy _ _ buf | .readOver _ buf | .ret buf => buf

/-- The receiving side of a TCP socket. -/
structure RecvSys where
  /-- `recv_ring` with the two threads in its functions. -/
  ring : RingSys PbufChain
  /-- `recv_lastdata`. -/
  recvLastdata : List Pbuf
  /-- The thread in `read_stack_data`. -/
  reader : ReadStackPc
  /-- The bytes that calls have returned; nothing reads this. -/
  returned : List Byte

/-- The actions of the two threads. -/
inductive RecvAct
  /-- The stack calls `gazelle_ring_sp_enqueue` in `read_lwip_data`. -/
  | enqueue (pbufs : List PbufChain)
  /-- The stack calls `gazelle_ring_sc_dequeue` in `free_recv_ring_readover`. -/
  | dequeue (n : U32)
  /-- The stack makes its next access to the ring. -/
  | stack
  /-- The application calls `read_stack_data`. -/
  | read (len : BitVec 64) (errevent : Bool)
  /-- The application makes its next step. -/
  | reader

/-- `copy_len`. -/
def copyLen (recvLeft : BitVec 64) (totLen : BitVec 16) : BitVec 32 :=
  let copyLen := if totLen.setWidth 64 < recvLeft then totLen.setWidth 32 else recvLeft.setWidth 32
  if 0xffff < copyLen then 0xffff else copyLen

namespace RecvSys

variable (ops : PbufOps) (s : RecvSys)

/-- `NETCONN_IS_DATAIN`. -/
def isDatain : Bool := s.ring.ring.gazelleRingReadableCount ≠ 0 || !s.recvLastdata.isEmpty

/-- The next step of `read_stack_data`. -/
def readerStep : Option RecvSys :=
  match s.reader with
  | .idle => none
  | .loop recvLeft buf =>
    if recvLeft = 0 then some { s with reader := .ret buf }
    else if s.recvLastdata ≠ [] then
      some { s with recvLastdata := [], reader := .copy s.recvLastdata recvLeft buf }
    else (s.ring.step (.read 1)).map fun ring =>
      { s with ring := ring, reader := .ringRead recvLeft buf }
  | .ringRead recvLeft buf =>
    (s.ring.step .reader).map fun ring =>
      match s.ring.reader with
      | .readDone [] => { s with ring := ring, reader := .ret buf }
      | .readDone (pbuf :: _) => { s with ring := ring, reader := .copy pbuf.pbufs recvLeft buf }
      | _ => { s with ring := ring }
  | .copy pbuf recvLeft buf =>
    let copyLen := copyLen recvLeft (chainTotLen pbuf)
    let buf := buf ++ ops.pbufCopyPartial pbuf (copyLen.setWidth 16) 0
    let recvLeft := recvLeft - copyLen.setWidth 64
    if copyLen < (chainTotLen pbuf).setWidth 32 then
      some { s with
        recvLastdata := pbufFreePartial ops pbuf (copyLen.setWidth 16)
        reader := .ret buf }
    else (s.ring.step .readOver).map fun ring =>
      { s with ring := ring, reader := .readOver recvLeft buf }
  | .readOver recvLeft buf =>
    (s.ring.step .reader).map fun ring =>
      match s.ring.reader with
      | .overDone => { s with ring := ring, reader := .loop recvLeft buf }
      | _ => { s with ring := ring }
  | .ret buf => some { s with reader := .idle, returned := s.returned ++ buf }

/-- One step of one thread. -/
def step : RecvAct → Option RecvSys
  | .enqueue pbufs => (s.ring.step (.enqueue pbufs)).map fun ring => { s with ring := ring }
  | .dequeue n => (s.ring.step (.dequeue n)).map fun ring => { s with ring := ring }
  | .stack => (s.ring.step .owner).map fun ring => { s with ring := ring }
  | .read len errevent =>
    match s.reader with
    | .idle => if errevent && !s.isDatain then some s else some { s with reader := .loop len [] }
    | _ => none
  | .reader => s.readerStep ops

/-- A socket that has received nothing, with a ring of `2 ^ k` slots. -/
def create (k : ℕ) (start : U32) (slots : U32 → PbufChain) : RecvSys where
  ring := .create k start slots
  recvLastdata := []
  reader := .idle
  returned := []

/-- All interleavings of the stack and the application. -/
def system (k : ℕ) (start : U32) (slots : U32 → PbufChain) :
    Transition.System RecvSys RecvAct where
  Init s := s = create k start slots
  step := step ops

/-- The bytes copied to the application so far. -/
def delivered : List Byte := s.returned ++ s.reader.buf

/-- The chain that the application holds between taking it and copying from it. -/
def inHand : List Pbuf :=
  match s.reader, s.ring.reader with
  | .copy pbuf _ _, _ => pbuf
  | .ringRead _ _, .readDone pbufs => pbufs.flatMap PbufChain.pbufs
  | _, _ => []

/-- The unread entries of `recv_ring`: the slots from `prod.head` to `cons.head`. -/
def unread : List PbufChain :=
  s.ring.ring.dequeueElems s.ring.ring.prod.head s.ring.ring.gazelleRingReadableCount.toNat

theorem bytes_flatMap_pbufs (chains : List PbufChain) :
    bytes (chains.flatMap PbufChain.pbufs) = payload chains := by
  simp [bytes, payload, List.flatMap_assoc]

/-- Where the application stands in the functions of the ring. -/
def ReaderAt (s : RecvSys) : Prop :=
  match s.reader with
  | .idle | .loop _ _ | .ret _ => s.ring.reader = .idle
  | .ringRead _ _ =>
    s.recvLastdata = [] ∧
      match s.ring.reader with
      | .readLoadCons n | .readLoadProd n _ => n = 1
      | .readCopy n _ _ => n.toNat ≤ 1
      | .readDone got => got.length ≤ 1
      | _ => False
  | .copy pbuf _ _ => s.recvLastdata = [] ∧ WellFormed pbuf ∧ s.ring.reader = .idle
  | .readOver _ _ =>
    s.recvLastdata = [] ∧
      match s.ring.reader with
      | .overLoad | .overStore _ | .overDone => True
      | _ => False

/-- The invariant of the receiving side. -/
structure RecvInv (k : ℕ) (start : U32) (s : RecvSys) : Prop where
  /-- The ring is right. -/
  ring : RingSys.RingInv k start s.ring
  /-- `recv_lastdata` is `NULL` or a chain. -/
  lastdata : s.recvLastdata ≠ [] → WellFormed s.recvLastdata
  /-- The local variables are right. -/
  reader : s.ReaderAt
  /-- What was taken from the ring is copied, in hand or in `recv_lastdata`. -/
  balance : s.delivered ++ bytes s.inHand ++ bytes s.recvLastdata = payload s.ring.readOut
  /-- What is confirmed is copied. -/
  confirmed : payload s.ring.confirmed <+: s.delivered

/-! ## The steps -/

/-- `copy_len` is the least of the room, the chain and `UINT16_MAX`, of which the last does not
matter. -/
theorem copyLen_toNat (recvLeft : BitVec 64) (totLen : BitVec 16) :
    (copyLen recvLeft totLen).toNat = min recvLeft.toNat totLen.toNat := by
  have htot := totLen.isLt
  have hmin : (if totLen.setWidth 64 < recvLeft then totLen.setWidth 32
      else recvLeft.setWidth 32).toNat = min recvLeft.toNat totLen.toNat := by
    have htot64 : (totLen.setWidth 64).toNat = totLen.toNat := by
      rw [BitVec.toNat_setWidth]
      exact Nat.mod_eq_of_lt (by omega)
    split
    · rename_i hlt
      rw [BitVec.lt_def, htot64] at hlt
      rw [BitVec.toNat_setWidth, Nat.mod_eq_of_lt (by omega)]
      omega
    · rename_i hge
      rw [BitVec.not_lt, BitVec.le_def, htot64] at hge
      rw [BitVec.toNat_setWidth, Nat.mod_eq_of_lt (by omega)]
      omega
  unfold copyLen
  simp only
  rw [if_neg, hmin]
  rw [BitVec.not_lt, BitVec.le_def, hmin]
  simp only [BitVec.reduceToNat]
  omega

section Steps

variable {k : ℕ} {start : U32} {ops : PbufOps} {s s' : RecvSys} (hk : k ≤ 31)
  (h : RecvInv k start s)

include h

/-- A step of the stack keeps the invariant: it leaves the application's side of the ring alone. -/
theorem RecvInv.setRing {ring : RingSys PbufChain} (hring : RingSys.RingInv k start ring)
    (hreader : ring.reader = s.ring.reader) (hreadOut : ring.readOut = s.ring.readOut)
    (hconfirmed : ring.confirmed = s.ring.confirmed) : RecvInv k start { s with ring := ring } where
  ring := hring
  lastdata := h.lastdata
  reader := by
    have hat := h.reader
    simp only [ReaderAt, hreader] at hat ⊢
    exact hat
  balance := by
    have hbalance := h.balance
    simp only [inHand, delivered, hreader, hreadOut] at hbalance ⊢
    exact hbalance
  confirmed := by
    rw [hconfirmed]
    exact h.confirmed

/-- A step of the application outside the ring functions that copies nothing. -/
theorem RecvInv.setReader {pc : ReadStackPc} {lastdata : List Pbuf}
    (hlast : lastdata ≠ [] → WellFormed lastdata)
    (hat : ReaderAt { s with reader := pc, recvLastdata := lastdata })
    (hbuf : pc.buf = s.reader.buf)
    (hhand : bytes (inHand { s with reader := pc, recvLastdata := lastdata }) ++ bytes lastdata =
      bytes s.inHand ++ bytes s.recvLastdata) :
    RecvInv k start { s with reader := pc, recvLastdata := lastdata } where
  ring := h.ring
  lastdata := hlast
  reader := hat
  balance := by
    have hbalance := h.balance
    rw [List.append_assoc] at hbalance ⊢
    rw [hhand, ← hbalance]
    simp only [delivered, hbuf]
  confirmed := by
    simp only [delivered, hbuf]
    exact h.confirmed

include hk

/-- The accesses in `gazelle_ring_read` keep the invariant. -/
theorem RecvInv.ringRead {recvLeft : BitVec 64} {buf : List Byte}
    (hpc : s.reader = .ringRead recvLeft buf) (hstep : s.readerStep ops = some s') :
    RecvInv k start s' := by
  have hat := h.reader
  have hbalance := h.balance
  have hconfirmed := h.confirmed
  simp only [ReaderAt, hpc] at hat
  simp only [RecvSys.readerStep, hpc, Option.map_eq_some_iff] at hstep
  obtain ⟨ring, hring, hs'⟩ := hstep
  have hinv : RingSys.RingInv k start ring := h.ring.step hk hring
  obtain ⟨hlast, hat⟩ := hat
  simp only [delivered, inHand, hpc, hlast] at hbalance hconfirmed
  cases hr : s.ring.reader with
  | readLoadCons n =>
    simp only [hr] at hat hs' hbalance
    simp only [RingSys.step, RingSys.readerStep, hr, Option.some.injEq] at hring
    subst hs' hring
    refine ⟨hinv, h.lastdata, ?_, ?_, ?_⟩
    · simp only [ReaderAt]
      exact ⟨hlast, hat⟩
    · simpa only [delivered, inHand, hpc, hlast] using hbalance
    · simpa only [delivered, hpc] using hconfirmed
  | readLoadProd n cons =>
    simp only [hr] at hat hs' hbalance
    simp only [RingSys.step, RingSys.readerStep, hr] at hring
    have hclamp : (RteRing.clamp n (cons - s.ring.ring.prod.head)).toNat ≤ 1 := by
      unfold RteRing.clamp
      split_ifs with hgt
      · rw [hat, gt_iff_lt, BitVec.lt_def] at hgt
        simp only [BitVec.reduceToNat] at hgt
        omega
      · rw [hat]
        decide
    split at hring <;> obtain rfl := Option.some.inj hring <;> subst hs' <;>
      refine ⟨hinv, h.lastdata, ?_, ?_, ?_⟩
    · simp only [ReaderAt]
      exact ⟨hlast, by simp⟩
    · simpa only [delivered, inHand, hpc, hlast, List.flatMap_nil] using hbalance
    · simpa only [delivered, hpc] using hconfirmed
    · simp only [ReaderAt]
      exact ⟨hlast, hclamp⟩
    · simpa only [delivered, inHand, hpc, hlast] using hbalance
    · simpa only [delivered, hpc] using hconfirmed
  | readCopy n prod got =>
    simp only [hr] at hat hs' hbalance
    have hown := h.ring.reader
    rw [hr] at hown
    obtain ⟨-, -, hgot, -⟩ := hown
    simp only [RingSys.step, RingSys.readerStep, hr] at hring
    split at hring <;> obtain rfl := Option.some.inj hring <;> subst hs' <;>
      refine ⟨hinv, h.lastdata, ?_, ?_, ?_⟩
    · simp only [ReaderAt]
      exact ⟨hlast, hat⟩
    · simpa only [delivered, inHand, hpc, hlast] using hbalance
    · simpa only [delivered, hpc] using hconfirmed
    · simp only [ReaderAt]
      exact ⟨hlast, hgot.trans hat⟩
    · -- the chain is read and in hand
      simp only [delivered, inHand, hlast, bytes_nil, List.append_nil] at hbalance ⊢
      rw [hbalance, payload_append, bytes_flatMap_pbufs]
    · simpa only [delivered, hpc] using hconfirmed
  | readDone got =>
    simp only [hr] at hat hs' hbalance
    simp only [RingSys.step, RingSys.readerStep, hr, Option.some.injEq] at hring
    subst hring
    cases got with
    | nil =>
      subst hs'
      refine ⟨hinv, h.lastdata, rfl, ?_, ?_⟩
      · simpa only [delivered, inHand, ReadStackPc.buf, hlast, List.flatMap_nil] using hbalance
      · simpa only [delivered, ReadStackPc.buf] using hconfirmed
    | cons pbuf rest =>
      obtain rfl : rest = [] := by simpa using hat
      subst hs'
      refine ⟨hinv, h.lastdata, ⟨hlast, pbuf.wellFormed, rfl⟩, ?_, ?_⟩
      · simpa [delivered, inHand, ReadStackPc.buf, hlast] using hbalance
      · simpa only [delivered, ReadStackPc.buf] using hconfirmed
  | _ => simp only [hr] at hat

/-- The accesses in `gazelle_ring_read_over` keep the invariant. -/
theorem RecvInv.readOver {recvLeft : BitVec 64} {buf : List Byte}
    (hpc : s.reader = .readOver recvLeft buf) (hstep : s.readerStep ops = some s') :
    RecvInv k start s' := by
  have hat := h.reader
  have hbalance := h.balance
  have hconfirmed := h.confirmed
  simp only [ReaderAt, hpc] at hat
  simp only [RecvSys.readerStep, hpc, Option.map_eq_some_iff] at hstep
  obtain ⟨ring, hring, hs'⟩ := hstep
  have hinv : RingSys.RingInv k start ring := h.ring.step hk hring
  obtain ⟨hlast, hat⟩ := hat
  simp only [delivered, inHand, hpc, hlast] at hbalance hconfirmed
  cases hr : s.ring.reader with
  | overLoad =>
    simp only [hr] at hs'
    simp only [RingSys.step, RingSys.readerStep, hr, Option.some.injEq] at hring
    subst hs' hring
    refine ⟨hinv, h.lastdata, ⟨hlast, trivial⟩, ?_, hconfirmed⟩
    simpa only [delivered, inHand, hlast] using hbalance
  | overStore head =>
    simp only [hr] at hs'
    simp only [RingSys.step, RingSys.readerStep, hr, Option.some.injEq] at hring
    subst hs' hring
    refine ⟨hinv, h.lastdata, ⟨hlast, trivial⟩, ?_, ?_⟩
    · simpa only [delivered, inHand, hlast] using hbalance
    · -- all that is read is copied
      simp only [bytes_nil, List.append_nil] at hbalance
      simp only [delivered, hbalance]
      exact List.prefix_rfl
  | overDone =>
    simp only [hr] at hs'
    simp only [RingSys.step, RingSys.readerStep, hr, Option.some.injEq] at hring
    subst hs' hring
    refine ⟨hinv, h.lastdata, rfl, ?_, hconfirmed⟩
    simpa only [delivered, inHand, hlast, ReadStackPc.buf] using hbalance
  | _ => simp only [hr] at hat

/-- The copy from a chain keeps the invariant. -/
theorem RecvInv.copy (hops : ops.Lawful) {pbuf : List Pbuf} {recvLeft : BitVec 64}
    {buf : List Byte} (hpc : s.reader = .copy pbuf recvLeft buf)
    (hstep : s.readerStep ops = some s') : RecvInv k start s' := by
  have hat := h.reader
  have hbalance := h.balance
  have hconfirmed := h.confirmed
  simp only [ReaderAt, hpc] at hat
  obtain ⟨hlast, hwf, hr⟩ := hat
  simp only [delivered, inHand, hpc, hlast, ReadStackPc.buf] at hbalance hconfirmed
  -- the copy ends at the room or at the end of the chain
  have hcopy := copyLen_toNat recvLeft (chainTotLen pbuf)
  have htot := (chainTotLen pbuf).isLt
  have hcopy16 : ((copyLen recvLeft (chainTotLen pbuf)).setWidth 16).toNat =
      min recvLeft.toNat (bytes pbuf).length := by
    rw [BitVec.toNat_setWidth, hcopy, hwf.totLen]
    rw [hwf.totLen] at htot
    exact Nat.mod_eq_of_lt (by omega)
  have hdata := hops.pbufCopyPartial pbuf ((copyLen recvLeft (chainTotLen pbuf)).setWidth 16) hwf
  simp only [RecvSys.readerStep, hpc, hdata] at hstep
  split at hstep
  · rename_i hrest
    cases hstep
    have hlt : ((copyLen recvLeft (chainTotLen pbuf)).setWidth 16).toNat < (bytes pbuf).length := by
      rw [BitVec.lt_def, hcopy, BitVec.toNat_setWidth, Nat.mod_eq_of_lt (by omega),
        hwf.totLen] at hrest
      omega
    refine ⟨h.ring, fun _ => hwf.pbufFreePartial hops hlt, hr, ?_, ?_⟩
    · simp only [delivered, inHand, ReadStackPc.buf, bytes_nil, List.append_nil]
      rw [bytes_pbufFreePartial hops hwf.length_lt, ← hbalance]
      simp [List.append_assoc]
    · simp only [delivered, ReadStackPc.buf]
      rw [← List.append_assoc]
      exact hconfirmed.trans (List.prefix_append _ _)
  · rename_i hend
    simp only [Option.map_eq_some_iff] at hstep
    obtain ⟨ring, hring, rfl⟩ := hstep
    have hinv : RingSys.RingInv k start ring := h.ring.step hk hring
    have hall : (bytes pbuf).take ((copyLen recvLeft (chainTotLen pbuf)).setWidth 16).toNat =
        bytes pbuf := by
      rw [BitVec.not_lt, BitVec.le_def, hcopy, BitVec.toNat_setWidth, Nat.mod_eq_of_lt (by omega),
        hwf.totLen] at hend
      exact List.take_of_length_le (by rw [hcopy16]; omega)
    simp only [RingSys.step, hr, Option.some.injEq] at hring
    subst hring
    refine ⟨hinv, h.lastdata, ⟨hlast, trivial⟩, ?_, ?_⟩
    · simp only [delivered, inHand, ReadStackPc.buf, hall, hlast]
      simpa only [bytes_nil, List.append_nil, List.append_assoc] using hbalance
    · simp only [delivered, ReadStackPc.buf]
      rw [← List.append_assoc]
      exact hconfirmed.trans (List.prefix_append _ _)

/-- The steps of `read_stack_data` keep the invariant. -/
theorem RecvInv.readerStep (hops : ops.Lawful) (hstep : s.readerStep ops = some s') :
    RecvInv k start s' := by
  cases hpc : s.reader with
  | idle => simp [RecvSys.readerStep, hpc] at hstep
  | loop recvLeft buf =>
    have hat := h.reader
    simp only [ReaderAt, hpc] at hat
    simp only [RecvSys.readerStep, hpc] at hstep
    -- nothing is wanted any more
    split at hstep
    · cases hstep
      exact h.setReader h.lastdata hat (by simp [hpc, ReadStackPc.buf]) (by simp [inHand, hpc])
    -- the rest of a pbuf is read before the ring is looked at
    split at hstep
    · rename_i hlast
      cases hstep
      refine h.setReader (fun hne => absurd rfl hne) ⟨rfl, h.lastdata hlast, hat⟩
        (by simp [hpc, ReadStackPc.buf]) (by simp [inHand, hpc])
    · -- nothing is left of a pbuf, and one is read from the ring
      rename_i hlast
      simp only [ne_eq, Decidable.not_not] at hlast
      simp only [Option.map_eq_some_iff] at hstep
      obtain ⟨ring, hring, rfl⟩ := hstep
      have hinv : RingSys.RingInv k start ring := h.ring.step hk hring
      simp only [RingSys.step, hat, Option.some.injEq] at hring
      subst hring
      have hbalance := h.balance
      have hconfirmed := h.confirmed
      simp only [delivered, inHand, hpc] at hbalance hconfirmed
      exact ⟨hinv, h.lastdata, ⟨hlast, rfl⟩, hbalance, hconfirmed⟩
  | ringRead recvLeft buf => exact h.ringRead hk hpc hstep
  | copy pbuf recvLeft buf => exact h.copy hk hops hpc hstep
  | readOver recvLeft buf => exact h.readOver hk hpc hstep
  | ret buf =>
    -- the call returns what it has copied
    have hat := h.reader
    have hbalance := h.balance
    have hconfirmed := h.confirmed
    simp only [ReaderAt, hpc] at hat
    simp only [delivered, inHand, hpc, ReadStackPc.buf] at hbalance hconfirmed
    simp only [RecvSys.readerStep, hpc, Option.some.injEq] at hstep
    subst hstep
    refine ⟨h.ring, h.lastdata, hat, ?_, ?_⟩
    · simpa only [delivered, inHand, ReadStackPc.buf, List.append_nil] using hbalance
    · simpa only [delivered, ReadStackPc.buf, List.append_nil] using hconfirmed

/-- Every step keeps the invariant. -/
theorem RecvInv.step (hops : ops.Lawful) {a : RecvAct} (hstep : s.step ops a = some s') :
    RecvInv k start s' := by
  cases a with
  | enqueue pbufs =>
    simp only [RecvSys.step, Option.map_eq_some_iff] at hstep
    obtain ⟨ring, hring, rfl⟩ := hstep
    -- the owner starts a call, and what the reader sees of the ring is the same
    have hinv : RingSys.RingInv k start ring := h.ring.step hk hring
    simp only [RingSys.step] at hring
    split at hring
    · split at hring <;> cases hring
      exact h.setRing hinv rfl rfl rfl
    · cases hring
  | dequeue n =>
    simp only [RecvSys.step, Option.map_eq_some_iff] at hstep
    obtain ⟨ring, hring, rfl⟩ := hstep
    have hinv : RingSys.RingInv k start ring := h.ring.step hk hring
    simp only [RingSys.step] at hring
    split at hring <;> cases hring
    exact h.setRing hinv rfl rfl rfl
  | stack =>
    simp only [RecvSys.step, Option.map_eq_some_iff] at hstep
    obtain ⟨ring, hring, rfl⟩ := hstep
    -- its steps leave the side of the reader alone
    obtain ⟨hreader, hreadOut, hconfirmed⟩ := RingSys.reader_of_ownerStep hring
    exact h.setRing (h.ring.step hk hring) hreader hreadOut hconfirmed
  | read len errevent =>
    simp only [RecvSys.step] at hstep
    split at hstep
    · rename_i hpc
      have hat := h.reader
      -- a read starts when there is none; one that may not start returns at once
      simp only [ReaderAt, hpc] at hat
      split at hstep <;> cases hstep
      · exact h
      · exact h.setReader h.lastdata hat (by simp [hpc, ReadStackPc.buf]) (by simp [inHand, hpc])
    · cases hstep
  | reader => exact h.readerStep hk hops hstep

end Steps

/-! ## Runs -/

section Runs

variable {k : ℕ} {start : U32} {ops : PbufOps} {s : RecvSys}

/-- The invariant holds at the start. -/
theorem RecvInv.create (slots : U32 → PbufChain) : RecvInv k start (create k start slots) where
  ring := RingSys.RingInv.create k start slots
  lastdata hne := absurd rfl hne
  reader := rfl
  balance := rfl
  confirmed := List.prefix_rfl

/-- The receive stream of a TCP socket is intact. In every interleaving of the stack and the
application: the bytes copied to the application, the chain it holds, `recv_lastdata` and the
unread entries of `recv_ring` make up the payloads of the chains enqueued; so what calls have
returned is a prefix of them, and between two calls the rest is in `recv_lastdata` and the unread
entries. An entry is only dequeued when it is confirmed, and only confirmed when its bytes are
copied. -/
theorem recv_stream_integrity (hk : k ≤ 31) (hops : ops.Lawful) (slots : U32 → PbufChain)
    (hs : (system ops k start slots).Reachable s) :
    s.delivered ++ bytes s.inHand ++ bytes s.recvLastdata ++ payload s.unread =
        payload s.ring.accepted ∧
      s.delivered <+: payload s.ring.accepted ∧ s.returned <+: payload s.ring.accepted ∧
      (s.reader = .idle →
        s.returned ++ bytes s.recvLastdata ++ payload s.unread = payload s.ring.accepted) ∧
      s.ring.dequeued <+: s.ring.confirmed ∧ payload s.ring.confirmed <+: s.delivered := by
  have h : RecvInv k start s := by
    refine Transition.System.invariant (I := RecvInv k start) ?_ ?_ hs
    · rintro _ rfl
      exact RecvInv.create slots
    · intro _ _ _ _ ih hstep
      exact ih.step hk hops hstep
  have hunread : s.unread = s.ring.accepted.drop s.ring.readOut.length := h.ring.unread_eq hk
  have hall : s.delivered ++ bytes s.inHand ++ bytes s.recvLastdata ++ payload s.unread =
      payload s.ring.accepted := by
    obtain ⟨rest, hrest⟩ := h.ring.readOut_prefix
    rw [h.balance, hunread, ← hrest, List.drop_left, payload_append]
  have hdelivered : s.delivered <+: payload s.ring.accepted := by
    rw [← hall, List.append_assoc, List.append_assoc]
    exact List.prefix_append _ _
  refine ⟨hall, hdelivered, (List.prefix_append _ _).trans hdelivered, fun hpc => ?_,
    h.ring.dequeued_prefix, h.confirmed⟩
  rw [← hall]
  simp [delivered, inHand, hpc, ReadStackPc.buf]

/-- A chain of three bytes in two pbufs. -/
private def exampleChain : PbufChain := ⟨[⟨[1, 2], 3⟩, ⟨[3], 1⟩], by simp, rfl⟩

/-- Of a chain of three bytes one is read; the other two are in `recv_lastdata`. -/
theorem recv_stream_integrity_partial :
    ∃ s : RecvSys, s.returned = [1] ∧ s.recvLastdata = [⟨[2], 2⟩, ⟨[3], 1⟩] ∧
      s.returned <+: payload s.ring.accepted :=
  have hrun : (system lwipOps 1 0 fun _ => exampleChain).run (create 1 0 fun _ => exampleChain)
      [.enqueue [exampleChain], .stack, .stack, .stack, .stack, .read 1 false, .reader, .reader,
        .reader, .reader, .reader, .reader, .reader, .reader] = some _ := rfl
  have h := recv_stream_integrity (by decide) lwipOps_lawful _
    (Transition.System.reachable_of_run (.init rfl) hrun)
  ⟨_, rfl, rfl, h.2.2.1⟩

end Runs

end RecvSys

end Gazelle
