import Gazelle.Lists.Messages
import Gazelle.Lwip.RecvStream
import Gazelle.Ring.Calls

/-!
# Datagrams received by a UDP socket

`udp_recvfrom` calls `read_stack_data` on a UDP socket and then on its shadows (`listen_next`) until
one of them has data. The stacks enqueue datagrams into the `recv_ring`s of the sockets, and
`free_recv_ring_readover` takes back and frees what is confirmed. `read_stack_data` is the loop of
`Gazelle.Lwip.RecvStream`, here with the source that each pbuf carries and that the call reports.

* `UdpRecvSys.system`: all interleavings of the stacks and the thread that calls `udp_recvfrom`;
* `udp_recv_boundaries`: what the calls return are reads of single datagrams with their sources, as
  long as the calls are orderly;
* `udp_recv_merges`: otherwise one call returns the bytes of two datagrams.
-/

namespace Gazelle

open Pbuf Messages

/-- A `struct pbuf` of a UDP socket. -/
structure UdpPbuf extends Pbuf where
  /-- Where it came from. -/
  source : PbufAddr
  deriving DecidableEq

namespace UdpPbuf

/-- The bytes of a chain. -/
def bytes (pbuf : List UdpPbuf) : List Byte := Pbuf.bytes (pbuf.map toPbuf)

/-- `pbuf->tot_len` of a chain. -/
def chainTotLen (pbuf : List UdpPbuf) : BitVec 16 := Pbuf.chainTotLen (pbuf.map toPbuf)

/-- A chain that is not `NULL` and whose `tot_len` is the sum of the lengths. -/
def WellFormed (pbuf : List UdpPbuf) : Prop := Pbuf.WellFormed (pbuf.map toPbuf)

/-- A chain as a message: its bytes with the source in its first pbuf. -/
def message : List UdpPbuf → List (List Byte × PbufAddr)
  | [] => []
  | p :: next => [(bytes (p :: next), p.source)]

section FreePartial

variable (ops : PbufOps)

/-- The loop of `pbuf_free_partial`. -/
def pbufFreePartialLoop : List UdpPbuf → BitVec 16 → List UdpPbuf
  | [], _ => []
  | p :: next, freeLen =>
    if freeLen = 0 then p :: next
    else if p.len ≤ freeLen then pbufFreePartialLoop next (freeLen - p.len)
    else { p with toPbuf := ops.pbufRemoveHeader p.toPbuf freeLen } :: next

/-- `pbuf_free_partial`. -/
def pbufFreePartial (pbuf : List UdpPbuf) (freeLen : BitVec 16) : List UdpPbuf :=
  let totLen : BitVec 32 := (chainTotLen pbuf).setWidth 32 - freeLen.setWidth 32
  match pbufFreePartialLoop ops pbuf freeLen with
  | [] => []
  | p :: next => { p with totLen := totLen.setWidth 16 } :: next

/-- A part that ends in the first pbuf, or in a chain whose pbufs all carry the same source. -/
def KeepsSource (pbuf : List UdpPbuf) (freeLen : BitVec 16) : Prop :=
  match pbuf with
  | [] => True
  | p :: next => freeLen < p.len ∨ ∀ q ∈ next, q.source = p.source

variable {ops} {pbuf : List UdpPbuf} {freeLen : BitVec 16}

/-- Apart from the sources this is the loop of `Gazelle.Lwip.Pbuf`. -/
theorem toPbuf_pbufFreePartialLoop :
    (pbufFreePartialLoop ops pbuf freeLen).map toPbuf =
      Gazelle.pbufFreePartialLoop ops (pbuf.map toPbuf) freeLen := by
  induction pbuf generalizing freeLen with
  | nil => rfl
  | cons p next ih =>
    simp only [pbufFreePartialLoop, Gazelle.pbufFreePartialLoop, List.map_cons]
    split
    · rfl
    split
    · exact ih
    · rfl

theorem toPbuf_pbufFreePartial :
    (pbufFreePartial ops pbuf freeLen).map toPbuf =
      Gazelle.pbufFreePartial ops (pbuf.map toPbuf) freeLen := by
  have hloop : (pbufFreePartialLoop ops pbuf freeLen).map toPbuf =
      Gazelle.pbufFreePartialLoop ops (pbuf.map toPbuf) freeLen := toPbuf_pbufFreePartialLoop
  unfold pbufFreePartial Gazelle.pbufFreePartial
  rw [← hloop]
  cases pbufFreePartialLoop ops pbuf freeLen <;> rfl

/-- The pbufs that are left are among the last ones of the chain. -/
theorem source_pbufFreePartialLoop :
    (pbufFreePartialLoop ops pbuf freeLen).map source <:+ pbuf.map source := by
  induction pbuf generalizing freeLen with
  | nil => exact List.suffix_refl _
  | cons p next ih =>
    simp only [pbufFreePartialLoop]
    split
    · exact List.suffix_refl _
    split
    · exact ih.trans (List.suffix_cons _ _)
    · exact List.suffix_refl _

/-- The sources of what `pbuf_free_partial` leaves. -/
theorem source_pbufFreePartial :
    (pbufFreePartial ops pbuf freeLen).map source <:+ pbuf.map source := by
  have hloop : (pbufFreePartialLoop ops pbuf freeLen).map source <:+ pbuf.map source :=
    source_pbufFreePartialLoop
  unfold pbufFreePartial
  cases hrest : pbufFreePartialLoop ops pbuf freeLen with
  | nil => exact List.nil_suffix
  | cons p next => rwa [hrest] at hloop

/-- What is left of a chain still starts with the source of the chain. -/
theorem message_pbufFreePartial {p : UdpPbuf} {next : List UdpPbuf}
    (h : KeepsSource (p :: next) freeLen)
    (hne : pbufFreePartial ops (p :: next) freeLen ≠ []) :
    message (pbufFreePartial ops (p :: next) freeLen) =
      [(bytes (pbufFreePartial ops (p :: next) freeLen), p.source)] := by
  obtain ⟨q, rest, hrest⟩ := List.exists_cons_of_ne_nil hne
  have hsource : q.source = p.source := by
    rcases h with hlt | hall
    · -- the loop stops at the first pbuf
      unfold pbufFreePartial pbufFreePartialLoop at hrest
      rw [if_neg (BitVec.not_le.2 hlt)] at hrest
      split at hrest
      · cases hrest
      · rename_i hloop
        cases hrest
        split at hloop <;> cases hloop <;> rfl
    · have hsuffix : (pbufFreePartial ops (p :: next) freeLen).map source <:+
          (p :: next).map source := source_pbufFreePartial
      rw [hrest] at hsuffix
      have hmem := hsuffix.subset (List.mem_map_of_mem (f := source) List.mem_cons_self)
      rcases List.mem_cons.1 hmem with heq | hmem
      · exact heq
      · obtain ⟨r, hr, heq⟩ := List.mem_map.1 hmem
        rw [← heq, hall r hr]
  rw [hrest, message, hsource]

end FreePartial

end UdpPbuf

/-- A datagram as the stack enqueues it. -/
structure Datagram where
  /-- The first pbuf, which carries the source. -/
  head : UdpPbuf
  /-- The other pbufs. -/
  next : List UdpPbuf
  /-- They are a chain. -/
  wellFormed : UdpPbuf.WellFormed (head :: next)

namespace Datagram

/-- The chain. -/
def pbufs (d : Datagram) : List UdpPbuf := d.head :: d.next

/-- The payload and the source. -/
def message (d : Datagram) : List Byte × PbufAddr := (UdpPbuf.bytes d.pbufs, d.head.source)

end Datagram

/-- Where the application stands in `read_stack_data`, with `pbuf`, `recv_left` and the bytes that
are in `buf` already. A `pbuf` that is `NULL` is empty. -/
inductive ReadUdpPc
  /-- Outside. -/
  | idle
  /-- At the head of the loop. -/
  | loop (pbuf : List UdpPbuf) (recvLeft : BitVec 64) (buf : List Byte)
  /-- In `gazelle_ring_read`. -/
  | ringRead (pbuf : List UdpPbuf) (recvLeft : BitVec 64) (buf : List Byte)
  /-- Before the copy from `pbuf`. -/
  | copy (pbuf : List UdpPbuf) (recvLeft : BitVec 64) (buf : List Byte)
  /-- In `gazelle_ring_read_over`. -/
  | readOver (pbuf : List UdpPbuf) (recvLeft : BitVec 64) (buf : List Byte)
  /-- About to report the address and to return. -/
  | ret (pbuf : List UdpPbuf) (buf : List Byte)

/-- A UDP socket with its stack and the application in `read_stack_data`. -/
structure UdpSock where
  /-- `recv_ring` with the two threads in its functions. -/
  ring : RingSys Datagram
  /-- What `free_recv_ring_readover` has dequeued and still has to free. -/
  freeing : List Datagram
  /-- The number of datagrams that are freed. -/
  freed : ℕ
  /-- `recv_lastdata`. -/
  recvLastdata : List UdpPbuf
  /-- `conn` is not `NULL`. -/
  conn : Bool
  /-- The application in `read_stack_data`. -/
  reader : ReadUdpPc

/-- The actions of the stack of a socket. -/
inductive UdpStackAct
  /-- The stack calls `gazelle_ring_sp_enqueue` in `read_lwip_data`. -/
  | enqueue (pbufs : List Datagram)
  /-- The stack calls `gazelle_ring_sc_dequeue` in `free_recv_ring_readover`. -/
  | dequeue (n : U32)
  /-- The stack makes its next access to the ring, or frees the next datagram. -/
  | next

/-- Where the application stands in `udp_recvfrom`, with the number of the socket in the list of
shadows, `len`, and whether it asks for the address. -/
inductive UdpRecvfromPc
  /-- Outside. -/
  | idle
  /-- About to call `read_stack_data`. -/
  | call (i : ℕ) (len : BitVec 64) (wantAddr : Bool)
  /-- In `read_stack_data`. -/
  | reading (i : ℕ) (len : BitVec 64) (wantAddr : Bool)

/-- What `read_stack_data` finds outside the socket's data. -/
structure ReadEnv where
  /-- `errevent` is positive. -/
  errevent : Bool
  /-- `errno` is `EAGAIN`, when `read_stack_data` does not set it. -/
  eagain : Bool
  /-- What the memory of a freed pbuf holds. -/
  freedSource : PbufAddr
  deriving DecidableEq

/-- A UDP socket with its shadows. -/
structure UdpRecvSys where
  /-- The socket, followed by its shadows. -/
  socks : List UdpSock
  /-- The application in `udp_recvfrom`. -/
  pc : UdpRecvfromPc
  /-- What the successful calls have returned: the number of the socket, the bytes, and the address
  when it was asked for; nothing reads this. -/
  received : List (ℕ × List Byte × Option PbufAddr)

/-- The actions. -/
inductive UdpRecvAct
  /-- The stack of a socket. -/
  | stack (i : ℕ) (a : UdpStackAct)
  /-- The application calls `udp_recvfrom`. -/
  | recvfrom (len : BitVec 64) (wantAddr : Bool)
  /-- The application makes its next step. -/
  | app (env : ReadEnv)

namespace UdpSock

variable (ops : PbufOps) (s : UdpSock)

/-- `NETCONN_IS_DATAIN`. -/
def isDatain : Bool := s.ring.ring.gazelleRingReadableCount ≠ 0 || !s.recvLastdata.isEmpty

/-- One step of the stack. -/
def stackStep : UdpStackAct → Option UdpSock
  | .enqueue pbufs =>
    if s.freeing = [] then (s.ring.step (.enqueue pbufs)).map fun ring => { s with ring } else none
  | .dequeue n =>
    if s.freeing = [] then (s.ring.step (.dequeue n)).map fun ring => { s with ring } else none
  | .next =>
    match s.freeing with
    | _ :: freeing => some { s with freeing, freed := s.freed + 1 }
    | [] =>
      (s.ring.step .owner).map fun ring =>
        match s.ring.owner with
        | .deqDone got => { s with ring, freeing := got }
        | _ => { s with ring }

/-- The next step of `read_stack_data` up to its end. -/
def readerStep : Option UdpSock :=
  match s.reader with
  | .idle | .ret _ _ => none
  | .loop pbuf recvLeft buf =>
    if recvLeft = 0 then some { s with reader := .ret pbuf buf }
    else if s.recvLastdata ≠ [] then
      some { s with recvLastdata := [], reader := .copy s.recvLastdata recvLeft buf }
    else (s.ring.step (.read 1)).map fun ring =>
      { s with ring, reader := .ringRead pbuf recvLeft buf }
  | .ringRead pbuf recvLeft buf =>
    (s.ring.step .reader).map fun ring =>
      match s.ring.reader with
      | .readDone [] => { s with ring, reader := .ret pbuf buf }
      | .readDone (d :: _) => { s with ring, reader := .copy d.pbufs recvLeft buf }
      | _ => { s with ring }
  | .copy pbuf recvLeft buf =>
    let copyLen := copyLen recvLeft (UdpPbuf.chainTotLen pbuf)
    let buf := buf ++ ops.pbufCopyPartial (pbuf.map UdpPbuf.toPbuf) (copyLen.setWidth 16) 0
    let recvLeft := recvLeft - copyLen.setWidth 64
    if copyLen < (UdpPbuf.chainTotLen pbuf).setWidth 32 then
      some { s with
        recvLastdata := UdpPbuf.pbufFreePartial ops pbuf (copyLen.setWidth 16)
        reader := .ret pbuf buf }
    else (s.ring.step .readOver).map fun ring =>
      { s with ring, reader := .readOver pbuf recvLeft buf }
  | .readOver pbuf recvLeft buf =>
    (s.ring.step .reader).map fun ring =>
      match s.ring.reader with
      | .overDone => { s with ring, reader := .loop pbuf recvLeft buf }
      | _ => { s with ring }

/-- The address that `read_stack_data` reports: what is in the memory of `pbuf`, which belongs to
the last datagram read. -/
def reports (env : ReadEnv) (wantAddr : Bool) (pbuf : List UdpPbuf) : Option PbufAddr :=
  match pbuf with
  | [] => none
  | p :: _ =>
    if wantAddr then some (if s.freed < s.ring.readOut.length then p.source else env.freedSource)
    else none

/-- A socket that has received nothing, with a ring of `2 ^ k` slots. -/
def create (k : ℕ) (start : U32) (slots : U32 → Datagram) (conn : Bool) : UdpSock where
  ring := .create k start slots
  freeing := []
  freed := 0
  recvLastdata := []
  conn := conn
  reader := .idle

/-- The messages that the socket was given and that are not read. -/
def unread : List Datagram :=
  s.ring.ring.dequeueElems s.ring.ring.prod.head s.ring.ring.gazelleRingReadableCount.toNat

/-- The step of `read_stack_data` that comes next respects the boundaries of datagrams:

* when `gazelle_ring_read` is called with bytes in the buffer already, it finds no datagram;
* a part of a datagram is read that keeps the source;
* when the address is taken from `pbuf`, its datagram is not freed yet. -/
def Orderly (wantAddr : Bool) : Prop :=
  match s.reader with
  | .ringRead _ _ buf =>
    match s.ring.reader with
    | .readLoadProd _ cons => buf ≠ [] → cons = s.ring.ring.prod.head
    | _ => True
  | .copy pbuf recvLeft _ =>
    copyLen recvLeft (UdpPbuf.chainTotLen pbuf) < (UdpPbuf.chainTotLen pbuf).setWidth 32 →
      UdpPbuf.KeepsSource pbuf ((copyLen recvLeft (UdpPbuf.chainTotLen pbuf)).setWidth 16)
  | .ret _ buf => buf ≠ [] → wantAddr = true → s.freed < s.ring.readOut.length
  | _ => True

end UdpSock

namespace UdpRecvSys

variable (ops : PbufOps) (s : UdpRecvSys)

/-- `udp_recvfrom` goes on to the next shadow, or returns when there is none with a `conn`. -/
def listenNext (i : ℕ) (len : BitVec 64) (wantAddr : Bool) : UdpRecvSys :=
  match s.socks[i + 1]? with
  | some sock => { s with pc := if sock.conn then .call (i + 1) len wantAddr else .idle }
  | none => { s with pc := .idle }

/-- `read_stack_data` returns to `udp_recvfrom`. -/
def returns (i : ℕ) (len : BitVec 64) (wantAddr : Bool) (buf : List Byte)
    (told : Option PbufAddr) (eagain : Bool) : UdpRecvSys :=
  let ret := BitVec.ofNat 32 buf.length
  if 0 < ret.toInt then { s with pc := .idle, received := s.received ++ [(i, buf, told)] }
  else if buf = [] || eagain then s.listenNext i len wantAddr
  else { s with pc := .idle }

/-- The next step of the application. -/
def appStep (env : ReadEnv) : Option UdpRecvSys :=
  match s.pc with
  | .idle => none
  | .call i len wantAddr =>
    s.socks[i]?.map fun sock =>
      if env.errevent && !sock.isDatain then
        if env.eagain then s.listenNext i len wantAddr else { s with pc := .idle }
      else
        { s with
          socks := s.socks.set i { sock with reader := .loop [] len [] }
          pc := .reading i len wantAddr }
  | .reading i len wantAddr =>
    s.socks[i]?.bind fun sock =>
      match sock.reader with
      | .ret pbuf buf =>
        some ({ s with socks := s.socks.set i { sock with reader := .idle } }.returns i len wantAddr
          buf (sock.reports env wantAddr pbuf) env.eagain)
      | _ => (sock.readerStep ops).map fun sock => { s with socks := s.socks.set i sock }

/-- One step. -/
def step : UdpRecvAct → Option UdpRecvSys
  | .stack i a =>
    s.socks[i]?.bind fun sock =>
      (sock.stackStep a).map fun sock => { s with socks := s.socks.set i sock }
  | .recvfrom len wantAddr =>
    match s.pc with
    | .idle => if len = 0 then none else some { s with pc := .call 0 len wantAddr }
    | _ => none
  | .app env => s.appStep ops env

/-- All interleavings of the application and the stacks of the sockets. -/
def system : Transition.System UdpRecvSys UdpRecvAct where
  Init s :=
    (∀ sock ∈ s.socks, ∃ k ≤ 31, ∃ start slots conn, sock = .create k start slots conn) ∧
      s.pc = .idle ∧ s.received = []
  step := step ops

/-- What the calls have returned from a socket. -/
def receivedFrom (i : ℕ) : List (List Byte × Option PbufAddr) :=
  s.received.filterMap fun r => if r.1 = i then some r.2 else none

/-- The next step of the call respects the boundaries of datagrams. -/
def Orderly : UdpRecvAct → Prop
  | .app _ =>
    match s.pc with
    | .reading i _ wantAddr =>
      match s.socks[i]? with
      | some sock => sock.Orderly wantAddr
      | none => True
    | _ => True
  | _ => True

end UdpRecvSys

/-! ## The invariant of a socket -/

namespace UdpSock

/-- What the call in progress has gathered of the datagrams `out`: nothing, or what was left of one
datagram, whose source is in `pbuf`. -/
def Gathered (results : List (List Byte × Option PbufAddr)) (out : List Datagram)
    (pbuf : List UdpPbuf) (buf : List Byte) : Prop :=
  (buf = [] ∧ ReadsFrom (out.map Datagram.message) results []) ∨
    ∃ p next, pbuf = p :: next ∧ buf ≠ [] ∧ buf.length < 2 ^ 16 ∧
      ReadsFrom (out.map Datagram.message) results [(buf, p.source)]

/-- Between two calls the rest of the datagrams read is in `recv_lastdata`. -/
structure Leftover (results : List (List Byte × Option PbufAddr)) (s : UdpSock) : Prop where
  /-- `recv_lastdata` is `NULL` or a chain. -/
  wellFormed : s.recvLastdata ≠ [] → UdpPbuf.WellFormed s.recvLastdata
  /-- It is what is left. -/
  reads : ReadsFrom (s.ring.readOut.map Datagram.message) results (UdpPbuf.message s.recvLastdata)

/-- The application holds a chain and has copied nothing yet. -/
structure Holding (results : List (List Byte × Option PbufAddr)) (pbuf : List UdpPbuf)
    (recvLeft : BitVec 64) (buf : List Byte) (s : UdpSock) : Prop where
  /-- Nothing is copied. -/
  buf_nil : buf = []
  /-- There is room. -/
  room : recvLeft ≠ 0
  /-- The chain is the only one. -/
  recvLastdata : s.recvLastdata = []
  /-- It is a chain. -/
  wellFormed : UdpPbuf.WellFormed pbuf
  /-- No function of the ring is called. -/
  reader : s.ring.reader = .idle
  /-- It is what is left. -/
  reads : ReadsFrom (s.ring.readOut.map Datagram.message) results (UdpPbuf.message pbuf)

/-- The application has copied a part of a datagram, whose rest is in `recv_lastdata`. -/
structure Parted (results : List (List Byte × Option PbufAddr)) (pbuf : List UdpPbuf)
    (buf : List Byte) (s : UdpSock) : Prop where
  /-- Something is copied. -/
  buf_ne_nil : buf ≠ []
  /-- It is less than a datagram. -/
  length_lt : buf.length < 2 ^ 16
  /-- The rest is a chain. -/
  wellFormed : UdpPbuf.WellFormed s.recvLastdata
  /-- Both are what was left of a datagram, whose source is in `pbuf` and in the rest. -/
  reads : ∃ p next, pbuf = p :: next ∧
    UdpPbuf.message s.recvLastdata = [(UdpPbuf.bytes s.recvLastdata, p.source)] ∧
    ReadsFrom (s.ring.readOut.map Datagram.message) results
      [(buf ++ UdpPbuf.bytes s.recvLastdata, p.source)]

/-- `gazelle_ring_read` has found nothing or has not looked yet. -/
def FindsNothing : ReaderPc Datagram → Prop
  | .readCopy _ _ _ => False
  | .readDone got => got = []
  | _ => True

/-- What holds where the application stands, when the calls before have returned `results`. -/
def ReaderAt (results : List (List Byte × Option PbufAddr)) (s : UdpSock) : Prop :=
  match s.reader with
  | .idle => s.ring.reader = .idle ∧ s.Leftover results
  | .loop pbuf recvLeft buf =>
    s.ring.reader = .idle ∧
      ((s.recvLastdata = [] ∧ Gathered results s.ring.readOut pbuf buf) ∨
        (buf = [] ∧ recvLeft ≠ 0 ∧ s.Leftover results))
  | .ringRead pbuf recvLeft buf =>
    s.recvLastdata = [] ∧ recvLeft ≠ 0 ∧ (buf ≠ [] → FindsNothing s.ring.reader) ∧
      ∃ out conf, RingSys.Reading 1 out conf s.ring ∧ Gathered results out pbuf buf
  | .copy pbuf recvLeft buf => s.Holding results pbuf recvLeft buf
  | .readOver pbuf _ buf =>
    s.recvLastdata = [] ∧ Gathered results s.ring.readOut pbuf buf ∧
      ∃ conf, RingSys.Confirming s.ring.readOut conf s.ring
  | .ret pbuf buf =>
    s.ring.reader = .idle ∧
      ((s.recvLastdata = [] ∧ Gathered results s.ring.readOut pbuf buf) ∨
        s.Parted results pbuf buf)

/-- The invariant of a socket from which the calls have returned `results`. -/
structure UdpInv (results : List (List Byte × Option PbufAddr)) (s : UdpSock) : Prop where
  /-- The ring is right. -/
  ring : ∃ k ≤ 31, ∃ start, RingSys.RingInv k start s.ring
  /-- The local variables are right. -/
  reader : s.ReaderAt results

variable {ops : PbufOps} {s s' : UdpSock} {results : List (List Byte × Option PbufAddr)}

/-- Every step keeps the invariant of the ring. -/
theorem ring_step {ring ring' : RingSys Datagram}
    (h : ∃ k ≤ 31, ∃ start, RingSys.RingInv k start ring) {a : RingAct Datagram}
    (hs : ring.step a = some ring') : ∃ k ≤ 31, ∃ start, RingSys.RingInv k start ring' := by
  obtain ⟨k, hk, start, hinv⟩ := h
  exact ⟨k, hk, start, hinv.step hk hs⟩

/-- What holds for the application does not depend on the owner's side of the ring. -/
theorem ReaderAt.congr (h : s.ReaderAt results) (hsame : RingSys.SameReader s.ring s'.ring)
    (hlast : s'.recvLastdata = s.recvLastdata) (hreader : s'.reader = s.reader) :
    s'.ReaderAt results := by
  -- of the ring the application sees what it has read out, and its own call
  unfold ReaderAt at h ⊢
  rw [hreader]
  cases hpc : s.reader with
  | idle =>
    rw [hpc] at h
    obtain ⟨hidle, hleft⟩ := h
    exact ⟨hsame.reader.trans hidle, by rw [hlast]; exact hleft.wellFormed,
      by rw [hlast, hsame.readOut]; exact hleft.reads⟩
  | loop pbuf recvLeft buf =>
    rw [hpc] at h
    obtain ⟨hidle, hgathered | ⟨hbuf, hroom, hleft⟩⟩ := h
    · exact ⟨hsame.reader.trans hidle, .inl (by rw [hlast, hsame.readOut]; exact hgathered)⟩
    · exact ⟨hsame.reader.trans hidle, .inr ⟨hbuf, hroom, by rw [hlast]; exact hleft.wellFormed,
        by rw [hlast, hsame.readOut]; exact hleft.reads⟩⟩
  | ringRead pbuf recvLeft buf =>
    rw [hpc] at h
    obtain ⟨hnil, hroom, hnothing, out, conf, hread, hgathered⟩ := h
    exact ⟨hlast.trans hnil, hroom, by rw [hsame.reader]; exact hnothing, out, conf,
      hread.congr hsame, hgathered⟩
  | copy pbuf recvLeft buf =>
    rw [hpc] at h
    exact ⟨h.buf_nil, h.room, hlast.trans h.recvLastdata, h.wellFormed,
      hsame.reader.trans h.reader, by rw [hsame.readOut]; exact h.reads⟩
  | readOver pbuf recvLeft buf =>
    rw [hpc] at h
    obtain ⟨hnil, hgathered, conf, hover⟩ := h
    simp only [hsame.readOut]
    exact ⟨hlast.trans hnil, hgathered, conf, hover.congr hsame⟩
  | ret pbuf buf =>
    rw [hpc] at h
    obtain ⟨hidle, hgathered | hparted⟩ := h
    · exact ⟨hsame.reader.trans hidle, .inl (by rw [hlast, hsame.readOut]; exact hgathered)⟩
    · exact ⟨hsame.reader.trans hidle, .inr ⟨hparted.buf_ne_nil, hparted.length_lt,
        by rw [hlast]; exact hparted.wellFormed,
        by rw [hlast, hsame.readOut]; exact hparted.reads⟩⟩

/-- The stack makes a step on the ring, or leaves it alone. -/
theorem of_stackStep {a : UdpStackAct} (hs : s.stackStep a = some s') :
    (s'.ring = s.ring ∨ ∃ b : RingAct Datagram, ¬ b.isReader ∧ s.ring.step b = some s'.ring) ∧
      s'.recvLastdata = s.recvLastdata ∧ s'.reader = s.reader := by
  cases a with
  | enqueue pbufs =>
    simp only [UdpSock.stackStep, Option.ite_none_right_eq_some] at hs
    obtain ⟨ring, hring, rfl⟩ := Option.map_eq_some_iff.1 hs.2
    exact ⟨.inr ⟨_, by simp [RingAct.isReader], hring⟩, rfl, rfl⟩
  | dequeue n =>
    simp only [UdpSock.stackStep, Option.ite_none_right_eq_some] at hs
    obtain ⟨ring, hring, rfl⟩ := Option.map_eq_some_iff.1 hs.2
    exact ⟨.inr ⟨_, by simp [RingAct.isReader], hring⟩, rfl, rfl⟩
  | next =>
    simp only [UdpSock.stackStep] at hs
    split at hs
    · obtain rfl := Option.some.inj hs
      exact ⟨.inl rfl, rfl, rfl⟩
    · obtain ⟨ring, hring, heq⟩ := Option.map_eq_some_iff.1 hs
      have hstep : ¬ (RingAct.owner (α := Datagram)).isReader := by simp [RingAct.isReader]
      split at heq <;> subst heq <;> exact ⟨.inr ⟨_, hstep, hring⟩, rfl, rfl⟩

/-- The steps of the stack keep the invariant. -/
theorem UdpInv.stackStep (h : s.UdpInv results) {a : UdpStackAct}
    (hs : s.stackStep a = some s') : s'.UdpInv results := by
  obtain ⟨hring | ⟨b, hb, hring⟩, hlast, hreader⟩ := of_stackStep hs
  · exact ⟨hring ▸ h.ring, h.reader.congr (hring ▸ .refl _) hlast hreader⟩
  · exact ⟨ring_step h.ring hring,
      h.reader.congr (RingSys.sameReader_of_ownerAct hring hb) hlast hreader⟩

/-- The head of the loop. -/
theorem UdpInv.loop (h : s.UdpInv results) {pbuf : List UdpPbuf} {recvLeft : BitVec 64}
    {buf : List Byte} (hpc : s.reader = .loop pbuf recvLeft buf)
    (hs : s.readerStep ops = some s') : s'.UdpInv results := by
  have hat := h.reader
  simp only [ReaderAt, hpc] at hat
  obtain ⟨hidle, hcases⟩ := hat
  simp only [UdpSock.readerStep, hpc] at hs
  split at hs
  · rename_i hzero
    obtain rfl := Option.some.inj hs
    -- nothing is left to read, as the datagram has been gathered
    rcases hcases with hgathered | ⟨-, hroom, -⟩
    · exact ⟨h.ring, hidle, .inl hgathered⟩
    · exact absurd hzero hroom
  rename_i hroom
  split at hs
  · rename_i hlast
    obtain rfl := Option.some.inj hs
    -- there is the rest of a datagram, which is read before another one
    rcases hcases with ⟨hnil, -⟩ | ⟨hbuf, -, hleft⟩
    · exact absurd hnil hlast
    · exact ⟨h.ring, hbuf, hroom, rfl, hleft.wellFormed hlast, hidle, hleft.reads⟩
  · rename_i hlast
    -- none: the ring is asked for a datagram
    rw [ne_eq, not_not] at hlast
    obtain ⟨ring, hring, rfl⟩ := Option.map_eq_some_iff.1 hs
    have hgathered : Gathered results s.ring.readOut pbuf buf := by
      rcases hcases with ⟨-, hgathered⟩ | ⟨hbuf, -, hleft⟩
      · exact hgathered
      · have hreads := hleft.reads
        rw [hlast] at hreads
        exact .inl ⟨hbuf, hreads⟩
    refine ⟨ring_step h.ring hring, hlast, hroom, fun _ => ?_, _, _, RingSys.reading_of_call hring,
      hgathered⟩
    simp only [RingSys.step, hidle, Option.some.injEq] at hring
    subst hring
    trivial

/-- The steps in `gazelle_ring_read`. -/
theorem UdpInv.ringRead {wantAddr : Bool} (h : s.UdpInv results) (horder : s.Orderly wantAddr)
    {pbuf : List UdpPbuf} {recvLeft : BitVec 64} {buf : List Byte}
    (hpc : s.reader = .ringRead pbuf recvLeft buf) (hs : s.readerStep ops = some s') :
    s'.UdpInv results := by
  have hat := h.reader
  simp only [ReaderAt, hpc] at hat
  obtain ⟨hlast, hroom, hnothing, out, conf, hread, hgathered⟩ := hat
  simp only [UdpSock.readerStep, hpc] at hs
  obtain ⟨ring, hring, heq⟩ := Option.map_eq_some_iff.1 hs
  have hinv := ring_step h.ring hring
  split at heq <;> subst heq
  · rename_i hdone
    have hreturned := (hread.returned hdone).1
    rw [List.append_nil] at hreturned
    rw [RingSys.step, RingSys.readerReturn_eq (.inl ⟨_, hdone⟩)] at hring
    obtain rfl := Option.some.inj hring
    exact ⟨hinv, rfl, .inl ⟨hlast, hreturned ▸ hgathered⟩⟩
  · rename_i d rest hdone
    obtain ⟨hreturned, hlen⟩ := hread.returned hdone
    have hrest : rest = [] := by
      rw [← List.length_eq_zero_iff]
      simpa using hlen
    rw [RingSys.step, RingSys.readerReturn_eq (.inl ⟨_, hdone⟩)] at hring
    obtain rfl := Option.some.inj hring
    -- bytes in the buffer and a datagram would be two datagrams
    rcases hgathered with ⟨hbuf, hreads⟩ | ⟨p, next, -, hbuf, -⟩
    · refine ⟨hinv, hbuf, hroom, hlast, d.wellFormed, rfl, ?_⟩
      have hmore := hreads.append [d.message]
      rw [List.nil_append] at hmore
      show ReadsFrom (s.ring.readOut.map Datagram.message) results [d.message]
      rwa [hreturned, hrest, List.map_append]
    · have hnil := hnothing hbuf
      rw [hdone] at hnil
      cases hnil
  · rename_i hempty hcons
    have hnotdone : ∀ got, s.ring.reader ≠ .readDone got := by
      intro got hdone
      cases got with
      | nil => exact hempty hdone
      | cons d rest => exact hcons d rest hdone
    have hnext : RingSys.Reading 1 out conf ring := by
      obtain ⟨k, -, start, hk⟩ := h.ring
      exact hread.readerStep hk hnotdone hring
    refine ⟨hinv, ?_⟩
    simp only [ReaderAt]
    refine ⟨hlast, hroom, fun hbuf => ?_, out, conf, hnext, hgathered⟩
    simp only [RingSys.step, RingSys.readerStep] at hring
    have hpcs := hread.pc
    cases hr : s.ring.reader with
    | readLoadCons n =>
      simp only [hr] at hring
      obtain rfl := Option.some.inj hring
      trivial
    | readLoadProd n cons =>
      -- the counters say that there is nothing
      have horderly := horder
      simp only [UdpSock.Orderly, hpc] at horderly
      simp only [hr] at horderly
      have hsame := horderly hbuf
      have hclamp : RteRing.clamp n (cons - s.ring.ring.prod.head) = 0 := by
        rw [hsame, BitVec.sub_self, RteRing.clamp]
        split
        · rfl
        · rename_i hle
          rw [gt_iff_lt, BitVec.not_lt, BitVec.le_zero_iff] at hle
          exact hle
      simp only [hr, hclamp] at hring
      obtain rfl := Option.some.inj hring
      rfl
    | readCopy n prod got =>
      have := hnothing hbuf
      rw [hr] at this
      exact this.elim
    | readDone got => exact absurd hr (hnotdone got)
    | _ => rw [hr] at hpcs; exact hpcs.elim

/-- The copy from a chain. -/
theorem UdpInv.copy (hops : ops.Lawful) {wantAddr : Bool} (h : s.UdpInv results)
    (horder : s.Orderly wantAddr) {pbuf : List UdpPbuf} {recvLeft : BitVec 64} {buf : List Byte}
    (hpc : s.reader = .copy pbuf recvLeft buf) (hs : s.readerStep ops = some s') :
    s'.UdpInv results := by
  have hat := h.reader
  simp only [ReaderAt, hpc] at hat
  obtain ⟨rfl, hroom, hlast, hwf, hidle, hreads⟩ := hat
  have hne : pbuf ≠ [] := fun hnil => hwf.ne_nil (hnil ▸ rfl)
  obtain ⟨p, next, rfl⟩ := List.exists_cons_of_ne_nil hne
  -- the copy ends at the room or at the end of the chain
  have htotLen : (UdpPbuf.chainTotLen (p :: next)).toNat = (UdpPbuf.bytes (p :: next)).length :=
    hwf.totLen
  have hlen : (UdpPbuf.bytes (p :: next)).length < 2 ^ 16 := hwf.length_lt
  have hcopy := RecvSys.copyLen_toNat recvLeft (UdpPbuf.chainTotLen (p :: next))
  rw [htotLen] at hcopy
  have hcopy16 : ((copyLen recvLeft (UdpPbuf.chainTotLen (p :: next))).setWidth 16).toNat =
      min recvLeft.toNat (UdpPbuf.bytes (p :: next)).length := by
    rw [BitVec.toNat_setWidth, hcopy]
    exact Nat.mod_eq_of_lt (by omega)
  have htot32 : ((UdpPbuf.chainTotLen (p :: next)).setWidth 32).toNat =
      (UdpPbuf.bytes (p :: next)).length := by
    rw [BitVec.toNat_setWidth, htotLen]
    exact Nat.mod_eq_of_lt (by omega)
  have hdata := hops.pbufCopyPartial ((p :: next).map UdpPbuf.toPbuf)
    ((copyLen recvLeft (UdpPbuf.chainTotLen (p :: next))).setWidth 16) hwf
  have hroomNat : 0 < recvLeft.toNat := by
    rw [Nat.pos_iff_ne_zero]
    exact fun hzero => hroom (BitVec.eq_of_toNat_eq hzero)
  have horderly := horder
  simp only [UdpSock.Orderly, hpc] at horderly
  simp only [UdpSock.readerStep, hpc, hdata, List.nil_append] at hs
  split at hs
  · rename_i hrest
    obtain rfl := Option.some.inj hs
    have hkeeps := horderly hrest
    have hlt : ((copyLen recvLeft (UdpPbuf.chainTotLen (p :: next))).setWidth 16).toNat <
        (UdpPbuf.bytes (p :: next)).length := by
      rw [BitVec.lt_def, hcopy, htot32] at hrest
      omega
    generalize hfree : (copyLen recvLeft (UdpPbuf.chainTotLen (p :: next))).setWidth 16 = freeLen
      at hcopy16 hkeeps hlt
    have hleft : UdpPbuf.WellFormed (UdpPbuf.pbufFreePartial ops (p :: next) freeLen) := by
      rw [UdpPbuf.WellFormed, UdpPbuf.toPbuf_pbufFreePartial]
      exact Pbuf.WellFormed.pbufFreePartial hops hwf hlt
    have hbytes : UdpPbuf.bytes (UdpPbuf.pbufFreePartial ops (p :: next) freeLen) =
        (UdpPbuf.bytes (p :: next)).drop freeLen.toNat := by
      rw [UdpPbuf.bytes, UdpPbuf.toPbuf_pbufFreePartial]
      exact bytes_pbufFreePartial hops hwf.length_lt
    refine ⟨h.ring, hidle, .inr ⟨?_, ?_, hleft, p, next, rfl, ?_, ?_⟩⟩
    · rw [← List.length_pos_iff, List.length_take]
      show 0 < min freeLen.toNat (UdpPbuf.bytes (p :: next)).length
      omega
    · exact lt_of_le_of_lt (List.length_take_le _ _) (lt_trans hlt hlen)
    · exact UdpPbuf.message_pbufFreePartial hkeeps fun hnil => hleft.ne_nil (hnil ▸ rfl)
    · show ReadsFrom _ results [((UdpPbuf.bytes (p :: next)).take freeLen.toNat ++
        UdpPbuf.bytes (UdpPbuf.pbufFreePartial ops (p :: next) freeLen), p.source)]
      rw [hbytes, List.take_append_drop]
      exact hreads
  · rename_i hend
    obtain ⟨ring, hring, rfl⟩ := Option.map_eq_some_iff.1 hs
    have hall : (UdpPbuf.bytes (p :: next)).take
        ((copyLen recvLeft (UdpPbuf.chainTotLen (p :: next))).setWidth 16).toNat =
        UdpPbuf.bytes (p :: next) := by
      rw [BitVec.not_lt, BitVec.le_def, hcopy, htot32] at hend
      exact List.take_of_length_le (by rw [hcopy16]; omega)
    have hconfirming := RingSys.confirming_of_call hring
    have hinv := ring_step h.ring hring
    simp only [RingSys.step, hidle, Option.some.injEq] at hring
    subst hring
    refine ⟨hinv, hlast, ?_, _, hconfirming⟩
    show Gathered results s.ring.readOut (p :: next) ((UdpPbuf.bytes (p :: next)).take _)
    rw [hall]
    by_cases hempty : UdpPbuf.bytes (p :: next) = []
    · have hdrained : ReadsFrom (s.ring.readOut.map Datagram.message) results [([], p.source)] := by
        rw [← hempty]
        exact hreads
      exact .inl ⟨hempty, hdrained.drop⟩
    · exact .inr ⟨p, next, rfl, hempty, hlen, hreads⟩

/-- The steps in `gazelle_ring_read_over`. -/
theorem UdpInv.readOver (h : s.UdpInv results) {pbuf : List UdpPbuf} {recvLeft : BitVec 64}
    {buf : List Byte} (hpc : s.reader = .readOver pbuf recvLeft buf)
    (hs : s.readerStep ops = some s') : s'.UdpInv results := by
  have hat := h.reader
  simp only [ReaderAt, hpc] at hat
  obtain ⟨hlast, hgathered, conf, hover⟩ := hat
  simp only [UdpSock.readerStep, hpc] at hs
  obtain ⟨ring, hring, heq⟩ := Option.map_eq_some_iff.1 hs
  have hinv := ring_step h.ring hring
  split at heq <;> subst heq
  · rename_i hdone
    rw [RingSys.step, RingSys.readerReturn_eq (.inr hdone)] at hring
    obtain rfl := Option.some.inj hring
    exact ⟨hinv, rfl, .inl ⟨hlast, hgathered⟩⟩
  · rename_i hnotdone
    have hnext := hover.readerStep hnotdone hring
    refine ⟨hinv, ?_⟩
    simp only [ReaderAt]
    rw [hnext.readOut]
    exact ⟨hlast, hgathered, conf, hnext⟩

/-- The steps of an orderly `read_stack_data` keep the invariant. -/
theorem UdpInv.readerStep (hops : ops.Lawful) {wantAddr : Bool} (h : s.UdpInv results)
    (horder : s.Orderly wantAddr) (hs : s.readerStep ops = some s') : s'.UdpInv results := by
  cases hpc : s.reader with
  | idle => simp only [UdpSock.readerStep, hpc] at hs; cases hs
  | loop pbuf recvLeft buf => exact h.loop hpc hs
  | ringRead pbuf recvLeft buf => exact h.ringRead horder hpc hs
  | copy pbuf recvLeft buf => exact h.copy hops horder hpc hs
  | readOver pbuf recvLeft buf => exact h.readOver hpc hs
  | ret pbuf buf => simp only [UdpSock.readerStep, hpc] at hs; cases hs

/-- What an orderly call reports is the source in `pbuf`. -/
theorem reports_eq {wantAddr : Bool} {env : ReadEnv} {p : UdpPbuf} {next : List UdpPbuf}
    {buf : List Byte} (horder : s.Orderly wantAddr) (hpc : s.reader = .ret (p :: next) buf)
    (hne : buf ≠ []) : ∀ x ∈ s.reports env wantAddr (p :: next), x = p.source := by
  intro x hx
  simp only [UdpSock.Orderly, hpc] at horder
  simp only [reports] at hx
  split at hx
  · rename_i hwant
    rw [if_pos (horder hne hwant), Option.mem_some_iff] at hx
    exact hx.symm
  · cases hx

/-- A call that has copied nothing returns. -/
theorem UdpInv.ret_nil (h : s.UdpInv results) {pbuf : List UdpPbuf}
    (hpc : s.reader = .ret pbuf []) : UdpInv results { s with reader := .idle } := by
  have hat := h.reader
  simp only [ReaderAt, hpc] at hat
  obtain ⟨hidle, ⟨hlast, hgathered⟩ | hparted⟩ := hat
  · refine ⟨h.ring, hidle, fun hne => absurd hlast hne, ?_⟩
    rcases hgathered with ⟨-, hreads⟩ | ⟨p, next, -, hne, -⟩
    · show ReadsFrom _ results (UdpPbuf.message s.recvLastdata)
      rw [hlast]
      exact hreads
    · exact absurd rfl hne
  · exact absurd rfl hparted.buf_ne_nil

/-- An orderly call returns the bytes it has copied. -/
theorem UdpInv.ret (h : s.UdpInv results) {wantAddr : Bool} (env : ReadEnv)
    (horder : s.Orderly wantAddr) {pbuf : List UdpPbuf} {buf : List Byte}
    (hpc : s.reader = .ret pbuf buf) (hne : buf ≠ []) :
    buf.length < 2 ^ 16 ∧
      UdpInv (results ++ [(buf, s.reports env wantAddr pbuf)]) { s with reader := .idle } := by
  have hat := h.reader
  simp only [ReaderAt, hpc] at hat
  obtain ⟨hidle, ⟨hlast, hgathered⟩ | hparted⟩ := hat
  · rcases hgathered with ⟨hnil, -⟩ | ⟨p, next, rfl, -, hlen, hreads⟩
    · exact absurd hnil hne
    · refine ⟨hlen, h.ring, hidle, fun hne' => absurd hlast hne', ?_⟩
      show ReadsFrom _ _ (UdpPbuf.message s.recvLastdata)
      rw [hlast]
      rw [← List.append_nil buf] at hreads
      exact (hreads.read hne (reports_eq horder hpc hne)).drop
  · obtain ⟨p, next, rfl, hmessage, hreads⟩ := hparted.reads
    refine ⟨hparted.length_lt, h.ring, hidle, fun _ => hparted.wellFormed, ?_⟩
    show ReadsFrom _ _ (UdpPbuf.message s.recvLastdata)
    rw [hmessage]
    exact hreads.read hne (reports_eq horder hpc hne)

/-- A socket that has received nothing satisfies the invariant. -/
theorem UdpInv.create {k : ℕ} (hk : k ≤ 31) (start : U32) (slots : U32 → Datagram) (conn : Bool) :
    UdpInv [] (create k start slots conn) where
  ring := ⟨k, hk, start, RingSys.RingInv.create k start slots⟩
  reader := ⟨rfl, fun hne => absurd rfl hne, .done []⟩

/-- What calls have returned are reads from the datagrams that the socket was given. -/
theorem UdpInv.readsFrom (h : s.UdpInv results) :
    ∃ left, ReadsFrom (s.ring.accepted.map Datagram.message) results left := by
  obtain ⟨k, -, start, hring⟩ := h.ring
  obtain ⟨rest, hrest⟩ := hring.readOut_prefix
  -- the datagrams that were read tell what is left
  have hread : ∃ left, ReadsFrom (s.ring.readOut.map Datagram.message) results left := by
    have hat := h.reader
    unfold ReaderAt at hat
    split at hat
    · exact ⟨_, hat.2.reads⟩
    · rcases hat.2 with ⟨-, ⟨-, hreads⟩ | ⟨p, next, -, -, -, hreads⟩⟩ | ⟨-, -, hleft⟩
      · exact ⟨_, hreads⟩
      · exact ⟨_, hreads⟩
      · exact ⟨_, hleft.reads⟩
    · obtain ⟨-, -, -, out, conf, hreading, hgathered⟩ := hat
      have hout : ∃ got, s.ring.readOut = out ++ got := by
        by_cases hdone : ∃ got, s.ring.reader = .readDone got
        · obtain ⟨got, hdone⟩ := hdone
          exact ⟨got, (hreading.returned hdone).1⟩
        · exact ⟨[], by rw [List.append_nil, hreading.readOut_eq (not_exists.1 hdone)]⟩
      obtain ⟨got, hgot⟩ := hout
      rw [hgot, List.map_append]
      rcases hgathered with ⟨-, hreads⟩ | ⟨p, next, -, -, -, hreads⟩
      · exact ⟨_, hreads.append _⟩
      · exact ⟨_, hreads.append _⟩
    · exact ⟨_, hat.reads⟩
    · rcases hat.2.1 with ⟨-, hreads⟩ | ⟨p, next, -, -, -, hreads⟩
      · exact ⟨_, hreads⟩
      · exact ⟨_, hreads⟩
    · rcases hat.2 with ⟨-, ⟨-, hreads⟩ | ⟨p, next, -, -, -, hreads⟩⟩ | hparted
      · exact ⟨_, hreads⟩
      · exact ⟨_, hreads⟩
      · obtain ⟨p, next, -, -, hreads⟩ := hparted.reads
        exact ⟨_, hreads⟩
  obtain ⟨left, hleft⟩ := hread
  rw [← hrest, List.map_append]
  exact ⟨_, hleft.append _⟩

/-- Between two calls the rest is in `recv_lastdata` and the unread entries of `recv_ring`. -/
theorem UdpInv.readsFrom_of_idle (h : s.UdpInv results) (hpc : s.reader = .idle) :
    ReadsFrom (s.ring.accepted.map Datagram.message) results
      (UdpPbuf.message s.recvLastdata ++ s.unread.map Datagram.message) := by
  obtain ⟨k, hk, start, hring⟩ := h.ring
  have hat := h.reader
  simp only [ReaderAt, hpc] at hat
  have hunread : s.unread = s.ring.accepted.drop s.ring.readOut.length := hring.unread_eq hk
  obtain ⟨rest, hrest⟩ := hring.readOut_prefix
  rw [hunread, ← hrest, List.drop_left, List.map_append]
  exact hat.2.reads.append _

end UdpSock

/-! ## Runs -/

namespace UdpRecvSys

variable {ops : PbufOps} {s s' : UdpRecvSys}

/-- The call in progress has a buffer. -/
def HasRoom : UdpRecvfromPc → Prop
  | .idle => True
  | .call _ len _ | .reading _ len _ => len ≠ 0

/-- The invariant of a UDP socket and its shadows. -/
structure BoundaryInv (s : UdpRecvSys) : Prop where
  /-- There is a buffer. -/
  room : HasRoom s.pc
  /-- The sockets are right. -/
  socks : ∀ (i : ℕ) (sock : UdpSock), s.socks[i]? = some sock → sock.UdpInv (s.receivedFrom i)
  /-- The application is in `read_stack_data` of one socket at most. -/
  idle : ∀ (i : ℕ) (sock : UdpSock), s.socks[i]? = some sock →
    (∀ len wantAddr, s.pc ≠ .reading i len wantAddr) → sock.reader = .idle

/-- A step that replaces one socket, and adds no results of the others. -/
theorem BoundaryInv.setSock (h : s.BoundaryInv) {i : ℕ} {sock' : UdpSock}
    (hsocks : s'.socks = s.socks.set i sock') (hroom : HasRoom s'.pc)
    (hsock' : sock'.UdpInv (s'.receivedFrom i))
    (hsame : ∀ j, j ≠ i → s'.receivedFrom j = s.receivedFrom j)
    (hidle : (∀ len wantAddr, s'.pc ≠ .reading i len wantAddr) → sock'.reader = .idle)
    (hothers : ∀ j, j ≠ i → (∀ len wantAddr, s'.pc ≠ .reading j len wantAddr) →
      ∀ len wantAddr, s.pc ≠ .reading j len wantAddr) : s'.BoundaryInv := by
  have hget : ∀ (j : ℕ) (sock : UdpSock), s'.socks[j]? = some sock →
      (j = i ∧ sock = sock') ∨ (j ≠ i ∧ s.socks[j]? = some sock) := by
    intro j sock hj
    rw [hsocks, List.getElem?_set] at hj
    split at hj
    · rename_i heq
      split at hj
      · exact .inl ⟨heq.symm, (Option.some.inj hj).symm⟩
      · cases hj
    · rename_i hne
      exact .inr ⟨Ne.symm hne, hj⟩
  refine ⟨hroom, fun j sock hj => ?_, fun j sock hj hpc => ?_⟩
  · obtain ⟨rfl, rfl⟩ | ⟨hne, hj⟩ := hget j sock hj
    · exact hsock'
    · exact hsame j hne ▸ h.socks j sock hj
  · obtain ⟨rfl, rfl⟩ | ⟨hne, hj⟩ := hget j sock hj
    · exact hidle hpc
    · exact h.idle j sock hj (hothers j hne hpc)

/-- A step that moves the application outside `read_stack_data` keeps the invariant. -/
theorem BoundaryInv.setPc (h : s.BoundaryInv) {pc : UdpRecvfromPc} (hroom : HasRoom pc)
    (hpc : ∀ i len wantAddr, s.pc ≠ .reading i len wantAddr) : BoundaryInv { s with pc } :=
  ⟨hroom, h.socks, fun i sock hsock _ => h.idle i sock hsock (hpc i)⟩

/-- `udp_recvfrom` goes on with the same buffer. -/
theorem listenNext_eq (i : ℕ) {len : BitVec 64} (wantAddr : Bool) (hroom : len ≠ 0) :
    ∃ pc, HasRoom pc ∧ s.listenNext i len wantAddr = { s with pc } := by
  unfold listenNext
  split
  · refine ⟨_, ?_, rfl⟩
    split
    · exact hroom
    · trivial
  · exact ⟨.idle, trivial, rfl⟩

/-- The results of a socket after one more result. -/
theorem receivedFrom_append (i j : ℕ) (r : List Byte × Option PbufAddr) (pc : UdpRecvfromPc)
    (socks : List UdpSock) :
    receivedFrom { s with socks, pc, received := s.received ++ [(i, r)] } j =
      if i = j then s.receivedFrom j ++ [r] else s.receivedFrom j := by
  simp only [receivedFrom, List.filterMap_append, List.filterMap_cons, List.filterMap_nil]
  by_cases hij : i = j <;> simp [hij]

/-- The end of an orderly `read_stack_data`. -/
theorem BoundaryInv.returns (h : s.BoundaryInv) {i : ℕ} {len : BitVec 64} {wantAddr : Bool}
    (hpc : s.pc = .reading i len wantAddr) {sock : UdpSock} (hsock : s.socks[i]? = some sock)
    {pbuf : List UdpPbuf} {buf : List Byte} (hret : sock.reader = .ret pbuf buf)
    (horder : sock.Orderly wantAddr) (env : ReadEnv) :
    ({ s with socks := s.socks.set i { sock with reader := .idle } }.returns i len wantAddr buf
      (sock.reports env wantAddr pbuf) env.eagain).BoundaryInv := by
  have hinv := h.socks i sock hsock
  -- the descriptors of the other sockets are not being read
  have hothers : ∀ j, j ≠ i → ∀ len wantAddr, s.pc ≠ .reading j len wantAddr := by
    intro j hne len' wantAddr' heq
    rw [hpc] at heq
    injection heq with hij
    exact hne hij.symm
  have hroom : len ≠ 0 := by
    have hroom := h.room
    rwa [hpc] at hroom
  -- a read without data goes on with the next socket of the list
  by_cases hbuf : buf = []
  · subst hbuf
    have hreturns : ∀ t : UdpRecvSys, t.returns i len wantAddr [] (sock.reports env wantAddr pbuf)
        env.eagain = t.listenNext i len wantAddr := fun t => by simp [UdpRecvSys.returns]
    rw [hreturns]
    obtain ⟨pc, hroom', heq⟩ := listenNext_eq
      (s := { s with socks := s.socks.set i { sock with reader := .idle } }) i wantAddr hroom
    rw [heq]
    exact h.setSock rfl hroom' (hinv.ret_nil hret) (fun _ _ => rfl) (fun _ => rfl)
      fun j hne _ => hothers j hne
  · obtain ⟨hlen, hnext⟩ := hinv.ret env horder hret hbuf
    -- the length is returned as an `int32_t`, in which it fits
    have hpos : 0 < (BitVec.ofNat 32 buf.length).toInt := by
      have hposLen := List.length_pos_iff.2 hbuf
      rw [BitVec.toInt_eq_toNat_of_lt, BitVec.toNat_ofNat, Nat.mod_eq_of_lt (by omega)]
      · exact_mod_cast hposLen
      · rw [BitVec.toNat_ofNat, Nat.mod_eq_of_lt (by omega)]
        omega
    unfold UdpRecvSys.returns
    rw [if_pos hpos]
    -- the datagram is reported for this socket only
    have hreceived := fun j => receivedFrom_append (s := s) i j
      (buf, sock.reports env wantAddr pbuf) .idle (s.socks.set i { sock with reader := .idle })
    refine h.setSock rfl trivial ?_ (fun j hne => ?_) (fun _ => rfl) fun j hne _ => hothers j hne
    · exact (hreceived i).trans (if_pos rfl) ▸ hnext
    · exact (hreceived j).trans (if_neg (Ne.symm hne))

/-- The steps of an orderly application keep the invariant. -/
theorem BoundaryInv.appStep (hops : ops.Lawful) (h : s.BoundaryInv) {env : ReadEnv}
    (horder : s.Orderly (.app env)) (hs : s.appStep ops env = some s') : s'.BoundaryInv := by
  simp only [UdpRecvSys.appStep] at hs
  cases hpc : s.pc with
  | idle => simp only [hpc] at hs; cases hs
  | call i len wantAddr =>
    simp only [hpc] at hs
    obtain ⟨sock, hsock, heq⟩ := Option.map_eq_some_iff.1 hs
    have hnotReading : ∀ j len' wantAddr', s.pc ≠ .reading j len' wantAddr' := by
      rw [hpc]
      exact fun _ _ _ => nofun
    -- there is room for at least one byte
    have hroom : len ≠ 0 := by
      have hroom := h.room
      rwa [hpc] at hroom
    split at heq
    · -- an error without data ends the call, or the next shadow is looked at
      split at heq
      · obtain ⟨pc, hroom', hnext⟩ := listenNext_eq (s := s) i wantAddr hroom
        rw [← heq, hnext]
        exact h.setPc hroom' hnotReading
      · exact heq ▸ h.setPc trivial hnotReading
    · -- the call reads from this socket, which was at rest
      subst heq
      have hinv := h.socks i sock hsock
      have hat := hinv.reader
      simp only [UdpSock.ReaderAt, h.idle i sock hsock (hnotReading i)] at hat
      exact h.setSock rfl hroom
        ⟨hinv.ring, hat.1, .inr ⟨rfl, hroom, hat.2.wellFormed, hat.2.reads⟩⟩ (fun _ _ => rfl)
        (fun hne => absurd rfl (hne len wantAddr)) fun j _ _ => hnotReading j
  | reading i len wantAddr =>
    simp only [hpc] at hs
    obtain ⟨sock, hsock, heq⟩ := Option.bind_eq_some_iff.1 hs
    -- the order of the application is one of this socket
    have hsockOrder : sock.Orderly wantAddr := by
      simp only [UdpRecvSys.Orderly, hpc, hsock] at horder
      exact horder
    have hinv := h.socks i sock hsock
    cases hreader : sock.reader with
    | ret pbuf buf =>
      -- the socket returns and the call ends with it
      simp only [hreader] at heq
      exact Option.some.inj heq ▸ h.returns hpc hsock hreader hsockOrder env
    | _ =>
      -- one more step of the socket, the others are not touched
      simp only [hreader] at heq
      obtain ⟨sock', hsock', rfl⟩ := Option.map_eq_some_iff.1 heq
      have hroom := h.room
      rw [hpc] at hroom
      refine h.setSock rfl hroom (hinv.readerStep hops hsockOrder hsock') (fun _ _ => rfl)
        (fun hne => absurd rfl (hne len wantAddr)) fun j hne hj => ?_
      rw [hpc]
      exact hj

/-- Every step of orderly calls keeps the invariant. -/
theorem BoundaryInv.step (hops : ops.Lawful) (h : s.BoundaryInv) {a : UdpRecvAct}
    (horder : s.Orderly a) (hs : s.step ops a = some s') : s'.BoundaryInv := by
  cases a with
  | stack i a =>
    simp only [UdpRecvSys.step] at hs
    obtain ⟨sock, hsock, heq⟩ := Option.bind_eq_some_iff.1 hs
    obtain ⟨sock', hsock', rfl⟩ := Option.map_eq_some_iff.1 heq
    have hinv := h.socks i sock hsock
    refine h.setSock rfl h.room (hinv.stackStep hsock') (fun _ _ => rfl) (fun hne => ?_)
      fun j hne hj => hj
    rw [(UdpSock.of_stackStep hsock').2.2]
    exact h.idle i sock hsock hne
  | recvfrom len wantAddr =>
    simp only [UdpRecvSys.step] at hs
    split at hs
    · rename_i hpc
      split at hs
      · cases hs
      · rename_i hroom
        exact Option.some.inj hs ▸ h.setPc hroom fun _ _ _ => by rw [hpc]; exact nofun
    · cases hs
  | app env => exact h.appStep hops horder hs

/-- A UDP socket with its shadows whose calls are orderly. From each of the sockets the successful
calls have returned parts of its datagrams, one datagram for each call, with the source of that
datagram when the address is asked for; and between two calls what is left of the datagrams is in
`recv_lastdata` and the unread entries of `recv_ring`. -/
theorem udp_recv_boundaries (hops : ops.Lawful) (hs : (system ops).ReachableUnder Orderly s)
    {i : ℕ} {sock : UdpSock} (hsock : s.socks[i]? = some sock) :
    (∃ left, ReadsFrom (sock.ring.accepted.map Datagram.message) (s.receivedFrom i) left) ∧
      (s.pc = .idle → ReadsFrom (sock.ring.accepted.map Datagram.message) (s.receivedFrom i)
        (UdpPbuf.message sock.recvLastdata ++ sock.unread.map Datagram.message)) := by
  have h : s.BoundaryInv := by
    refine Transition.System.invariant_under (I := BoundaryInv) ?_ ?_ hs
    · rintro t ⟨hsocks, hpc, hreceived⟩
      have hnone : ∀ j, t.receivedFrom j = [] := fun j => by rw [receivedFrom, hreceived]; rfl
      refine ⟨by rw [hpc]; trivial, fun j sock hj => ?_, fun j sock hj _ => ?_⟩
      · obtain ⟨k, hk, start, slots, conn, rfl⟩ := hsocks sock (List.mem_of_getElem? hj)
        rw [hnone]
        exact .create hk start slots conn
      · obtain ⟨k, hk, start, slots, conn, rfl⟩ := hsocks sock (List.mem_of_getElem? hj)
        rfl
    · intro _ _ _ ih horder hstep
      exact ih.step hops horder hstep
  have hinv := h.socks i sock hsock
  refine ⟨hinv.readsFrom, fun hpc => hinv.readsFrom_of_idle (h.idle i sock hsock ?_)⟩
  rw [hpc]
  exact fun _ _ => nofun

/-- Whether a read keeps the source of the datagram is decidable. -/
instance (pbuf : List UdpPbuf) (freeLen : BitVec 16) :
    Decidable (UdpPbuf.KeepsSource pbuf freeLen) := by
  unfold UdpPbuf.KeepsSource
  split <;> infer_instance

/-- Whether a read is orderly is decidable. -/
instance (sock : UdpSock) (wantAddr : Bool) : Decidable (sock.Orderly wantAddr) := by
  unfold UdpSock.Orderly
  split
  · split <;> infer_instance
  all_goals infer_instance

/-- Whether an action is orderly is decidable, too. -/
instance (s : UdpRecvSys) (a : UdpRecvAct) : Decidable (s.Orderly a) := by
  unfold Orderly
  split
  · split
    · split <;> infer_instance
    · infer_instance
  · infer_instance

/-- A socket whose ring has two slots and holds nothing. -/
private def oneSocket (d : Datagram) : UdpRecvSys :=
  { socks := [.create 2 0 (fun _ => d) true], pc := .idle, received := [] }

private theorem oneSocket_init (d : Datagram) : (system lwipOps).Init (oneSocket d) := by
  refine ⟨fun sock hsock => ?_, rfl, rfl⟩
  obtain rfl := List.mem_singleton.1 hsock
  exact ⟨2, by decide, 0, fun _ => d, true, rfl⟩

/-- A datagram in one pbuf. -/
private def datagram (payload : List Byte) (port : BitVec 16)
    (h : payload.length < 2 ^ 16) : Datagram where
  head := { payload, totLen := BitVec.ofNat 16 payload.length, source := ⟨0, port⟩ }
  next := []
  wellFormed := ⟨by simp, by simpa [Pbuf.chainTotLen] using h⟩

/-- Nothing unusual is found. -/
private def calm : ReadEnv := { errevent := false, eagain := true, freedSource := ⟨0, 0⟩ }

/-- A stack enqueues datagrams, and the application calls `udp_recvfrom` with room for two bytes. -/
private def twoBytes (ds : List Datagram) (n : ℕ) : List UdpRecvAct :=
  .stack 0 (.enqueue ds) :: List.replicate (ds.length + 4) (.stack 0 .next) ++
    .recvfrom 2 true :: List.replicate n (.app calm)

/-- Of a datagram of three bytes two are read. -/
theorem udp_recv_boundaries_partial :
    ∃ s : UdpRecvSys, (system lwipOps).Reachable s ∧ s.received = [(0, [1, 2], some ⟨0, 7⟩)] ∧
      ∀ sock, s.socks[0]? = some sock → ∃ left,
        ReadsFrom (sock.ring.accepted.map Datagram.message) (s.receivedFrom 0) left := by
  let d := datagram [1, 2, 3] 7 (by decide)
  have hrun : ((system lwipOps).run (oneSocket d) (twoBytes [d] 9)).any (fun s =>
      s.received = [(0, [1, 2], some ⟨0, 7⟩)]) = true := by
    decide +kernel
  have hmeet : (system lwipOps).stepsMeet Orderly (oneSocket d) (twoBytes [d] 9) := by
    decide +kernel
  obtain ⟨s, hs, hstate⟩ := (Option.any_eq_true _ _).1 hrun
  have hreach := Transition.System.reachableUnder_of_run (.init (oneSocket_init d)) hs hmeet
  exact ⟨s, hreach.reachable, of_decide_eq_true hstate, fun sock hsock =>
    (udp_recv_boundaries lwipOps_lawful hreach hsock).1⟩

/-- One call returns a datagram of one byte together with the one after it, and reports the source
of the second. -/
theorem udp_recv_merges :
    ¬ ∀ (ops : PbufOps), ops.Lawful → ∀ s : UdpRecvSys, (system ops).Reachable s →
      ∀ (i : ℕ) (sock : UdpSock), s.socks[i]? = some sock → ∃ left,
        ReadsFrom (sock.ring.accepted.map Datagram.message) (s.receivedFrom i) left := by
  intro h
  let first := datagram [1] 7 (by decide)
  let second := datagram [2] 8 (by decide)
  have hrun : ((system lwipOps).run (oneSocket first) (twoBytes [first, second] 23)).any (fun s =>
      s.receivedFrom 0 = [([1, 2], some ⟨0, 8⟩)] ∧
        s.socks[0]?.map (fun sock => sock.ring.accepted.map Datagram.message) =
          some [([1], ⟨0, 7⟩), ([2], ⟨0, 8⟩)]) = true := by
    decide +kernel
  obtain ⟨s, hs, hstate⟩ := (Option.any_eq_true _ _).1 hrun
  obtain ⟨hreceived, haccepted⟩ := of_decide_eq_true hstate
  obtain ⟨sock, hsock, hmessages⟩ := Option.map_eq_some_iff.1 haccepted
  have hreach := Transition.System.reachable_of_run (.init (oneSocket_init first)) hs
  obtain ⟨left, hleft⟩ := h lwipOps lwipOps_lawful s hreach 0 sock hsock
  rw [hreceived, hmessages] at hleft
  -- the two bytes are in no datagram
  obtain ⟨m, hm, hin, -⟩ := hleft.exists_message List.mem_cons_self
  have hlen := hin.length_le
  rcases List.mem_cons.1 hm with rfl | hm
  · exact absurd hlen (by decide)
  · obtain rfl := List.mem_singleton.1 hm
    exact absurd hlen (by decide)

end UdpRecvSys

end Gazelle
