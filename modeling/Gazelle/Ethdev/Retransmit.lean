import Gazelle.Lwip.SendPbuf
import Gazelle.Transition.System

/-!
# The data offset of a retransmitted pbuf

lwIP keeps a sent segment until it is acknowledged and hands it to `eth_dev_output` again when it
is retransmitted, sometimes as the first pbuf of a frame and sometimes merged behind another one.
A later pbuf of a frame goes without its headers: `eth_dev_output` moves the `data_off` of its mbuf
forward by the header length of the first pbuf, and records that length in `header_off`. When the
pbuf is first again, the offset is moved back, but by the header length of the present frame.

* `ethDevOutput`: the loop over the pbufs of a frame;
* `TxSys.system`: all sequences in which pbufs are created, changed by lwIP and sent;
* `TxSys.OffsetsRight`: every send so far had the data offset that belongs to its place;
* `data_off_right_iff`: this holds along a run exactly when every step keeps the header length;
* `data_off_wrong`: two sends with different header lengths leave the wrong offset.
-/

namespace Gazelle

/-- `MBUF_MAX_LEN`. -/
def mbufMaxLen : BitVec 32 := 1514

/-- The flag `RTE_MBUF_F_TX_TCP_SEG`. -/
def rteMbufFTxTcpSeg : BitVec 64 := 0x4000000000000

/-- The fields of an mbuf that `eth_dev_output` reads or writes. -/
structure TxMbuf where
  /-- `data_off`, where the data starts in the buffer. -/
  dataOff : BitVec 16
  /-- `data_len`. -/
  dataLen : BitVec 16
  /-- `pkt_len`. -/
  pktLen : BitVec 32
  /-- `ol_flags`. -/
  olFlags : BitVec 64
  /-- `next`. -/
  next : Option ℕ
  /-- `nb_segs`. -/
  nbSegs : BitVec 16
  /-- `tso_segsz`. -/
  tsoSegsz : BitVec 16
  /-- `l2_len`. -/
  l2Len : BitVec 16
  /-- `l3_len`. -/
  l3Len : BitVec 16
  /-- `l4_len`. -/
  l4Len : BitVec 16
  /-- `refcnt`. -/
  refcnt : BitVec 16

/-- A pbuf and its mbuf, the fields that `eth_dev_output` reads or writes. -/
structure TxPbuf where
  /-- `len`. -/
  len : BitVec 16
  /-- `tot_len`. -/
  totLen : BitVec 16
  /-- `ol_flags`. -/
  olFlags : BitVec 64
  /-- `l2_len`. -/
  l2Len : BitVec 16
  /-- `l3_len`. -/
  l3Len : BitVec 16
  /-- `l4_len`. -/
  l4Len : BitVec 16
  /-- `header_off`, how far `data_off` has been moved. -/
  headerOff : BitVec 16
  /-- `rexmit`. -/
  rexmit : Bool
  /-- The mbuf of the pbuf, `pbuf_to_mbuf`. -/
  mbuf : TxMbuf

namespace TxPbuf

/-- `init_mbuf_to_pbuf`: the pbuf in a new mbuf. -/
def initMbufToPbuf (mbuf : TxMbuf) (length : BitVec 16) : TxPbuf where
  len := length
  totLen := length
  olFlags := 0
  l2Len := 0
  l3Len := 0
  l4Len := 0
  headerOff := 0
  rexmit := false
  mbuf := mbuf

/-- `header_len` in `eth_dev_output`, of the first pbuf. -/
def headerLen (pbuf : TxPbuf) : BitVec 16 := pbuf.l2Len + pbuf.l3Len + pbuf.l4Len

/-- The lengths and flags of a pbuf go to its mbuf, which is unlinked. -/
def fillMbuf (pbuf : TxPbuf) : TxPbuf :=
  { pbuf with mbuf := { pbuf.mbuf with
    dataLen := pbuf.len
    pktLen := pbuf.totLen.setWidth 32
    olFlags := pbuf.olFlags
    next := none } }

/-- The branch of the loop for the first pbuf of the frame. -/
def asFirst (headerLen : BitVec 16) (pbuf : TxPbuf) : TxPbuf :=
  if 0 < pbuf.headerOff then
    { pbuf with
      headerOff := 0
      mbuf := { pbuf.mbuf with nbSegs := 1, dataOff := pbuf.mbuf.dataOff - headerLen } }
  else { pbuf with mbuf := { pbuf.mbuf with nbSegs := 1 } }

/-- `first_mbuf->nb_segs++`. -/
def countSeg (pbuf : TxPbuf) : TxPbuf :=
  { pbuf with mbuf := { pbuf.mbuf with nbSegs := pbuf.mbuf.nbSegs + 1 } }

/-- `pre_mbuf->next = mbuf`. -/
def linkTo (p : ℕ) (pbuf : TxPbuf) : TxPbuf :=
  { pbuf with mbuf := { pbuf.mbuf with next := some p } }

/-- `rte_pktmbuf_free_seg` of an mbuf that lwIP still refers to. -/
def dropRef (pbuf : TxPbuf) : TxPbuf :=
  { pbuf with mbuf := { pbuf.mbuf with refcnt := pbuf.mbuf.refcnt - 1 } }

/-- The branch of the loop for a later pbuf of the frame. -/
def asLater (headerLen : BitVec 16) (pbuf : TxPbuf) : TxPbuf :=
  if pbuf.headerOff = 0 then
    { pbuf with
      headerOff := headerLen
      mbuf := { pbuf.mbuf with dataOff := pbuf.mbuf.dataOff + headerLen } }
  else pbuf

/-- The end of the loop body: what a pbuf takes from the first pbuf of its frame. -/
def finish (firstPbuf : TxPbuf) (pbuf : TxPbuf) : TxPbuf :=
  let seg := mbufMaxLen < firstPbuf.mbuf.pktLen
  { pbuf with
    rexmit := true
    mbuf := { pbuf.mbuf with
      dataOff := if firstPbuf.l4Len = 8 then pbuf.mbuf.dataOff + 12 else pbuf.mbuf.dataOff
      olFlags := if seg then pbuf.mbuf.olFlags ||| rteMbufFTxTcpSeg else pbuf.mbuf.olFlags
      tsoSegsz := if seg then BitVec.ofNat 16 mbufMaxDataLen else pbuf.mbuf.tsoSegsz
      l2Len := firstPbuf.l2Len
      l3Len := firstPbuf.l3Len
      l4Len := firstPbuf.l4Len
      refcnt := pbuf.mbuf.refcnt + 1 } }

section Fields

variable (headerLen : BitVec 16) (firstPbuf pbuf : TxPbuf)

@[simp] theorem fillMbuf_headerOff : pbuf.fillMbuf.headerOff = pbuf.headerOff := rfl

@[simp] theorem fillMbuf_dataOff : pbuf.fillMbuf.mbuf.dataOff = pbuf.mbuf.dataOff := rfl

@[simp] theorem fillMbuf_l4Len : pbuf.fillMbuf.l4Len = pbuf.l4Len := rfl

@[simp] theorem finish_headerOff : (finish firstPbuf pbuf).headerOff = pbuf.headerOff := rfl

@[simp]
theorem finish_dataOff : (finish firstPbuf pbuf).mbuf.dataOff =
    if firstPbuf.l4Len = 8 then pbuf.mbuf.dataOff + 12 else pbuf.mbuf.dataOff := rfl

@[simp] theorem finish_l4Len : (finish firstPbuf pbuf).l4Len = pbuf.l4Len := rfl

/-- The first pbuf of a frame is not moved. -/
@[simp]
theorem asFirst_headerOff : (pbuf.asFirst headerLen).headerOff = 0 := by
  unfold asFirst
  split
  · rfl
  · next h => simpa using h

@[simp]
theorem asFirst_dataOff : (pbuf.asFirst headerLen).mbuf.dataOff =
    if 0 < pbuf.headerOff then pbuf.mbuf.dataOff - headerLen else pbuf.mbuf.dataOff := by
  unfold asFirst
  split <;> rfl

@[simp]
theorem asFirst_l4Len : (pbuf.asFirst headerLen).l4Len = pbuf.l4Len := by
  unfold asFirst
  split <;> rfl

@[simp]
theorem asLater_headerOff : (pbuf.asLater headerLen).headerOff =
    if pbuf.headerOff = 0 then headerLen else pbuf.headerOff := by
  unfold asLater
  split <;> rfl

@[simp]
theorem asLater_dataOff : (pbuf.asLater headerLen).mbuf.dataOff =
    if pbuf.headerOff = 0 then pbuf.mbuf.dataOff + headerLen else pbuf.mbuf.dataOff := by
  unfold asLater
  split <;> rfl

end Fields

end TxPbuf

/-- The pbufs, by their address. -/
abbrev TxMem := ℕ → TxPbuf

/-- Change the pbuf at an address. -/
def TxMem.modify (m : TxMem) (p : ℕ) (f : TxPbuf → TxPbuf) : TxMem := Function.update m p (f (m p))

/-- The loop of `eth_dev_output` for the first pbuf. -/
def outputFirst (headerLen : BitVec 16) (p : ℕ) (m : TxMem) : TxMem :=
  let m := (m.modify p TxPbuf.fillMbuf).modify p (TxPbuf.asFirst headerLen)
  m.modify p (TxPbuf.finish (m p))

/-- The loop of `eth_dev_output` for a later pbuf, behind the pbuf `pre`. -/
def outputLater (headerLen : BitVec 16) (first pre p : ℕ) (m : TxMem) : TxMem :=
  let m := ((m.modify p TxPbuf.fillMbuf).modify first TxPbuf.countSeg).modify pre (TxPbuf.linkTo p)
  let m := m.modify p (TxPbuf.asLater headerLen)
  m.modify p (TxPbuf.finish (m first))

/-- The rounds of the loop of `eth_dev_output` after the first one. -/
def outputRest (headerLen : BitVec 16) (first : ℕ) : ℕ → List ℕ → TxMem → TxMem
  | _, [], m => m
  | pre, p :: rest, m => outputRest headerLen first p rest (outputLater headerLen first pre p m)

/-- A frame: a chain of pbufs, which has an end and so no pbuf twice. -/
structure TxFrame where
  /-- The first pbuf. -/
  first : ℕ
  /-- The pbufs that follow it. -/
  rest : List ℕ
  /-- No pbuf is linked twice. -/
  nodup : (first :: rest).Nodup

/-- `rte_pktmbuf_free` of a frame that was not sent: each mbuf loses one reference. -/
def rtePktmbufFree (pbufs : List ℕ) (m : TxMem) : TxMem :=
  pbufs.foldl (fun m p => m.modify p TxPbuf.dropRef) m

/-- `eth_dev_output`; `sent` tells whether `tx_xmit` took the frame. -/
def ethDevOutput (frame : TxFrame) (sent : Bool) (m : TxMem) : TxMem :=
  let headerLen := (m frame.first).headerLen
  let m := outputRest headerLen frame.first frame.first frame.rest
    (outputFirst headerLen frame.first m)
  if sent then m else rtePktmbufFree (frame.first :: frame.rest) m

/-! ## What a frame does to the offsets -/

/-- `header_off` and `data_off` of a pbuf. -/
def TxPbuf.offsets (pbuf : TxPbuf) : BitVec 16 × BitVec 16 := (pbuf.headerOff, pbuf.mbuf.dataOff)

section Offsets

variable {m m' : TxMem} {headerLen : BitVec 16} {first pre p q : ℕ} {rest : List ℕ}

/-- Two memories in which the pbuf at `q` has the same offsets and the same `l4_len`. -/
def SameOffsets (q : ℕ) (m m' : TxMem) : Prop :=
  (m' q).offsets = (m q).offsets ∧ (m' q).l4Len = (m q).l4Len

theorem SameOffsets.trans {m'' : TxMem} (h : SameOffsets q m m') (h' : SameOffsets q m' m'') :
    SameOffsets q m m'' :=
  ⟨h'.1.trans h.1, h'.2.trans h.2⟩

/-- A change that keeps the offsets of the pbuf it is applied to. -/
theorem sameOffsets_modify {f : TxPbuf → TxPbuf}
    (hf : ∀ b, (f b).offsets = b.offsets ∧ (f b).l4Len = b.l4Len) (m : TxMem) (p q : ℕ) :
    SameOffsets q m (m.modify p f) := by
  by_cases hq : q = p
  · subst hq
    simpa [SameOffsets, TxMem.modify] using hf (m q)
  · simp [SameOffsets, TxMem.modify, Function.update_of_ne hq]

/-- A change of another pbuf. -/
theorem sameOffsets_modify_of_ne (hq : q ≠ p) (f : TxPbuf → TxPbuf) :
    SameOffsets q m (m.modify p f) := by
  simp [SameOffsets, TxMem.modify, Function.update_of_ne hq]

@[simp]
theorem TxMem.modify_self (m : TxMem) (p : ℕ) (f : TxPbuf → TxPbuf) :
    m.modify p f p = f (m p) :=
  Function.update_self ..

/-- The offsets of the first pbuf after its round of the loop. -/
theorem outputFirst_offsets (h4 : (m p).l4Len ≠ 8) :
    (outputFirst headerLen p m p).offsets = ((m p).asFirst headerLen).offsets := by
  simp only [outputFirst, TxMem.modify_self, TxPbuf.offsets, TxPbuf.finish_headerOff,
    TxPbuf.finish_dataOff, TxPbuf.asFirst_headerOff, TxPbuf.asFirst_dataOff, TxPbuf.asFirst_l4Len,
    TxPbuf.fillMbuf_headerOff, TxPbuf.fillMbuf_dataOff, TxPbuf.fillMbuf_l4Len, if_neg h4]
  rfl

/-- The first round keeps the offsets of every other pbuf, and each `l4_len`. -/
theorem sameOffsets_outputFirst (hq : q ≠ p) : SameOffsets q m (outputFirst headerLen p m) :=
  (sameOffsets_modify_of_ne hq _).trans <|
    (sameOffsets_modify_of_ne hq _).trans (sameOffsets_modify_of_ne hq _)

theorem outputFirst_l4Len : (outputFirst headerLen p m p).l4Len = (m p).l4Len := by
  simp [outputFirst]

/-- The changes of a later round that move no offset. -/
theorem sameOffsets_link (m : TxMem) (first pre p q : ℕ) : SameOffsets q m
    (((m.modify p TxPbuf.fillMbuf).modify first TxPbuf.countSeg).modify pre (TxPbuf.linkTo p)) :=
  ((sameOffsets_modify (f := TxPbuf.fillMbuf) (fun _ => ⟨rfl, rfl⟩) m p q).trans
    (sameOffsets_modify (f := TxPbuf.countSeg) (fun _ => ⟨rfl, rfl⟩) _ first q)).trans
    (sameOffsets_modify (f := TxPbuf.linkTo p) (fun _ => ⟨rfl, rfl⟩) _ pre q)

/-- A later round keeps the offsets of every other pbuf. -/
theorem sameOffsets_outputLater (hq : q ≠ p) :
    SameOffsets q m (outputLater headerLen first pre p m) :=
  ((sameOffsets_link m first pre p q).trans (sameOffsets_modify_of_ne hq _)).trans
    (sameOffsets_modify_of_ne hq _)

/-- The offsets of a later pbuf after its round of the loop. -/
theorem outputLater_offsets (hp : p ≠ first) (h4 : (m first).l4Len ≠ 8) :
    (outputLater headerLen first pre p m p).offsets = ((m p).asLater headerLen).offsets := by
  set linked := ((m.modify p TxPbuf.fillMbuf).modify first TxPbuf.countSeg).modify pre
    (TxPbuf.linkTo p) with hlinked
  have hfirst : (linked.modify p (TxPbuf.asLater headerLen) first).l4Len ≠ 8 := by
    rw [(sameOffsets_modify_of_ne hp.symm _).2, (sameOffsets_link m first pre p first).2]
    exact h4
  obtain ⟨hheader, hdata⟩ := Prod.ext_iff.1 (sameOffsets_link m first pre p p).1
  rw [← hlinked] at hheader hdata
  simp only [TxPbuf.offsets] at hheader hdata
  simp only [outputLater, ← hlinked, TxMem.modify_self, TxPbuf.offsets, TxPbuf.finish_headerOff,
    TxPbuf.finish_dataOff, TxPbuf.asLater_headerOff, TxPbuf.asLater_dataOff, if_neg hfirst,
    hheader, hdata]

/-- How a later round moves a pbuf depends on its offsets only. -/
theorem asLater_offsets_congr {b b' : TxPbuf} (h : b'.offsets = b.offsets) :
    (b'.asLater headerLen).offsets = (b.asLater headerLen).offsets := by
  obtain ⟨hheader, hdata⟩ := Prod.ext_iff.1 h
  simp only [TxPbuf.offsets] at hheader hdata
  simp only [TxPbuf.offsets, TxPbuf.asLater_headerOff, TxPbuf.asLater_dataOff, hheader, hdata]

/-- The later rounds keep the offsets of the pbufs that are not in the rest of the frame. -/
theorem sameOffsets_outputRest (hq : q ∉ rest) :
    SameOffsets q m (outputRest headerLen first pre rest m) := by
  induction rest generalizing pre m with
  | nil => exact ⟨rfl, rfl⟩
  | cons p rest ih =>
    rw [List.mem_cons, not_or] at hq
    exact (sameOffsets_outputLater hq.1).trans (ih hq.2)

/-- The offsets of the later pbufs after the loop. -/
theorem outputRest_offsets (hrest : (first :: rest).Nodup) (h4 : (m first).l4Len ≠ 8)
    (hq : q ∈ rest) :
    (outputRest headerLen first pre rest m q).offsets = ((m q).asLater headerLen).offsets := by
  induction rest generalizing pre m with
  | nil => exact absurd hq List.not_mem_nil
  | cons p rest ih =>
    obtain ⟨hfirst, hp, hnodup⟩ : first ∉ p :: rest ∧ p ∉ rest ∧ rest.Nodup := by
      simpa [List.nodup_cons] using hrest
    obtain ⟨hne, hfirst⟩ : first ≠ p ∧ first ∉ rest := by simpa using hfirst
    rcases List.mem_cons.1 hq with rfl | hq'
    · exact (sameOffsets_outputRest hp).1.trans (outputLater_offsets hne.symm h4)
    · have hkept : SameOffsets first m (outputLater headerLen first pre p m) :=
        sameOffsets_outputLater hne
      rw [outputRest, ih (List.nodup_cons.2 ⟨hfirst, hnodup⟩) (by rw [hkept.2]; exact h4) hq']
      have hqp : q ≠ p := fun h => hp (h ▸ hq')
      exact asLater_offsets_congr (sameOffsets_outputLater hqp).1

/-- The references of a frame that was not sent say nothing about its offsets. -/
theorem sameOffsets_rtePktmbufFree (pbufs : List ℕ) :
    SameOffsets q m (rtePktmbufFree pbufs m) := by
  induction pbufs generalizing m with
  | nil => exact ⟨rfl, rfl⟩
  | cons p pbufs ih =>
    exact (sameOffsets_modify (f := TxPbuf.dropRef) (fun _ => ⟨rfl, rfl⟩) m p q).trans ih

variable {frame : TxFrame} (sent : Bool)

/-- The loop of `eth_dev_output`, up to the references. -/
theorem sameOffsets_ethDevOutput (q : ℕ) :
    SameOffsets q (outputRest (m frame.first).headerLen frame.first frame.first frame.rest
      (outputFirst (m frame.first).headerLen frame.first m)) (ethDevOutput frame sent m) := by
  cases sent with
  | true => exact ⟨rfl, rfl⟩
  | false => exact sameOffsets_rtePktmbufFree _

/-- A frame keeps the offsets of the pbufs that it does not contain. -/
theorem ethDevOutput_offsets_of_notMem (hq : q ∉ frame.first :: frame.rest) :
    (ethDevOutput frame sent m q).offsets = (m q).offsets := by
  rw [List.mem_cons, not_or] at hq
  exact (sameOffsets_ethDevOutput sent q).1.trans <|
    (sameOffsets_outputRest hq.2).1.trans (sameOffsets_outputFirst hq.1).1

/-- The offsets of the first pbuf of a frame that is sent. -/
theorem ethDevOutput_offsets_first (h4 : (m frame.first).l4Len ≠ 8) :
    (ethDevOutput frame sent m frame.first).offsets =
      ((m frame.first).asFirst (m frame.first).headerLen).offsets :=
  (sameOffsets_ethDevOutput sent _).1.trans <|
    (sameOffsets_outputRest (List.nodup_cons.1 frame.nodup).1).1.trans (outputFirst_offsets h4)

/-- The offsets of a later pbuf of a frame that is sent. -/
theorem ethDevOutput_offsets_later (h4 : (m frame.first).l4Len ≠ 8) (hq : q ∈ frame.rest) :
    (ethDevOutput frame sent m q).offsets =
      ((m q).asLater (m frame.first).headerLen).offsets := by
  have hne : q ≠ frame.first := fun h => (List.nodup_cons.1 frame.nodup).1 (h ▸ hq)
  rw [(sameOffsets_ethDevOutput sent q).1,
    outputRest_offsets frame.nodup (by rw [outputFirst_l4Len]; exact h4) hq]
  exact asLater_offsets_congr (sameOffsets_outputFirst hne).1

end Offsets

/-! ## Sequences of sends -/

/-- One send of a pbuf, as it is recorded when its frame has been built. -/
structure TxSend where
  /-- The pbuf. -/
  pbuf : ℕ
  /-- The pbuf is the first one of its frame. -/
  isFirst : Bool
  /-- The header length of the first pbuf of the frame. -/
  headerLen : BitVec 16
  /-- The offset that the pbuf was created with. -/
  created : BitVec 16
  /-- `header_off` before the send. -/
  headerOff : BitVec 16
  /-- `data_off` before the send. -/
  before : BitVec 16
  /-- `data_off` in the frame. -/
  dataOff : BitVec 16
  deriving DecidableEq

/-- The data offset that belongs to the place of the pbuf in the frame: at the start of its
headers, without having wrapped below 0, or behind the headers that are left out. -/
def TxSend.Right (x : TxSend) : Prop :=
  if x.isFirst then
    x.dataOff = x.created ∧ (0 < x.headerOff → x.headerLen ≤ x.before)
  else x.dataOff.toNat = x.created.toNat + x.headerLen.toNat

/-- Whether the data offset belongs to the place of the pbuf is decidable. -/
instance (x : TxSend) : Decidable x.Right := by
  unfold TxSend.Right
  infer_instance

/-- The pbufs, and what has been sent of them. -/
structure TxSys where
  /-- The pbufs with their mbufs. -/
  pbufs : TxMem
  /-- The data offset that each pbuf was created with. -/
  created : ℕ → BitVec 16
  /-- The pbufs that have been part of a frame with an `l4_len` of 8. -/
  udp : ℕ → Bool
  /-- The sends of the other pbufs, in order. -/
  sends : List TxSend

/-- What happens to the pbufs. -/
inductive TxAct
  /-- `init_mbuf_to_pbuf` makes a new pbuf in an mbuf. -/
  | create (p : ℕ) (mbuf : TxMbuf) (length : BitVec 16)
  /-- lwIP sets the lengths and flags of a pbuf, before it hands it to `eth_dev_output`. -/
  | set (p : ℕ) (len totLen : BitVec 16) (olFlags : BitVec 64) (l2Len l3Len l4Len : BitVec 16)
  /-- `eth_dev_output`. -/
  | output (frame : TxFrame) (sent : Bool)

namespace TxSys

/-- The record of the send of a pbuf in a frame, from the memory before and after. -/
def sendOf (s : TxSys) (frame : TxFrame) (m : TxMem) (p : ℕ) : TxSend where
  pbuf := p
  isFirst := p = frame.first
  headerLen := (s.pbufs frame.first).headerLen
  created := s.created p
  headerOff := (s.pbufs p).headerOff
  before := (s.pbufs p).mbuf.dataOff
  dataOff := (m p).mbuf.dataOff

/-- The next state. -/
def next (s : TxSys) : TxAct → TxSys
  | .create p mbuf length =>
    { s with
      pbufs := Function.update s.pbufs p (TxPbuf.initMbufToPbuf mbuf length)
      created := Function.update s.created p mbuf.dataOff
      udp := Function.update s.udp p false }
  | .set p len totLen olFlags l2Len l3Len l4Len =>
    { s with
      pbufs := s.pbufs.modify p fun b => { b with
        len := len, totLen := totLen, olFlags := olFlags
        l2Len := l2Len, l3Len := l3Len, l4Len := l4Len } }
  | .output frame sent =>
    let m := ethDevOutput frame sent s.pbufs
    let pbufs := frame.first :: frame.rest
    if (s.pbufs frame.first).l4Len = 8 then
      { s with pbufs := m, udp := fun p => s.udp p || pbufs.contains p }
    else
      { s with
        pbufs := m
        sends := s.sends ++ (pbufs.filter fun p => !s.udp p).map (s.sendOf frame m) }

/-- All sequences of what happens to the pbufs, from pbufs that are new. -/
def system : Transition.System TxSys TxAct where
  Init s := (∀ p, (s.pbufs p).headerOff = 0 ∧ s.created p = (s.pbufs p).mbuf.dataOff ∧
    s.udp p = false) ∧ s.sends = []
  step s a := some (s.next a)

/-- Every send so far had the right data offset. -/
def OffsetsRight (s : TxSys) : Prop := ∀ x ∈ s.sends, x.Right

/-- A pbuf that is moved when it is sent was moved by the header length of the present frame, and
a later pbuf has room for that length behind the offset it was created with. -/
def KeepsHeaderLen (s : TxSys) : TxAct → Prop
  | .output frame _ =>
    let headerLen := (s.pbufs frame.first).headerLen
    (s.pbufs frame.first).l4Len = 8 ∨
      (s.udp frame.first = false → 0 < (s.pbufs frame.first).headerOff →
        (s.pbufs frame.first).headerOff = headerLen) ∧
      ∀ p ∈ frame.rest, s.udp p = false →
        (0 < (s.pbufs p).headerOff → (s.pbufs p).headerOff = headerLen) ∧
        (s.created p).toNat + headerLen.toNat < 2 ^ 16
  | _ => True

/-- Whether a frame keeps the length of its headers is decidable. -/
instance (s : TxSys) (a : TxAct) : Decidable (s.KeepsHeaderLen a) := by
  cases a with
  | create => exact isTrue trivial
  | set => exact isTrue trivial
  | output => unfold KeepsHeaderLen; infer_instance

/-- Every pbuf is moved by its `header_off`, and every send so far had the right offset. -/
structure OffsetInv (s : TxSys) : Prop where
  /-- The data offset of a pbuf that was in no UDP frame. -/
  moved : ∀ p, s.udp p = false →
    (s.pbufs p).mbuf.dataOff.toNat = (s.created p).toNat + (s.pbufs p).headerOff.toNat
  /-- The sends so far. -/
  right : s.OffsetsRight

variable {s s' : TxSys} {frame : TxFrame} {p : ℕ} (sent : Bool)

theorem OffsetInv.init (hs : system.Init s) : OffsetInv s where
  moved p _ := by
    obtain ⟨hoff, hcreated, -⟩ := hs.1 p
    simp [hoff, hcreated]
  right x hx := by simp [hs.2] at hx

/-- A new pbuf is not moved. -/
theorem OffsetInv.create (hI : OffsetInv s) (p : ℕ) (mbuf : TxMbuf) (length : BitVec 16) :
    OffsetInv (s.next (.create p mbuf length)) where
  moved q hq := by
    by_cases hqp : q = p
    · subst hqp
      simp [next, TxPbuf.initMbufToPbuf]
    · simp only [next, Function.update_of_ne hqp] at hq ⊢
      exact hI.moved q hq
  right := hI.right

/-- lwIP moves no pbuf. -/
theorem OffsetInv.set (hI : OffsetInv s) (p : ℕ) (len totLen : BitVec 16) (olFlags : BitVec 64)
    (l2Len l3Len l4Len : BitVec 16) :
    OffsetInv (s.next (.set p len totLen olFlags l2Len l3Len l4Len)) where
  moved q hq := by
    have hq' := hI.moved q hq
    by_cases hqp : q = p
    · subst hqp
      simpa [next] using hq'
    · simpa [next, TxMem.modify, Function.update_of_ne hqp] using hq'
  right := hI.right

/-- A UDP frame moves only pbufs that are in it. -/
theorem OffsetInv.outputUdp (hI : OffsetInv s) (h4 : (s.pbufs frame.first).l4Len = 8) :
    OffsetInv (s.next (.output frame sent)) where
  moved q hq := by
    simp only [next, if_pos h4, Bool.or_eq_false_iff, List.contains_eq_mem,
      decide_eq_false_iff_not] at hq ⊢
    obtain ⟨hheader, hdata⟩ := Prod.ext_iff.1
      (ethDevOutput_offsets_of_notMem (m := s.pbufs) sent hq.2)
    simp only [TxPbuf.offsets] at hheader hdata
    rw [hheader, hdata]
    exact hI.moved q hq.1
  right x hx := by
    simp only [next, if_pos h4] at hx
    exact hI.right x hx

/-- Where a frame finds and leaves its first pbuf. -/
theorem dataOff_first (h4 : (s.pbufs frame.first).l4Len ≠ 8) :
    (ethDevOutput frame sent s.pbufs frame.first).headerOff = 0 ∧
      (ethDevOutput frame sent s.pbufs frame.first).mbuf.dataOff =
        if 0 < (s.pbufs frame.first).headerOff then
          (s.pbufs frame.first).mbuf.dataOff - (s.pbufs frame.first).headerLen
        else (s.pbufs frame.first).mbuf.dataOff := by
  have h := Prod.ext_iff.1 (ethDevOutput_offsets_first sent h4)
  simpa only [TxPbuf.offsets, TxPbuf.asFirst_headerOff, TxPbuf.asFirst_dataOff] using h

/-- Where a frame finds and leaves a later pbuf. -/
theorem dataOff_later (h4 : (s.pbufs frame.first).l4Len ≠ 8) (hp : p ∈ frame.rest) :
    (ethDevOutput frame sent s.pbufs p).headerOff =
        (if (s.pbufs p).headerOff = 0 then (s.pbufs frame.first).headerLen
        else (s.pbufs p).headerOff) ∧
      (ethDevOutput frame sent s.pbufs p).mbuf.dataOff =
        if (s.pbufs p).headerOff = 0 then
          (s.pbufs p).mbuf.dataOff + (s.pbufs frame.first).headerLen
        else (s.pbufs p).mbuf.dataOff := by
  have h := Prod.ext_iff.1 (ethDevOutput_offsets_later sent h4 hp)
  simpa only [TxPbuf.offsets, TxPbuf.asLater_headerOff, TxPbuf.asLater_dataOff] using h

/-- The first pbuf of a frame goes back to the offset it was created with exactly if it was moved
by the header length of this frame. -/
theorem right_first_iff (hI : OffsetInv s) (h4 : (s.pbufs frame.first).l4Len ≠ 8)
    (hp : s.udp frame.first = false) :
    (s.sendOf frame (ethDevOutput frame sent s.pbufs) frame.first).Right ↔
      (0 < (s.pbufs frame.first).headerOff →
        (s.pbufs frame.first).headerOff = (s.pbufs frame.first).headerLen) := by
  have hmoved := hI.moved _ hp
  simp only [TxSend.Right, sendOf, (dataOff_first sent h4).2, decide_true, if_true]
  by_cases hoff : 0 < (s.pbufs frame.first).headerOff
  · simp only [hoff, if_true, true_imp_iff]
    constructor
    · rintro ⟨hback, -⟩
      bv_omega
    · intro hlen
      rw [← hlen]
      constructor <;> bv_omega
  · simp only [hoff, if_false, false_imp_iff, and_true, iff_true]
    bv_omega

/-- A later pbuf of a frame is behind the headers exactly if it was moved by the header length of
this frame, or has now been, with room for it. -/
theorem right_later_iff (hI : OffsetInv s) (h4 : (s.pbufs frame.first).l4Len ≠ 8)
    (hp : p ∈ frame.rest) (hudp : s.udp p = false) :
    (s.sendOf frame (ethDevOutput frame sent s.pbufs) p).Right ↔
      (0 < (s.pbufs p).headerOff →
        (s.pbufs p).headerOff = (s.pbufs frame.first).headerLen) ∧
      (s.created p).toNat + (s.pbufs frame.first).headerLen.toNat < 2 ^ 16 := by
  have hmoved := hI.moved _ hudp
  have hne : p ≠ frame.first := fun h => (List.nodup_cons.1 frame.nodup).1 (h ▸ hp)
  simp only [TxSend.Right, sendOf, (dataOff_later sent h4 hp).2, hne, decide_false,
    Bool.false_eq_true, if_false]
  by_cases hoff : (s.pbufs p).headerOff = 0
  · rw [if_pos hoff]
    simp only [hoff] at hmoved ⊢
    constructor
    · intro hsum
      refine ⟨fun h => absurd h (by decide), ?_⟩
      bv_omega
    · rintro ⟨-, hroom⟩
      bv_omega
  · have hpos : 0 < (s.pbufs p).headerOff := by bv_omega
    rw [if_neg hoff]
    simp only [hpos, true_imp_iff]
    constructor
    · intro hsum
      constructor <;> bv_omega
    · rintro ⟨hlen, -⟩
      rw [← hlen]
      exact hmoved

/-- The sends of a frame are right exactly if the frame keeps the header lengths. -/
theorem sends_right_iff (hI : OffsetInv s) (h4 : (s.pbufs frame.first).l4Len ≠ 8) :
    (s.next (.output frame sent)).OffsetsRight ↔ s.KeepsHeaderLen (.output frame sent) := by
  have hsplit : (s.next (.output frame sent)).OffsetsRight ↔
      ∀ p ∈ frame.first :: frame.rest, s.udp p = false →
        (s.sendOf frame (ethDevOutput frame sent s.pbufs) p).Right := by
    simp only [OffsetsRight, next, if_neg h4, List.mem_append, List.mem_map, List.mem_filter,
      Bool.not_eq_true']
    constructor
    · intro h p hp hudp
      exact h _ (.inr ⟨p, ⟨hp, hudp⟩, rfl⟩)
    · rintro h x (hx | ⟨p, ⟨hp, hudp⟩, rfl⟩)
      · exact hI.right x hx
      · exact h p hp hudp
  rw [hsplit, List.forall_mem_cons]
  simp only [KeepsHeaderLen, h4, false_or]
  refine and_congr (imp_congr_right fun hudp => right_first_iff sent hI h4 hudp) ?_
  exact forall₂_congr fun p hp => imp_congr_right fun hudp => right_later_iff sent hI h4 hp hudp

/-- A frame that keeps the header lengths keeps the invariant. -/
theorem OffsetInv.output (hI : OffsetInv s) (h4 : (s.pbufs frame.first).l4Len ≠ 8)
    (hkeep : s.KeepsHeaderLen (.output frame sent)) :
    OffsetInv (s.next (.output frame sent)) where
  moved q hq := by
    simp only [next, if_neg h4] at hq ⊢
    have hmoved := hI.moved q hq
    simp only [KeepsHeaderLen, h4, false_or] at hkeep
    by_cases hfirst : q = frame.first
    · -- the first pbuf is back at the offset it was created with
      subst hfirst
      obtain ⟨hheader, hdata⟩ := dataOff_first sent h4
      have hlen := hkeep.1 hq
      rw [hheader, hdata]
      split
      · next hpos =>
        have hback := hlen hpos
        bv_omega
      · bv_omega
    by_cases hrest : q ∈ frame.rest
    · -- a later pbuf is behind the headers of the frame
      obtain ⟨hheader, hdata⟩ := dataOff_later sent h4 hrest
      have hroom := (hkeep.2 q hrest hq).2
      rw [hheader, hdata]
      split <;> bv_omega
    · have hnot : q ∉ frame.first :: frame.rest := List.not_mem_cons_of_ne_of_not_mem hfirst hrest
      obtain ⟨hheader, hdata⟩ := Prod.ext_iff.1
        (ethDevOutput_offsets_of_notMem (m := s.pbufs) sent hnot)
      simp only [TxPbuf.offsets] at hheader hdata
      rw [hheader, hdata]
      exact hmoved
  right := (sends_right_iff sent hI h4).2 hkeep

/-- A step that keeps the header lengths keeps the invariant. -/
theorem OffsetInv.step {a : TxAct} (hI : OffsetInv s) (hkeep : s.KeepsHeaderLen a) :
    OffsetInv (s.next a) := by
  cases a with
  | create p mbuf length => exact hI.create p mbuf length
  | set p len totLen olFlags l2Len l3Len l4Len =>
    exact hI.set p len totLen olFlags l2Len l3Len l4Len
  | output frame sent =>
    by_cases h4 : (s.pbufs frame.first).l4Len = 8
    · exact hI.outputUdp sent h4
    · exact hI.output sent h4 hkeep

/-- A step after which the sends are right has kept the header lengths. -/
theorem OffsetInv.keeps {a : TxAct} (hI : OffsetInv s) (hright : (s.next a).OffsetsRight) :
    s.KeepsHeaderLen a := by
  cases a with
  | create => trivial
  | set => trivial
  | output frame sent =>
    by_cases h4 : (s.pbufs frame.first).l4Len = 8
    · exact .inl h4
    · exact (sends_right_iff sent hI h4).1 hright

/-- Along a run, every pbuf is sent with the data offset that belongs to its place in the frame
exactly if every frame keeps the header lengths. -/
theorem data_off_right_iff (hs : system.Init s) (as : List TxAct) :
    system.statesHold OffsetsRight s as ↔ system.stepsMeet KeepsHeaderLen s as := by
  refine Transition.System.statesHold_iff_stepsMeet (J := OffsetInv) (fun _ hI => hI.right)
    ?_ ?_ (.init hs)
  · intro s a s' hI hkeep hstep
    exact Option.some.inj hstep ▸ hI.step hkeep
  · intro s a s' hI hright hstep
    exact hI.keeps (Option.some.inj hstep ▸ hright)

/-- A new pbuf whose headers have a length of 54. -/
def newPbuf : TxPbuf :=
  { TxPbuf.initMbufToPbuf ⟨128, 0, 0, 0, none, 1, 0, 0, 0, 0, 1⟩ 1460 with
    l2Len := 14, l3Len := 20, l4Len := 20 }

/-- Pbufs that have not been sent. -/
def newPbufs : TxSys := ⟨fun _ => newPbuf, fun _ => 128, fun _ => false, []⟩

/-- The pbuf 1 is sent behind the pbuf 0, and then alone with 12 bytes of TCP options. -/
def mergedAndSplit : List TxAct :=
  [.output ⟨0, [1], by decide⟩ true, .set 1 1460 1460 0 14 20 32, .output ⟨1, [], by decide⟩ true]

/-- Frames that keep the header length: the pbuf 1 is sent behind the pbuf 0 and then alone. -/
theorem data_off_right_split : system.statesHold OffsetsRight newPbufs
    [.output ⟨0, [1], by decide⟩ true, .output ⟨1, [], by decide⟩ true] :=
  (data_off_right_iff ⟨fun _ => ⟨rfl, rfl, rfl⟩, rfl⟩ _).2 (by decide)

/-- The last send of `mergedAndSplit`: the pbuf starts 12 bytes too early. -/
def splitSend : TxSend := ⟨1, true, 66, 128, 54, 182, 116⟩

/-- A pbuf that was moved by one header length and is moved back by another one is sent from a
wrong offset. -/
theorem data_off_wrong : ¬ ∀ s, system.Init s → ∀ as, system.statesHold OffsetsRight s as := by
  intro h
  have hright := h newPbufs ⟨fun _ => ⟨rfl, rfl, rfl⟩, rfl⟩ mergedAndSplit
  have hlast := ((hright.2 _ rfl).2 _ rfl).2 _ rfl
  exact absurd (hlast splitSend (by decide)) (by decide)

end TxSys

end Gazelle
