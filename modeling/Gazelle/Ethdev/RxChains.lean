import Gazelle.Lists.Linked
import Gazelle.Lwip.Pbuf
import Mathlib.Data.List.TakeWhile
import Mathlib.Logic.Function.Basic

/-!
# Received packets of several segments

`eth_dev_recv` turns the mbufs of a packet into a chain of pbufs and hands it to `netif.input`. The
pbuf of an mbuf is in the mbuf itself; the links of the mbufs are cut and those of the pbufs are
made in the same loop. Every pbuf gets the length of the packet as its `tot_len`, and when a pbuf
cannot be made the loop ends and what there is of the chain is handed on.

* `ethDevRecv`: the function, on a memory of mbufs and pbufs;
* `recvLoop_spec`: the chain consists of the segments before the first failure;
* `RecvPacket.Received`: what lwIP and the pool rely on;
* `received_iff`: the packets that are received so;
* `not_received_two_segments`: a packet of two segments that is not.
-/

namespace Gazelle

/-- An mbuf, the fields that `eth_dev_recv` reads or writes. -/
structure SegMbuf where
  /-- The `data_len` bytes at `data_off`. -/
  data : List Byte
  /-- `pkt_len`. -/
  pktLen : BitVec 32
  /-- `ol_flags`. -/
  olFlags : BitVec 64
  /-- `next`. -/
  next : Option ℕ

/-- A pbuf, the fields that `eth_dev_recv` writes. -/
structure SegPbuf where
  /-- The bytes at `payload`. -/
  payload : List Byte
  /-- `len`. -/
  len : BitVec 16
  /-- `tot_len`. -/
  totLen : BitVec 16
  /-- `ol_flags`. -/
  olFlags : BitVec 64
  /-- `next`. -/
  next : Option ℕ

/-- The mbufs by their address, and the pbuf in each, `mbuf_to_pbuf`. -/
structure SegMem where
  /-- The mbufs. -/
  mbufs : ℕ → SegMbuf
  /-- The pbufs. -/
  pbufs : ℕ → SegPbuf

/-- `data_len`. -/
def SegMbuf.dataLen (m : SegMbuf) : BitVec 16 := BitVec.ofNat 16 m.data.length

/-- `pbuf_alloced_custom` for the data of an mbuf, and the two fields that are set after it. -/
def pbufOfMbuf (m : SegMbuf) (pktLen : BitVec 16) : SegPbuf where
  payload := m.data
  len := m.dataLen
  totLen := pktLen
  olFlags := m.olFlags
  next := none

namespace SegMem

/-- `prev->next = next`, if there is a previous pbuf. -/
def linkPrev (mem : SegMem) (prev : Option ℕ) (p : ℕ) : SegMem :=
  match prev with
  | none => mem
  | some q => { mem with
      pbufs := Function.update mem.pbufs q { mem.pbufs q with next := some p } }

/-- One round of the loop of `eth_dev_recv`, when the pbuf can be made: the pbuf is filled and
linked, and the link of the mbuf is cut. -/
def recvOne (mem : SegMem) (pktLen : BitVec 16) (prev : Option ℕ) (m : ℕ) : SegMem :=
  let filled : SegMem :=
    { mem with pbufs := Function.update mem.pbufs m (pbufOfMbuf (mem.mbufs m) pktLen) }
  let linked := filled.linkPrev prev m
  { linked with mbufs := Function.update linked.mbufs m { linked.mbufs m with next := none } }

end SegMem

/-- The loop of `eth_dev_recv`, at most `n` rounds of it: `head` and the memory when it is left.
`allocs` tells for which mbufs `pbuf_alloced_custom` returns a pbuf. -/
def recvLoop (allocs : ℕ → Bool) (pktLen : BitVec 16) :
    ℕ → Option ℕ → Option ℕ → Option ℕ → SegMem → Option ℕ × SegMem
  | 0, _, head, _, mem => (head, mem)
  | _ + 1, none, head, _, mem => (head, mem)
  | n + 1, some m, head, prev, mem =>
    if allocs m then
      recvLoop allocs pktLen n (mem.mbufs m).next (head.or (some m)) (some m)
        (mem.recvOne pktLen prev m)
    else (head, mem)

/-- A packet in the memory: a chain of mbufs whose `pkt_len` is right. -/
structure RecvPacket (mem : SegMem) where
  /-- The first segment. -/
  head : ℕ
  /-- The other segments. -/
  rest : List ℕ
  /-- They are linked. -/
  linked : Linked (fun m => (mem.mbufs m).next) (some head) (head :: rest)
  /-- `pkt_len` of the first segment is the length of the data. -/
  pktLen : (mem.mbufs head).pktLen.toNat =
    ((head :: rest).flatMap fun m => (mem.mbufs m).data).length
  /-- It fits 16 bits. -/
  fits : (mem.mbufs head).pktLen.toNat ≤ 65535

namespace RecvPacket

variable {mem : SegMem} (packet : RecvPacket mem)

/-- The segments. -/
def segs : List ℕ := packet.head :: packet.rest

/-- The data of the packet. -/
def data : List Byte := packet.segs.flatMap fun m => (mem.mbufs m).data

end RecvPacket

/-- What `eth_dev_recv` leaves behind. -/
structure RecvOut where
  /-- The memory. -/
  mem : SegMem
  /-- The chain that is handed to `netif.input`, if it is called. -/
  handed : Option ℕ
  /-- The mbufs that are freed. -/
  freed : List ℕ

/-- `eth_dev_recv`. The result of `netif.input` is only logged, and no branch frees an mbuf. -/
def ethDevRecv (allocs : ℕ → Bool) (mem : SegMem) (packet : RecvPacket mem) : RecvOut :=
  let pktLen := (mem.mbufs packet.head).pktLen.setWidth 16
  let (head, mem') := recvLoop allocs pktLen packet.segs.length (some packet.head) none none mem
  { mem := mem', handed := head, freed := [] }

/-! ## The chain that is built -/

/-- The links of the pbufs. -/
def SegMem.pbufNext (mem : SegMem) (p : ℕ) : Option ℕ := (mem.pbufs p).next

/-- The links of the mbufs. -/
def SegMem.mbufNext (mem : SegMem) (m : ℕ) : Option ℕ := (mem.mbufs m).next

section Loop

variable {allocs : ℕ → Bool} {pktLen : BitVec 16} {mem mem' : SegMem} {n : ℕ} {m q : ℕ}
  {o head prev : Option ℕ} {segs l : List ℕ}

theorem recvOne_mbufs (hq : q ≠ m) : (mem.recvOne pktLen prev m).mbufs q = mem.mbufs q := by
  cases prev <;> simp [SegMem.recvOne, SegMem.linkPrev, Function.update_of_ne hq]

/-- The pbuf of the round, when it is not its own predecessor. -/
theorem recvOne_pbufs_self (hprev : prev ≠ some m) :
    (mem.recvOne pktLen prev m).pbufs m = pbufOfMbuf (mem.mbufs m) pktLen := by
  cases prev with
  | none => simp [SegMem.recvOne, SegMem.linkPrev]
  | some p =>
    have hp : m ≠ p := fun h => hprev (congrArg some h.symm)
    simp [SegMem.recvOne, SegMem.linkPrev, Function.update_of_ne hp]

/-- The predecessor is linked to the pbuf of the round. -/
theorem recvOne_pbufs_prev (hq : q ≠ m) : (mem.recvOne pktLen (some q) m).pbufs q =
    { mem.pbufs q with next := some m } := by
  simp [SegMem.recvOne, SegMem.linkPrev, Function.update_of_ne hq]

/-- A round leaves every other pbuf as it is. -/
theorem recvOne_pbufs_of_ne (hq : q ≠ m) (hprev : prev ≠ some q) :
    (mem.recvOne pktLen prev m).pbufs q = mem.pbufs q := by
  cases prev with
  | none => simp [SegMem.recvOne, SegMem.linkPrev, Function.update_of_ne hq]
  | some p =>
    have hp : q ≠ p := fun h => hprev (congrArg some h.symm)
    simp [SegMem.recvOne, SegMem.linkPrev, Function.update_of_ne hp, Function.update_of_ne hq]

/-- The pbufs of `l` are filled and linked behind `prev`. -/
structure BuiltChain (pktLen : BitVec 16) (prev : Option ℕ) (l : List ℕ) (mem mem' : SegMem) :
    Prop where
  /-- They are linked. -/
  linked : Linked mem'.pbufNext l.head? l
  /-- They are filled. -/
  filled : ∀ m ∈ l, mem'.pbufs m =
    { pbufOfMbuf (mem.mbufs m) pktLen with next := (mem'.pbufs m).next }
  /-- The pbuf before them is linked to them. -/
  link : ∀ p, prev = some p → (mem.pbufs p).next = none →
    mem'.pbufs p = { mem.pbufs p with next := l.head? }
  /-- The other pbufs are as before. -/
  same : ∀ q ∉ l, prev ≠ some q → mem'.pbufs q = mem.pbufs q

/-- Nothing is built. -/
theorem BuiltChain.nil (pktLen : BitVec 16) (prev : Option ℕ) (mem : SegMem) :
    BuiltChain pktLen prev [] mem mem where
  linked := rfl
  filled _ hm := absurd hm List.not_mem_nil
  link _ _ hnext := by rw [List.head?_nil, ← hnext]
  same _ _ _ := rfl

/-- One more pbuf in front of those that are built behind it. -/
theorem BuiltChain.cons (hm : m ∉ l) (hprev : prev ≠ some m) (hl : ∀ q ∈ l, prev ≠ some q)
    (h : BuiltChain pktLen (some m) l (mem.recvOne pktLen prev m) mem') :
    BuiltChain pktLen prev (m :: l) mem mem' := by
  have hself : (mem.recvOne pktLen prev m).pbufs m = pbufOfMbuf (mem.mbufs m) pktLen :=
    recvOne_pbufs_self hprev
  have hlink : mem'.pbufs m = { pbufOfMbuf (mem.mbufs m) pktLen with next := l.head? } := by
    rw [← hself]
    exact h.link m rfl (by rw [hself]; rfl)
  constructor
  · refine ⟨rfl, ?_⟩
    have hnext : mem'.pbufNext m = l.head? := congrArg SegPbuf.next hlink
    rw [hnext]
    exact h.linked
  · intro q hq
    rcases List.mem_cons.1 hq with rfl | hq
    · rw [hlink]
    · have hne : q ≠ m := fun he => hm (he ▸ hq)
      rw [h.filled q hq, recvOne_mbufs hne]
  · rintro p rfl hnext
    have hne : p ≠ m := fun he => hprev (congrArg some he)
    have hp : p ∉ l := fun hp => hl p hp rfl
    rw [h.same p hp (fun he => hne (Option.some.inj he).symm), recvOne_pbufs_prev hne]
    rfl
  · intro q hq hqprev
    obtain ⟨hne, hq⟩ : q ≠ m ∧ q ∉ l := by simpa using hq
    rw [h.same q hq (fun he => hne (Option.some.inj he).symm), recvOne_pbufs_of_ne hne hqprev]

/-- The loop makes the chain of the segments before the first one whose pbuf cannot be made. -/
theorem recvLoop_spec (hlinked : Linked mem.mbufNext o segs) (hn : segs.length ≤ n)
    (hprev : ∀ q ∈ segs, prev ≠ some q) :
    (recvLoop allocs pktLen n o head prev mem).1 = head.or (segs.takeWhile allocs).head? ∧
      BuiltChain pktLen prev (segs.takeWhile allocs) mem
        (recvLoop allocs pktLen n o head prev mem).2 := by
  induction segs generalizing n o head prev mem with
  | nil =>
    -- the end of the chain
    obtain rfl : o = none := hlinked
    cases n <;> exact ⟨(Option.or_none).symm, .nil pktLen prev mem⟩
  | cons m segs ih =>
    have hnodup := hlinked.nodup
    obtain ⟨rfl, hrest⟩ := hlinked
    obtain ⟨hm, -⟩ := List.nodup_cons.1 hnodup
    cases n with
    | zero => exact absurd hn (by simp)
    | succ n =>
      rw [recvLoop]
      cases halloc : allocs m with
      | false =>
        -- no pbuf for this segment: the loop stops, and the rest of the chain is not in it
        rw [List.takeWhile_cons_of_neg (by simp [halloc])]
        exact ⟨(Option.or_none).symm, .nil pktLen prev mem⟩
      | true =>
        rw [List.takeWhile_cons_of_pos halloc]
        -- this round writes the segment and the pbuf before it, so the rest is linked as it was
        have hcut : Linked (mem.recvOne pktLen prev m).mbufNext (mem.mbufs m).next segs :=
          hrest.congr fun q hq => congrArg SegMbuf.next (recvOne_mbufs fun he => hm (he ▸ hq))
        have hnot : ∀ q ∈ segs, some m ≠ some q :=
          fun q hq he => hm ((Option.some.inj he).symm ▸ hq)
        have hloop : (recvLoop allocs pktLen n (mem.mbufs m).next (head.or (some m)) (some m)
              (mem.recvOne pktLen prev m)).1 =
            (head.or (some m)).or (segs.takeWhile allocs).head? ∧ _ :=
          ih hcut (by simpa using hn) hnot
        obtain ⟨hhead, hbuilt⟩ := hloop
        have hsub : ∀ q ∈ segs.takeWhile allocs, q ∈ segs := fun q hq =>
          (List.takeWhile_prefix allocs).subset hq
        -- the first pbuf that was made is the head, if there was none before
        refine ⟨?_, .cons (fun h => hm (hsub m h)) (hprev m List.mem_cons_self) ?_ hbuilt⟩
        · simp only [if_true, hhead]
          cases head <;> rfl
        · exact fun q hq => hprev q (List.mem_cons_of_mem m (hsub q hq))

end Loop

/-! ## When a packet is received well -/

/-- The law of lwIP for the pbufs of a chain: `tot_len` is `len` plus the `tot_len` of the next. -/
def TotLenLaw (pbufs : ℕ → SegPbuf) : List ℕ → Prop
  | [] => True
  | [p] => (pbufs p).totLen = (pbufs p).len
  | p :: q :: l =>
    (pbufs p).totLen.toNat = (pbufs p).len.toNat + (pbufs q).totLen.toNat ∧
      TotLenLaw pbufs (q :: l)

/-- The law can be checked pbuf by pbuf. -/
instance decidableTotLenLaw (pbufs : ℕ → SegPbuf) : ∀ l, Decidable (TotLenLaw pbufs l)
  | [] => isTrue trivial
  | [_] => inferInstanceAs (Decidable (_ = _))
  | _ :: q :: l =>
    have := decidableTotLenLaw pbufs (q :: l)
    inferInstanceAs (Decidable (_ ∧ _))

namespace RecvPacket

variable {mem : SegMem}

/-- The outcome that lwIP and the pool rely on, when `netif.input` returns `ret`. -/
structure Received (packet : RecvPacket mem) (out : RecvOut) (ret : ℤ) : Prop where
  /-- What is handed on is a chain with the data of the packet that obeys the law of lwIP. -/
  chain : ∀ p, out.handed = some p → ∃ l, Linked out.mem.pbufNext (some p) l ∧
    (l.flatMap fun q => (out.mem.pbufs q).payload) = packet.data ∧ TotLenLaw out.mem.pbufs l
  /-- Every segment is in a chain that lwIP has taken over, or is freed. -/
  owned : ∀ m ∈ packet.segs,
    (∃ p l, out.handed = some p ∧ Linked out.mem.pbufNext (some p) l ∧ m ∈ l ∧ ret = 0) ∨
      m ∈ out.freed

/-- Every pbuf can be made, lwIP takes the chain, and all data is in the last segment. -/
def Plain (packet : RecvPacket mem) (allocs : ℕ → Bool) (ret : ℤ) : Prop :=
  (∀ m ∈ packet.segs, allocs m = true) ∧ ret = 0 ∧
    ∀ m ∈ packet.segs.dropLast, (mem.mbufs m).data = []

variable {packet : RecvPacket mem} {allocs : ℕ → Bool} {ret : ℤ}

/-- The chain that `eth_dev_recv` builds. -/
theorem ethDevRecv_spec (packet : RecvPacket mem) (allocs : ℕ → Bool) :
    (ethDevRecv allocs mem packet).handed = (packet.segs.takeWhile allocs).head? ∧
      BuiltChain ((mem.mbufs packet.head).pktLen.setWidth 16) none
        (packet.segs.takeWhile allocs) mem (ethDevRecv allocs mem packet).mem := by
  have hloop : (recvLoop allocs ((mem.mbufs packet.head).pktLen.setWidth 16) packet.segs.length
      (some packet.head) none none mem).1 = none.or (packet.segs.takeWhile allocs).head? ∧ _ :=
    recvLoop_spec packet.linked (le_refl _) fun q _ => (Option.some_ne_none q).symm
  exact ⟨hloop.1.trans Option.none_or, hloop.2⟩

/-- The chain that is handed on has the segments before the first failure. -/
theorem handed_chain {p : ℕ} {l : List ℕ} (hp : (ethDevRecv allocs mem packet).handed = some p)
    (hl : Linked (ethDevRecv allocs mem packet).mem.pbufNext (some p) l) :
    l = packet.segs.takeWhile allocs := by
  obtain ⟨hhead, hbuilt⟩ := ethDevRecv_spec packet allocs
  refine hl.unique ?_
  rw [← hp, hhead]
  exact hbuilt.linked

/-- A packet that is received well has no segment whose pbuf cannot be made. -/
theorem Received.made (h : packet.Received (ethDevRecv allocs mem packet) ret) :
    (∀ m ∈ packet.segs, allocs m = true) ∧ ret = 0 := by
  have howned : ∀ m ∈ packet.segs, allocs m = true ∧ ret = 0 := by
    intro m hm
    rcases h.owned m hm with ⟨p, l, hp, hl, hml, hret⟩ | hfreed
    · rw [handed_chain hp hl] at hml
      exact ⟨List.mem_takeWhile_imp hml, hret⟩
    · exact absurd hfreed List.not_mem_nil
  exact ⟨fun m hm => (howned m hm).1, (howned packet.head List.mem_cons_self).2⟩

end RecvPacket

section Law

variable {pbufs : ℕ → SegPbuf} {totLen : BitVec 16} {l : List ℕ}

/-- When all pbufs have one `tot_len`, the law says that all data is in the last one. -/
theorem totLenLaw_iff (hne : l ≠ []) (htot : ∀ p ∈ l, (pbufs p).totLen = totLen) :
    TotLenLaw pbufs l ↔
      (∀ p ∈ l.dropLast, (pbufs p).len = 0) ∧ (pbufs (l.getLast hne)).len = totLen := by
  induction l with
  | nil => exact absurd rfl hne
  | cons p l ih =>
    cases l with
    | nil =>
      simp only [TotLenLaw, htot p List.mem_cons_self, List.dropLast_singleton, List.not_mem_nil,
        false_imp_iff, implies_true, true_and, List.getLast_singleton]
      exact eq_comm
    | cons q l =>
      have hp := htot p List.mem_cons_self
      have hq := htot q (by simp)
      have hrest := ih (List.cons_ne_nil q l) fun r hr => htot r (List.mem_cons_of_mem p hr)
      have hzero : totLen.toNat = (pbufs p).len.toNat + totLen.toNat ↔ (pbufs p).len = 0 := by
        rw [← BitVec.toNat_inj]
        simp
      rw [TotLenLaw, hp, hq, hzero, hrest, List.dropLast_cons_cons, List.forall_mem_cons,
        List.getLast_cons_cons, and_assoc]

end Law

namespace RecvPacket

variable {mem : SegMem} {packet : RecvPacket mem} {allocs : ℕ → Bool} {ret : ℤ}

/-- The length of the packet is its `pkt_len`. -/
theorem length_data : packet.data.length = (mem.mbufs packet.head).pktLen.toNat :=
  packet.pktLen.symm

/-- No segment is longer than 16 bits can say. -/
theorem toNat_dataLen {m : ℕ} (hm : m ∈ packet.segs) :
    (mem.mbufs m).dataLen.toNat = (mem.mbufs m).data.length := by
  have hsum : (mem.mbufs m).data.length ≤ packet.data.length := by
    obtain ⟨before, behind, hsegs⟩ := List.append_of_mem hm
    rw [data, hsegs, List.flatMap_append, List.flatMap_cons, List.length_append, List.length_append]
    omega
  have hfits := packet.fits
  rw [← length_data] at hfits
  rw [SegMbuf.dataLen, BitVec.toNat_ofNat]
  exact Nat.mod_eq_of_lt (by omega)

/-- When all segments have their pbuf, the chain is that of all segments. -/
theorem built_all (hall : ∀ m ∈ packet.segs, allocs m = true) :
    (ethDevRecv allocs mem packet).handed = some packet.head ∧
      BuiltChain ((mem.mbufs packet.head).pktLen.setWidth 16) none packet.segs mem
        (ethDevRecv allocs mem packet).mem := by
  have hspec := ethDevRecv_spec packet allocs
  rw [List.takeWhile_eq_self_iff.2 hall] at hspec
  exact hspec

/-- The law of lwIP holds for the chain of all segments exactly if all data is in the last one. -/
theorem totLenLaw_segs_iff
    (h : BuiltChain ((mem.mbufs packet.head).pktLen.setWidth 16) none packet.segs mem
      (ethDevRecv allocs mem packet).mem) :
    TotLenLaw (ethDevRecv allocs mem packet).mem.pbufs packet.segs ↔
      ∀ m ∈ packet.segs.dropLast, (mem.mbufs m).data = [] := by
  have htot : ∀ p ∈ packet.segs, ((ethDevRecv allocs mem packet).mem.pbufs p).totLen =
      (mem.mbufs packet.head).pktLen.setWidth 16 := fun p hp => by rw [h.filled p hp]; rfl
  have hlen : ∀ p ∈ packet.segs, ((ethDevRecv allocs mem packet).mem.pbufs p).len =
      (mem.mbufs p).dataLen := fun p hp => by rw [h.filled p hp]; rfl
  have hzero : ∀ m ∈ packet.segs, ((mem.mbufs m).dataLen = 0 ↔ (mem.mbufs m).data = []) := by
    intro m hm
    rw [← BitVec.toNat_inj, toNat_dataLen hm]
    simp
  have hne : packet.segs ≠ [] := List.cons_ne_nil _ _
  have hdrop : ∀ m ∈ packet.segs.dropLast, m ∈ packet.segs := fun m hm =>
    (List.dropLast_subset _) hm
  rw [totLenLaw_iff hne htot]
  constructor
  · rintro ⟨hfirst, -⟩ m hm
    have hm' := hfirst m hm
    rwa [hlen m (hdrop m hm), hzero m (hdrop m hm)] at hm'
  · intro hfirst
    refine ⟨fun m hm => ?_, ?_⟩
    · rw [hlen m (hdrop m hm), hzero m (hdrop m hm)]
      exact hfirst m hm
    · -- the data of the packet is that of the last segment
      have hdata : packet.data = (mem.mbufs (packet.segs.getLast hne)).data := by
        conv_lhs => rw [data, ← List.dropLast_append_getLast hne]
        rw [List.flatMap_append, List.flatMap_eq_nil_iff.2 hfirst]
        simp
      have hlast := List.getLast_mem hne
      have hfits := packet.fits
      rw [hlen _ hlast, ← BitVec.toNat_inj, toNat_dataLen hlast, ← hdata, BitVec.toNat_setWidth,
        length_data]
      exact (Nat.mod_eq_of_lt (by omega)).symm

/-- A packet is received well exactly if every pbuf can be made, lwIP takes the chain and all data
is in the last segment. -/
theorem received_iff (packet : RecvPacket mem) (allocs : ℕ → Bool) (ret : ℤ) :
    packet.Received (ethDevRecv allocs mem packet) ret ↔ packet.Plain allocs ret := by
  constructor
  · intro h
    obtain ⟨hall, hret⟩ := h.made
    obtain ⟨hhead, hbuilt⟩ := built_all hall
    obtain ⟨l, hl, -, hlaw⟩ := h.chain _ hhead
    have hsegs : l = packet.segs := by
      rw [handed_chain hhead hl, List.takeWhile_eq_self_iff.2 hall]
    exact ⟨hall, hret, (totLenLaw_segs_iff hbuilt).1 (hsegs ▸ hlaw)⟩
  · rintro ⟨hall, hret, hdata⟩
    obtain ⟨hhead, hbuilt⟩ := built_all hall
    constructor
    · intro p hp
      obtain rfl : packet.head = p := Option.some.inj (hhead.symm.trans hp)
      refine ⟨packet.segs, hbuilt.linked, ?_, (totLenLaw_segs_iff hbuilt).2 hdata⟩
      refine List.flatMap_congr fun q hq => ?_
      rw [hbuilt.filled q hq]
      rfl
    · exact fun m hm => .inl ⟨packet.head, packet.segs, hhead, hbuilt.linked, hm, hret⟩

/-- Two mbufs with 2 bytes and with 1 byte. -/
def twoMbufs : SegMem where
  mbufs m := if m = 0 then ⟨[1, 2], 3, 0, some 1⟩ else ⟨[3], 1, 0, none⟩
  pbufs _ := ⟨[], 0, 0, 0, none⟩

/-- The packet that they are. -/
def twoSegments : RecvPacket twoMbufs := ⟨0, [1], by decide, by decide, by decide⟩

/-- The first of two pbufs is not longer than the second one, though it has 2 bytes more. -/
theorem not_received_two_segments :
    ¬ twoSegments.Received (ethDevRecv (fun _ => true) twoMbufs twoSegments) 0 := by
  intro h
  obtain ⟨l, hl, -, hlaw⟩ := h.chain 0 rfl
  have hl' : l = [0, 1] := hl.unique (by decide)
  rw [hl'] at hlaw
  exact absurd hlaw (by decide)

end RecvPacket

end Gazelle
