import Gazelle.Lists.Linked
import Gazelle.Lwip.Pbuf
import Mathlib.Algebra.Group.Nat.Defs

/-!
# The pbufs of the send path

The send path passes pbufs between threads by their addresses, so here they are cells of a heap.
`SendOps` has the functions of lwIP that the send path calls, and `SendOps.Lawful` says what
they do.

* `initMbufs_fresh`: what pbufs from the pool are after `init_mbuf_to_pbuf`;
* `linked_linkPbufs`: the loop that links pbufs makes a chain of them;
* `doAppWrite_spec`: `do_app_write` puts the data into the pbufs, and nothing else changes;
* `bytes_mergeData`: merging appends the data to what the pbuf holds.
-/

namespace Gazelle

/-- `MBUF_MAX_DATA_LEN`. -/
def mbufMaxDataLen : ℕ := 1460

/-- The address of a pbuf. -/
abbrev PbufPtr := ℕ

/-- Who may use a pbuf. -/
inductive PbufPlace
  /-- Nobody: it is in the pool. -/
  | pool
  /-- The send path of the socket. -/
  | gazelle
  /-- lwIP, or some other socket. -/
  | lwip
  deriving DecidableEq

/-- `struct pbuf`. -/
structure SendPbuf where
  /-- The memory from `payload` on. -/
  area : ℕ → Byte
  /-- The number of bytes in use. -/
  len : BitVec 16
  /-- `tot_len`. -/
  totLen : BitVec 16
  /-- The next pbuf of the chain. -/
  next : Option PbufPtr
  /-- The last pbuf of the chain, kept in its first. -/
  last : PbufPtr
  /-- `allow_in == 1`. -/
  allowIn : Bool
  /-- `head == 1`. -/
  head : Bool
  /-- `pbuf_lock` is taken. -/
  locked : Bool
  /-- Who may use it. -/
  place : PbufPlace
  /-- Which initialisation made it; nothing reads this. -/
  born : ℕ

namespace SendPbuf

/-- The payload. -/
def bytes (b : SendPbuf) : List Byte := (List.range b.len.toNat).map b.area

/-- `pbuf->next = o`. -/
def setNext (o : Option PbufPtr) (b : SendPbuf) : SendPbuf := { b with next := o }

end SendPbuf

/-- `memcpy` of the data to an offset of the memory. -/
def copyTo (area : ℕ → Byte) (offset : ℕ) (data : List Byte) : ℕ → Byte := fun i =>
  if offset ≤ i then data.getD (i - offset) (area i) else area i

/-- The functions of lwIP. -/
structure SendOps where
  /-- `pbuf_alloced_custom`: the pbuf made with a length. -/
  pbufAllocedCustom : BitVec 16 → SendPbuf → SendPbuf
  /-- `pbuf_take`: the memory after taking the data. -/
  pbufTake : SendPbuf → List Byte → ℕ → Byte
  /-- `pbuf_take_at`: the memory after taking the data at an offset. -/
  pbufTakeAt : SendPbuf → List Byte → ℕ → ℕ → Byte

/-- What lwIP documents of its functions, for data that fits the pbuf. -/
structure SendOps.Lawful (ops : SendOps) : Prop where
  /-- A custom pbuf is a chain of its own, of the length asked for. -/
  pbufAllocedCustom : ∀ length b, (ops.pbufAllocedCustom length b).len = length ∧
    (ops.pbufAllocedCustom length b).totLen = length ∧
    (ops.pbufAllocedCustom length b).next = none
  /-- The data is copied to the start. -/
  pbufTake : ∀ b data, data.length ≤ b.len.toNat → b.len ≤ b.totLen →
    ops.pbufTake b data = copyTo b.area 0 data
  /-- The data is copied to the offset. -/
  pbufTakeAt : ∀ b data offset, offset < b.len.toNat → offset + data.length ≤ b.len.toNat →
    b.len ≤ b.totLen → ops.pbufTakeAt b data offset = copyTo b.area offset data

/-- The settings of the send path. -/
structure SendCfg where
  /-- `expand_send_ring`. -/
  expandSendRing : Bool
  /-- The functions of lwIP. -/
  ops : SendOps

/-- The pbufs at all addresses. -/
abbrev SendHeap := PbufPtr → SendPbuf

/-- Store a pbuf computed from the old one. -/
def SendHeap.modify (heap : SendHeap) (p : PbufPtr) (f : SendPbuf → SendPbuf) : SendHeap :=
  Function.update heap p (f (heap p))

/-- The bytes of several pbufs. -/
def SendHeap.bytes (heap : SendHeap) (l : List PbufPtr) : List Byte :=
  l.flatMap fun p => (heap p).bytes

/-- `l` is the chain that starts at `o`. -/
def SendHeap.Chain (heap : SendHeap) (o : Option PbufPtr) (l : List PbufPtr) : Prop :=
  Linked (fun p => (heap p).next) o l

variable (cfg : SendCfg)

/-- `init_mbuf_to_pbuf` with the length that the send path passes. -/
def initMbufToPbuf (p : PbufPtr) (born : ℕ) (b : SendPbuf) : SendPbuf :=
  { cfg.ops.pbufAllocedCustom (BitVec.ofNat 16 mbufMaxDataLen) b with
    last := p, allowIn := true, head := false, locked := false, place := .gazelle, born := born }

/-- The loop that initialises the pbufs just allocated. -/
def initMbufs (heap : SendHeap) (born : ℕ) : List PbufPtr → SendHeap
  | [] => heap
  | p :: mbufs => initMbufs (heap.modify p (initMbufToPbuf cfg p born)) (born + 1) mbufs

/-- The loop that links each pbuf to the one after it. -/
def linkPbufs (heap : SendHeap) : List PbufPtr → SendHeap
  | p :: q :: rest => linkPbufs (heap.modify p (.setNext (some q))) (q :: rest)
  | _ => heap

/-- The data taken by one pbuf in `do_app_write`. -/
def takeData (data : List Byte) (b : SendPbuf) : SendPbuf :=
  { b with
    area := if cfg.expandSendRing then cfg.ops.pbufTake b data else copyTo b.area 0 data
    totLen := BitVec.ofNat 16 data.length
    len := BitVec.ofNat 16 data.length }

/-- `do_app_write`: all pbufs but the last take `MBUF_MAX_DATA_LEN` bytes, the last one takes
the rest. -/
def doAppWrite (heap : SendHeap) : List PbufPtr → List Byte → SendHeap × ℕ
  | [], _ => (heap, 0)
  | [p], data =>
    let copyLen := BitVec.ofNat 16 data.length
    (heap.modify p (takeData cfg (data.take copyLen.toNat)), copyLen.toNat)
  | p :: q :: rest, data =>
    let written := doAppWrite (heap.modify p (takeData cfg (data.take mbufMaxDataLen)))
      (q :: rest) (data.drop mbufMaxDataLen)
    (written.1, mbufMaxDataLen + written.2)

/-- The stores of `merge_data_lastpbuf`: the data goes behind what the pbuf holds. -/
def mergeData (data : List Byte) (b : SendPbuf) : SendPbuf :=
  let offset := b.len
  let b := { b with
    totLen := offset + BitVec.ofNat 16 data.length
    len := offset + BitVec.ofNat 16 data.length }
  { b with
    area :=
      if cfg.expandSendRing then cfg.ops.pbufTakeAt b data offset.toNat
      else copyTo b.area offset.toNat data }

/-! ## The heap -/

section Heap

variable {heap heap' : SendHeap} {p q : PbufPtr} {f : SendPbuf → SendPbuf}

@[simp]
theorem SendHeap.modify_self : heap.modify p f p = f (heap p) := Function.update_self ..

theorem SendHeap.modify_of_ne (h : q ≠ p) : heap.modify p f q = heap q :=
  Function.update_of_ne h ..

/-- A field that the new pbuf has kept is kept everywhere. -/
theorem SendHeap.modify_field {β : Type*} (g : SendPbuf → β) (h : g (f (heap p)) = g (heap p)) :
    g (heap.modify p f q) = g (heap q) := by
  by_cases hq : q = p
  · rw [hq, modify_self, h]
  · rw [modify_of_ne hq]

@[simp] theorem SendHeap.bytes_nil : heap.bytes [] = [] := rfl

@[simp]
theorem SendHeap.bytes_cons (l : List PbufPtr) :
    heap.bytes (p :: l) = (heap p).bytes ++ heap.bytes l := rfl

@[simp]
theorem SendHeap.bytes_append (l m : List PbufPtr) :
    heap.bytes (l ++ m) = heap.bytes l ++ heap.bytes m := List.flatMap_append

/-- Only the pbufs in the list matter. -/
theorem SendHeap.bytes_congr {l : List PbufPtr} (h : ∀ p ∈ l, (heap' p).bytes = (heap p).bytes) :
    heap'.bytes l = heap.bytes l := List.flatMap_congr h

end Heap

/-! ## Copying data -/

section Copy

variable {cfg : SendCfg} {b : SendPbuf} {data : List Byte}

/-- What is in front of the offset stays, and behind it comes the data. -/
theorem map_copyTo (area : ℕ → Byte) (offset : ℕ) (data : List Byte) :
    (List.range (offset + data.length)).map (copyTo area offset data) =
      (List.range offset).map area ++ data := by
  apply List.ext_getElem
  · simp
  intro i hi hi'
  simp only [List.length_map, List.length_range] at hi
  rw [List.getElem_map, List.getElem_range, copyTo]
  split
  · rename_i hle
    rw [List.getElem_append_right (by simpa using hle), List.getD_eq_getElem?_getD,
      List.getElem?_eq_getElem (by omega), Option.getD_some]
    simp only [List.length_map, List.length_range]
  · rename_i hlt
    rw [List.getElem_append_left (by simpa using hlt), List.getElem_map, List.getElem_range]

/-- A pbuf just initialised. -/
structure SendPbuf.Fresh (p : PbufPtr) (b : SendPbuf) : Prop where
  /-- It has its full length. -/
  len : b.len = BitVec.ofNat 16 mbufMaxDataLen
  /-- It is a chain of its own. -/
  totLen : b.totLen = BitVec.ofNat 16 mbufMaxDataLen
  /-- It has no next one. -/
  next : b.next = none
  /-- It is its own last one. -/
  last : b.last = p

/-- A pbuf differs from another one in its data at most. -/
structure SendPbuf.SameLinks (b b' : SendPbuf) : Prop where
  /-- The next one. -/
  next : b'.next = b.next
  /-- The last one. -/
  last : b'.last = b.last
  /-- The flag. -/
  allowIn : b'.allowIn = b.allowIn
  /-- The lock. -/
  locked : b'.locked = b.locked
  /-- The owner. -/
  place : b'.place = b.place
  /-- The initialisation. -/
  born : b'.born = b.born

theorem SendPbuf.SameLinks.refl (b : SendPbuf) : b.SameLinks b := ⟨rfl, rfl, rfl, rfl, rfl, rfl⟩

theorem SendPbuf.SameLinks.trans {b b' b'' : SendPbuf} (h : b.SameLinks b')
    (h' : b'.SameLinks b'') : b.SameLinks b'' :=
  ⟨h'.next.trans h.next, h'.last.trans h.last, h'.allowIn.trans h.allowIn,
    h'.locked.trans h.locked, h'.place.trans h.place, h'.born.trans h.born⟩

theorem takeData_sameLinks : b.SameLinks (takeData cfg data b) := ⟨rfl, rfl, rfl, rfl, rfl, rfl⟩

theorem mergeData_sameLinks : b.SameLinks (mergeData cfg data b) := ⟨rfl, rfl, rfl, rfl, rfl, rfl⟩

/-- A pbuf that takes data which fits holds the data. -/
theorem bytes_takeData (hops : cfg.ops.Lawful) (hlen : data.length ≤ b.len.toNat)
    (htot : b.len ≤ b.totLen) : (takeData cfg data b).bytes = data := by
  have hlt := b.len.isLt
  have harea : (takeData cfg data b).area = copyTo b.area 0 data := by
    unfold takeData
    split
    · exact hops.pbufTake b data hlen htot
    · rfl
  have hnat : (takeData cfg data b).len.toNat = 0 + data.length := by
    simp only [takeData, BitVec.toNat_ofNat]
    rw [Nat.mod_eq_of_lt (by omega), Nat.zero_add]
  rw [SendPbuf.bytes, harea, hnat, map_copyTo, List.range_zero, List.map_nil, List.nil_append]

/-- Merging appends the data. -/
theorem bytes_mergeData (hops : cfg.ops.Lawful) (hne : data ≠ [])
    (hlen : b.len.toNat + data.length < 2 ^ 16) :
    (mergeData cfg data b).bytes = b.bytes ++ data := by
  have hpos : 0 < data.length := List.length_pos_iff.2 hne
  have hnat : (mergeData cfg data b).len.toNat = b.len.toNat + data.length := by
    simp only [mergeData, BitVec.toNat_add, BitVec.toNat_ofNat]
    omega
  have harea : (mergeData cfg data b).area = copyTo b.area b.len.toNat data := by
    unfold mergeData at hnat ⊢
    simp only at hnat ⊢
    split
    · exact hops.pbufTakeAt _ data _ (by rw [hnat]; omega) (Nat.le_of_eq hnat.symm)
        (BitVec.le_refl _)
    · rfl
  rw [SendPbuf.bytes, harea, hnat, map_copyTo, SendPbuf.bytes]

end Copy

/-! ## The loops -/

section Loops

variable {cfg : SendCfg} {heap : SendHeap} {born : ℕ} {l : List PbufPtr}

/-- Initialising pbufs leaves the others alone. -/
theorem initMbufs_of_notMem {q : PbufPtr} (hq : q ∉ l) : initMbufs cfg heap born l q = heap q := by
  induction l generalizing heap born with
  | nil => rfl
  | cons p l ih =>
    rw [List.mem_cons, not_or] at hq
    rw [initMbufs, ih hq.2, SendHeap.modify_of_ne hq.1]

/-- The pbufs that are initialised are fresh and belong to the send path. -/
theorem initMbufs_fresh (hops : cfg.ops.Lawful) (hl : l.Nodup) {p : PbufPtr} (hp : p ∈ l) :
    (initMbufs cfg heap born l p).Fresh p ∧ (initMbufs cfg heap born l p).place = .gazelle := by
  induction l generalizing heap born with
  | nil => cases hp
  | cons q l ih =>
    obtain ⟨hq, hl⟩ := List.nodup_cons.1 hl
    rw [initMbufs]
    rcases List.mem_cons.1 hp with rfl | hp
    · rw [initMbufs_of_notMem hq, SendHeap.modify_self]
      obtain ⟨hlen, htot, hnext⟩ :=
        hops.pbufAllocedCustom (BitVec.ofNat 16 mbufMaxDataLen) (heap p)
      exact ⟨⟨hlen, htot, hnext, rfl⟩, rfl⟩
    · exact ih hl hp

/-- Each initialisation has its own number. -/
theorem map_born_initMbufs (hl : l.Nodup) :
    l.map (fun p => (initMbufs cfg heap born l p).born) = List.range' born l.length := by
  induction l generalizing heap born with
  | nil => rfl
  | cons p l ih =>
    obtain ⟨hp, hl⟩ := List.nodup_cons.1 hl
    simp only [List.map_cons, initMbufs, List.length_cons, List.range'_succ]
    rw [ih hl, initMbufs_of_notMem hp, SendHeap.modify_self]
    rfl

/-- Linking changes nothing but links. -/
theorem linkPbufs_field {β : Type*} (g : SendPbuf → β) (hg : ∀ b o, g (.setNext o b) = g b)
    (q : PbufPtr) : g (linkPbufs heap l q) = g (heap q) := by
  fun_induction linkPbufs heap l with
  | case1 heap p q' rest ih => rw [ih, SendHeap.modify_field g (hg _ _)]
  | case2 => rfl

/-- Linking pbufs leaves the others alone. -/
theorem linkPbufs_of_notMem {q : PbufPtr} (hq : q ∉ l) : linkPbufs heap l q = heap q := by
  fun_induction linkPbufs heap l with
  | case1 heap p q' rest ih =>
    rw [List.mem_cons, not_or] at hq
    rw [ih hq.2, SendHeap.modify_of_ne hq.1]
  | case2 => rfl

/-- Pbufs without a next one are a chain when they are linked. -/
theorem chain_linkPbufs (hl : l.Nodup) (hnext : ∀ p ∈ l, (heap p).next = none) :
    (linkPbufs heap l).Chain l.head? l := by
  fun_induction linkPbufs heap l with
  | case1 heap p q rest ih =>
    obtain ⟨hp, hl⟩ := List.nodup_cons.1 hl
    have hrest : ∀ r ∈ q :: rest, (heap.modify p (.setNext (some q)) r).next = none := by
      intro r hr
      have hne : r ≠ p := fun he => hp (he ▸ hr)
      rw [SendHeap.modify_of_ne hne]
      exact hnext r (List.mem_cons_of_mem p hr)
    refine ⟨rfl, ?_⟩
    show (linkPbufs _ (q :: rest)).Chain (linkPbufs _ (q :: rest) p).next (q :: rest)
    rw [linkPbufs_of_notMem hp, SendHeap.modify_self]
    exact ih hl hrest
  | case2 l heap hshort =>
    match l, hshort with
    | [], _ => exact rfl
    | [p], _ => exact ⟨rfl, hnext p List.mem_cons_self⟩
    | p :: q :: rest, hshort => exact (hshort p q rest rfl).elim

/-- So many pbufs of `MBUF_MAX_DATA_LEN` bytes hold the data, the last one being needed. -/
def Fits (n : ℕ) (data : List Byte) : Prop :=
  0 < n ∧ (n - 1) * mbufMaxDataLen ≤ data.length ∧ data.length ≤ n * mbufMaxDataLen

/-- `do_app_write` changes data only. -/
theorem doAppWrite_sameLinks (data : List Byte) (q : PbufPtr) :
    (heap q).SameLinks ((doAppWrite cfg heap l data).1 q) := by
  have hmodify : ∀ (heap : SendHeap) (p : PbufPtr) (d : List Byte),
      (heap q).SameLinks (heap.modify p (takeData cfg d) q) := by
    intro heap p d
    by_cases hq : q = p
    · rw [hq, SendHeap.modify_self]
      exact takeData_sameLinks
    · rw [SendHeap.modify_of_ne hq]
      exact .refl _
  fun_induction doAppWrite cfg heap l data with
  | case1 => exact .refl _
  | case2 => exact hmodify _ _ _
  | case3 heap p q' rest data written ih => exact (hmodify _ _ _).trans ih

/-- `do_app_write` leaves the other pbufs alone. -/
theorem doAppWrite_of_notMem {data : List Byte} {q : PbufPtr} (hq : q ∉ l) :
    (doAppWrite cfg heap l data).1 q = heap q := by
  fun_induction doAppWrite cfg heap l data with
  | case1 => rfl
  | case2 =>
    rw [List.mem_singleton] at hq
    exact SendHeap.modify_of_ne hq
  | case3 heap p q' rest data written ih =>
    rw [List.mem_cons, not_or] at hq
    exact (ih hq.2).trans (SendHeap.modify_of_ne hq.1)

/-- `do_app_write` puts the data into the pbufs and returns its length. -/
theorem doAppWrite_spec (hops : cfg.ops.Lawful) {data : List Byte} (hl : l.Nodup)
    (hlen : ∀ p ∈ l, (heap p).len = BitVec.ofNat 16 mbufMaxDataLen)
    (htot : ∀ p ∈ l, (heap p).totLen = BitVec.ofNat 16 mbufMaxDataLen)
    (hfits : Fits l.length data) :
    (doAppWrite cfg heap l data).1.bytes l = data ∧
      (doAppWrite cfg heap l data).2 = data.length := by
  have hmax : (BitVec.ofNat 16 mbufMaxDataLen).toNat = mbufMaxDataLen := rfl
  fun_induction doAppWrite cfg heap l data with
  | case1 => exact absurd hfits.1 (by simp)
  | case2 heap p data copyLen =>
    -- the last pbuf takes all that is left, whose length does not wrap at 16 bits
    obtain ⟨-, -, hle⟩ := hfits
    have hp := List.mem_singleton_self p
    rw [List.length_singleton, Nat.one_mul] at hle
    have hcopy : copyLen.toNat = data.length := by
      have : mbufMaxDataLen < 2 ^ 16 := by decide
      simp only [copyLen, BitVec.toNat_ofNat]
      exact Nat.mod_eq_of_lt (by omega)
    refine ⟨?_, hcopy⟩
    show (heap.modify p (takeData cfg (data.take copyLen.toNat))).bytes [p] = data
    rw [SendHeap.bytes_cons, SendHeap.bytes_nil, List.append_nil, SendHeap.modify_self, hcopy,
      List.take_length]
    exact bytes_takeData hops (by rw [hlen p hp, hmax]; exact hle)
      (by rw [hlen p hp, htot p hp]; exact BitVec.le_refl _)
  | case3 heap p q rest data written ih =>
    -- a pbuf before the last one takes as much as it can hold
    obtain ⟨-, hge, hle⟩ := hfits
    obtain ⟨hp, hl⟩ := List.nodup_cons.1 hl
    have hpl := List.mem_cons_self (a := p) (l := q :: rest)
    rw [List.length_cons, Nat.add_sub_cancel] at hge
    -- the others are not written by this
    have hmod : ∀ r ∈ q :: rest,
        heap.modify p (takeData cfg (data.take mbufMaxDataLen)) r = heap r := fun r hr =>
      SendHeap.modify_of_ne fun he => hp (he ▸ hr)
    have hone : mbufMaxDataLen ≤ data.length := by
      refine Nat.le_trans ?_ hge
      rw [List.length_cons, Nat.add_mul]
      exact Nat.le_trans (Nat.le_of_eq (Nat.one_mul _).symm) (Nat.le_add_left _ _)
    -- and it is not written by the rest of the loop
    obtain ⟨hbytes, hsum⟩ := ih hl
      (fun r hr => by rw [hmod r hr]; exact hlen r (List.mem_cons_of_mem p hr))
      (fun r hr => by rw [hmod r hr]; exact htot r (List.mem_cons_of_mem p hr))
      ⟨by simp, by
        simp only [List.length_cons, Nat.add_mul, Nat.add_sub_cancel, List.length_drop] at hge hle ⊢
        omega, by
        simp only [List.length_cons, Nat.add_mul, List.length_drop] at hge hle ⊢
        omega⟩
    constructor
    · rw [SendHeap.bytes_cons, hbytes]
      have hq : written.1 p = takeData cfg (data.take mbufMaxDataLen) (heap p) :=
        (doAppWrite_of_notMem hp).trans SendHeap.modify_self
      have htake : (data.take mbufMaxDataLen).length ≤ (heap p).len.toNat := by
        rw [hlen p hpl, hmax]
        exact List.length_take_le _ _
      -- what it took and what the others took are the data
      rw [hq, bytes_takeData hops htake (by rw [hlen p hpl, htot p hpl]; exact BitVec.le_refl _)]
      exact List.take_append_drop _ _
    · show mbufMaxDataLen + written.2 = data.length
      rw [hsum, List.length_drop]
      omega

/-- When the last pbuf is needed, `do_app_write` leaves none empty. -/
theorem doAppWrite_ne_nil (hops : cfg.ops.Lawful) {data : List Byte} (hl : l.Nodup)
    (hlen : ∀ p ∈ l, (heap p).len = BitVec.ofNat 16 mbufMaxDataLen)
    (htot : ∀ p ∈ l, (heap p).totLen = BitVec.ofNat 16 mbufMaxDataLen)
    (hfits : Fits l.length data) (hneeded : (l.length - 1) * mbufMaxDataLen < data.length) :
    ∀ p ∈ l, ((doAppWrite cfg heap l data).1 p).bytes ≠ [] := by
  have hmax : (BitVec.ofNat 16 mbufMaxDataLen).toNat = mbufMaxDataLen := rfl
  fun_induction doAppWrite cfg heap l data with
  | case1 => exact fun p hp => absurd hp List.not_mem_nil
  | case2 heap p data copyLen =>
    -- something is left for the last pbuf
    intro q hq
    obtain rfl := List.mem_singleton.1 hq
    have hbytes := (doAppWrite_spec hops hl hlen htot hfits).1
    rw [SendHeap.bytes_cons, SendHeap.bytes_nil, List.append_nil] at hbytes
    have hpos : 0 < data.length := by
      rw [List.length_singleton, Nat.sub_self, Nat.zero_mul] at hneeded
      exact hneeded
    intro hnil
    have hdata : data = [] := hbytes.symm.trans hnil
    rw [hdata] at hpos
    exact absurd hpos (Nat.lt_irrefl 0)
  | case3 heap p q rest data written ih =>
    obtain ⟨-, hge, hle⟩ := hfits
    obtain ⟨hp, hl⟩ := List.nodup_cons.1 hl
    have hpl := List.mem_cons_self (a := p) (l := q :: rest)
    have hmod : ∀ r ∈ q :: rest,
        heap.modify p (takeData cfg (data.take mbufMaxDataLen)) r = heap r := fun r hr =>
      SendHeap.modify_of_ne fun he => hp (he ▸ hr)
    intro r hr
    rcases List.mem_cons.1 hr with rfl | hr
    · have hq : written.1 r = takeData cfg (data.take mbufMaxDataLen) (heap r) :=
        (doAppWrite_of_notMem hp).trans SendHeap.modify_self
      have htake : (data.take mbufMaxDataLen).length ≤ (heap r).len.toNat := by
        rw [hlen r hpl, hmax]
        exact List.length_take_le _ _
      rw [hq, bytes_takeData hops htake (by rw [hlen r hpl, htot r hpl]; exact BitVec.le_refl _)]
      -- what it takes is not nothing
      have hpos : 0 < data.length := by omega
      have hmaxPos : 0 < mbufMaxDataLen := by decide
      rw [← List.length_pos_iff, List.length_take]
      omega
    · refine ih hl (fun r hr => by rw [hmod r hr]; exact hlen r (List.mem_cons_of_mem p hr))
        (fun r hr => by rw [hmod r hr]; exact htot r (List.mem_cons_of_mem p hr)) ⟨by simp, ?_, ?_⟩
        ?_ r hr
      all_goals
        simp only [List.length_cons, Nat.add_mul, Nat.add_sub_cancel, List.length_drop]
          at hge hle hneeded ⊢
        omega

end Loops

end Gazelle
