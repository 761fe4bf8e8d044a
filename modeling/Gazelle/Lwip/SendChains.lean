import Gazelle.Lwip.SendDatagram
import Mathlib.Data.List.Nodup

/-!
# The chains of the send path

What the send path does to its pbufs as a whole: each belongs to it and is in one place, each was
initialised once, and the data of a call is written into a chain, which is either new or hung behind
the last pbuf of an older one.

* `SendHeap.Owned`: the pbufs of a list are different and belong to the send path;
* `SendHeap.Births`: the initialisations of the pbufs in use and of those committed are different;
* `writeChain_spec`: linking blank pbufs and writing data into them;
* `hangChain`: hanging such a chain behind another one.
-/

namespace Gazelle

/-- The pbufs behind the first one are those of the list. -/
def SendHeap.Chained (heap : SendHeap) (w : PbufPtr × List PbufPtr) : Prop :=
  Linked.Chained (fun p => (heap p).next) w

/-- A pbuf with the same place in a chain, of the same owner. -/
structure SendPbuf.SameSpot (b b' : SendPbuf) : Prop where
  /-- The next one. -/
  next : b'.next = b.next
  /-- The owner. -/
  place : b'.place = b.place
  /-- The initialisation. -/
  born : b'.born = b.born

/-- A pbuf with the same data, too. -/
structure SendPbuf.SameBody (b b' : SendPbuf) : Prop extends b.SameSpot b' where
  /-- The memory. -/
  area : b'.area = b.area
  /-- The length. -/
  len : b'.len = b.len
  /-- The length of the chain. -/
  totLen : b'.totLen = b.totLen

namespace SendPbuf.SameBody

variable {b b' : SendPbuf}

theorem refl (b : SendPbuf) : b.SameBody b := ⟨⟨rfl, rfl, rfl⟩, rfl, rfl, rfl⟩

theorem bytes (h : b.SameBody b') : b'.bytes = b.bytes := by
  rw [SendPbuf.bytes, SendPbuf.bytes, h.len, h.area]

theorem blank (h : b.SameBody b') (hb : b.Blank) : b'.Blank :=
  ⟨h.len.trans hb.len, h.totLen.trans hb.totLen, h.next.trans hb.next⟩

/-- A store that keeps the body keeps it in the whole heap. -/
theorem modify {heap : SendHeap} {p : PbufPtr} {f : SendPbuf → SendPbuf}
    (h : (heap p).SameBody (f (heap p))) (q : PbufPtr) :
    (heap q).SameBody (heap.modify p f q) := by
  by_cases hq : q = p
  · rw [hq, SendHeap.modify_self]
    exact h
  · rw [SendHeap.modify_of_ne hq]
    exact .refl _

end SendPbuf.SameBody

namespace SendHeap

variable {heap heap' : SendHeap} {l m mbufs : List PbufPtr} {p : PbufPtr}

/-- Chains depend on the links of their own pbufs. -/
theorem Chain.congr {o : Option PbufPtr} (h : heap.Chain o l)
    (hsame : ∀ p ∈ l, (heap' p).next = (heap p).next) : heap'.Chain o l := Linked.congr h hsame

theorem Chained.congr {w : PbufPtr × List PbufPtr} (h : heap.Chained w)
    (hsame : ∀ p ∈ w.1 :: w.2, (heap' p).next = (heap p).next) : heap'.Chained w :=
  Linked.Chained.congr h hsame

/-! ## Who has the pbufs -/

/-- The pbufs of the list are different and belong to the send path. -/
structure Owned (heap : SendHeap) (l : List PbufPtr) : Prop where
  /-- They are different. -/
  nodup : l.Nodup
  /-- They belong to the send path. -/
  place : ∀ p ∈ l, (heap p).place = .gazelle

theorem Owned.congr (h : heap.Owned l) (hsame : ∀ p ∈ l, (heap' p).place = (heap p).place) :
    heap'.Owned l := ⟨h.nodup, fun p hp => (hsame p hp).trans (h.place p hp)⟩

theorem Owned.perm (h : heap.Owned l) (hperm : l.Perm m) : heap.Owned m :=
  ⟨hperm.nodup_iff.1 h.nodup, fun p hp => h.place p (hperm.mem_iff.2 hp)⟩

/-- A pbuf of someone else is not in the list. -/
theorem Owned.notMem (h : heap.Owned l) (hp : (heap p).place ≠ .gazelle) : p ∉ l := fun hmem =>
  hp (h.place p hmem)

/-- Pbufs come in. -/
theorem Owned.append (h : heap.Owned l) (hnodup : mbufs.Nodup)
    (hforeign : ∀ p ∈ mbufs, (heap p).place ≠ .gazelle)
    (hold : ∀ p ∈ l, (heap' p).place = (heap p).place)
    (hnew : ∀ p ∈ mbufs, (heap' p).place = .gazelle) : heap'.Owned (l ++ mbufs) := by
  refine ⟨List.nodup_append.2 ⟨h.nodup, hnodup, fun p hp q hq heq => ?_⟩, fun p hp => ?_⟩
  · exact h.notMem (hforeign q hq) (heq ▸ hp)
  · rcases List.mem_append.1 hp with hp | hp
    · exact (hold p hp).trans (h.place p hp)
    · exact hnew p hp

/-- The first pbuf leaves. -/
theorem Owned.tail (h : heap.Owned (p :: l)) (hsame : ∀ q ∈ l, (heap' q).place = (heap q).place) :
    heap'.Owned l :=
  ⟨(List.nodup_cons.1 h.nodup).2,
    fun q hq => (hsame q hq).trans (h.place q (List.mem_cons_of_mem p hq))⟩

/-- The initialisations of the pbufs `l` and those in `done` are different ones of the first
`inits`. -/
structure Births (heap : SendHeap) (inits : ℕ) (done : List ℕ) (l : List PbufPtr) : Prop where
  /-- Those that are done are different. -/
  nodup : done.Nodup
  /-- They were made. -/
  done_lt : ∀ b ∈ done, b < inits
  /-- The others were made. -/
  lt : ∀ p ∈ l, (heap p).born < inits
  /-- They are not done. -/
  notDone : ∀ p ∈ l, (heap p).born ∉ done
  /-- They are different. -/
  inj : ∀ p ∈ l, ∀ q ∈ l, (heap p).born = (heap q).born → p = q

variable {inits : ℕ} {done : List ℕ}

theorem Births.congr (h : heap.Births inits done l) (hsub : ∀ p ∈ m, p ∈ l)
    (hsame : ∀ p ∈ m, (heap' p).born = (heap p).born) : heap'.Births inits done m := by
  refine ⟨h.nodup, h.done_lt, fun p hp => ?_, fun p hp => ?_, fun p hp q hq heq => ?_⟩
  · rw [hsame p hp]
    exact h.lt p (hsub p hp)
  · rw [hsame p hp]
    exact h.notDone p (hsub p hp)
  · rw [hsame p hp, hsame q hq] at heq
    exact h.inj p (hsub p hp) q (hsub q hq) heq

/-- A pbuf is done with. -/
theorem Births.commit (h : heap.Births inits done (p :: l)) (hp : p ∉ l)
    (hsame : ∀ q ∈ l, (heap' q).born = (heap q).born) :
    heap'.Births inits (done ++ [(heap p).born]) l := by
  have hmem : ∀ q ∈ l, q ∈ p :: l := fun q hq => List.mem_cons_of_mem p hq
  refine ⟨List.nodup_append.2 ⟨h.nodup, List.nodup_singleton _, fun b hb b' hb' heq => ?_⟩,
    fun b hb => ?_, fun q hq => ?_, fun q hq hin => ?_, fun q hq r hr heq => ?_⟩
  · rw [List.mem_singleton.1 hb'] at heq
    exact h.notDone p List.mem_cons_self (heq ▸ hb)
  · rcases List.mem_append.1 hb with hb | hb
    · exact h.done_lt b hb
    · rw [List.mem_singleton.1 hb]
      exact h.lt p List.mem_cons_self
  · rw [hsame q hq]
    exact h.lt q (hmem q hq)
  · rw [hsame q hq] at hin
    rcases List.mem_append.1 hin with hin | hin
    · exact h.notDone q (hmem q hq) hin
    · have heq := h.inj q (hmem q hq) p List.mem_cons_self (List.mem_singleton.1 hin)
      exact hp (heq ▸ hq)
  · rw [hsame q hq, hsame r hr] at heq
    exact h.inj q (hmem q hq) r (hmem r hr) heq

/-- Pbufs are initialised. -/
theorem Births.init (h : heap.Births inits done l) (hm : ∀ p ∈ m, p ∈ l ∨ p ∈ mbufs)
    (hold : ∀ p ∈ l, (heap' p).born = (heap p).born)
    (hnew : mbufs.map (fun p => (heap' p).born) = List.range' inits mbufs.length) :
    heap'.Births (inits + mbufs.length) done m := by
  have hnew' : ∀ p ∈ mbufs, inits ≤ (heap' p).born ∧ (heap' p).born < inits + mbufs.length := by
    intro p hp
    have hmem : (heap' p).born ∈ List.range' inits mbufs.length :=
      hnew ▸ List.mem_map_of_mem (f := fun p => (heap' p).born) hp
    simpa [List.mem_range'_1] using hmem
  have hinj : ∀ p ∈ mbufs, ∀ q ∈ mbufs, (heap' p).born = (heap' q).born → p = q := by
    have hborn : (mbufs.map fun p => (heap' p).born).Nodup := hnew ▸ List.nodup_range'
    exact fun p hp q hq heq => List.inj_on_of_nodup_map hborn hp hq heq
  refine ⟨h.nodup, fun b hb => Nat.lt_add_right _ (h.done_lt b hb), fun p hp => ?_,
    fun p hp hin => ?_, fun p hp q hq heq => ?_⟩
  · rcases hm p hp with hp | hp
    · rw [hold p hp]
      exact Nat.lt_add_right _ (h.lt p hp)
    · exact (hnew' p hp).2
  · rcases hm p hp with hp | hp
    · rw [hold p hp] at hin
      exact h.notDone p hp hin
    · exact absurd (h.done_lt _ hin) (Nat.not_lt.2 (hnew' p hp).1)
  · rcases hm p hp with hp | hp <;> rcases hm q hq with hq | hq
    · rw [hold p hp, hold q hq] at heq
      exact h.inj p hp q hq heq
    · rw [hold p hp] at heq
      exact absurd (heq ▸ h.lt p hp) (Nat.not_lt.2 (hnew' q hq).1)
    · rw [hold q hq] at heq
      exact absurd (heq ▸ h.lt q hq) (Nat.not_lt.2 (hnew' p hp).1)
    · exact hinj p hp q hq heq

end SendHeap

/-! ## Writing into chains -/

section Write

variable {cfg : SendCfg} {heap : SendHeap} {l : List PbufPtr} {data : List Byte}

/-- Linking blank pbufs and writing data into them makes a chain of them that holds the data; the
other pbufs do not change, and of these not what the links and the data do not concern. -/
theorem writeChain_spec (hops : cfg.ops.Lawful) (hl : l.Nodup)
    (hblank : ∀ p ∈ l, (heap p).Blank) (hfits : Fits l.length data) :
    (doAppWrite cfg (linkPbufs heap l) l data).1.Chain l.head? l ∧
      (doAppWrite cfg (linkPbufs heap l) l data).1.bytes l = data ∧
      (doAppWrite cfg (linkPbufs heap l) l data).2 = data.length ∧
      (∀ q, q ∉ l → (doAppWrite cfg (linkPbufs heap l) l data).1 q = heap q) ∧
      ∀ q, ((doAppWrite cfg (linkPbufs heap l) l data).1 q).last = (heap q).last ∧
        ((doAppWrite cfg (linkPbufs heap l) l data).1 q).allowIn = (heap q).allowIn ∧
        ((doAppWrite cfg (linkPbufs heap l) l data).1 q).locked = (heap q).locked ∧
        ((doAppWrite cfg (linkPbufs heap l) l data).1 q).place = (heap q).place ∧
        ((doAppWrite cfg (linkPbufs heap l) l data).1 q).born = (heap q).born := by
  have hlinks : ∀ q, (linkPbufs heap l q).SameLinks
      ((doAppWrite cfg (linkPbufs heap l) l data).1 q) := fun q => doAppWrite_sameLinks data q
  have hlen : ∀ p ∈ l, (linkPbufs heap l p).len = BitVec.ofNat 16 mbufMaxDataLen := fun p hp =>
    (linkPbufs_field (·.len) (fun _ _ => rfl) p).trans (hblank p hp).len
  have htot : ∀ p ∈ l, (linkPbufs heap l p).totLen = BitVec.ofNat 16 mbufMaxDataLen := fun p hp =>
    (linkPbufs_field (·.totLen) (fun _ _ => rfl) p).trans (hblank p hp).totLen
  have hspec := doAppWrite_spec hops hl hlen htot hfits
  refine ⟨?_, hspec.1, hspec.2, fun q hq => ?_, fun q => ⟨?_, ?_, ?_, ?_, ?_⟩⟩
  · exact (chain_linkPbufs hl fun p hp => (hblank p hp).next).congr fun p _ => (hlinks p).next
  · rw [doAppWrite_of_notMem hq, linkPbufs_of_notMem hq]
  · exact (hlinks q).last.trans (linkPbufs_field (·.last) (fun _ _ => rfl) q)
  · exact (hlinks q).allowIn.trans (linkPbufs_field (·.allowIn) (fun _ _ => rfl) q)
  · exact (hlinks q).locked.trans (linkPbufs_field (·.locked) (fun _ _ => rfl) q)
  · exact (hlinks q).place.trans (linkPbufs_field (·.place) (fun _ _ => rfl) q)
  · exact (hlinks q).born.trans (linkPbufs_field (·.born) (fun _ _ => rfl) q)

/-- Hang the chain `mbufs` behind the chain of `p`, whose last pbuf is `z`. -/
def hangChain (heap : SendHeap) (p z : PbufPtr) (mbufs : List PbufPtr) : SendHeap :=
  (heap.modify z (.setNext mbufs.head?)).modify p fun b => { b with last := mbufs.getLastD p }

variable {p z : PbufPtr} {t mbufs : List PbufPtr}

/-- A field that is neither a link nor the last pbuf is kept. -/
theorem hangChain_field {β : Type*} (g : SendPbuf → β) (hnext : ∀ b o, g (.setNext o b) = g b)
    (hlast : ∀ (b : SendPbuf) x, g { b with last := x } = g b) (q : PbufPtr) :
    g (hangChain heap p z mbufs q) = g (heap q) := by
  rw [hangChain, SendHeap.modify_field g (hlast _ _), SendHeap.modify_field g (hnext _ _)]

/-- The links of the other pbufs are kept. -/
theorem next_hangChain {q : PbufPtr} (hq : q ≠ z) :
    (hangChain heap p z mbufs q).next = (heap q).next := by
  rw [hangChain, SendHeap.modify_field (·.next) rfl, SendHeap.modify_of_ne hq]

/-- The last pbufs of the other chains are kept. -/
theorem last_hangChain {q : PbufPtr} (hq : q ≠ p) :
    (hangChain heap p z mbufs q).last = (heap q).last := by
  rw [hangChain, SendHeap.modify_of_ne hq, SendHeap.modify_field (·.last) rfl]

/-- The two chains are one. -/
theorem chained_hangChain (hchain : heap.Chained (p, t)) (hz : (p :: t).getLast? = some z)
    (hnodup : (p :: t).Nodup) (hmbufs : heap.Chain mbufs.head? mbufs) (hzmem : z ∉ mbufs) :
    (hangChain heap p z mbufs).Chained (p, t ++ mbufs) := by
  obtain ⟨l, hl⟩ := List.getLast?_eq_some_iff.1 hz
  have hlinked : Linked (fun p => (heap p).next) (some p) (l ++ [z]) := hl ▸ ⟨rfl, hchain⟩
  rw [hl] at hnodup
  have hzl : z ∉ l := fun hmem => by
    exact (List.nodup_append.1 hnodup).2.2 z hmem z (List.mem_singleton_self z) rfl
  have hznext : (hangChain heap p z mbufs z).next = mbufs.head? := by
    rw [hangChain, SendHeap.modify_field (·.next) rfl, SendHeap.modify_self]
    rfl
  have happend := hlinked.append hzl
    (fun q hq => next_hangChain hq) (m := mbufs) (by
      show Linked _ (hangChain heap p z mbufs z).next mbufs
      rw [hznext]
      exact Linked.congr hmbufs fun q hq => next_hangChain fun heq => hzmem (heq ▸ hq))
  rw [List.append_cons, ← hl, List.cons_append] at happend
  exact happend.2

end Write

end Gazelle
