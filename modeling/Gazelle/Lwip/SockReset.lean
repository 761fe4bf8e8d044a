import Gazelle.Lwip.SendChains
import Gazelle.Lwip.SockData
import Mathlib.Data.List.Perm.Subperm

/-!
# Each pbuf of a socket is released once

`SockInv` says where the pbufs of a socket are: behind the entries of its two rings, behind
`send_lastdata`, and behind `send_pre_del`. Each of them has one reference, and no pbuf is in two
places. `recv_lastdata` points into the chain of an entry that is read and not confirmed.

* `Released`: what freeing does to the pbufs, and to no others;
* `SockInv.step`: each function keeps the invariant;
* `reset_frees_once`: closing a socket frees each of its pbufs once exactly when no chain is partly
  read.
-/

namespace Gazelle

open Linked

/-! ## Ownership -/

/-- The pbufs of the list are those that the socket owns, each with one reference. -/
structure Owned (pbufNum : ℕ) (m : PbufMem) (l : List PbufPtr) : Prop where
  /-- No pbuf is in two places. -/
  nodup : l.Nodup
  /-- These are all. -/
  place : ∀ p, p ∈ l ↔ (m.heap p).place = .gazelle
  /-- Each has one reference. -/
  ref : ∀ p ∈ l, m.ref p = 1
  /-- They exist. -/
  lt : ∀ p ∈ l, p < pbufNum

/-- The pbufs `l` are freed, and nothing happens to the others. -/
structure Released (l : List PbufPtr) (m m' : PbufMem) : Prop where
  /-- A reference to each of them is dropped. -/
  dropped : m'.dropped = m.dropped ++ l
  /-- They are in the pool. -/
  pool : ∀ p ∈ l, m'.ref p = 0 ∧ (m'.heap p).place = .pool
  /-- The others stay. -/
  kept : ∀ p ∉ l, m'.ref p = m.ref p ∧ m'.heap p = m.heap p

section Freeing

variable {pbufNum : ℕ} {m m' m'' : PbufMem} {l l' rest : List PbufPtr}

/-- The order does not matter. -/
theorem Owned.of_perm (h : Owned pbufNum m l) (hperm : l.Perm l') : Owned pbufNum m l' where
  nodup := hperm.nodup_iff.1 h.nodup
  place p := hperm.symm.mem_iff.trans (h.place p)
  ref p hp := h.ref p (hperm.symm.subset hp)
  lt p hp := h.lt p (hperm.symm.subset hp)

/-- Only the owners and the counts matter. -/
theorem Owned.congr (h : Owned pbufNum m l) (hplace : ∀ p, (m'.heap p).place = (m.heap p).place)
    (href : ∀ p ∈ l, m'.ref p = m.ref p) : Owned pbufNum m' l where
  nodup := h.nodup
  place p := by rw [hplace, h.place]
  ref p hp := by rw [href p hp, h.ref p hp]
  lt := h.lt

/-- There are no more than the pbufs there are. -/
theorem Owned.length_le (h : Owned pbufNum m (l ++ rest)) : l.length ≤ pbufNum := by
  have hsub : ∀ p ∈ l, p ∈ List.range pbufNum := fun p hp =>
    List.mem_range.2 (h.lt p (List.mem_append_left rest hp))
  have hlen := (List.subperm_of_subset (List.nodup_append.1 h.nodup).1 hsub).length_le
  rwa [List.length_range] at hlen

/-- Nothing is freed. -/
theorem Released.refl (m : PbufMem) : Released [] m m :=
  ⟨(List.append_nil _).symm, nofun, fun _ _ => ⟨rfl, rfl⟩⟩

/-- One after another. -/
theorem Released.trans (h : Released l m m') (h' : Released l' m' m'') :
    Released (l ++ l') m m'' where
  dropped := by rw [h'.dropped, h.dropped, List.append_assoc]
  pool p hp := by
    by_cases hp' : p ∈ l'
    · exact h'.pool p hp'
    · rw [(h'.kept p hp').1, (h'.kept p hp').2]
      exact h.pool p ((List.mem_append.1 hp).resolve_right hp')
  kept p hp := by
    rw [List.mem_append, not_or] at hp
    rw [(h'.kept p hp.2).1, (h'.kept p hp.2).2]
    exact h.kept p hp.1

/-- The other pbufs of the socket stay its own. -/
theorem Owned.release (h : Owned pbufNum m (l ++ rest)) (hr : Released l m m') :
    Owned pbufNum m' rest := by
  obtain ⟨-, hnodup, hdisj⟩ := List.nodup_append.1 h.nodup
  have hout : ∀ p ∈ rest, p ∉ l := fun p hp hl => hdisj p hl p hp rfl
  refine ⟨hnodup, fun p => ⟨fun hp => ?_, fun hp => ?_⟩, fun p hp => ?_, fun p hp =>
    h.lt p (List.mem_append_right l hp)⟩
  · rw [(hr.kept p (hout p hp)).2]
    exact (h.place p).1 (List.mem_append_right l hp)
  · have hl : p ∉ l := by
      intro hl
      rw [(hr.pool p hl).2] at hp
      cases hp
    rw [(hr.kept p hl).2, ← h.place, List.mem_append] at hp
    exact hp.resolve_left hl
  · rw [(hr.kept p (hout p hp)).1]
    exact h.ref p (List.mem_append_right l hp)

/-- A chain of pbufs that stay keeps its links. -/
theorem Released.linked (hr : Released l m m') {o : Option PbufPtr} {c : List PbufPtr}
    (h : Linked (fun p => (m.heap p).next) o c) (hout : ∀ p ∈ c, p ∉ l) :
    Linked (fun p => (m'.heap p).next) o c :=
  h.congr fun p hp => by rw [(hr.kept p (hout p hp)).2]

/-- `pbuf_free` frees a chain of pbufs with one reference. -/
theorem released_pbufFree {o : Option PbufPtr} (hlink : Linked (fun p => (m.heap p).next) o l)
    (hnodup : l.Nodup) (href : ∀ p ∈ l, m.ref p = 1) (hlen : l.length ≤ pbufNum) :
    Released l m (pbufFree pbufNum m o) := by
  induction l generalizing m o pbufNum with
  | nil =>
    obtain rfl : o = none := hlink
    have hnone : pbufFree pbufNum m none = m := by cases pbufNum <;> rfl
    rw [hnone]
    exact .refl m
  | cons p l ih =>
    obtain ⟨rfl, hlink⟩ := hlink
    obtain ⟨hp, hnodup⟩ := List.nodup_cons.1 hnodup
    obtain ⟨n, rfl⟩ : ∃ n, pbufNum = n + 1 := ⟨pbufNum - 1, by simp at hlen; omega⟩
    -- its one reference is dropped, so the head is freed and the loop goes on
    have hzero : m.ref p - 1 = 0 := by rw [href p List.mem_cons_self]; rfl
    rw [pbufFree, if_pos hzero, hzero]
    dsimp only
    generalize hone : ({ m with
      heap := m.heap.modify p ({ · with place := .pool })
      ref := Function.update m.ref p 0
      dropped := m.dropped ++ [p] } : PbufMem) = one
    have hfirst : Released [p] m one := by
      subst hone
      -- the head is the only pbuf that this round writes
      refine ⟨rfl, fun q hq => ?_, fun q hq => ?_⟩
      · obtain rfl := List.mem_singleton.1 hq
        refine ⟨Function.update_self .., ?_⟩
        dsimp only
        rw [SendHeap.modify_self]
      · rw [List.mem_singleton] at hq
        refine ⟨Function.update_of_ne hq .., ?_⟩
        dsimp only
        rw [SendHeap.modify_of_ne hq]
    -- the rest of the chain is not touched by that
    have hout : ∀ q ∈ l, q ∉ [p] := fun q hq hqp => hp (List.mem_singleton.1 hqp ▸ hq)
    refine hfirst.trans (ih (hfirst.linked hlink hout) hnodup (fun q hq => ?_) ?_)
    · rw [(hfirst.kept q (hout q hq)).1]
      exact href q (List.mem_cons_of_mem p hq)
    · simpa using hlen

/-- `pbuf_free` frees a chain that the socket owns. -/
theorem Owned.pbufFree {o : Option PbufPtr} (h : Owned pbufNum m (l ++ rest))
    (hlink : Linked (fun p => (m.heap p).next) o l) : Released l m (pbufFree pbufNum m o) :=
  released_pbufFree hlink (List.nodup_append.1 h.nodup).1
    (fun p hp => h.ref p (List.mem_append_left rest hp)) h.length_le

/-- The pbufs of one list are not in the other. -/
theorem Owned.notMem (h : Owned pbufNum m (l ++ rest)) {p : PbufPtr} (hp : p ∈ rest) : p ∉ l :=
  fun hl => (List.nodup_append.1 h.nodup).2.2 p hl p hp rfl

variable {cfg : SockCfg} {cs : List (PbufPtr × List PbufPtr)}

/-- Freeing the entries of an array frees their chains. -/
theorem Owned.freeAll (h : Owned cfg.pbufNum m (cells cs ++ rest))
    (hchained : ∀ c ∈ cs, Chained (fun p => (m.heap p).next) c) :
    Released (cells cs) m (m.freeAll cfg (cs.map Prod.fst)) := by
  induction cs generalizing m with
  | nil => exact .refl m
  | cons c cs ih =>
    rw [cells_cons, List.append_assoc] at h
    have hfirst := h.pbufFree (hchained c List.mem_cons_self).linked
    refine hfirst.trans (ih (h.release hfirst) fun d hd => ?_)
    refine (hchained d (List.mem_cons_of_mem c hd)).congr fun p hp => ?_
    rw [(hfirst.kept p (h.notMem (List.mem_append_left rest (mem_cells_of_mem hd hp)))).2]

/-- `free_list_pbuf` frees the pbufs of the list. -/
theorem Owned.freeListPbuf {rounds : ℕ} {o : Option PbufPtr}
    (h : Owned cfg.pbufNum m (l ++ rest)) (hlink : Linked (fun p => (m.heap p).next) o l)
    (hrounds : l.length ≤ rounds) : Released l m (m.freeListPbuf cfg rounds o) := by
  induction l generalizing m o rounds with
  | nil =>
    obtain rfl : o = none := hlink
    have hnone : m.freeListPbuf cfg rounds none = m := by cases rounds <;> rfl
    rw [hnone]
    exact .refl m
  | cons p l ih =>
    obtain ⟨rfl, hlink⟩ := hlink
    obtain ⟨n, rfl⟩ : ∃ n, rounds = n + 1 := ⟨rounds - 1, by simp at hrounds; omega⟩
    rw [PbufMem.freeListPbuf]
    generalize hcut : ({ m with heap := m.heap.modify p (.setNext none) } : PbufMem) = cut
    have hnext : (cut.heap p).next = none := by
      subst hcut
      dsimp only
      rw [SendHeap.modify_self]
      rfl
    have hown : Owned cfg.pbufNum cut ([p] ++ (l ++ rest)) := by
      subst hcut
      exact h.congr (fun q => SendHeap.modify_field SendPbuf.place rfl) fun q _ => rfl
    have hfree : Released [p] cut (Gazelle.pbufFree cfg.pbufNum cut (some p)) :=
      hown.pbufFree ⟨rfl, hnext⟩
    have hfirst : Released [p] m (Gazelle.pbufFree cfg.pbufNum cut (some p)) := by
      refine ⟨by rw [hfree.dropped, ← hcut], hfree.pool, fun q hq => ?_⟩
      rw [(hfree.kept q hq).1, (hfree.kept q hq).2, ← hcut]
      rw [List.mem_singleton] at hq
      exact ⟨rfl, SendHeap.modify_of_ne hq⟩
    have hout : ∀ q ∈ l, q ∉ [p] := fun q hq => hown.notMem (List.mem_append_left rest hq)
    exact hfirst.trans (ih (hown.release hfree) (hfirst.linked hlink hout) (by simpa using hrounds))

/-! ## The rings -/

/-- Each round takes something. -/
theorem recvRingSize_pos : 0 < recvRingSize.toNat := by decide

variable {k : ℕ} {r : RteRing PbufPtr} {confirmed handed fresh : List PbufPtr}

/-- The first loop of `free_ring_pbuf` confirms everything. -/
theorem holds_readAll (hk : k ≤ 31) {rounds : ℕ} (h : r.Holds k confirmed handed fresh)
    (hrounds : fresh.length < rounds) :
    (PbufMem.readAll rounds r).Holds k (confirmed ++ handed ++ fresh) [] [] := by
  induction rounds generalizing r confirmed handed fresh with
  | zero => exact absurd hrounds (Nat.not_lt_zero _)
  | succ rounds ih =>
    have hover := (h.read hk recvRingSize).2.readOver
    have hcount := hover.readable_toNat hk
    rw [PbufMem.readAll]
    have hsplit := List.take_append_drop recvRingSize.toNat fresh
    split
    · next hnone =>
      rw [RteRing.gazelleRingReadableCount] at hnone
      rw [hnone] at hcount
      have hdrop : fresh.drop recvRingSize.toNat = [] := List.eq_nil_of_length_eq_zero hcount.symm
      rw [hdrop, List.append_nil] at hsplit
      rwa [hdrop, hsplit, ← List.append_assoc] at hover
    · next hsome =>
      have hpos : (fresh.drop recvRingSize.toNat).length ≠ 0 := by
        intro hzero
        rw [hzero] at hcount
        exact hsome (BitVec.eq_of_toNat_eq hcount)
      have hall := ih hover (by have := recvRingSize_pos; rw [List.length_drop] at hpos ⊢; omega)
      simpa only [List.append_assoc, List.nil_append, hsplit] using hall

/-- The second loop of `free_ring_pbuf` frees everything confirmed. -/
theorem Owned.dequeueAll (hk : k ≤ 31) {rounds : ℕ} (h : Owned cfg.pbufNum m (cells cs ++ rest))
    (hring : r.Holds k (cs.map Prod.fst) [] [])
    (hchained : ∀ c ∈ cs, Chained (fun p => (m.heap p).next) c) (hrounds : cs.length < rounds) :
    Released (cells cs) m (m.dequeueAll cfg rounds r) := by
  induction rounds generalizing r m cs with
  | zero => exact absurd hrounds (Nat.not_lt_zero _)
  | succ rounds ih =>
    obtain ⟨hgot, hleft⟩ := hring.scDequeue hk recvRingSize
    have hcount := hleft.readover_toNat hk
    rw [← List.map_drop, List.length_map] at hcount
    have hsplit := List.take_append_drop recvRingSize.toNat cs
    rw [PbufMem.dequeueAll]
    rw [hgot, ← List.map_take]
    rw [← hsplit, cells_append, List.append_assoc] at h
    -- this round frees the chains that it took, one after the other
    have hfree := h.freeAll fun c hc => hchained c (List.mem_of_mem_take hc)
    split
    · next hnone =>
      rw [RteRing.gazelleRingReadoverCount] at hnone
      rw [hnone] at hcount
      -- nothing is left in the ring, so this was everything
      have hdrop : cs.drop recvRingSize.toNat = [] := List.eq_nil_of_length_eq_zero hcount.symm
      rw [hdrop, List.append_nil] at hsplit
      rwa [hsplit] at hfree ⊢
    · next hsome =>
      -- the ring has more, and each round takes at least one of them
      have hpos : (cs.drop recvRingSize.toNat).length ≠ 0 := by
        intro hzero
        rw [hzero] at hcount
        exact hsome (BitVec.eq_of_toNat_eq hcount)
      rw [← List.map_drop] at hleft
      have hrest := ih (h.release hfree) hleft (fun c hc => ?_)
        (by have := recvRingSize_pos; rw [List.length_drop] at hpos ⊢; omega)
      · have hboth := hfree.trans hrest
        rwa [← cells_append, hsplit] at hboth
      · -- the chains that are left are disjoint from those that were freed
        refine (hchained c (List.mem_of_mem_drop hc)).congr fun p hp => ?_
        rw [(hfree.kept p (h.notMem (List.mem_append_left rest (mem_cells_of_mem hc hp)))).2]

/-- `free_ring_pbuf` frees the chains of the entries of the ring. -/
theorem Owned.freeRingPbuf (hk : k ≤ 31) (h : Owned cfg.pbufNum m (cells cs ++ rest))
    (hring : r.Holds k confirmed handed fresh)
    (hcs : confirmed ++ handed ++ fresh = cs.map Prod.fst)
    (hchained : ∀ c ∈ cs, Chained (fun p => (m.heap p).next) c) :
    Released (cells cs) m (m.freeRingPbuf cfg r) := by
  have hread : (PbufMem.readAll (r.gazelleRingReadableCount.toNat + 1) r).Holds k
      (confirmed ++ handed ++ fresh) [] [] := holds_readAll hk hring
    (by rw [RteRing.gazelleRingReadableCount, hring.readable_toNat hk]; omega)
  rw [hcs] at hread
  refine h.dequeueAll hk hread hchained ?_
  rw [RteRing.gazelleRingReadoverCount, hread.readover_toNat hk, List.length_map]
  omega

end Freeing

/-! ## Where the pbufs are -/

/-- The pbufs of a socket. -/
structure SockParts where
  /-- The chains that are read and confirmed. -/
  recvOver : List (PbufPtr × List PbufPtr)
  /-- The chains that are read and not confirmed. -/
  recvRead : List (PbufPtr × List PbufPtr)
  /-- The chains not read. -/
  recvFresh : List (PbufPtr × List PbufPtr)
  /-- The chains that are written. -/
  sendOver : List (PbufPtr × List PbufPtr)
  /-- The pbufs not written to. -/
  sendIdle : List PbufPtr
  /-- Those behind `send_lastdata`. -/
  lastdata : List PbufPtr
  /-- Those behind `send_pre_del`. -/
  preDel : List PbufPtr

/-- The chains in the two rings. -/
def SockParts.chains (v : SockParts) : List (PbufPtr × List PbufPtr) :=
  v.recvOver ++ v.recvRead ++ v.recvFresh ++ v.sendOver

/-- All pbufs. -/
def SockParts.all (v : SockParts) : List PbufPtr :=
  cells v.chains ++ v.sendIdle ++ v.lastdata ++ v.preDel

/-- What is in a ring, if there is one. -/
def RingHas (k : ℕ) : Option (RteRing PbufPtr) → List PbufPtr → List PbufPtr → List PbufPtr → Prop
  | some r, confirmed, handed, fresh => r.Holds k confirmed handed fresh
  | none, confirmed, handed, fresh => confirmed = [] ∧ handed = [] ∧ fresh = []

/-- The links of the pbufs in the rings. -/
structure Shaped (heap : SendHeap) (v : SockParts) : Prop where
  /-- Each entry of a ring is the head of its chain. -/
  chained : ∀ c ∈ v.chains, Chained (fun p => (heap p).next) c
  /-- A chain to be sent knows its last pbuf. -/
  last : ∀ c ∈ v.sendOver, (heap c.1).last = (c.1 :: c.2).getLast (List.cons_ne_nil _ _)
  /-- Pbufs not written to are chains of their own. -/
  idle : ∀ p ∈ v.sendIdle, (heap p).next = none ∧ (heap p).last = p

/-- The pbufs of a socket are behind its pointers. -/
structure Laid (cfg : SockCfg) (s : SockData) (v : SockParts) : Prop where
  /-- The entries of `recv_ring`. -/
  recvRing : RingHas sockRecvRingBits s.recvRing (v.recvOver.map Prod.fst)
    (v.recvRead.map Prod.fst) (v.recvFresh.map Prod.fst)
  /-- The entries of `send_ring`. -/
  sendRing : RingHas cfg.sendRingBits s.sendRing (v.sendOver.map Prod.fst) [] v.sendIdle
  /-- Their chains. -/
  shaped : Shaped s.mem.heap v
  /-- What is behind `send_lastdata`. -/
  lastdata : Linked (fun p => (s.mem.heap p).next) s.sendLastdata v.lastdata
  /-- What is behind `send_pre_del`. -/
  preDel : Linked (fun p => (s.mem.heap p).next) s.sendPreDel v.preDel
  /-- Only one of the two has more than one pbuf. -/
  lone : v.lastdata ≠ [] → v.preDel.length ≤ 1
  /-- `recv_lastdata` points into a chain that is read and not confirmed. -/
  recvLastdata : ∀ p, s.recvLastdata = some p → p ∈ cells v.recvRead
  /-- The pbuf that was returned is cut off. -/
  returned : ∀ p, s.returned = some p → v.preDel = [p]

/-- The invariant of the data of a socket, with the places of its pbufs. -/
structure SockInv (cfg : SockCfg) (s : SockData) (v : SockParts) : Prop extends Laid cfg s v where
  /-- These are all its pbufs. -/
  owned : Owned cfg.pbufNum s.mem v.all

/-! ## Closing -/

section Closing

variable {cfg : SockCfg} {s : SockData} {v : SockParts}

/-- A ring, if there is one, is freed with the chains of its entries. -/
theorem RingHas.freeRing {k : ℕ} (hk : k ≤ 31) {ring : Option (RteRing PbufPtr)} {m : PbufMem}
    {cs : List (PbufPtr × List PbufPtr)} {rest confirmed handed fresh : List PbufPtr}
    (hring : RingHas k ring confirmed handed fresh) (h : Owned cfg.pbufNum m (cells cs ++ rest))
    (hcs : confirmed ++ handed ++ fresh = cs.map Prod.fst)
    (hchained : ∀ c ∈ cs, Chained (fun p => (m.heap p).next) c) :
    Released (cells cs) m (m.freeRing cfg ring) := by
  cases ring with
  | some r =>
    have hfree := h.freeRingPbuf hk hring hcs hchained
    rwa [PbufMem.freeRing]
  | none =>
    obtain ⟨rfl, rfl, rfl⟩ := hring
    obtain rfl : cs = [] := List.map_eq_nil_iff.1 hcs.symm
    exact .refl m

/-- What `reset_sock_data` does before it comes to `recv_lastdata`. -/
theorem SockInv.released (h : SockInv cfg s v) :
    ∃ m, Released v.all s.mem m ∧
      (s.resetSockData cfg).mem = pbufFree cfg.pbufNum m s.recvLastdata := by
  have hbits := cfg.sendRingBits_le
  -- the chains in `recv_ring`, and those in `send_ring` with the pbufs not written to
  let recv := v.recvOver ++ v.recvRead ++ v.recvFresh
  let send := v.sendOver ++ v.sendIdle.map fun p => (p, [])
  have hcells : v.all = cells recv ++ (cells send ++ (v.lastdata ++ v.preDel)) := by
    simp only [SockParts.all, SockParts.chains, recv, send, cells_append, cells_map_single,
      List.append_assoc]
  have howned := h.owned
  rw [hcells] at howned ⊢
  have hchained : ∀ c ∈ send, Chained (fun p => (s.mem.heap p).next) c := by
    intro c hc
    rcases List.mem_append.1 hc with hc | hc
    · exact h.shaped.chained c (List.mem_append_right _ hc)
    · obtain ⟨p, hp, rfl⟩ := List.mem_map.1 hc
      exact (h.shaped.idle p hp).1
  have hrecv := h.recvRing.freeRing (by decide) howned (by simp only [recv, List.map_append])
    fun c hc => h.shaped.chained c (List.mem_append_left _ hc)
  have howned₁ := howned.release hrecv
  have hout : ∀ p ∈ cells send ++ (v.lastdata ++ v.preDel), p ∉ cells recv := fun p hp =>
    howned.notMem hp
  have hidle : (v.sendIdle.map fun p => ((p, []) : PbufPtr × List PbufPtr)).map Prod.fst =
      v.sendIdle := by
    rw [List.map_map]
    exact List.map_id _
  have hsend := h.sendRing.freeRing (by omega) howned₁
    (by simp only [send, List.append_nil, List.map_append, hidle])
    fun c hc => (hchained c hc).congr fun p hp => by
      rw [(hrecv.kept p (hout p (List.mem_append_left _ (mem_cells_of_mem hc hp)))).2]
  have howned₂ := howned₁.release hsend
  have hrings := hrecv.trans hsend
  rw [← List.append_assoc] at howned ⊢
  have hlast := howned₂.freeListPbuf
    (hrings.linked h.lastdata fun p hp => howned.notMem (List.mem_append_left _ hp))
    howned₂.length_le
  have howned₃ := howned₂.release hlast
  have hlists := hrings.trans hlast
  rw [← List.append_assoc] at howned ⊢
  rw [← List.append_nil v.preDel] at howned₃
  have hpre := howned₃.pbufFree (hlists.linked h.preDel fun p hp => howned.notMem hp)
  exact ⟨_, hlists.trans hpre, rfl⟩

/-- Nothing that is freed depends on what was freed before. -/
theorem SockInv.forget (h : SockInv cfg s v) :
    SockInv cfg { s with mem.dropped := [] } v :=
  { h with owned := h.owned.congr (fun _ => rfl) fun _ _ => rfl }

/-- A socket without a chain that is partly read is closed as it should. -/
theorem SockInv.freesOnce (h : SockInv cfg s v) (hnone : s.recvLastdata = none) :
    s.FreesOnce cfg := by
  obtain ⟨m, hreleased, hmem⟩ := h.released
  obtain ⟨m', hreleased', hmem'⟩ := h.forget.released
  have hfree : ∀ m, pbufFree cfg.pbufNum m s.recvLastdata = m := by
    intro m
    rw [hnone]
    cases cfg.pbufNum <;> rfl
  have hdrops : s.resetDrops cfg = v.all := by
    rw [SockData.resetDrops, hmem', hfree, hreleased'.dropped]
    exact List.nil_append _
  refine ⟨?_, ?_, ?_⟩
  · rw [hdrops]
    exact h.owned.nodup
  · rw [hdrops]
    exact h.owned.place
  · rw [hdrops, hmem, hfree]
    exact fun p hp => (hreleased.pool p hp).2

/-- A pbuf of a chain that is partly read is freed twice. -/
theorem SockInv.not_freesOnce (h : SockInv cfg s v) {p : PbufPtr} (hp : s.recvLastdata = some p) :
    ¬ s.FreesOnce cfg := by
  obtain ⟨m, hreleased, hmem⟩ := h.forget.released
  have hall : p ∈ v.all := by
    simp only [SockParts.all, SockParts.chains, cells_append, List.mem_append]
    exact Or.inl (Or.inl (Or.inl (Or.inl (Or.inl (Or.inr (h.recvLastdata p hp))))))
  obtain ⟨n, hn⟩ := Nat.exists_eq_add_one.2 (Nat.zero_lt_of_lt (h.owned.lt p hall))
  -- the pbuf has no reference any more when `recv_lastdata` is freed
  have hdrops : s.resetDrops cfg = v.all ++ [p] := by
    rw [SockData.resetDrops, hmem, hp, hn, pbufFree, (hreleased.pool p hall).1, if_neg (by decide)]
    dsimp only
    rw [hreleased.dropped]
    rfl
  intro hfrees
  have hnodup := hfrees.nodup
  rw [hdrops] at hnodup
  exact (List.nodup_append.1 hnodup).2.2 p hall p (List.mem_singleton.2 rfl) rfl

end Closing

/-! ## What changes the pbufs -/

section Changes

variable {cfg : SockCfg} {s : SockData} {v : SockParts} {m' : PbufMem} {l new : List PbufPtr}

/-- Pbufs of others become pbufs of the socket. -/
theorem Owned.grow {pbufNum : ℕ} {m : PbufMem} (h : Owned pbufNum m l) (hnodup : new.Nodup)
    (hnew : ∀ p ∈ new, (m.heap p).place ≠ .gazelle ∧ p < pbufNum)
    (hm : ∀ p ∈ new, (m'.heap p).place = .gazelle ∧ m'.ref p = 1)
    (hold : ∀ p ∉ new, (m'.heap p).place = (m.heap p).place ∧ m'.ref p = m.ref p) :
    Owned pbufNum m' (l ++ new) := by
  have hout : ∀ p ∈ l, p ∉ new := fun p hp hpn => (hnew p hpn).1 ((h.place p).1 hp)
  refine ⟨List.nodup_append.2 ⟨h.nodup, hnodup, fun p hp q hq he => hout p hp (he ▸ hq)⟩,
    fun p => ?_, fun p hp => ?_, fun p hp => ?_⟩
  · by_cases hp : p ∈ new
    · simp only [List.mem_append, hp, or_true, (hm p hp).1]
    · rw [(hold p hp).1, List.mem_append, ← h.place]
      simp only [hp, or_false]
  · by_cases hpn : p ∈ new
    · exact (hm p hpn).2
    · rw [(hold p hpn).2]
      exact h.ref p ((List.mem_append.1 hp).resolve_right hpn)
  · rcases List.mem_append.1 hp with hp | hp
    · exact h.lt p hp
    · exact (hnew p hp).2

/-- Pbufs of the pool are initialised for the socket. -/
theorem Owned.initPbufs (hcfg : cfg.Lawful) {m : PbufMem} (h : Owned cfg.pbufNum m l) {n : ℕ}
    (hpool : m.PoolOk cfg n new) : Owned cfg.pbufNum (m.initPbufs cfg new) (l ++ new) := by
  obtain ⟨⟨-, hnodup, hplace⟩, hlt⟩ := hpool
  refine h.grow hnodup (fun p hp => ⟨by rw [hplace p hp]; decide, hlt p hp⟩)
    (fun p hp => ⟨(initMbufs_fresh hcfg.ops hnodup hp).2, if_pos hp⟩) fun p hp => ⟨?_, if_neg hp⟩
  show (initMbufs cfg.toSendCfg m.heap 0 new p).place = _
  rw [initMbufs_of_notMem hp]

/-- The pbufs of the socket are not those of the pool. -/
theorem Owned.notMem_pool {m : PbufMem} (h : Owned cfg.pbufNum m l) {n : ℕ}
    (hpool : m.PoolOk cfg n new) {p : PbufPtr} (hp : p ∈ l) : p ∉ new := by
  intro hnew
  have hplace := (h.place p).1 hp
  rw [hpool.1.2.2 p hnew] at hplace
  cases hplace

/-- The pbufs of a chain are among all. -/
theorem SockParts.mem_all_of_chains {c : PbufPtr × List PbufPtr} (hc : c ∈ v.chains) {p : PbufPtr}
    (hp : p ∈ c.1 :: c.2) : p ∈ v.all :=
  List.mem_append_left _ (List.mem_append_left _ (List.mem_append_left _ (mem_cells_of_mem hc hp)))

/-- The links of the pbufs of the socket matter, and no others. -/
theorem Laid.congr (h : Laid cfg s v) (m' : PbufMem)
    (hsame : ∀ p ∈ v.all, (m'.heap p).next = (s.mem.heap p).next ∧
      (m'.heap p).last = (s.mem.heap p).last) : Laid cfg { s with mem := m' } v :=
  { h with
    recvRing := h.recvRing
    shaped :=
      { chained := fun c hc => (h.shaped.chained c hc).congr fun p hp =>
          (hsame p (SockParts.mem_all_of_chains hc hp)).1
        last := fun c hc => by
          rw [(hsame c.1 (SockParts.mem_all_of_chains (List.mem_append_right _ hc)
            List.mem_cons_self)).2]
          exact h.shaped.last c hc
        idle := fun p hp => by
          have hall : p ∈ v.all :=
            List.mem_append_left _ (List.mem_append_left _ (List.mem_append_right _ hp))
          rw [(hsame p hall).1, (hsame p hall).2]
          exact h.shaped.idle p hp }
    lastdata := h.lastdata.congr fun p hp =>
      (hsame p (List.mem_append_left _ (List.mem_append_right _ hp))).1
    preDel := h.preDel.congr fun p hp => (hsame p (List.mem_append_right _ hp)).1 }

/-- The pbufs that the socket owns stay where they are. -/
theorem SockInv.congr (h : SockInv cfg s v) (m' : PbufMem) (hown : Owned cfg.pbufNum m' v.all)
    (hsame : ∀ p ∈ v.all, (m'.heap p).next = (s.mem.heap p).next ∧
      (m'.heap p).last = (s.mem.heap p).last) : SockInv cfg { s with mem := m' } v :=
  ⟨h.toLaid.congr m' hsame, hown⟩

/-- Writing data keeps the invariant. -/
theorem SockInv.sameLinks (h : SockInv cfg s v) {heap : SendHeap}
    (hlinks : ∀ p, (s.mem.heap p).SameLinks (heap p)) :
    SockInv cfg { s with mem.heap := heap } v :=
  h.congr _ (h.owned.congr (fun p => (hlinks p).place) fun _ _ => rfl)
    fun p _ => ⟨(hlinks p).next, (hlinks p).last⟩

/-- Storing a pbuf with the same links. -/
theorem SendHeap.modify_sameLinks {heap : SendHeap} {f : SendPbuf → SendPbuf} {p : PbufPtr}
    (hf : (heap p).SameLinks (f (heap p))) (q : PbufPtr) :
    (heap q).SameLinks (heap.modify p f q) := by
  by_cases hq : q = p
  · rw [hq, SendHeap.modify_self]
    exact hf
  · rw [SendHeap.modify_of_ne hq]
    exact .refl _

/-- What others do to their pbufs does not matter. -/
theorem SockInv.others (h : SockInv cfg s v) {p : PbufPtr} {f : SendPbuf → SendPbuf}
    {ref : PbufPtr → ℤ} (hp : (s.mem.heap p).place ≠ .gazelle)
    (hf : (f (s.mem.heap p)).place ≠ .gazelle) (href : ∀ q ≠ p, ref q = s.mem.ref q) :
    SockInv cfg { s with mem := { s.mem with heap := s.mem.heap.modify p f, ref } } v := by
  have hne : ∀ q ∈ v.all, q ≠ p := fun q hq he => hp (he ▸ (h.owned.place q).1 hq)
  refine h.congr _ ⟨h.owned.nodup, fun q => ?_, fun q hq => ?_, h.owned.lt⟩ fun q hq => ?_
  · rw [h.owned.place]
    dsimp only
    by_cases hq : q = p
    · rw [hq, SendHeap.modify_self]
      exact iff_of_false hp hf
    · rw [SendHeap.modify_of_ne hq]
  · exact (href q (hne q hq)).trans (h.owned.ref q hq)
  · dsimp only
    rw [SendHeap.modify_of_ne (hne q hq)]
    exact ⟨rfl, rfl⟩

end Changes

/-! ## Receiving -/

section Receiving

variable {cfg : SockCfg} {s s' : SockData} {v : SockParts} {r : RteRing PbufPtr}

/-- The socket with its `recv_ring` in a local variable. -/
abbrev SockData.withRecv (s : SockData) (r : RteRing PbufPtr) : SockData :=
  { s with recvRing := some r }

/-- That is the socket. -/
theorem SockData.withRecv_eq (hr : s.recvRing = some r) : s.withRecv r = s := by
  rw [SockData.withRecv, ← hr]

/-- `free_recv_ring_readover` frees chains that are confirmed. -/
theorem SockInv.freeReadover (h : SockInv cfg (s.withRecv r) v) :
    SockInv cfg
      { s with
        mem := s.mem.freeAll cfg (r.gazelleRingScDequeue recvRingSize).1
        recvRing := some (r.gazelleRingScDequeue recvRingSize).2 }
      { v with recvOver := v.recvOver.drop recvRingSize.toNat } := by
  obtain ⟨hgot, hleft⟩ := RteRing.Holds.scDequeue (by decide) h.recvRing recvRingSize
  rw [← List.map_take] at hgot
  rw [← List.map_drop] at hleft
  -- the chains that are freed, and all others
  have hsplit := List.take_append_drop recvRingSize.toNat v.recvOver
  have hlaid : Laid cfg (s.withRecv (r.gazelleRingScDequeue recvRingSize).2)
      { v with recvOver := v.recvOver.drop recvRingSize.toNat } :=
    { h with
      recvRing := hleft
      shaped := { h.shaped with
        chained := fun c hc => h.shaped.chained c (by
          simp only [SockParts.chains, List.mem_append] at hc ⊢
          exact hc.imp_left (Or.imp_left (Or.imp_left List.mem_of_mem_drop))) } }
  have hall : v.all = cells (v.recvOver.take recvRingSize.toNat) ++
      { v with recvOver := v.recvOver.drop recvRingSize.toNat }.all := by
    simp only [SockParts.all, SockParts.chains, cells_append]
    nth_rewrite 1 [← hsplit]
    simp only [cells_append, List.append_assoc]
  generalize ({ v with recvOver := v.recvOver.drop recvRingSize.toNat } : SockParts) = w
    at hlaid hall ⊢
  have howned := h.owned
  rw [hall] at howned
  have hfree : Released (cells (v.recvOver.take recvRingSize.toNat)) s.mem
      (s.mem.freeAll cfg (r.gazelleRingScDequeue recvRingSize).1) := by
    rw [hgot]
    refine howned.freeAll fun c hc => h.shaped.chained c ?_
    simp only [SockParts.chains, List.mem_append]
    exact Or.inl (Or.inl (Or.inl (List.mem_of_mem_take hc)))
  exact ⟨hlaid.congr _ fun p hp => by rw [(hfree.kept p (howned.notMem hp)).2]; exact ⟨rfl, rfl⟩,
    howned.release hfree⟩

/-- Chains that lwIP hands over are put behind those not read. -/
theorem SockInv.enqueue (h : SockInv cfg (s.withRecv r) v)
    {chains : List (PbufPtr × List PbufPtr)} (hhanded : s.mem.Handed cfg chains)
    (hlen : chains.length ≤ r.gazelleRingFreeCount.toNat) :
    SockInv cfg
      { s with
        mem := PbufMem.freeAll cfg { s.mem with heap := s.mem.heap.claim (cells chains) }
          ((chains.map Prod.fst).drop (r.gazelleRingSpEnqueue (chains.map Prod.fst)).1.toNat)
        recvRing := some (r.gazelleRingSpEnqueue (chains.map Prod.fst)).2 }
      { v with recvFresh := v.recvFresh ++ chains } := by
  -- lwIP hands over chains of its own, which the socket does not have yet
  obtain ⟨hnodup, hchained, hown⟩ := hhanded
  -- all of them fit, so `freeAll` frees nothing
  obtain ⟨hnum, hput⟩ := RteRing.Holds.spEnqueue (by decide) h.recvRing
    (show (chains.map Prod.fst).length ≤ r.gazelleRingFreeCount.toNat by rwa [List.length_map])
  rw [hnum, List.drop_length]
  rw [← List.map_append] at hput
  -- claiming writes the place of a pbuf and none of its links
  have hclaim : ∀ p, (s.mem.heap.claim (cells chains) p).next = (s.mem.heap p).next ∧
      (s.mem.heap.claim (cells chains) p).last = (s.mem.heap p).last := by
    intro p
    unfold SendHeap.claim
    split_ifs <;> exact ⟨rfl, rfl⟩
  -- the socket has them now as well
  have hgrown : Owned cfg.pbufNum { s.mem with heap := s.mem.heap.claim (cells chains) }
      (v.all ++ cells chains) := by
    refine h.owned.grow hnodup (fun p hp => ?_) (fun p hp => ?_) fun p hp => ?_
    · refine ⟨?_, (hown p hp).2.2⟩
      show (s.mem.heap p).place ≠ _
      rw [(hown p hp).1]
      decide
    · refine ⟨?_, (hown p hp).2.1⟩
      simp only [SendHeap.claim, if_pos hp]
    · simp only [SendHeap.claim, if_neg hp, and_self]
  refine ⟨?_, hgrown.of_perm (List.perm_iff_count.2 fun p => ?_)⟩
  · have hlaid := h.toLaid.congr { s.mem with heap := s.mem.heap.claim (cells chains) }
      fun p _ => hclaim p
    refine { hlaid with
      recvRing := hput
      shaped := { hlaid.shaped with chained := fun c hc => ?_ } }
    simp only [SockParts.chains, List.mem_append] at hc
    -- a chain is one of the new ones or was there before
    by_cases hcn : c ∈ chains
    · exact (hchained c hcn).congr fun p _ => (hclaim p).1
    · refine hlaid.shaped.chained c ?_
      simp only [SockParts.chains, List.mem_append]
      exact hc.imp_left (Or.imp_right fun hf => hf.resolve_right hcn)
  · -- the same pbufs in another order
    simp only [SockParts.all, SockParts.chains, cells_append, List.count_append]
    omega

/-- `read_lwip_data`. -/
theorem SockInv.readLwipData (h : SockInv cfg s v) {chains : List (PbufPtr × List PbufPtr)}
    {err : Bool} (hs : s.readLwipData cfg chains err = some s') : ∃ w, SockInv cfg s' w := by
  unfold SockData.readLwipData at hs
  split at hs
  · cases hs
  next r hr =>
  rw [← SockData.withRecv_eq hr] at h
  have hover := h.freeReadover
  dsimp only at hs
  split at hs
  · obtain rfl := Option.some.inj hs
    exact ⟨_, hover⟩
  split at hs
  · next hhanded =>
    split at hs
    · obtain rfl := Option.some.inj hs
      exact ⟨_, hover⟩
    · obtain rfl := Option.some.inj hs
      exact ⟨_, SockInv.enqueue
        (s := { s with mem := s.mem.freeAll cfg (r.gazelleRingScDequeue recvRingSize).1 })
        hover hhanded.1 hhanded.2⟩
  · cases hs

/-- The pbufs of a linked list lead to each other. -/
theorem next_mem_of_linked {next : PbufPtr → Option PbufPtr} {o : Option PbufPtr}
    {l : List PbufPtr} (h : Linked next o l) {p q : PbufPtr} (hp : p ∈ l) (hq : next p = some q) :
    q ∈ l := by
  induction l generalizing o with
  | nil => cases hp
  | cons x l ih =>
    rcases List.mem_cons.1 hp with rfl | hp
    · have hlink := h.2
      rw [hq] at hlink
      obtain ⟨m, rfl, -⟩ := hlink.eq_cons
      exact List.mem_cons_of_mem _ List.mem_cons_self
    · exact List.mem_cons_of_mem x (ih h.2 hp)

/-- The loop of `pbuf_free_partial` stays in the chain and changes data only. -/
theorem freePartialLoop_spec (hcfg : cfg.Lawful) {heap : SendHeap} {l : List PbufPtr}
    (hl : ∀ p ∈ l, ∀ q, (heap p).next = some q → q ∈ l) (n : ℕ) (o : Option PbufPtr)
    (freeLen : BitVec 16) (ho : ∀ p, o = some p → p ∈ l) :
    (∀ p, (heap p).SameLinks ((PbufMem.freePartialLoop cfg n heap o freeLen).1 p)) ∧
      ∀ p, (PbufMem.freePartialLoop cfg n heap o freeLen).2 = some p → p ∈ l := by
  induction n generalizing o freeLen with
  | zero => exact ⟨fun p => .refl _, ho⟩
  | succ n ih =>
    cases o with
    | none => exact ⟨fun p => .refl _, ho⟩
    | some p =>
      rw [PbufMem.freePartialLoop]
      split_ifs
      · exact ⟨fun p => .refl _, ho⟩
      · exact ih _ _ (hl p (ho p rfl))
      · refine ⟨fun q => ?_, ho⟩
        exact SendHeap.modify_sameLinks (f := (cfg.pbufRemoveHeader · freeLen))
          (hcfg.pbufRemoveHeader _ _) q

/-- `pbuf_free_partial` stays in the chain and changes data only. -/
theorem pbufFreePartial_spec (hcfg : cfg.Lawful) {m : PbufMem} {l : List PbufPtr}
    (hl : ∀ p ∈ l, ∀ q, (m.heap p).next = some q → q ∈ l) {p : PbufPtr} (hp : p ∈ l)
    (freeLen : BitVec 16) :
    ∃ heap left, m.pbufFreePartial cfg p freeLen = ({ m with heap }, left) ∧
      (∀ q, (m.heap q).SameLinks (heap q)) ∧ ∀ q, left = some q → q ∈ l := by
  obtain ⟨hsame, hleft⟩ := freePartialLoop_spec hcfg hl cfg.pbufNum (some p) freeLen
    fun q hq => Option.some.inj hq ▸ hp
  refine ⟨_, _, rfl, fun q => ?_, hleft⟩
  generalize PbufMem.freePartialLoop cfg cfg.pbufNum m.heap (some p) freeLen = left at hsame
  obtain ⟨heap, left⟩ := left
  cases left with
  | some _ => exact (hsame q).trans (SendHeap.modify_sameLinks ⟨rfl, rfl, rfl, rfl, rfl, rfl⟩ q)
  | none => exact hsame q

/-- The pbufs of several chains lead to each other. -/
theorem next_mem_of_chained {next : PbufPtr → Option PbufPtr} {cs : List (PbufPtr × List PbufPtr)}
    (h : ∀ c ∈ cs, Chained next c) : ∀ p ∈ cells cs, ∀ q, next p = some q → q ∈ cells cs := by
  intro p hp q hq
  obtain ⟨c, hc, hpc⟩ := List.mem_flatMap.1 hp
  exact mem_cells_of_mem hc (next_mem_of_linked (h c hc).linked hpc hq)

/-- `read_stack_data` finds the pbuf to copy from: it is in a chain that is read. -/
theorem SockInv.nextPbuf (h : SockInv cfg (s.withRecv r) v) {p : PbufPtr} {r' : RteRing PbufPtr}
    (hnext : s.nextPbuf r = some (p, r')) :
    ∃ w, SockInv cfg { s.withRecv r' with recvLastdata := none } w ∧ p ∈ cells w.recvRead := by
  unfold SockData.nextPbuf at hnext
  split at hnext
  · next q hq =>
    obtain ⟨rfl, rfl⟩ := Prod.mk.inj (Option.some.inj hnext)
    exact ⟨v, ⟨{ h.toLaid with recvLastdata := nofun }, h.owned⟩, h.recvLastdata q hq⟩
  · obtain ⟨q, hq, hpair⟩ := Option.map_eq_some_iff.1 hnext
    obtain ⟨rfl, rfl⟩ := Prod.mk.inj hpair
    obtain ⟨hgot, hread⟩ := RteRing.Holds.read (by decide) h.recvRing 1
    rw [hgot, ← List.map_take] at hq
    rw [← List.map_take, ← List.map_drop, ← List.map_append] at hread
    have hsplit := List.take_append_drop (1 : U32).toNat v.recvFresh
    refine ⟨{ v with
      recvRead := v.recvRead ++ v.recvFresh.take (1 : U32).toNat
      recvFresh := v.recvFresh.drop (1 : U32).toNat }, ⟨?_, ?_⟩, ?_⟩
    · refine { h.toLaid with
        recvRing := hread
        recvLastdata := nofun
        shaped := { h.shaped with chained := fun c hc => ?_ } }
      refine h.shaped.chained c ?_
      rw [SockParts.chains, ← hsplit]
      simpa only [SockParts.chains, List.append_assoc] using hc
    · refine h.owned.of_perm (List.Perm.of_eq ?_)
      rw [SockParts.all, SockParts.chains, ← hsplit]
      simp only [SockParts.all, SockParts.chains, List.append_assoc, hsplit]
    · obtain ⟨c, hc, rfl⟩ := List.mem_map.1 (List.mem_of_mem_head? hq)
      exact mem_cells_of_mem (List.mem_append_right _ hc) List.mem_cons_self

/-- The loop of `read_stack_data`. -/
theorem SockInv.readLoop (hcfg : cfg.Lawful) {rounds : ℕ} {recvLeft : BitVec 64}
    (h : SockInv cfg (s.withRecv r) v) :
    ∃ w, SockInv cfg (SockData.readLoop cfg rounds recvLeft r s) w := by
  induction rounds generalizing recvLeft r s v with
  | zero => exact ⟨v, h⟩
  | succ rounds ih =>
    rw [SockData.readLoop]
    split
    · exact ⟨v, h⟩
    split
    · exact ⟨v, h⟩
    next p r' hnext =>
    obtain ⟨w, hread, hp⟩ := h.nextPbuf hnext
    dsimp only
    split
    · -- a read of a part leaves the rest of the chain in `recv_lastdata`
      have hl := next_mem_of_chained fun c hc => hread.shaped.chained c
        (List.mem_append_left _ (List.mem_append_left _ (List.mem_append_right _ hc)))
      obtain ⟨heap, left, hpart, hsame, hleft⟩ := pbufFreePartial_spec (m := s.mem) hcfg hl hp
        ((copyLen recvLeft (s.mem.heap p).totLen).setWidth 16)
      have hkept := hread.sameLinks hsame
      rw [hpart]
      exact ⟨w, ⟨{ hkept.toLaid with recvLastdata := hleft }, hkept.owned⟩⟩
    · -- a read of the whole chain confirms its place in the ring
      have hover : SockInv cfg (SockData.withRecv { s with recvLastdata := none }
          r'.gazelleRingReadOver)
          { w with recvOver := w.recvOver ++ w.recvRead, recvRead := [] } := by
        have hconfirm := RteRing.Holds.readOver hread.recvRing
        rw [← List.map_append] at hconfirm
        refine ⟨{ hread.toLaid with
          recvRing := hconfirm, recvLastdata := nofun
          shaped := { hread.shaped with chained := fun c hc => hread.shaped.chained c ?_ } }, ?_⟩
        · simpa only [SockParts.chains, List.append_assoc, List.nil_append] using hc
        · simpa only [SockParts.all, SockParts.chains, List.append_assoc, List.nil_append]
            using hread.owned
      exact ih hover

/-- `read_stack_data`. -/
theorem SockInv.readStackData (hcfg : cfg.Lawful) (h : SockInv cfg s v) {len : BitVec 64}
    (hs : s.readStackData cfg len = some s') : ∃ w, SockInv cfg s' w := by
  obtain ⟨r, hr, rfl⟩ := Option.map_eq_some_iff.1 hs
  rw [← SockData.withRecv_eq hr] at h
  exact h.readLoop hcfg

end Receiving

/-! ## The stack takes what is sent -/

section Taking

variable {cfg : SockCfg} {s s' : SockData} {v : SockParts} {r : RteRing PbufPtr} {p : PbufPtr}

/-- The socket with its `send_ring` in a local variable. -/
abbrev SockData.withSend (s : SockData) (r : RteRing PbufPtr) : SockData :=
  { s with sendRing := some r }

/-- That is the socket. -/
theorem SockData.withSend_eq (hr : s.sendRing = some r) : s.withSend r = s := by
  rw [SockData.withSend, ← hr]

/-- `write_lwip_over`. -/
theorem SockInv.writeLwipOver (h : SockInv cfg s v) (hs : s.writeLwipOver = some s') :
    ∃ w, SockInv cfg s' w := by
  obtain ⟨p, hp, rfl⟩ := Option.map_eq_some_iff.1 hs
  have hpre := h.returned p hp
  have howned := h.owned
  rw [SockParts.all, hpre] at howned
  have hnodup := List.nodup_append.1 howned.nodup
  -- the pbuf that goes to the stack is none of those that stay
  have hne : ∀ q ∈ { v with preDel := [] }.all, q ≠ p := by
    intro q hq he
    simp only [SockParts.all, SockParts.chains, List.append_nil] at hq
    exact hnodup.2.2 q hq p (List.mem_singleton.2 rfl) he
  have hcut : Laid cfg { s with sendPreDel := none, returned := none } { v with preDel := [] } :=
    { h.toLaid with
      shaped := ⟨h.shaped.chained, h.shaped.last, h.shaped.idle⟩
      preDel := rfl, lone := fun _ => Nat.zero_le _, returned := nofun }
  -- only its `place` is written
  have hmod : ∀ q ≠ p, s.mem.heap.modify p ({ · with place := .lwip }) q = s.mem.heap q :=
    fun q hq => SendHeap.modify_of_ne hq
  refine ⟨_, hcut.congr _ fun q hq => ?_,
    hnodup.1.sublist (by simp [SockParts.all, SockParts.chains]),
    fun q => ?_, fun q hq => h.owned.ref q ?_, fun q hq => h.owned.lt q ?_⟩
  · dsimp only
    rw [hmod q (hne q hq)]
    exact ⟨rfl, rfl⟩
  · dsimp only
    by_cases hq : q = p
    · -- it is with lwIP now, and no longer with the socket
      rw [hq, SendHeap.modify_self]
      exact iff_of_false (fun hmem => hne p hmem rfl) (by simp)
    · rw [hmod q hq, ← howned.place, List.mem_append]
      simp [SockParts.all, SockParts.chains, hq]
  all_goals
    rw [SockParts.all, hpre]
    rw [SockParts.all, List.append_nil] at hq
    exact List.mem_append_left _ hq

/-- The first pbuf behind `send_pre_del` is cut off and returned; the others are behind
`send_lastdata` then. -/
theorem SockInv.cutFirst (h : SockInv cfg s v) {tail : List PbufPtr}
    (hpre : v.preDel = p :: tail) (hlast : v.lastdata = []) {f : SendPbuf → SendPbuf}
    (hnext : ∀ b, (f b).next = none) (hkeep : ∀ b, (f b).place = b.place) :
    SockInv cfg
      { s with
        mem.heap := s.mem.heap.modify p f
        sendPreDel := some p
        sendLastdata := (s.mem.heap p).next
        returned := some p }
      { v with preDel := [p], lastdata := tail } := by
  have hnodup := h.owned.nodup
  rw [SockParts.all, hpre, hlast, List.append_nil] at hnodup
  obtain ⟨-, hchain, hdisj⟩ := List.nodup_append.1 hnodup
  have htail := (List.nodup_cons.1 hchain).1
  have hlink := h.preDel
  rw [hpre] at hlink
  have hmod : ∀ q ≠ p, s.mem.heap.modify p f q = s.mem.heap q :=
    fun q hq => SendHeap.modify_of_ne hq
  -- what is in the rings stays as it is
  have hrings : Laid cfg { s with sendPreDel := none, sendLastdata := none, returned := none }
      { v with preDel := [], lastdata := [] } :=
    { h.toLaid with
      shaped := ⟨h.shaped.chained, h.shaped.last, h.shaped.idle⟩
      preDel := rfl, lastdata := rfl, lone := fun _ => Nat.zero_le _, returned := nofun }
  have hkept := hrings.congr { s.mem with heap := s.mem.heap.modify p f } fun q hq => by
    have hne : q ≠ p := by
      rintro rfl
      simp only [SockParts.all, SockParts.chains, List.append_nil] at hq
      exact hdisj q hq q List.mem_cons_self rfl
    dsimp only
    rw [hmod q hne]
    exact ⟨rfl, rfl⟩
  have hplace : ∀ q, (s.mem.heap.modify p f q).place = (s.mem.heap q).place := fun q =>
    SendHeap.modify_field SendPbuf.place (hkeep _)
  refine ⟨{ hkept with
    shaped := ⟨hkept.shaped.chained, hkept.shaped.last, hkept.shaped.idle⟩
    preDel := ⟨rfl, ?_⟩
    lastdata := hlink.2.congr fun q hq => ?_
    lone := fun _ => Nat.le_refl _
    returned := fun q hq => by rw [Option.some.inj hq] }, ?_⟩
  · dsimp only
    rw [hmod q fun he => htail (he ▸ hq)]
  · show (s.mem.heap.modify p f p).next = none
    rw [SendHeap.modify_self, hnext]
  · have howned : Owned cfg.pbufNum { s.mem with heap := s.mem.heap.modify p f } v.all :=
      h.owned.congr hplace fun _ _ => rfl
    refine howned.of_perm (List.perm_iff_count.2 fun q => ?_)
    simp only [SockParts.all, SockParts.chains, hpre, hlast, List.count_append, List.count_cons,
      List.count_nil]
    omega

/-- `write_lwip_data` with the pbuf in `send_pre_del`. -/
theorem SockInv.writePreDel (h : SockInv cfg s v) (hp : s.sendPreDel = some p)
    (remainSize : BitVec 16) : ∃ w, SockInv cfg (s.writePreDel p remainSize) w := by
  have hlink := h.preDel
  rw [hp] at hlink
  obtain ⟨tail, hpre, htail⟩ := hlink.eq_cons
  unfold SockData.writePreDel
  dsimp only
  split
  · exact ⟨v, ⟨{ h.toLaid with returned := nofun }, h.owned⟩⟩
  split
  · next hsome =>
    -- the pbuf has others behind it, so `send_lastdata` was `NULL`
    have hne : tail ≠ [] := by
      rintro rfl
      have hnone : (s.mem.heap p).next = none := htail
      rw [hnone] at hsome
      cases hsome
    have hlast : v.lastdata = [] := by
      by_contra hlast
      have hlone := h.lone hlast
      rw [hpre, List.length_cons] at hlone
      exact hne (List.eq_nil_of_length_eq_zero (by omega))
    have hcut := h.cutFirst hpre hlast (f := ({ · with allowIn := false, next := none }))
      (fun _ => rfl) fun _ => rfl
    rw [hp]
    exact ⟨_, hcut⟩
  · next hnone =>
    have hnone := Option.not_isSome_iff_eq_none.1 hnone
    obtain rfl : tail = [] := by
      rw [hnone] at htail
      exact htail.eq_nil
    have hkeep : ∀ q,
        (s.mem.heap.modify p ({ · with allowIn := false, next := none }) q).next =
            (s.mem.heap q).next ∧
          (s.mem.heap.modify p ({ · with allowIn := false, next := none }) q).last =
            (s.mem.heap q).last := fun q =>
      ⟨SendHeap.modify_field SendPbuf.next hnone.symm, SendHeap.modify_field SendPbuf.last rfl⟩
    have hcut := h.congr { s.mem with
        heap := s.mem.heap.modify p ({ · with allowIn := false, next := none }) }
      (h.owned.congr (fun q => SendHeap.modify_field SendPbuf.place rfl) fun _ _ => rfl)
      fun q _ => hkeep q
    exact ⟨v, ⟨{ hcut.toLaid with returned := fun q hq => by rw [hpre, Option.some.inj hq] },
      hcut.owned⟩⟩

/-- `write_lwip_data` with the pbuf in `send_lastdata`. -/
theorem SockInv.writeLastdata (h : SockInv cfg s v) (hpre : s.sendPreDel = none)
    (hp : s.sendLastdata = some p) (remainSize : BitVec 16) :
    ∃ w, SockInv cfg (s.writeLastdata p remainSize) w := by
  have hlink := h.lastdata
  rw [hp] at hlink
  obtain ⟨tail, hlast, htail⟩ := hlink.eq_cons
  have hnone : v.preDel = [] := by
    have hlink := h.preDel
    rw [hpre] at hlink
    exact hlink.eq_nil
  unfold SockData.writeLastdata
  dsimp only
  split
  · exact ⟨v, ⟨{ h.toLaid with returned := nofun }, h.owned⟩⟩
  · rw [hlast] at hlink
    have hmoved : SockInv cfg
        { s with sendPreDel := some p, sendLastdata := none, returned := none }
        { v with preDel := p :: tail, lastdata := [] } := by
      refine ⟨{ h.toLaid with
        shaped := ⟨h.shaped.chained, h.shaped.last, h.shaped.idle⟩
        preDel := hlink, lastdata := rfl, lone := fun hne => absurd rfl hne
        returned := nofun }, ?_⟩
      refine h.owned.of_perm (List.Perm.of_eq ?_)
      simp only [SockParts.all, SockParts.chains, hnone, hlast, List.append_nil]
    exact ⟨_, hmoved.cutFirst rfl rfl (fun _ => rfl) fun _ => rfl⟩

/-- `gazelle_ring_sc_dequeue` of a chain to be sent. -/
theorem SockInv.dequeueSend (h : SockInv cfg (s.withSend r) v) (hpre : s.sendPreDel = none)
    (hlast : s.sendLastdata = none) {rest : List PbufPtr}
    (hgot : (r.gazelleRingScDequeue 1).1 = p :: rest) :
    ∃ w tail, w.preDel = p :: tail ∧ w.lastdata = [] ∧
      SockInv cfg
        { s with
          sendRing := some (r.gazelleRingScDequeue 1).2
          sendPreDel := some p
          returned := none } w := by
  have hbits := cfg.sendRingBits_le
  -- nothing was in front of the ring
  have hnopre : v.preDel = [] := by
    have hlink := h.preDel
    rw [hpre] at hlink
    exact hlink.eq_nil
  have hnolast : v.lastdata = [] := by
    have hlink := h.lastdata
    rw [hlast] at hlink
    exact hlink.eq_nil
  obtain ⟨htake, hleft⟩ := RteRing.Holds.scDequeue (by omega) h.sendRing 1
  -- something was dequeued, so a chain was confirmed
  obtain ⟨c, cs, hcs⟩ : ∃ c cs, v.sendOver = c :: cs := by
    cases hover : v.sendOver with
    | nil => rw [hgot, hover] at htake; cases htake
    | cons c cs => exact ⟨c, cs, rfl⟩
  obtain rfl : c.1 = p := by
    rw [hgot, hcs] at htake
    exact (List.cons.inj htake).1.symm
  rw [hcs] at hleft
  -- the chain taken is one of the chains, now outside of the ring
  have hchains : ∀ d ∈ { v with sendOver := cs }.chains, d ∈ v.chains := by
    intro d hd
    rw [SockParts.chains, hcs]
    simp only [SockParts.chains, List.mem_append] at hd ⊢
    exact hd.imp_right (List.mem_cons_of_mem c)
  refine ⟨{ v with sendOver := cs, preDel := c.1 :: c.2, lastdata := [] }, c.2, rfl, rfl,
    { h.toLaid with
      sendRing := hleft
      shaped := ⟨fun d hd => h.shaped.chained d (hchains d hd),
        fun d hd => h.shaped.last d (by rw [hcs]; exact List.mem_cons_of_mem c hd), h.shaped.idle⟩
      preDel := (h.shaped.chained c ?_).linked
      lastdata := hlast
      lone := fun hne => absurd rfl hne
      returned := nofun }, ?_⟩
  · rw [SockParts.chains, hcs]
    exact List.mem_append_right _ List.mem_cons_self
  · -- it is counted in `preDel` and no longer among those confirmed
    refine h.owned.of_perm (List.perm_iff_count.2 fun q => ?_)
    simp only [SockParts.all, SockParts.chains, hcs, hnopre, hnolast, cells_append, cells_cons,
      List.count_append, List.count_cons, List.count_nil]
    omega

/-- `write_lwip_data`. -/
theorem SockInv.writeLwipData (h : SockInv cfg s v) {remainSize : BitVec 16}
    (hs : s.writeLwipData remainSize = some s') : ∃ w, SockInv cfg s' w := by
  unfold SockData.writeLwipData at hs
  split at hs
  · cases hs
  next r hr =>
  split at hs
  · next p hpre =>
    obtain rfl := Option.some.inj hs
    -- lwIP did not take the pbuf of the last call
    exact h.writePreDel hpre remainSize
  · next p hpre hlast =>
    obtain rfl := Option.some.inj hs
    -- a part of a chain has not been sent
    exact h.writeLastdata hpre hlast remainSize
  · next hpre hlast =>
    rw [← SockData.withSend_eq hr] at h
    dsimp only at hs
    split at hs
    · -- the ring had nothing
      next hgot =>
      obtain rfl := Option.some.inj hs
      have hbits := cfg.sendRingBits_le
      obtain ⟨htake, hleft⟩ := RteRing.Holds.scDequeue (by omega) h.sendRing 1
      have hnil : v.sendOver.map Prod.fst = [] := by
        rw [hgot] at htake
        exact (List.take_eq_nil_iff.1 htake.symm).resolve_left (by decide)
      rw [hnil, List.drop_nil] at hleft
      have hring : (r.gazelleRingScDequeue 1).2.Holds cfg.sendRingBits (v.sendOver.map Prod.fst) []
          v.sendIdle := by rwa [hnil]
      exact ⟨v, ⟨{ h.toLaid with sendRing := hring, returned := nofun }, h.owned⟩⟩
    · next p rest hgot =>
      obtain rfl := Option.some.inj hs
      obtain ⟨w, tail, hwpre, hwlast, hdeq⟩ := h.dequeueSend hpre hlast hgot
      unfold SockData.writeDequeued
      dsimp only
      split
      · -- there is no room for the chain, and it waits in `send_pre_del`
        refine ⟨w, hdeq.sameLinks fun q => ?_⟩
        exact SendHeap.modify_sameLinks ⟨rfl, rfl, rfl, rfl, rfl, rfl⟩ q
      · -- its first pbuf is handed to lwIP, the rest waits in `send_lastdata`
        exact ⟨_, hdeq.cutFirst hwpre hwlast (fun _ => rfl) fun _ => rfl⟩

end Taking

/-! ## The application sends -/

section Sending

variable {cfg : SockCfg} {s s' : SockData} {v : SockParts} {r : RteRing PbufPtr}
  {alloc : Option (List PbufPtr)} {data : List Byte} {num : U32}

/-- `replenish_send_idlembuf`. -/
theorem SockInv.replenishSendIdlembuf (hcfg : cfg.Lawful) (h : SockInv cfg s v)
    (hs : s.replenishSendIdlembuf cfg alloc = some s') : ∃ w, SockInv cfg s' w := by
  unfold SockData.replenishSendIdlembuf at hs
  split at hs
  · cases hs
  next r hr =>
  rw [← SockData.withSend_eq hr] at h
  have hbits := cfg.sendRingBits_le
  split at hs
  · obtain rfl := Option.some.inj hs
    -- the ring is full
    exact ⟨v, SockData.withSend_eq hr ▸ h⟩
  split at hs
  · obtain rfl := Option.some.inj hs
    -- the pool is empty
    exact ⟨v, SockData.withSend_eq hr ▸ h⟩
  next mbufs =>
  split at hs
  · next hpool =>
    obtain rfl := Option.some.inj hs
    obtain ⟨hnum, hput⟩ := RteRing.Holds.spEnqueue (by omega) h.sendRing
      (Nat.le_of_eq hpool.1.1)
    rw [hnum, List.drop_length]
    -- the pbufs of the pool are none of those that the socket has
    have hgrown := h.owned.initPbufs hcfg hpool
    have hlaid := h.toLaid.congr (s.mem.initPbufs cfg mbufs) fun p hp => by
      have hkept : (s.mem.initPbufs cfg mbufs).heap p = s.mem.heap p :=
        initMbufs_of_notMem (h.owned.notMem_pool hpool hp)
      rw [hkept]
      exact ⟨rfl, rfl⟩
    refine ⟨{ v with sendIdle := v.sendIdle ++ mbufs }, { hlaid with
      sendRing := hput
      shaped := ⟨hlaid.shaped.chained, hlaid.shaped.last, fun p hp => ?_⟩ },
      hgrown.of_perm (List.perm_iff_count.2 fun p => ?_)⟩
    · -- the idle pbufs of before, and the new ones
      rcases List.mem_append.1 hp with hp | hp
      · exact hlaid.shaped.idle p hp
      · have hfresh : (initMbufs cfg.toSendCfg s.mem.heap 0 mbufs p).Fresh p :=
          (initMbufs_fresh hcfg.ops hpool.1.2.1 hp).1
        exact ⟨hfresh.next, hfresh.last⟩
    · simp only [SockParts.all, SockParts.chains, List.count_append]
      omega
  · cases hs

/-- The last chain that is written, and the ring it is in. -/
theorem SockInv.readlast (h : SockInv cfg (s.withSend r) v) {p : PbufPtr}
    (hlast : s.readlast r = some p) : ∃ cs c, v.sendOver = cs ++ [c] ∧ c.1 = p := by
  have hbits := cfg.sendRingBits_le
  have hring : r.Holds cfg.sendRingBits (v.sendOver.map Prod.fst) [] v.sendIdle := h.sendRing
  have hcount := hring.readover_toNat (by omega)
  unfold SockData.readlast at hlast
  dsimp only at hlast
  split at hlast
  · cases hlast
  next hne =>
  split at hlast
  · cases hlast
  have hget : r.get (r.prod.tail - 1) = p := Option.some.inj hlast
  rcases List.eq_nil_or_concat v.sendOver with hnil | ⟨cs, c, hover⟩
  · -- nothing is confirmed
    rw [hnil] at hcount
    have hzero : r.prod.tail - r.cons.tail = 0 := BitVec.eq_of_toNat_eq hcount
    have heq : r.prod.tail = r.cons.tail := by
      rw [← BitVec.sub_add_cancel r.prod.tail r.cons.tail, hzero]
      exact BitVec.zero_add _
    rw [BitVec.sub_add_cancel, heq] at hne
    exact absurd (Or.inl rfl) hne
  · rw [List.concat_eq_append] at hover
    rw [hover, List.map_append] at hring
    exact ⟨cs, c, hover, hring.get_last.symm.trans hget⟩

/-- `merge_data_lastpbuf`. -/
theorem SockInv.mergeDataLastpbuf (h : SockInv cfg s v) (data : List Byte) :
    SockInv cfg (s.mergeDataLastpbuf cfg r data).2 v := by
  unfold SockData.mergeDataLastpbuf
  split
  · exact ⟨{ h.toLaid with }, h.owned⟩
  dsimp only
  split
  · exact ⟨{ h.toLaid with }, h.owned⟩
  · next p _ _ =>
    have hsame : ∀ (data : List Byte) (q : PbufPtr),
        (s.mem.heap q).SameLinks (s.mem.heap.modify p (mergeData cfg.toSendCfg data) q) :=
      fun data q => SendHeap.modify_sameLinks mergeData_sameLinks q
    have hmerged := h.sameLinks
      (hsame (data.take (min (mbufMaxDataLen - (s.mem.heap p).len.toNat) data.length)))
    exact ⟨{ hmerged.toLaid with }, hmerged.owned⟩

/-- `app_buff_write`. -/
theorem SockInv.appBuffWrite (h : SockInv cfg (s.withSend r) v) (data : List Byte) (num : U32) :
    ∃ w, SockInv cfg (s.appBuffWrite cfg r data num) w := by
  have hbits := cfg.sendRingBits_le
  obtain ⟨hgot, hread⟩ := RteRing.Holds.read (by omega) h.sendRing num
  have hring := hread.readOver
  rw [List.nil_append] at hring
  have hlinks : ∀ q, (s.mem.heap q).SameLinks
      ((doAppWrite cfg.toSendCfg s.mem.heap (r.gazelleRingRead num).1 data).1 q) := fun q =>
    doAppWrite_sameLinks data q
  have hwritten := h.sameLinks hlinks
  -- each pbuf taken is a chain of its own
  let taken := (v.sendIdle.take num.toNat).map fun p => ((p, []) : PbufPtr × List PbufPtr)
  have hheads : taken.map Prod.fst = v.sendIdle.take num.toNat := by
    rw [List.map_map]
    exact List.map_id _
  have hidle : ∀ c ∈ taken, c.1 ∈ v.sendIdle ∧ c.2 = [] := by
    intro c hc
    obtain ⟨p, hp, rfl⟩ := List.mem_map.1 hc
    exact ⟨List.mem_of_mem_take hp, rfl⟩
  refine ⟨{ v with
    sendOver := v.sendOver ++ taken
    sendIdle := v.sendIdle.drop num.toNat }, { hwritten.toLaid with
      sendRing := ?_
      shaped := ⟨fun c hc => ?_, fun c hc => ?_, fun p hp => ?_⟩ }, ?_⟩
  · show RteRing.Holds _ _ _ _ _
    rwa [List.map_append, hheads]
  · rw [SockParts.chains, ← List.append_assoc] at hc
    rcases List.mem_append.1 hc with hc | hc
    · exact hwritten.shaped.chained c hc
    · obtain ⟨hmem, hnil⟩ := hidle c hc
      rw [Chained, hnil]
      exact (hwritten.shaped.idle c.1 hmem).1
  · rcases List.mem_append.1 hc with hc | hc
    · exact hwritten.shaped.last c hc
    · obtain ⟨p, hp, rfl⟩ := List.mem_map.1 hc
      exact (hwritten.shaped.idle p (List.mem_of_mem_take hp)).2
  · exact hwritten.shaped.idle p (List.mem_of_mem_drop hp)
  · refine hwritten.owned.of_perm (List.Perm.of_eq ?_)
    simp only [SockParts.all, SockParts.chains, cells_append, taken, cells_map_single,
      List.append_assoc]
    rw [← List.append_assoc (v.sendIdle.take _), List.take_append_drop]

/-- Pbufs of their own that are linked and written to are a chain, and nothing happens to the
others. -/
theorem linkedWrite_spec {heap : SendHeap} {pbufs : List PbufPtr} (data : List Byte)
    (hnodup : pbufs.Nodup) (hnext : ∀ p ∈ pbufs, (heap p).next = none) :
    ∃ heap', (doAppWrite cfg.toSendCfg (linkPbufs heap pbufs) pbufs data).1 = heap' ∧
      (∀ q ∉ pbufs, heap' q = heap q) ∧
      (∀ q, (heap' q).place = (heap q).place ∧ (heap' q).last = (heap q).last) ∧
      Linked (fun p => (heap' p).next) pbufs.head? pbufs := by
  have hsame : ∀ q, (linkPbufs heap pbufs q).SameLinks
      ((doAppWrite cfg.toSendCfg (linkPbufs heap pbufs) pbufs data).1 q) := fun q =>
    doAppWrite_sameLinks data q
  refine ⟨_, rfl, fun q hq => ?_, fun q => ⟨?_, ?_⟩, ?_⟩
  · rw [doAppWrite_of_notMem hq, linkPbufs_of_notMem hq]
  · rw [(hsame q).place, linkPbufs_field SendPbuf.place fun _ _ => rfl]
  · rw [(hsame q).last, linkPbufs_field SendPbuf.last fun _ _ => rfl]
  · exact (chain_linkPbufs hnodup hnext).congr fun q _ => (hsame q).next

/-- One chain to be sent is new, or longer than before. -/
theorem Laid.putChain (h : Laid cfg s v) (m' : PbufMem) {overs : List (PbufPtr × List PbufPtr)}
    {rest : List PbufPtr} {c : PbufPtr × List PbufPtr}
    (hover : ∀ d ∈ overs, d ∈ v.sendOver) (hrest : ∀ p ∈ rest, p ∈ v.sendIdle)
    (hkept : ∀ p ∈ { v with sendOver := overs, sendIdle := rest }.all, m'.heap p = s.mem.heap p)
    (hring : r.Holds cfg.sendRingBits ((overs ++ [c]).map Prod.fst) [] rest)
    (hchained : Chained (fun p => (m'.heap p).next) c)
    (hlast : (m'.heap c.1).last = (c.1 :: c.2).getLast (List.cons_ne_nil _ _)) :
    Laid cfg { s with mem := m', sendRing := some r }
      { v with sendOver := overs ++ [c], sendIdle := rest } := by
  have hchains : ∀ d ∈ { v with sendOver := overs, sendIdle := rest }.chains, d ∈ v.chains := by
    intro d hd
    simp only [SockParts.chains, List.mem_append] at hd ⊢
    exact hd.imp_right (hover d)
  -- the chains that stay are not written
  have hcells : ∀ d ∈ { v with sendOver := overs, sendIdle := rest }.chains, ∀ p ∈ d.1 :: d.2,
      m'.heap p = s.mem.heap p := fun d hd p hp =>
    hkept p (SockParts.mem_all_of_chains hd hp)
  refine { h with
    sendRing := hring
    shaped := ⟨fun d hd => ?_, fun d hd => ?_, fun p hp => ?_⟩
    lastdata := h.lastdata.congr fun p hp => ?_
    preDel := h.preDel.congr fun p hp => ?_ }
  · -- a chain that stays, or the one that was put
    rw [SockParts.chains, ← List.append_assoc] at hd
    rcases List.mem_append.1 hd with hd | hd
    · exact (h.shaped.chained d (hchains d hd)).congr fun p hp => by rw [hcells d hd p hp]
    · rwa [List.mem_singleton.1 hd]
  · rcases List.mem_append.1 hd with hd | hd
    · rw [hcells d (List.mem_append_right _ hd) d.1 List.mem_cons_self]
      exact h.shaped.last d (hover d hd)
    · obtain rfl := List.mem_singleton.1 hd
      exact hlast
  · rw [hkept p (List.mem_append_left _ (List.mem_append_left _ (List.mem_append_right _ hp)))]
    exact h.shaped.idle p (hrest p hp)
  · rw [hkept p (List.mem_append_left _ (List.mem_append_right _ hp))]
  · rw [hkept p (List.mem_append_right _ hp)]

/-- `app_direct_write`, when there is a pbuf not written to. -/
theorem SockInv.appDirectWrite (hcfg : cfg.Lawful) (h : SockInv cfg (s.withSend r) v)
    (hs : s.appDirectWrite cfg r data num alloc = some s') (hr : s.sendRing = some r)
    (hidle : v.sendIdle ≠ []) : ∃ w, SockInv cfg s' w := by
  unfold SockData.appDirectWrite at hs
  split at hs
  · -- the allocation fails and nothing changes
    obtain rfl := Option.some.inj hs
    exact ⟨v, SockData.withSend_eq hr ▸ h⟩
  next mbufs =>
  split at hs
  swap
  · cases hs
  next hpool =>
  obtain rfl := Option.some.inj hs
  have hbits := cfg.sendRingBits_le
  obtain ⟨hgot, hread⟩ := RteRing.Holds.read (by omega) h.sendRing 1
  have hring := hread.readOver
  obtain ⟨p, rest, hcons⟩ := List.exists_cons_of_ne_nil hidle
  have hone : (1 : U32).toNat = 1 := rfl
  rw [hcons, hone] at hgot hring
  simp only [List.take_succ_cons, List.take_zero, List.drop_succ_cons, List.drop_zero,
    List.nil_append] at hgot hring
  rw [hgot]
  simp only [List.cons_append, List.nil_append, List.headD_cons]
  -- the pbuf from the ring is none of those allocated
  have hpidle : p ∈ v.sendIdle := hcons ▸ List.mem_cons_self
  have hpall : p ∈ v.all :=
    List.mem_append_left _ (List.mem_append_left _ (List.mem_append_right _ hpidle))
  have hpnew : p ∉ mbufs := h.owned.notMem_pool hpool hpall
  have hgrown := h.owned.initPbufs hcfg hpool
  have hkept : ∀ q ∉ mbufs, (s.mem.initPbufs cfg mbufs).heap q = s.mem.heap q := fun q hq =>
    initMbufs_of_notMem hq
  -- all of them are blank, so they can be linked in this order
  have hnext : ∀ q ∈ p :: mbufs, ((s.mem.initPbufs cfg mbufs).heap q).next = none := by
    intro q hq
    rcases List.mem_cons.1 hq with rfl | hq
    · rw [hkept q hpnew]
      exact (h.shaped.idle q hpidle).1
    · exact (initMbufs_fresh hcfg.ops hpool.1.2.1 hq).1.next
  obtain ⟨heap, hheap, hout, hsame, hlink⟩ := linkedWrite_spec data
    (List.nodup_cons.2 ⟨hpnew, hpool.1.2.1⟩) hnext
  rw [hheap]
  -- the pbuf from the ring and those allocated make up one chain to be sent
  have hperm : (v.all ++ mbufs).Perm
      { v with sendOver := v.sendOver ++ [(p, mbufs)], sendIdle := rest }.all := by
    refine List.perm_iff_count.2 fun q => ?_
    simp only [SockParts.all, SockParts.chains, hcons, cells_append, cells_cons, cells_nil,
      List.count_append, List.count_cons, List.append_nil]
    omega
  have hnodup := hperm.nodup_iff.1 hgrown.nodup
  -- the other pbufs of the socket are not written
  have hold : ∀ q ∈ { v with sendIdle := rest }.all,
      heap.modify p ({ · with last := (p :: mbufs).getLastD 0 }) q = s.mem.heap q := by
    intro q hq
    have hqall : q ∈ v.all := by
      simp only [SockParts.all, SockParts.chains, hcons, List.mem_append] at hq ⊢
      exact hq.imp_left (Or.imp_left (Or.imp_right (List.mem_cons_of_mem p)))
    have hqnew : q ∉ mbufs := h.owned.notMem_pool hpool hqall
    -- the pbuf from the ring was there once
    have hqp : q ≠ p := by
      rintro rfl
      have hcount := List.nodup_iff_count.1 h.owned.nodup q
      have hpos := List.count_pos_iff.2 hq
      simp only [SockParts.all, SockParts.chains, hcons, List.count_append, List.count_cons_self]
        at hcount hpos
      omega
    rw [SendHeap.modify_of_ne hqp, hout q (by simp [hqp, hqnew]), hkept q hqnew]
  have hfields : ∀ q, (heap.modify p ({ · with last := (p :: mbufs).getLastD 0 }) q).next =
      (heap q).next := fun q => SendHeap.modify_field SendPbuf.next rfl
  have hchain : Chained (fun q => (heap q).next) (p, mbufs) := hlink.2
  have hlaid := h.toLaid.putChain (c := (p, mbufs))
    { s.mem.initPbufs cfg mbufs with
      heap := heap.modify p ({ · with last := (p :: mbufs).getLastD 0 }) }
    (fun _ hd => hd) (fun q hq => hcons ▸ List.mem_cons_of_mem p hq) hold
    (by rwa [List.map_append]) (hchain.congr fun q _ => hfields q)
    (by
      dsimp only
      rw [SendHeap.modify_self, List.getLastD_eq_getLast?, List.getLast?_eq_some_getLast
        (List.cons_ne_nil _ _), Option.getD_some])
  -- the store of `last` changes no place
  refine ⟨_, { hlaid with }, Owned.of_perm ?_ hperm⟩
  refine hgrown.congr (fun q => ?_) fun _ _ => rfl
  exact (SendHeap.modify_field SendPbuf.place rfl).trans (hsame q).1

/-- The last chain to be sent gets more pbufs. -/
theorem SockParts.perm_extend {p : PbufPtr} {overs : List (PbufPtr × List PbufPtr)}
    {tail : List PbufPtr} (mbufs : List PbufPtr) (hover : v.sendOver = overs ++ [(p, tail)]) :
    (v.all ++ mbufs).Perm { v with sendOver := overs ++ [(p, tail ++ mbufs)] }.all := by
  refine List.perm_iff_count.2 fun q => ?_
  simp only [SockParts.all, SockParts.chains, hover, cells_append, cells_cons, cells_nil,
    List.count_append, List.count_cons, List.append_nil]
  omega

/-- The pbufs of the last chain to be sent are different, and in no other place. -/
theorem SockParts.nodup_lastOver {p : PbufPtr} {overs : List (PbufPtr × List PbufPtr)}
    {tail : List PbufPtr} (hnodup : v.all.Nodup) (hover : v.sendOver = overs ++ [(p, tail)]) :
    (p :: tail).Nodup ∧ ∀ q ∈ { v with sendOver := overs }.all, q ∉ p :: tail := by
  have hcount : ∀ q, { v with sendOver := overs }.all.count q + (p :: tail).count q ≤ 1 := by
    intro q
    have hle := List.nodup_iff_count.1 hnodup q
    simp only [SockParts.all, SockParts.chains, hover, cells_append, cells_cons, cells_nil,
      List.count_append, List.append_nil] at hle ⊢
    omega
  refine ⟨List.nodup_iff_count.2 fun q => (Nat.le_add_left _ _).trans (hcount q),
    fun q hq hqp => ?_⟩
  have hpos := List.count_pos_iff.2 hq
  have hpos' := List.count_pos_iff.2 hqp
  have hle := hcount q
  omega

/-- `app_direct_attach` to the last pbuf. -/
theorem SockInv.appDirectAttach (hcfg : cfg.Lawful) (h : SockInv cfg (s.withSend r) v)
    (hr : s.sendRing = some r) {p : PbufPtr} {overs : List (PbufPtr × List PbufPtr)}
    {tail : List PbufPtr} (hover : v.sendOver = overs ++ [(p, tail)])
    (hs : s.appDirectAttach cfg p data num alloc = some s') (hnum : num.toNat ≠ 0) :
    ∃ w, SockInv cfg s' w := by
  unfold SockData.appDirectAttach at hs
  split at hs
  · obtain rfl := Option.some.inj hs
    exact ⟨v, SockData.withSend_eq hr ▸ h⟩
  next mbufs =>
  split at hs
  swap
  · cases hs
  next hpool =>
  obtain rfl := Option.some.inj hs
  have hring : r.Holds cfg.sendRingBits (v.sendOver.map Prod.fst) [] v.sendIdle := h.sendRing
  have hmem : (p, tail) ∈ v.sendOver := hover ▸ List.mem_append_right _ (List.mem_singleton.2 rfl)
  have hall : ∀ q ∈ p :: tail, q ∈ v.all := fun q hq =>
    SockParts.mem_all_of_chains (List.mem_append_right _ hmem) hq
  have hnew : ∀ q ∈ v.all, q ∉ mbufs := fun q hq => h.owned.notMem_pool hpool hq
  have hfresh : ∀ q ∈ mbufs, ((s.mem.initPbufs cfg mbufs).heap q).next = none := fun q hq =>
    (initMbufs_fresh hcfg.ops hpool.1.2.1 hq).1.next
  have hnonempty : mbufs ≠ [] := by
    rintro rfl
    exact hnum hpool.1.1.symm
  obtain ⟨heap, hheap, hout, hsame, hlink⟩ := linkedWrite_spec data hpool.1.2.1 hfresh
  have hold : ∀ q ∈ v.all, heap q = s.mem.heap q := fun q hq =>
    (hout q (hnew q hq)).trans (initMbufs_of_notMem (hnew q hq))
  obtain ⟨hptnodup, hothers⟩ := SockParts.nodup_lastOver h.owned.nodup hover
  -- the last pbuf of the chain, to which the new ones are linked
  obtain ⟨z, hz⟩ : ∃ z, (p :: tail).getLast? = some z :=
    ⟨_, List.getLast?_eq_some_getLast (List.cons_ne_nil _ _)⟩
  have hzall : z ∈ p :: tail := List.mem_of_getLast? hz
  have hlast : (heap p).last = z := by
    rw [hold p (hall p List.mem_cons_self)]
    refine (h.shaped.last _ hmem).trans (Option.some.inj ?_)
    rw [← hz, List.getLast?_eq_some_getLast (List.cons_ne_nil _ _)]
  have hlastD : mbufs.getLastD 0 = mbufs.getLastD p := by
    rw [List.getLastD_eq_getLast?, List.getLastD_eq_getLast?,
      List.getLast?_eq_some_getLast hnonempty, Option.getD_some, Option.getD_some]
  have hhang : (heap.modify z (.setNext mbufs.head?)).modify p
      ({ · with last := mbufs.getLastD 0 }) = hangChain heap p z mbufs := by
    rw [hlastD]
    rfl
  have hchained : heap.Chained (p, tail) :=
    (h.shaped.chained _ (List.mem_append_right _ hmem)).congr fun q hq => by
      rw [hold q (hall q hq)]
  have hkept : ∀ q ∈ { v with sendOver := overs }.all,
      hangChain heap p z mbufs q = s.mem.heap q := by
    intro q hq
    have hqpt := hothers q hq
    have hqall : q ∈ v.all := by
      simp only [SockParts.all, SockParts.chains, hover, cells_append, List.mem_append] at hq ⊢
      exact hq.imp_left (Or.imp_left (Or.imp_left (Or.imp_right Or.inl)))
    rw [hangChain, SendHeap.modify_of_ne fun he : q = p => hqpt (he ▸ List.mem_cons_self),
      SendHeap.modify_of_ne fun he : q = z => hqpt (he ▸ hzall), hold q hqall]
  have hheads : (overs ++ [(p, tail ++ mbufs)]).map Prod.fst = v.sendOver.map Prod.fst := by
    rw [hover, List.map_append, List.map_append]
    rfl
  rw [hheap, hlast, hhang, hr]
  have hlaid := h.toLaid.putChain (c := (p, tail ++ mbufs))
    { s.mem.initPbufs cfg mbufs with heap := hangChain heap p z mbufs }
    (fun d hd => hover ▸ List.mem_append_left _ hd) (fun _ hq => hq) hkept (by rwa [hheads])
    (chained_hangChain hchained hz hptnodup hlink (hnew z (hall z hzall))) (by
      dsimp only
      rw [hangChain, SendHeap.modify_self, List.getLastD_eq_getLast?,
        List.getLast?_eq_some_getLast hnonempty, Option.getD_some,
        List.getLast_cons (List.append_ne_nil_of_right_ne_nil _ hnonempty),
        List.getLast_append_of_ne_nil _ hnonempty])
  refine ⟨_, { hlaid with }, Owned.of_perm ?_ (SockParts.perm_extend mbufs hover)⟩
  refine (h.owned.initPbufs hcfg hpool).congr (fun q => ?_) fun _ _ => rfl
  exact (hangChain_field SendPbuf.place (fun _ _ => rfl) (fun _ _ => rfl) q).trans (hsame q).1

/-- `write_stack_data` behind the merging. -/
theorem SockInv.writeRest (hcfg : cfg.Lawful) (h : SockInv cfg s v) (hr : s.sendRing = some r)
    {sendLen : ℕ} (hlt : sendLen < data.length)
    (hshort : (data.length + mbufMaxDataLen - 1) / mbufMaxDataLen < 2 ^ 32)
    (hs : s.writeRest cfg r data sendLen alloc = some s') : ∃ w, SockInv cfg s' w := by
  have hbits := cfg.sendRingBits_le
  have hsend := h
  rw [← SockData.withSend_eq hr] at hsend
  have hnum : (BitVec.ofNat 32
      ((data.length - sendLen + mbufMaxDataLen - 1) / mbufMaxDataLen)).toNat ≠ 0 := by
    have hle : (data.length - sendLen + mbufMaxDataLen - 1) / mbufMaxDataLen ≤
        (data.length + mbufMaxDataLen - 1) / mbufMaxDataLen := Nat.div_le_div_right (by omega)
    have hpos : 0 < (data.length - sendLen + mbufMaxDataLen - 1) / mbufMaxDataLen :=
      Nat.div_pos (by omega) (by decide)
    rw [BitVec.toNat_ofNat, Nat.mod_eq_of_lt (by omega)]
    exact Nat.ne_of_gt hpos
  unfold SockData.writeRest at hs
  dsimp only at hs
  split at hs
  · -- no pbuf is free
    split at hs
    · split at hs
      · next p hlast =>
        obtain ⟨c, hattach, rfl⟩ := Option.map_eq_some_iff.1 hs
        obtain ⟨overs, ⟨q, tail⟩, hover, rfl⟩ := hsend.readlast hlast
        obtain ⟨w, hw⟩ := hsend.appDirectAttach hcfg hr hover hattach hnum
        exact ⟨w, ⟨{ hw.toLaid with }, hw.owned⟩⟩
      · obtain rfl := Option.some.inj hs
        exact ⟨v, ⟨{ h.toLaid with }, h.owned⟩⟩
    · obtain rfl := Option.some.inj hs
      exact ⟨v, h⟩
  · next havail =>
    have hidle : v.sendIdle ≠ [] := by
      intro hnil
      have hcount := RteRing.Holds.readable_toNat (by omega) hsend.sendRing
      rw [hnil] at hcount
      exact havail (BitVec.eq_of_toNat_eq hcount)
    split at hs
    · split at hs
      · obtain rfl := Option.some.inj hs
        exact hsend.appBuffWrite _ _
      · exact hsend.appDirectWrite hcfg hs hr hidle
    · split at hs
      all_goals
        obtain rfl := Option.some.inj hs
        exact hsend.appBuffWrite _ _

/-- Merging does not touch the ring. -/
theorem SockData.sendRing_mergeDataLastpbuf :
    (s.mergeDataLastpbuf cfg r data).2.sendRing = s.sendRing := by
  unfold SockData.mergeDataLastpbuf
  split
  · rfl
  dsimp only
  split <;> rfl

/-- `write_stack_data`. -/
theorem SockInv.writeStackData (hcfg : cfg.Lawful) (h : SockInv cfg s v)
    (hs : s.writeStackData cfg data alloc = some s') : ∃ w, SockInv cfg s' w := by
  unfold SockData.writeStackData at hs
  split at hs
  · cases hs
  next r hr =>
  split at hs
  · obtain rfl := Option.some.inj hs
    exact ⟨v, h⟩
  next hne =>
  split at hs
  · cases hs
  next hshort =>
  rw [Nat.not_le] at hshort
  dsimp only at hs
  have hmerge : SockInv cfg (if s.remainLen = 0 then (0, s) else
      s.mergeDataLastpbuf cfg r data).2 v ∧
      (if s.remainLen = 0 then (0, s) else s.mergeDataLastpbuf cfg r data).2.sendRing = some r := by
    split_ifs
    · exact ⟨h, hr⟩
    · exact ⟨h.mergeDataLastpbuf data, SockData.sendRing_mergeDataLastpbuf.trans hr⟩
  generalize (if s.remainLen = 0 then (0, s) else s.mergeDataLastpbuf cfg r data) = merged
    at hs hmerge
  obtain ⟨hinv, hring⟩ := hmerge
  split at hs
  · obtain rfl := Option.some.inj hs
    exact ⟨v, hinv⟩
  · next hlt => exact hinv.writeRest hcfg hring (Nat.lt_of_not_le hlt) hshort hs

end Sending

/-! ## All runs -/

section Runs

variable {cfg : SockCfg} {s s' : SockData} {v : SockParts}

/-- Whatever happens, the pbufs stay where the invariant says. -/
theorem SockInv.step (hcfg : cfg.Lawful) (h : SockInv cfg s v) {a : SockAct}
    (hs : s.step cfg a = some s') : ∃ w, SockInv cfg s' w := by
  cases a with
  | recv chains err => exact h.readLwipData hs
  | read len => exact h.readStackData hcfg hs
  | write data alloc => exact h.writeStackData hcfg hs
  | lwipData remainSize => exact h.writeLwipData hs
  | lwipOver => exact h.writeLwipOver hs
  | replenish alloc => exact h.replenishSendIdlembuf hcfg hs
  | lwip p b ref =>
    simp only [SockData.step] at hs
    split at hs
    · next hp =>
      obtain rfl := Option.some.inj hs
      exact ⟨v, h.others hp (by simp) fun q hq => Function.update_of_ne hq ..⟩
    · cases hs
  | release p =>
    simp only [SockData.step] at hs
    split at hs
    · next hp =>
      obtain rfl := Option.some.inj hs
      exact ⟨v, h.others (by rw [hp]; simp) (by simp) fun _ _ => rfl⟩
    · cases hs

/-- A ring that was just created is empty. -/
theorem RingHas.of_created {k : ℕ} {ring : Option (RteRing PbufPtr)}
    (h : SockData.Created k ring) : RingHas k ring [] [] [] := by
  cases ring with
  | none => exact ⟨rfl, rfl, rfl⟩
  | some r =>
    obtain ⟨start, slots, rfl⟩ := h r rfl
    exact .create k start slots

/-- A socket just made has no pbufs. -/
theorem SockInv.init (h : (SockData.system cfg).Init s) :
    SockInv cfg s ⟨[], [], [], [], [], [], []⟩ := by
  obtain ⟨hrecv, hsend, hrecvLast, hlast, hpre, -, hreturned, hplace⟩ := h
  refine ⟨{
    recvRing := .of_created hrecv
    sendRing := .of_created hsend
    shaped := ⟨nofun, nofun, nofun⟩
    lastdata := hlast
    preDel := hpre
    lone := fun hne => absurd rfl hne
    recvLastdata := fun p hp => by rw [hrecvLast] at hp; cases hp
    returned := fun p hp => by rw [hreturned] at hp; cases hp },
      ⟨List.nodup_nil, fun p => ?_, nofun, nofun⟩⟩
  exact iff_of_false List.not_mem_nil (hplace p)

/-- The invariant holds after any sequence of calls. -/
theorem SockInv.reachable (hcfg : cfg.Lawful) (hs : (SockData.system cfg).Reachable s) :
    ∃ v, SockInv cfg s v := by
  refine Transition.System.invariant (I := fun s => ∃ v, SockInv cfg s v)
    (fun s hinit => ⟨_, .init hinit⟩) ?_ hs
  rintro s a s' - ⟨v, hinv⟩ hstep
  exact hinv.step hcfg hstep

namespace SockData

/-- Closing a socket drops one reference of each pbuf that it owns, and of no other pbuf, exactly
when `recv_lastdata` is `NULL`: otherwise a pbuf of a chain that is partly read is freed with the
chain and once more. -/
theorem reset_frees_once (hcfg : cfg.Lawful) (hs : (system cfg).Reachable s) :
    s.FreesOnce cfg ↔ s.recvLastdata = none := by
  obtain ⟨v, hinv⟩ := SockInv.reachable hcfg hs
  constructor
  · intro hfrees
    cases hlast : s.recvLastdata with
    | none => rfl
    | some p => exact absurd hfrees (hinv.not_freesOnce hlast)
  · exact hinv.freesOnce

/-- lwIP's functions, and four pbufs. -/
private def fourPbufs : SockCfg where
  expandSendRing := false
  ops :=
    { pbufAllocedCustom := fun length b => { b with len := length, totLen := length, next := none }
      pbufTake := fun b data => copyTo b.area 0 data
      pbufTakeAt := fun b data offset => copyTo b.area offset data }
  pbufRemoveHeader b n :=
    { b with area := fun i => b.area (i + n.toNat), len := b.len - n, totLen := b.totLen - n }
  pbufNum := 4
  sendRingBits := 1
  sendRingBits_le := by decide

private theorem fourPbufs_lawful : fourPbufs.Lawful where
  ops := ⟨fun _ _ => ⟨rfl, rfl, rfl⟩, fun _ _ _ _ => rfl, fun _ _ _ _ _ _ => rfl⟩
  pbufRemoveHeader _ _ := ⟨rfl, rfl, rfl, rfl, rfl, rfl⟩

/-- A pbuf with two bytes. -/
private def twoBytes : SendPbuf where
  area _ := 0
  len := 2
  totLen := 2
  next := none
  last := 0
  allowIn := false
  head := false
  locked := false
  place := .pool
  born := 0

/-- A socket just made, with empty rings. -/
private def justMade : SockData where
  mem := { heap := fun _ => twoBytes, ref := fun _ => 0, dropped := [] }
  recvRing := some (.create sockRecvRingBits 0 fun _ => 0)
  sendRing := some (.create 1 0 fun _ => 0)
  recvLastdata := none
  sendLastdata := none
  sendPreDel := none
  remainLen := 0
  returned := none

private theorem justMade_init : (system fourPbufs).Init justMade :=
  ⟨fun _ hr => ⟨0, _, (Option.some.inj hr).symm⟩, fun _ hr => ⟨0, _, (Option.some.inj hr).symm⟩,
    rfl, rfl, rfl, rfl, rfl, fun _ => nofun⟩

/-- `send_ring` gets a pbuf, and two bytes arrive, of which the application reads so many. -/
private def receiveTwo (len : BitVec 64) : List SockAct :=
  [.replenish (some [3]), .lwip 0 twoBytes 1, .recv [(0, [])] false, .read len]

/-- A socket is closed after all that arrived was read. -/
theorem reset_frees_once_all_read :
    ∃ s : SockData, (system fourPbufs).Reachable s ∧ s.resetDrops fourPbufs = [0, 3] ∧
      s.FreesOnce fourPbufs := by
  have hrun : ((system fourPbufs).run justMade (receiveTwo 2)).any (fun s =>
      s.resetDrops fourPbufs = [0, 3] ∧ s.recvLastdata = none) = true := by
    decide +kernel
  obtain ⟨s, hs, hstate⟩ := (Option.any_eq_true _ _).1 hrun
  obtain ⟨hdrops, hnone⟩ := of_decide_eq_true hstate
  have hreach := Transition.System.reachable_of_run (.init justMade_init) hs
  exact ⟨s, hreach, hdrops, (reset_frees_once fourPbufs_lawful hreach).2 hnone⟩

/-- One of two bytes is read: the pbuf is freed with the entry of `recv_ring`, and again. -/
theorem reset_frees_twice :
    ¬ ∀ (cfg : SockCfg) (s : SockData), cfg.Lawful → (system cfg).Reachable s →
      s.FreesOnce cfg := by
  intro h
  have hrun : ((system fourPbufs).run justMade (receiveTwo 1)).any (fun s =>
      s.resetDrops fourPbufs = [0, 3, 0]) = true := by
    decide +kernel
  obtain ⟨s, hs, hstate⟩ := (Option.any_eq_true _ _).1 hrun
  have hreach := Transition.System.reachable_of_run (.init justMade_init) hs
  have hnodup := (h _ s fourPbufs_lawful hreach).nodup
  rw [of_decide_eq_true hstate] at hnodup
  exact absurd hnodup (by decide)

end SockData

end Runs

end Gazelle
