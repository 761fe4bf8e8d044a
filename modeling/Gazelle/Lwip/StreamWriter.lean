import Gazelle.Lwip.StreamInvariant

/-!
# The application's steps in the send stream

Each step of `write_stack_data` keeps the invariant of the stream. Merging and attaching find the
chain of the pbuf that the application has locked at the end of the ring, or with the stack alone;
the other ways fill blank pbufs of the ring, which wait for the stack from the store of `prod.tail`
on.

* `WriteSys.StreamInv.writerStep`: the steps of the application.
-/

namespace Gazelle

open Linked WrapCounter

/-- `write_num` pbufs hold what is left of the data. -/
theorem WriteCall.Fine.fits {c : WriteCall} (hc : c.Fine) (hlt : c.sendLen < c.data.length) :
    Fits (WriteSys.writeNum c) c.left := by
  have hnum := hc.writeNum
  unfold WriteSys.writeNum mbufMaxDataLen at hnum
  unfold Fits WriteCall.left WriteSys.writeNum mbufMaxDataLen
  rw [List.length_drop]
  omega

/-- With fewer pbufs the data is cut to what fills them up; what was merged stays. -/
theorem WriteCall.Fine.fits_cut {c : WriteCall} (hc : c.Fine) {avail : ℕ} (hpos : 0 < avail)
    (hlt : avail < WriteSys.writeNum c) {cut : WriteCall}
    (hcut : cut = { c with data := c.data.take (avail * mbufMaxDataLen) }) :
    Fits avail cut.left ∧ cut.sendLen ≤ cut.data.length ∧
      cut.data.take cut.sendLen = c.data.take c.sendLen := by
  have hmerged := hc.merged
  have hle : c.sendLen ≤ avail * mbufMaxDataLen := by
    unfold mbufMaxDataLen at hmerged ⊢
    omega
  have hlen : (c.data.take (avail * mbufMaxDataLen)).length = avail * mbufMaxDataLen := by
    rw [List.length_take, Nat.min_eq_left]
    unfold WriteSys.writeNum mbufMaxDataLen at hlt
    unfold mbufMaxDataLen
    omega
  subst hcut
  refine ⟨?_, hlen.symm ▸ hle, ?_⟩
  · unfold Fits WriteCall.left
    rw [List.length_drop, hlen]
    dsimp only
    unfold mbufMaxDataLen at hmerged ⊢
    omega
  · rw [List.take_take, Nat.min_eq_left hle]

namespace WriteSys

variable {cfg : SendCfg} {k : ℕ} {start : U32} {s s' : WriteSys} {v : StreamView}

/-! ### `gazelle_ring_readlast` -/

/-- The call of `write_stack_data`. -/
theorem StreamInv.write (h : StreamInv k start s v) {data : List Byte} {addr : Option PbufAddr}
    {w : WriterPc} (hpc : s.writer = .idle) (hdata : data ≠ [])
    (hnum : writeNum { data, addr, sendLen := 0 } < 2 ^ 32)
    (hw : w = .count { data, addr, sendLen := 0 } ∨
      w = .lastTail .merge { data, addr, sendLen := 0 }) :
    StreamInv k start { s with writer := w } v := by
  have hat := h.writer
  simp only [WriterIs, hpc] at hat
  have hfine : WriteCall.Fine { data, addr, sendLen := 0 } := ⟨Nat.zero_le _, Nat.zero_le _, hnum⟩
  have hcurrent : s.current = [] := by simp only [current, hpc, WriterPc.call]
  have hplain : s.writer.Plain := by rw [hpc]; trivial
  rcases hw with rfl | rfl
  · exact h.setPc hplain trivial hcurrent.symm (.inr rfl)
      ⟨hat, hfine, List.length_pos_iff.2 hdata⟩
  · exact h.setPc hplain trivial hcurrent.symm (.inr rfl) ⟨hat, hfine, rfl, hdata⟩

/-- `gazelle_ring_readlast` fails. -/
theorem StreamInv.lastFails (h : StreamInv k start s v) {use : LastUse} {c : WriteCall}
    {heap : SendHeap} (hplain : s.writer.Plain) (hcall : s.writer.call = some c)
    (hrests : ReaderRests s.ring) (hfine : c.Fine) (hfits : use.Fits c)
    (hheap : ∀ q, (s.heap q).SameBody (heap q) ∧ (heap q).allowIn = (s.heap q).allowIn ∧
      (heap q).last = (s.heap q).last)
    (hlocks : ∀ w, writerLock { s with writer := w } = none →
      LockInv { s with heap, writer := w, remainLen := 0 }) :
    StreamInv k start ({ s with heap }.lastFails use c) v := by
  have hcurrent : ∀ w : WriterPc, w.call = some c →
      current { s with writer := w } = s.current := by
    intro w hw
    unfold current
    rw [hcall]
    simp only [hw]
  cases use with
  | merge =>
    obtain ⟨hzero, hdata⟩ := hfits
    refine h.setPlain hplain trivial (hcurrent _ rfl) hheap ⟨hrests, hfine, ?_⟩ (hlocks _ rfl)
    rw [hzero]
    exact List.length_pos_iff.2 hdata
  | attach num =>
    exact h.setPlain hplain trivial (hcurrent _ rfl) hheap ⟨hrests, hfine.sendLen_le⟩ (hlocks _ rfl)

/-- The load of `cons.tail`. -/
theorem StreamInv.lastTail (h : StreamInv k start s v) {use : LastUse} {c : WriteCall}
    (hpc : s.writer = .lastTail use c) :
    StreamInv k start { s with writer := .lastSlot use c s.ring.ring.cons.tail } v := by
  have hat := h.writer
  simp only [WriterIs, hpc] at hat
  have hplain : s.writer.Plain := by rw [hpc]; trivial
  refine h.setPc hplain trivial (by simp only [current, hpc, WriterPc.call]) (.inr rfl)
    ⟨hat.1, hat.2, s.ring.dequeued.length, h.ring.consTail, le_rfl, fun hlt p hp => .inl ?_⟩
  -- the ring is not empty, so the last pbuf waits in it
  have hne : s.ringWaiting ≠ [] := by
    intro hnil
    have hdrop := (List.append_eq_nil_iff.1 hnil).2
    rw [List.drop_eq_nil_iff] at hdrop
    exact absurd hlt (Nat.not_lt.2 hdrop)
  exact List.mem_append_right _ (List.mem_of_getLast? (h.getLast_ringWaiting hne hp))

/-- The loads of `prod.tail` and of the slot. -/
theorem StreamInv.lastSlot (h : StreamInv k start s v) {use : LastUse} {c : WriteCall} {tail : U32}
    {alloc : Option (List PbufPtr)} (hpc : s.writer = .lastSlot use c tail)
    (hs : s.writerStep cfg alloc = some s') : StreamInv k start s' v := by
  have hat := h.writer
  simp only [WriterIs, hpc] at hat
  obtain ⟨hrests, ⟨hfine, hfits⟩, n, hshows, hle, hkept⟩ := hat
  have hplain : s.writer.Plain := by rw [hpc]; trivial
  simp only [writerStep, hpc] at hs
  split at hs
  · exact Option.some.inj hs ▸ h.lastFails hplain (by rw [hpc]; rfl) hrests hfine hfits
      (fun _ => ⟨.refl _, rfl, rfl⟩) fun _ hw => h.locks.congr (.inr hw) (.inl rfl) fun _ _ => rfl
  · rename_i hne
    rw [not_or, BitVec.sub_add_cancel] at hne
    -- the counters differ, so something had been confirmed that was not dequeued
    have hlt : n < s.ring.confirmed.length := by
      have hdeq := h.ring.dequeued_le
      rcases Nat.lt_or_ge n s.ring.confirmed.length with hlt | hge
      · exact hlt
      · have heq : n = s.ring.confirmed.length := by omega
        exact absurd (h.ring.prodTail.trans (heq ▸ hshows.symm)) hne.1
    have hlast :
        s.ring.confirmed.getLast? = some (s.ring.ring.get (s.ring.ring.prod.tail - 1)) := by
      have hnil : s.ring.confirmed ≠ [] := fun hnil => by
        rw [hnil] at hlt
        exact Nat.not_lt_zero _ hlt
      obtain ⟨p, hp⟩ := Option.isSome_iff_exists.1 (List.getLast?_isSome.2 hnil)
      rw [hp, h.ring.get_last h.behind hp]
    exact Option.some.inj hs ▸ h.setPc hplain trivial
      (by simp only [current, hpc, WriterPc.call]) (.inr rfl)
      ⟨hrests, ⟨hfine, hfits⟩, hlast, hkept hlt _ hlast⟩

/-- `pthread_spin_trylock`. -/
theorem StreamInv.lastLock (h : StreamInv k start s v) {use : LastUse} {c : WriteCall} {p : PbufPtr}
    {alloc : Option (List PbufPtr)} (hpc : s.writer = .lastLock use c p)
    (hs : s.writerStep cfg alloc = some s') : StreamInv k start s' v := by
  have hat := h.writer
  simp only [WriterIs, hpc] at hat
  obtain ⟨hrests, ⟨hfine, hfits⟩, hlast, hkept⟩ := hat
  have hplain : s.writer.Plain := by rw [hpc]; trivial
  simp only [writerStep, hpc] at hs
  split at hs
  · exact Option.some.inj hs ▸ h.lastFails hplain (by rw [hpc]; rfl) hrests hfine hfits
      (fun _ => ⟨.refl _, rfl, rfl⟩) fun _ hw => h.locks.congr (.inr hw) (.inl rfl) fun _ _ => rfl
  · rename_i hfree
    refine Option.some.inj hs ▸ h.setPlain hplain trivial
      (by simp only [current, hpc, WriterPc.call]) (keeps_lock s.heap p)
      ⟨hrests, ⟨hfine, hfits⟩, hlast, ?_⟩ (h.locks.writerTake hfree rfl)
    exact hkept.imp id ((keeps_lock s.heap p p).2.1.trans ·)

/-- The test of `allow_in`. -/
theorem StreamInv.lastTest (h : StreamInv k start s v) {use : LastUse} {c : WriteCall} {p : PbufPtr}
    {alloc : Option (List PbufPtr)} (hpc : s.writer = .lastTest use c p)
    (hs : s.writerStep cfg alloc = some s') : StreamInv k start s' v := by
  have hat := h.writer
  simp only [WriterIs, hpc] at hat
  obtain ⟨hrests, ⟨hfine, hfits⟩, hlast, hkept⟩ := hat
  have hplain : s.writer.Plain := by rw [hpc]; trivial
  have hlock : s.writerLock = some p := by simp only [writerLock, hpc]
  simp only [writerStep, hpc] at hs
  obtain rfl := Option.some.inj hs
  split
  · rename_i hallow
    have hwaiting : p ∈ s.waiting := hkept.resolve_right (by rw [hallow]; rintro ⟨⟩)
    cases use with
    | merge =>
      exact h.setPc hplain trivial (by simp only [current, hpc, WriterPc.call]) (.inl hlock.symm)
        ⟨hrests, ⟨hfine, hfits⟩, hlast, hwaiting, hallow⟩
    | attach num =>
      exact h.setPc hplain trivial (by simp only [current, hpc, WriterPc.call]) (.inl hlock.symm)
        ⟨hrests, ⟨hfine, hfits⟩, hlast, hwaiting, hallow⟩
  · exact h.setPc hplain trivial (by simp only [current, hpc, WriterPc.call]) (.inl hlock.symm)
      ⟨hrests, hfine, hfits⟩

/-- The unlock after the test has failed. -/
theorem StreamInv.lastRefuse (h : StreamInv k start s v) {use : LastUse} {c : WriteCall}
    {p : PbufPtr} {alloc : Option (List PbufPtr)} (hpc : s.writer = .lastRefuse use c p)
    (hs : s.writerStep cfg alloc = some s') : StreamInv k start s' v := by
  have hat := h.writer
  simp only [WriterIs, hpc] at hat
  obtain ⟨hrests, hfine, hfits⟩ := hat
  have hlock : s.writerLock = some p := by simp only [writerLock, hpc]
  simp only [writerStep, hpc] at hs
  exact Option.some.inj hs ▸ h.lastFails (by rw [hpc]; trivial) (by rw [hpc]; rfl) hrests hfine
    hfits
    (keeps_unlock s.heap p) fun _ hw => h.locks.writerRelease hlock hw

/-- `gazelle_ring_lastover` in `merge_data_lastpbuf`. -/
theorem StreamInv.mergeOver (h : StreamInv k start s v) {c : WriteCall} {p : PbufPtr}
    {alloc : Option (List PbufPtr)} (hpc : s.writer = .mergeOver c p)
    (hs : s.writerStep cfg alloc = some s') : StreamInv k start s' v := by
  have hat := h.writer
  simp only [WriterIs, hpc] at hat
  obtain ⟨hrests, hfine, -⟩ := hat
  have hplain : s.writer.Plain := by rw [hpc]; trivial
  have hlock : s.writerLock = some p := by simp only [writerLock, hpc]
  simp only [writerStep, hpc] at hs
  obtain rfl := Option.some.inj hs
  split
  · exact h.setPlain hplain trivial (by simp only [current, hpc, WriterPc.call])
      (keeps_unlock s.heap p) ⟨hrests, hfine.sendLen_le⟩ (h.locks.writerRelease hlock rfl)
  · rename_i hlt
    exact h.setPlain hplain trivial (by simp only [current, hpc, WriterPc.call])
      (keeps_unlock s.heap p) ⟨hrests, hfine, Nat.not_le.1 hlt⟩ (h.locks.writerRelease hlock rfl)

/-- `gazelle_ring_lastover` after `app_direct_attach`. -/
theorem StreamInv.attachOver (h : StreamInv k start s v) {c : WriteCall} {p : PbufPtr}
    {alloc : Option (List PbufPtr)} (hpc : s.writer = .attachOver c p)
    (hs : s.writerStep cfg alloc = some s') : StreamInv k start s' v := by
  have hat := h.writer
  simp only [WriterIs, hpc] at hat
  have hlock : s.writerLock = some p := by simp only [writerLock, hpc]
  simp only [writerStep, hpc] at hs
  exact Option.some.inj hs ▸ h.setPlain (by rw [hpc]; trivial) trivial
    (by simp only [current, hpc, WriterPc.call]) (keeps_unlock s.heap p) ⟨hat.1, hat.2.1⟩
    (h.locks.writerRelease hlock rfl)

/-- The store of the destination. -/
theorem StreamInv.attachAddr (h : StreamInv k start s v) {c : WriteCall} {p : PbufPtr}
    {alloc : Option (List PbufPtr)} (hpc : s.writer = .attachAddr c p)
    (hs : s.writerStep cfg alloc = some s') : StreamInv k start s' v := by
  have hat := h.writer
  simp only [WriterIs, hpc] at hat
  simp only [writerStep, hpc] at hs
  exact Option.some.inj hs ▸ h.setPlain (by rw [hpc]; trivial) trivial
    (by simp only [current, hpc, WriterPc.call]) (fun _ => ⟨.refl _, rfl, rfl⟩) hat
    (h.locks.congr (.inr rfl) (.inl rfl) fun _ _ => rfl)

/-- The return of the call. -/
theorem StreamInv.ret (h : StreamInv k start s v) {c : WriteCall} {alloc : Option (List PbufPtr)}
    (hpc : s.writer = .ret c) (hs : s.writerStep cfg alloc = some s') :
    StreamInv k start s' v := by
  have hat := h.writer
  simp only [WriterIs, hpc] at hat
  have hplain : s.writer.Plain := by rw [hpc]; trivial
  simp only [writerStep, hpc] at hs
  obtain rfl := Option.some.inj hs
  refine h.setWriter ⟨⟨rfl, rfl, rfl⟩, rfl, rfl, rfl, rfl, rfl⟩ h.ring h.behind rfl rfl rfl
    (filledChains_eq_nil hplain).symm (claimed_eq_nil hplain).symm (fun _ _ => .refl _)
    (fun _ _ => rfl) (fun q _ => (lastOf_eq hplain q).symm) ?_ hat.1
    (h.locks.congr (.inr rfl) (.inl rfl) fun _ _ => rfl)
  rw [acceptedBytes_of_call (s := s) (by rw [hpc]; rfl), acceptedBytes]
  simp only [current, WriterPc.call, List.append_nil]
  split
  · rename_i hzero
    rw [hzero, List.take_zero, List.append_nil]
  · rw [List.flatMap_append, List.flatMap_singleton]

/-! ### `merge_data_lastpbuf` and `app_direct_attach` -/

/-- The lock of the stack is the one of `send_pre_del`. -/
theorem sendPreDel_of_stackLock (hat : s.StackAt k) {p : PbufPtr} (hp : s.stackLock = some p) :
    s.sendPreDel = some p := by
  unfold stackLock at hp
  unfold StackAt at hat
  split at hp
  case h_4 => cases hp
  all_goals
    rename_i hpc
    rw [hpc] at hat
    exact Option.some.inj hp ▸ hat.2

/-- The chain of the pbuf that the application has: at the end of the ring, or with the stack, which
has nothing else then. -/
structure LastChain (s : WriteSys) (v : StreamView) (p : PbufPtr) (t : List PbufPtr) : Prop where
  /-- It is linked. -/
  chained : s.heap.Chained (p, t)
  /-- Its last pbuf. -/
  getLast : (p :: t).getLast? = some (s.lastOf p)
  /-- Where it is. -/
  cases : (∃ ws, v.chains = ws ++ [(p, t)]) ∨
    (s.sendPreDel = some p ∧ v.rest = t ∧ v.left = [] ∧ v.chains = [] ∧ s.returned = none)

theorem StreamInv.lastChain (h : StreamInv k start s v) {p : PbufPtr} (hp : s.Holding p) :
    ∃ t, LastChain s v p t := by
  rcases h.last_cases hp.last hp.waiting with ⟨ws, t, hchains⟩ | ⟨hpre, hchains⟩
  · have hmem : (p, t) ∈ v.chains ++ s.filledChains :=
      List.mem_append_left _ (hchains ▸ List.mem_append_right _ (List.mem_singleton_self _))
    exact ⟨t, h.stock.chained _ hmem, h.lasts _ hmem, .inl ⟨ws, hchains⟩⟩
  · obtain ⟨hleft, hreturned, hlast⟩ := h.untouched p hpre hp.last hp.allowIn
    exact ⟨v.rest, h.stackChains.pre_some p hpre, hlast,
      .inr ⟨hpre, rfl, hleft, hchains, hreturned⟩⟩

/-- The chain is the end of what the stack has and gets. -/
theorem LastChain.eq_append {p : PbufPtr} {t : List PbufPtr} (h : LastChain s v p t) :
    ∃ l, s.taken v.rest v.left ++ cells v.chains = l ++ p :: t := by
  rcases h.cases with ⟨ws, hchains⟩ | ⟨hpre, rfl, hleft, hchains, -⟩
  · refine ⟨s.taken v.rest v.left ++ cells ws, ?_⟩
    rw [hchains, cells_append, cells_cons, cells_nil, List.append_nil, List.append_assoc]
  · refine ⟨[], ?_⟩
    rw [taken, hpre, hleft, hchains, cells_nil, List.append_nil, List.append_nil]
    rfl

/-- The pbufs with the stack and in the ring are different. -/
theorem StreamInv.nodup (h : StreamInv k start s v) :
    (s.taken v.rest v.left ++ cells v.chains).Nodup := by
  have hnodup := h.stock.owned.nodup
  rw [cells_append, List.append_assoc, ← List.append_assoc] at hnodup
  exact (List.nodup_append.1 hnodup).1

/-- Such a pbuf is not blank. -/
theorem StreamInv.notMem_unfilled (h : StreamInv k start s v) {p : PbufPtr}
    (hp : p ∈ s.taken v.rest v.left ++ cells v.chains) : p ∉ s.unfilled := by
  refine h.stock.notMem_unfilled ?_
  rw [cells_append]
  simp only [List.mem_append] at hp ⊢
  tauto

/-- The data goes behind what the last pbuf holds. -/
theorem StreamInv.mergeData (hops : cfg.ops.Lawful) (h : StreamInv k start s v) {c : WriteCall}
    {p : PbufPtr} {n : ℕ} (remainLen : BitVec 32) (hpc : s.writer = .merge c p)
    (hnext : (s.heap p).next = none) (hpos : 0 < n) (hn : n ≤ c.data.length)
    (hroom : (s.heap p).len.toNat + n ≤ mbufMaxDataLen) :
    StreamInv k start { s with
      heap := s.heap.modify p (Gazelle.mergeData cfg (c.data.take n))
      remainLen
      writer := .mergeOver { c with sendLen := n } p } v := by
  have hat := h.writer
  simp only [WriterIs, hpc] at hat
  obtain ⟨hrests, ⟨hfine, hzero, -⟩, hholding⟩ := hat
  have hplain : s.writer.Plain := by rw [hpc]; trivial
  have hlen : (c.data.take n).length = n := by rw [List.length_take, Nat.min_eq_left hn]
  obtain ⟨t, hlast⟩ := h.lastChain hholding
  -- without a next pbuf it is the end of everything
  have ht : t = [] := by
    have hchained : s.heap.Chain (s.heap p).next t := hlast.chained
    -- the chain ends in `p`, which therefore occurs in it once
    rw [hnext] at hchained
    exact Linked.eq_nil hchained
  obtain ⟨l, hl⟩ := hlast.eq_append
  rw [ht] at hl
  have hpl : p ∉ l := by
    have hnodup := h.nodup
    rw [hl] at hnodup
    exact fun hmem => (List.nodup_append.1 hnodup).2.2 p hmem p (List.mem_singleton_self p) rfl
  -- merging changes what `p` holds, not how it is linked
  have hlinks : ∀ q, (s.heap q).SameLinks
      (s.heap.modify p (Gazelle.mergeData cfg (c.data.take n)) q) := by
    intro q
    by_cases hq : q = p
    · rw [hq, SendHeap.modify_self]
      exact mergeData_sameLinks
    · rw [SendHeap.modify_of_ne hq]
      exact .refl _
  have hmem : p ∈ s.taken v.rest v.left ++ cells v.chains := by
    rw [hl]
    exact List.mem_append_right _ (List.mem_singleton_self p)
  -- the pbufs before `p` hold what they held, so the data stands at the end
  have hbytes : (s.heap.modify p (Gazelle.mergeData cfg (c.data.take n))).bytes (l ++ [p]) =
      s.heap.bytes (l ++ [p]) ++ c.data.take n := by
    have hmerge : (Gazelle.mergeData cfg (c.data.take n) (s.heap p)).bytes =
        (s.heap p).bytes ++ c.data.take n := by
      refine bytes_mergeData hops (List.length_pos_iff.1 (by rwa [hlen])) ?_
      have hmax : mbufMaxDataLen < 2 ^ 16 := by decide
      omega
    have hothers : ∀ q ∈ l, (s.heap.modify p (Gazelle.mergeData cfg (c.data.take n)) q).bytes =
        (s.heap q).bytes := by
      intro q hq
      rw [SendHeap.modify_of_ne fun heq : q = p => hpl (heq ▸ hq)]
    rw [SendHeap.bytes_append, SendHeap.bytes_append, SendHeap.bytes_cons, SendHeap.bytes_cons,
      SendHeap.modify_self, hmerge, SendHeap.bytes_congr hothers]
    simp only [SendHeap.bytes_nil, List.append_nil, List.append_assoc]
  have hsame : SameStack s { s with
      heap := s.heap.modify p (Gazelle.mergeData cfg (c.data.take n))
      remainLen
      writer := .mergeOver { c with sendLen := n } p } :=
    ⟨⟨rfl, rfl, rfl⟩, rfl, rfl, rfl, rfl, rfl⟩
  -- the ring and the stack are as before, only the bytes of the last pbuf are not
  refine h.congrSpot ⟨rfl, rfl, rfl, rfl, rfl, rfl, (filledChains_eq_nil hplain).symm,
      (claimed_eq_nil hplain).symm, ?_⟩ h.ring h.behind (.inl rfl)
    (fun q _ => ⟨(hlinks q).next, (hlinks q).place, (hlinks q).born⟩) (fun q hq => ?_)
    (fun q _ ha => (hlinks q).allowIn.symm.trans ha)
    (fun q _ => (hlinks q).last.trans (lastOf_eq hplain q).symm) ?_ ⟨hrests, ⟨hn, ?_, ?_⟩, ?_⟩
    (hsame.stackAt h.stack) (hsame.stackIs h.stackIs (fun q _ hclosed => ?_) h.stack)
    (h.locks.congr (.inl ?_) (.inl rfl) fun q _ => (hlinks q).locked)
  · rw [unfilled, unfilled, filledChains_eq_nil hplain]
    rfl
  · show (s.heap.modify p _ q).Blank
    rw [SendHeap.modify_of_ne fun heq : q = p => h.notMem_unfilled hmem (heq ▸ hq)]
    exact h.stock.blank q hq
  · -- what the call has written before is nothing, so the prefix that counts is the data merged now
    have hold := acceptedBytes_of_call (s := s) (by rw [hpc]; rfl)
    rw [hzero, List.take_zero, List.append_nil] at hold
    rw [acceptedBytes_of_call (c := { c with sendLen := n }) rfl]
    show s.accepted.flatMap Prod.fst ++ c.data.take n = s.committedBytes ++ _
    rw [hl, hbytes, ← List.append_assoc, ← hl, ← h.bytes, hold]
  · exact Nat.le_trans (Nat.le_add_left _ _) hroom
  · -- the pbufs still needed are no more than before
    refine Nat.lt_of_le_of_lt ?_ hfine.writeNum
    unfold writeNum
    rw [hzero]
    simp only
    exact Nat.div_le_div_right (by omega)
  · exact ⟨hholding.last, hholding.waiting, (hlinks p).allowIn.trans hholding.allowIn⟩
  · show (_ ∨ _)
    rw [(hlinks q).allowIn]
    exact hclosed
  · simp only [writerLock, hpc]

/-- The body of `merge_data_lastpbuf`. -/
theorem StreamInv.merge (hops : cfg.ops.Lawful) (h : StreamInv k start s v) {c : WriteCall}
    {p : PbufPtr} {alloc : Option (List PbufPtr)} (hpc : s.writer = .merge c p)
    (hs : s.writerStep cfg alloc = some s') : StreamInv k start s' v := by
  have hat := h.writer
  simp only [WriterIs, hpc] at hat
  obtain ⟨hrests, ⟨hfine, hzero, hdata⟩, hholding⟩ := hat
  have hpos := List.length_pos_iff.2 hdata
  simp only [writerStep, hpc, mergeStep] at hs
  split at hs
  · exact Option.some.inj hs ▸ h.setPc (by rw [hpc]; trivial) trivial
      (by simp only [current, hpc, WriterPc.call]) (.inl (by simp only [writerLock, hpc]))
      ⟨hrests, hfine, hholding.last, hholding.waiting, hholding.allowIn⟩
  · rename_i hroom
    rw [not_or, Option.not_isSome_iff_eq_none, Nat.not_le] at hroom
    obtain ⟨hnext, hlt⟩ := hroom
    split at hs
    · rename_i hle
      have hmerge := h.mergeData hops (n := c.data.length)
        (BitVec.ofNat 32 (mbufMaxDataLen - (s.heap p).len.toNat - c.data.length)) hpc
        hnext hpos le_rfl (by omega)
      rw [List.take_length] at hmerge
      exact Option.some.inj hs ▸ hmerge
    · rename_i hgt
      exact Option.some.inj hs ▸ h.mergeData hops 0 hpc hnext (by omega) (by omega) (by omega)

/-- The chain of `p` has got `mbufs` at its end: what holds of the lists after it. -/
structure Extended (s : WriteSys) (v v' : StreamView) (heap' : SendHeap) (p : PbufPtr)
    (mbufs : List PbufPtr) : Prop where
  /-- The pbufs of the ring are the same. -/
  heads : v'.chains.map Prod.fst = v.chains.map Prod.fst
  /-- The new pbufs are at the end of everything. -/
  cells : s.taken v'.rest v'.left ++ cells v'.chains =
    (s.taken v.rest v.left ++ cells v.chains) ++ mbufs
  /-- The chains of the stack are linked. -/
  stackChains : StackChains heap' s.sendPreDel s.sendLastdata v'.rest v'.left
  /-- The chains of the ring are linked. -/
  chained : ∀ w ∈ v'.chains, heap'.Chained w
  /-- Their last pbufs are right. -/
  lasts : ∀ w ∈ v'.chains, (w.1 :: w.2).getLast? = some (heap' w.1).last
  /-- If the stack has the pbuf, it has nothing else. -/
  untouched : s.sendPreDel = some p →
    v'.left = [] ∧ s.returned = none ∧ (p :: v'.rest).getLast? = some (heap' p).last
  /-- Nothing is hung behind what the stack has returned. -/
  returned : s.returned = none ∨ v'.rest = v.rest
  /-- The pbuf is behind no other one. -/
  apart : p ∉ v'.rest ++ v'.left

/-- The last pbuf of a chain that has got more. -/
theorem getLast_extended {p : PbufPtr} {t mbufs : List PbufPtr} (hne : mbufs ≠ []) :
    (p :: (t ++ mbufs)).getLast? = some (mbufs.getLastD p) := by
  rw [← List.cons_append, List.getLast?_append_of_ne_nil _ hne, List.getLastD_eq_getLast?]
  obtain ⟨q, hq⟩ := Option.isSome_iff_exists.1 (List.getLast?_isSome.2 hne)
  rw [hq, Option.getD_some]

theorem StreamInv.extend (h : StreamInv k start s v) {heap' : SendHeap} {inits : ℕ}
    {p z : PbufPtr} {t mbufs : List PbufPtr} {data : List Byte} (hplain : s.writer.Plain)
    (hp : s.ring.confirmed.getLast? = some p) (hlast : LastChain s v p t) (hz : s.lastOf p = z)
    (ha : Attached s.heap heap' inits p z mbufs data) (hchained : heap'.Chained (p, t ++ mbufs))
    (hdisjoint : ∀ q ∈ s.taken v.rest v.left ++ Linked.cells v.chains, q ∉ mbufs)
    (hne : mbufs ≠ []) : ∃ v', Extended s v v' heap' p mbufs := by
  have hnodup := h.nodup
  -- the end of the chain is where the new pbufs hang
  have hzmem : z ∈ p :: t := List.mem_of_getLast? (hz ▸ hlast.getLast)
  have hfilled := filledChains_eq_nil hplain
  rcases hlast.cases with ⟨ws, hchains⟩ | ⟨hpre, hrest, hleft, hchains, hreturned⟩
  · -- the chain is the last one of the ring
    have hcells : Linked.cells v.chains = Linked.cells ws ++ (p :: t) := by
      rw [hchains, cells_append, cells_cons, cells_nil, List.append_nil]
    rw [hcells] at hnodup hdisjoint
    obtain ⟨-, hring, hstack⟩ := List.nodup_append.1 hnodup
    have hnext : ∀ q ∈ s.taken v.rest v.left, (heap' q).next = (s.heap q).next := fun q hq =>
      ha.next q (hdisjoint q (List.mem_append_left _ hq)) fun heq =>
        hstack q hq z (List.mem_append_right _ hzmem) heq
    have hws : ∀ w ∈ ws, w ∈ v.chains ++ s.filledChains := fun w hw =>
      List.mem_append_left _ (hchains ▸ List.mem_append_left _ hw)
    -- the other chains of the ring are neither in the new pbufs nor in this chain
    have hwsmem : ∀ w ∈ ws, ∀ q ∈ w.1 :: w.2, q ∉ mbufs ∧ q ∉ p :: t := fun w hw q hq =>
      ⟨hdisjoint q (List.mem_append_right _ (List.mem_append_left _ (mem_cells_of_mem hw hq))),
        fun hmem => (List.nodup_append.1 hring).2.2 q (mem_cells_of_mem hw hq) q hmem rfl⟩
    refine ⟨{ v with chains := ws ++ [(p, t ++ mbufs)] }, ?_, ?_, ⟨h.stackChains.pre_none,
      fun q hq => ?_, ?_, h.stackChains.one⟩, fun w hw => ?_, fun w hw => ?_, fun hpre => ?_,
      .inr rfl, h.apart p hp⟩
    · simp only [hchains, List.map_append, List.map_cons, List.map_nil]
    · rw [hcells]
      simp only [cells_append, cells_cons, cells_nil, List.append_nil, List.append_assoc,
        List.cons_append]
    · rw [hnext q (by rw [taken, hq]; exact List.mem_cons_self)]
      exact (h.stackChains.pre_some q hq).congr fun r hr => hnext r
        (List.mem_append_right _ (List.mem_append_left _ hr))
    · exact h.stackChains.chain_left.congr fun r hr => hnext r
        (List.mem_append_right _ (List.mem_append_right _ hr))
    · rcases List.mem_append.1 hw with hw | hw
      · exact SendHeap.Chained.congr (h.stock.chained w (hws w hw)) fun q hq =>
          ha.next q (hwsmem w hw q hq).1 fun heq => (hwsmem w hw q hq).2 (heq ▸ hzmem)
      · exact List.mem_singleton.1 hw ▸ hchained
    · rcases List.mem_append.1 hw with hw | hw
      · obtain ⟨hm, hpt⟩ := hwsmem w hw w.1 List.mem_cons_self
        rw [h.lasts w (hws w hw), lastOf_eq hplain,
          ha.last w.1 hm fun heq => hpt (heq ▸ List.mem_cons_self)]
      · rw [List.mem_singleton.1 hw, ha.last_self]
        exact getLast_extended hne
    · -- the stack cannot hold the chain of `p`, which is still in the ring
      have hmem : p ∈ s.taken v.rest v.left := by
        rw [taken, hpre]
        exact List.mem_cons_self
      exact absurd rfl (hstack p hmem p (List.mem_append_right _ List.mem_cons_self))
  · -- the stack has the chain
    -- the stack has taken the end of the chain, so `p` is apart from it
    have hpt : p ∉ t := by
      have happart := h.apart p hp
      rw [hrest] at happart
      exact fun hmem => happart (List.mem_append_left _ hmem)
    have hpm : p ∉ mbufs := hdisjoint p (List.mem_append_left _
      (by rw [taken, hpre]; exact List.mem_cons_self))
    have hchain := h.stackChains.chain_left
    rw [hleft] at hchain
    refine ⟨{ v with rest := t ++ mbufs }, rfl, ?_, ⟨fun hnone => ?_, fun q hq => ?_, ?_,
      .inr hleft⟩, fun w hw => ?_, fun w hw => ?_, fun _ => ⟨hleft, hreturned, ?_⟩,
      .inl hreturned, ?_⟩
    · simp only [taken, hpre, hleft, hrest, hchains, cells_nil, List.append_nil,
        Option.toList_some, List.append_assoc]
    · rw [hpre] at hnone
      cases hnone
    · obtain rfl : p = q := Option.some.inj (hpre.symm.trans hq)
      exact hchained
    · rw [hleft]
      exact hchain
    · simp only [hchains] at hw
      cases hw
    · simp only [hchains] at hw
      cases hw
    · rw [ha.last_self]
      exact getLast_extended hne
    · rw [hleft, List.append_nil, List.mem_append, not_or]
      exact ⟨hpt, hpm⟩

/-- `app_direct_attach` has hung `mbufs` behind `z`, the end of the chain of `p`. -/
structure Attaches (cfg : SendCfg) (s : WriteSys) (v v' : StreamView) (c : WriteCall)
    (p z : PbufPtr) (mbufs : List PbufPtr) (heap' : SendHeap) : Prop where
  /-- The state after it. -/
  state : s.attachStep cfg c p mbufs = { s with
    heap := heap'
    addr := initAddrs s.addr mbufs
    inits := s.inits + mbufs.length
    writer := .attachOver { c with sendLen := c.sendLen + c.left.length } p }
  /-- What the stores have done. -/
  attached : Attached s.heap heap' s.inits p z mbufs c.left
  /-- The lists after it. -/
  extended : Extended s v v' heap' p mbufs
  /-- The pbuf is in the ring or with the stack. -/
  head_mem : p ∈ s.taken v.rest v.left ++ cells v.chains
  /-- So is the end of its chain. -/
  last_mem : z ∈ s.taken v.rest v.left ++ cells v.chains

/-- No pbuf of the send path comes from an allocation. -/
theorem StreamInv.notMem_of_alloc (h : StreamInv k start s v) {n : ℕ} {mbufs : List PbufPtr}
    (halloc : AllocOk s.heap n mbufs) {q : PbufPtr} (hq : q ∈ s.stockPbufs v) : q ∉ mbufs :=
  fun hmem => h.stock.notMem (halloc.place_ne hmem) hq

/-- The stores of `app_direct_attach` on the chain that the application holds. -/
theorem StreamInv.exists_attaches (hops : cfg.ops.Lawful) (h : StreamInv k start s v)
    {c : WriteCall} {p : PbufPtr} {n : ℕ} {mbufs : List PbufPtr} (hplain : s.writer.Plain)
    (hholding : s.Holding p) (halloc : AllocOk s.heap n mbufs) (hfits : Fits mbufs.length c.left) :
    ∃ v' z heap', Attaches cfg s v v' c p z mbufs heap' := by
  obtain ⟨t, hlast⟩ := h.lastChain hholding
  obtain ⟨l, hl⟩ := hlast.eq_append
  obtain ⟨z, hz⟩ : ∃ z, s.lastOf p = z := ⟨_, rfl⟩
  have hgetLast := hlast.getLast
  rw [hz] at hgetLast
  have hdisjoint : ∀ q ∈ s.taken v.rest v.left ++ cells v.chains, q ∉ mbufs := fun q hq =>
    h.notMem_of_alloc halloc (mem_stockPbufs hq)
  have hmem : ∀ q ∈ p :: t, q ∈ s.taken v.rest v.left ++ cells v.chains := fun q hq => by
    rw [hl]
    exact List.mem_append_right _ hq
  have hzmem := hmem z (List.mem_of_getLast? hgetLast)
  have hptnodup : (p :: t).Nodup := by
    have hnodup := h.nodup
    rw [hl] at hnodup
    exact (List.nodup_append.1 hnodup).2.1
  have hpm : p ∉ mbufs := hdisjoint p (hmem p List.mem_cons_self)
  have hne : mbufs ≠ [] := List.length_pos_iff.1 hfits.1
  obtain ⟨hattached, hchained, hwritten⟩ := attached_hangChain hops halloc.2.1 hfits
    (hdisjoint z hzmem) hlast.chained hptnodup hgetLast fun q hq => hdisjoint q (hmem q hq)
  obtain ⟨written, hw⟩ : ∃ written, doAppWrite cfg
      (linkPbufs (initMbufs cfg s.heap s.inits mbufs) mbufs) mbufs c.left = written := ⟨_, rfl⟩
  rw [hw] at hattached hchained hwritten
  -- the source finds the end of the chain in `last`
  have hwlast : (written.1 p).last = z := by
    rw [← hw, doAppWrite_of_notMem hpm, linkPbufs_of_notMem hpm, initMbufs_of_notMem hpm, ← hz,
      lastOf_eq hplain]
  obtain ⟨v', hv⟩ := h.extend hplain hholding.last hlast hz hattached hchained hdisjoint hne
  refine ⟨v', z, _, ?_, hattached, hv, hmem p List.mem_cons_self, hzmem⟩
  rw [← hwritten, ← hwlast, ← hw]
  rfl

section Attach

variable {v' : StreamView} {c : WriteCall} {p z : PbufPtr} {n : ℕ} {mbufs : List PbufPtr}
  {heap' : SendHeap}

/-- The blank pbufs are not in the chain. -/
theorem StreamInv.attach_blankLasts (h : StreamInv k start s v) (hplain : s.writer.Plain)
    (halloc : AllocOk s.heap n mbufs) (ha : Attaches cfg s v v' c p z mbufs heap') {q : PbufPtr}
    (hq : q ∈ s.unfilled) : (heap' q).last = q := by
  have hqmem : q ∈ s.stockPbufs v :=
    List.mem_append_right _ (List.mem_append_right _ (List.mem_append_right _ hq))
  have hqp : q ≠ p := fun heq => h.notMem_unfilled ha.head_mem (heq ▸ hq)
  calc (heap' q).last
      = (s.heap q).last := ha.attached.last q (h.notMem_of_alloc halloc hqmem) hqp
    _ = s.lastOf q := (lastOf_eq hplain q).symm
    _ = q := h.blankLasts q hq

/-- The pbufs attached hold what was left of the data. -/
theorem StreamInv.attach_bytes (h : StreamInv k start s v) (hcall : s.writer.call = some c)
    (halloc : AllocOk s.heap n mbufs) (ha : Attaches cfg s v v' c p z mbufs heap')
    (hsent : c.sendLen + c.left.length = c.data.length) :
    s.accepted.flatMap Prod.fst ++ c.data.take (c.sendLen + c.left.length) =
      s.committedBytes ++ heap'.bytes (s.taken v'.rest v'.left ++ cells v'.chains) := by
  have hbytes : heap'.bytes (s.taken v.rest v.left ++ cells v.chains) =
      s.heap.bytes (s.taken v.rest v.left ++ cells v.chains) := by
    refine SendHeap.bytes_congr fun q hq => ?_
    obtain ⟨harea, hlen, -⟩ :=
      ha.attached.body q (h.notMem_of_alloc halloc (mem_stockPbufs hq))
    rw [SendPbuf.bytes, SendPbuf.bytes, harea, hlen]
  rw [ha.extended.cells, SendHeap.bytes_append, ha.attached.bytes, hbytes, ← List.append_assoc,
    ← h.bytes, acceptedBytes_of_call hcall, hsent, List.take_length, List.append_assoc,
    WriteCall.left, List.take_append_drop]

/-- `app_direct_attach` gets its pbufs. -/
theorem StreamInv.attachStep (hops : cfg.ops.Lawful) (h : StreamInv k start s v) {num : U32}
    (hpc : s.writer = .attach c p num) (halloc : AllocOk s.heap num.toNat mbufs) :
    ∃ v', StreamInv k start (s.attachStep cfg c p mbufs) v' := by
  have hat := h.writer
  simp only [WriterIs, hpc] at hat
  obtain ⟨hrests, ⟨hfine, hfits⟩, hholding⟩ := hat
  rw [← halloc.1] at hfits
  have hplain : s.writer.Plain := by rw [hpc]; trivial
  have hlock : s.writerLock = some p := by simp only [writerLock, hpc]
  -- the chain of the last pbuf, with the new pbufs behind it
  obtain ⟨v', z, heap', ha⟩ := h.exists_attaches hops hplain hholding halloc hfits
  have hv := ha.extended
  -- the pbufs that were there keep everything except a `next` or a `last`
  have hbody := fun q (hq : q ∈ s.stockPbufs v) => ha.attached.body q (h.notMem_of_alloc halloc hq)
  have hallow : ∀ q ∈ s.stockPbufs v, (heap' q).allowIn = (s.heap q).allowIn := fun q hq =>
    (hbody q hq).2.2.2.2.2.1
  have hlocked : ∀ q ∈ s.stockPbufs v, (heap' q).locked = (s.heap q).locked := fun q hq =>
    (hbody q hq).2.2.2.2.2.2
  have hpremem : ∀ q, s.sendPreDel = some q → q ∈ s.stockPbufs v := fun q hq =>
    mem_stockPbufs (List.mem_append_left _ (by rw [taken, hq]; exact List.mem_cons_self))
  have hsame : SameStack s (s.attachStep cfg c p mbufs) :=
    ⟨⟨rfl, rfl, rfl⟩, rfl, rfl, rfl, rfl, rfl⟩
  -- the call writes all that is left
  have hsent : c.sendLen + c.left.length = c.data.length := by
    rw [WriteCall.left, List.length_drop]
    have := hfine.sendLen_le
    omega
  -- nothing is filled at this point, the blank pbufs are those not read and those replenishing
  have hunfilled : s.unfilled = s.ring.accepted.drop s.ring.confirmed.length ++ s.replenishing := by
    rw [unfilled, filledChains_eq_nil hplain]
    rfl
  rw [ha.state] at hsame ⊢
  refine ⟨v', h.ring, h.behind, fun q hq => ?_, ⟨hrests, hsent.le, hholding.last, hholding.waiting,
      (hallow p (mem_stockPbufs ha.head_mem)).trans hholding.allowIn⟩,
    hsame.stackAt h.stack, hsame.stackIs h.stackIs (fun q hq hclosed => ?_) h.stack,
    h.locks.congr (.inl hlock.symm) (.inl rfl) fun q hq => ?_, hv.heads.trans h.heads,
    hv.stackChains, ?_, ?_, fun q hq => ?_, fun q hq hlastq _ => ?_, fun q hq => ?_, ?_⟩
  · -- the stack has given `sendPreDel` back, and if so its rest is the same
    obtain ⟨hpre, hrest⟩ := h.returned q hq
    refine ⟨hpre, ?_⟩
    rcases hv.returned with hnone | heq
    · rw [hnone] at hq
      cases hq
    · exact heq.trans hrest
  · -- a connection closed stays closed
    show (_ ∨ _)
    rw [hallow q (hpremem q hq)]
    exact hclosed
  · -- the lock is on `p` or on what the stack sends
    rcases hq with hq | hq
    · obtain rfl : p = q := Option.some.inj (hlock.symm.trans hq)
      exact hlocked p (mem_stockPbufs ha.head_mem)
    · exact hlocked q (hpremem q (sendPreDel_of_stackLock h.stack hq))
  · have hstock := h.stock
    -- the attached pbufs come from the allocator and join the stock
    rw [filledChains_eq_nil hplain, claimed_eq_nil hplain, List.append_nil] at hstock
    have hnew := hstock.attach ha.attached halloc.2.1 (fun q hq => halloc.place_ne hq) ha.last_mem
      hv.cells hv.chained
    rw [hunfilled] at hnew
    show StreamStock heap' _ _ _ (v'.chains ++ []) [] _
    rw [List.append_nil]
    exact hnew
  · show ∀ w ∈ v'.chains ++ [], _
    rw [List.append_nil]
    exact hv.lasts
  · exact h.attach_blankLasts hplain halloc ha (hunfilled.symm ▸ hq)
  · obtain rfl : p = q := Option.some.inj (hholding.last.symm.trans hlastq)
    exact hv.untouched hq
  · obtain rfl : p = q := Option.some.inj (hholding.last.symm.trans hq)
    exact hv.apart
  · rw [acceptedBytes_of_call (c := { c with sendLen := c.sendLen + c.left.length }) rfl]
    exact h.attach_bytes (by rw [hpc]; rfl) halloc ha hsent

end Attach

/-- `app_direct_attach`. -/
theorem StreamInv.attach (hops : cfg.ops.Lawful) (h : StreamInv k start s v) {c : WriteCall}
    {p : PbufPtr} {num : U32} {alloc : Option (List PbufPtr)} (hpc : s.writer = .attach c p num)
    (hs : s.writerStep cfg alloc = some s') : ∃ v', StreamInv k start s' v' := by
  have hat := h.writer
  simp only [WriterIs, hpc] at hat
  obtain ⟨hrests, ⟨hfine, -⟩, hholding⟩ := hat
  simp only [writerStep, hpc] at hs
  split at hs
  · exact ⟨v, Option.some.inj hs ▸ h.setPc (by rw [hpc]; trivial) trivial
      (by simp only [current, hpc, WriterPc.call]) (.inl (by simp only [writerLock, hpc]))
      ⟨hrests, hfine.sendLen_le, hholding.last, hholding.waiting, hholding.allowIn⟩⟩
  · split at hs
    · rename_i halloc
      exact Option.some.inj hs ▸ h.attachStep hops hpc halloc
    · cases hs

/-! ### The choice of the way -/

/-- A step of the application in the ring that confirms nothing. -/
theorem StreamInv.setRing (hk : k ≤ 31) (h : StreamInv k start s v) {ring : RingSys PbufPtr}
    {w : WriterPc} {a : RingAct PbufPtr} (ha : a.isReader) (hring : s.ring.step a = some ring)
    (hconf : ring.confirmed = s.ring.confirmed)
    (hfilled : filledChains { s with writer := w } = s.filledChains)
    (hclaimed : claimed { s with writer := w } = s.claimed)
    (hlast : ∀ q, lastOf { s with writer := w } q = s.lastOf q)
    (hcurrent : acceptedBytes { s with writer := w } = s.acceptedBytes)
    (hlock : writerLock { s with writer := w } = none)
    (hwriter : WriterIs start { s with ring, writer := w }) :
    StreamInv k start { s with ring, writer := w } v :=
  h.setWriter ⟨RingSys.sameOwner_of_readerAct ha hring, rfl, rfl, rfl, rfl, rfl⟩
    (h.ring.step hk hring) (h.behind.step hk h.ring hring) hconf rfl rfl hfilled hclaimed
    (fun _ _ => .refl _) (fun _ _ => rfl) (fun q _ => hlast q) hcurrent hwriter
    (h.locks.congr (.inr hlock) (.inl rfl) fun _ _ => rfl)

/-- The call of `gazelle_ring_read` in `app_buff_write`. -/
theorem StreamInv.buffCall (hk : k ≤ 31) (h : StreamInv k start s v) {c cut : WriteCall}
    {num : U32} {ring : RingSys PbufPtr} (hpc : s.writer = .count c) (hrests : ReaderRests s.ring)
    (hle : cut.sendLen ≤ cut.data.length) (hfits : Fits num.toNat cut.left)
    (hsent : cut.data.take cut.sendLen = c.data.take c.sendLen)
    (hcount : num ≤ s.ring.ring.gazelleRingReadableCount)
    (hring : s.ring.step (.read num) = some ring) :
    StreamInv k start { s with ring, writer := .buffRead cut num } v := by
  obtain ⟨out, hrest⟩ := hrests
  have hread := RingSys.fullReading_of_call hk h.ring hcount hring
  have hconfirmed := hread.confirmed
  rw [hrest.readOut, hrest.confirmed] at hread
  have hplain : s.writer.Plain := by rw [hpc]; trivial
  refine h.setRing hk rfl hring hconfirmed (filledChains_eq_nil hplain).symm
    (claimed_eq_nil hplain).symm (fun q => (lastOf_eq hplain q).symm) ?_ rfl
      ⟨⟨out, hread⟩, hle, hfits⟩
  rw [acceptedBytes_of_call (s := s) (c := c) (by rw [hpc]; rfl),
    acceptedBytes_of_call (c := cut) rfl, hsent]

/-- `write_stack_data` chooses how to write the data. -/
theorem StreamInv.countStep (hk : k ≤ 31) (h : StreamInv k start s v) {c : WriteCall}
    (hpc : s.writer = .count c) (hs : s.countStep cfg c = some s') : StreamInv k start s' v := by
  have hat := h.writer
  simp only [WriterIs, hpc] at hat
  obtain ⟨hrests, hfine, hlt⟩ := hat
  have hplain : s.writer.Plain := by rw [hpc]; trivial
  have hfits := hfine.fits hlt
  -- the number of pbufs is computed with 32 bits, which suffice for it
  have hnum : (BitVec.ofNat 32 (writeNum c)).toNat = writeNum c := by
    rw [BitVec.toNat_ofNat, Nat.mod_eq_of_lt hfine.writeNum]
  simp only [WriteSys.countStep] at hs
  -- no pbuf is free: one is attached behind the last one, or nothing is written
  split at hs
  · obtain rfl := Option.some.inj hs
    split
    · exact h.setPc hplain trivial (by simp only [current, hpc, WriterPc.call]) (.inr rfl)
        ⟨hrests, hfine, show Fits (BitVec.ofNat 32 (writeNum c)).toNat c.left from
          hnum.symm ▸ hfits⟩
    · exact h.setPc hplain trivial (by simp only [current, hpc, WriterPc.call]) (.inr rfl)
        ⟨hrests, hlt.le⟩
  rename_i havail
  have havailPos : 0 < s.ring.ring.gazelleRingReadableCount.toNat := by
    rw [Nat.pos_iff_ne_zero]
    exact fun hzero => havail (BitVec.eq_of_toNat_eq hzero)
  -- with `expand_send_ring` too few are free, and more are allocated
  split at hs
  · obtain rfl := Option.some.inj hs
    refine h.setPc hplain trivial (by simp only [current, hpc, WriterPc.call]) (.inr rfl)
      ⟨hrests, hlt.le, hnum.symm ▸ hfits, ?_⟩
    rw [h.ring.readableCount_toNat hk] at havailPos
    exact Nat.lt_of_sub_pos havailPos
  obtain ⟨ring, hring, rfl⟩ := Option.map_eq_some_iff.1 hs
  -- at most as many as are free are taken, and the data are cut to them
  by_cases hcut : s.ring.ring.gazelleRingReadableCount < BitVec.ofNat 32 (writeNum c)
  · simp only [if_pos hcut] at hring ⊢
    have hcutNat := hcut
    rw [BitVec.lt_def, hnum] at hcutNat
    obtain ⟨hcutFits, hle, hsent⟩ := hfine.fits_cut havailPos hcutNat rfl
    exact h.buffCall hk hpc hrests hle hcutFits hsent (BitVec.le_refl _) hring
  · simp only [if_neg hcut] at hring ⊢
    exact h.buffCall hk hpc hrests hlt.le (hnum.symm ▸ hfits) rfl (BitVec.not_lt.1 hcut) hring

/-! ### Blank pbufs are filled and confirmed -/

/-- A step of the application with pbufs that are neither with the stack nor wait for it. -/
theorem StreamInv.setStock (h : StreamInv k start s v) (hsame : SameStack s s')
    (hring : RingSys.RingInv k start s'.ring) (hbehind : RingSys.HoldsBehind start s'.ring)
    (hconf : s'.ring.confirmed = s.ring.confirmed)
    (hheap : ∀ q ∈ s.taken v.rest v.left ++ cells v.chains, s'.heap q = s.heap q)
    (hlastOf : ∀ q ∈ s.taken v.rest v.left ++ cells v.chains, s'.lastOf q = s.lastOf q)
    (hstock : StreamStock s'.heap s'.inits s'.committedBorn (s.taken v.rest v.left)
      (v.chains ++ s'.filledChains) s'.claimed s'.unfilled)
    (hlasts : ∀ w ∈ s'.filledChains, (w.1 :: w.2).getLast? = some (s'.lastOf w.1))
    (hblank : ∀ p ∈ s'.unfilled, s'.lastOf p = p) (hbytes : s'.acceptedBytes = s.acceptedBytes)
    (hwriter : s'.WriterIs start) (hlocks : s'.LockInv) : StreamInv k start s' v := by
  -- the stack has the same pbufs as before
  have htaken : s'.taken v.rest v.left = s.taken v.rest v.left := by
    rw [taken, taken, hsame.sendPreDel]
  have hpre : ∀ q, s.sendPreDel = some q → q ∈ s.taken v.rest v.left ++ cells v.chains :=
    fun q hq => List.mem_append_left _ (by rw [taken, hq]; exact List.mem_cons_self)
  refine ⟨hring, hbehind, fun q hq => ?_, hwriter, hsame.stackAt h.stack,
    hsame.stackIs h.stackIs (fun q hq hclosed => ?_) h.stack, hlocks,
    h.heads.trans (hsame.ringWaiting hconf).symm, ?_, ?_, fun w hw => ?_, hblank,
    fun q hq hlastq hallow => ?_, fun q hq => h.apart q (hconf ▸ hq), ?_⟩
  · -- the stack writes nothing, so what it has given back is the same
    rw [hsame.returned] at hq
    exact ⟨hsame.sendPreDel.trans (h.returned q hq).1, (h.returned q hq).2⟩
  · rw [ClosedOrCovered, hheap q (hpre q hq), hconf]
    exact hclosed
  · -- the chains of the stack are outside of the pbufs written
    rw [hsame.sendPreDel, hsame.sendLastdata]
    refine ⟨h.stackChains.pre_none, fun q hq => ?_, ?_, h.stackChains.one⟩
    · rw [hheap q (hpre q hq)]
      exact (h.stackChains.pre_some q hq).congr fun r hr => congrArg SendPbuf.next
        (hheap r (List.mem_append_left _ (List.mem_append_right _ (List.mem_append_left _ hr))))
    · exact h.stackChains.chain_left.congr fun r hr => congrArg SendPbuf.next
        (hheap r (List.mem_append_left _ (List.mem_append_right _ (List.mem_append_right _ hr))))
  · rw [htaken]
    exact hstock
  · -- a chain is one of the old ones or one that is being filled
    rcases List.mem_append.1 hw with hw | hw
    · rw [hlastOf _ (List.mem_append_right _ (mem_cells_of_mem hw List.mem_cons_self))]
      exact h.lasts w (List.mem_append_left _ hw)
    · exact hlasts w hw
  · rw [hsame.sendPreDel] at hq
    rw [hconf] at hlastq
    rw [hheap q (hpre q hq)] at hallow
    rw [hsame.returned, hlastOf q (hpre q hq)]
    exact h.untouched q hq hlastq hallow
  · rw [hbytes, htaken, committedBytes, hsame.committed,
      -- the bytes that count are those of chains that were not touched
      SendHeap.bytes_congr fun q hq => congrArg SendPbuf.bytes (hheap q hq)]
    exact h.bytes

/-- The pbufs with the stack and in the ring are not among those that are blank. -/
theorem StreamInv.notMem_of_unfilled (h : StreamInv k start s v) {pbufs rest : List PbufPtr}
    (hunfilled : s.unfilled = pbufs ++ rest) {q : PbufPtr}
    (hq : q ∈ s.taken v.rest v.left ++ cells v.chains) : q ∉ pbufs := fun hmem =>
  h.notMem_unfilled hq (hunfilled ▸ List.mem_append_left _ hmem)

/-- The pbufs read are the first of the blank ones. -/
theorem StreamInv.unfilled_eq_append (h : StreamInv k start s v) {out pbufs : List PbufPtr}
    (hfilled : s.filledChains = []) (hrest : RingSys.ReaderResting (out ++ pbufs) out s.ring) :
    s.unfilled = pbufs ++ (s.ring.accepted.drop (out.length + pbufs.length) ++ s.replenishing) := by
  obtain ⟨rest, haccepted⟩ := h.ring.readOut_prefix
  -- what was read is a prefix of what the ring was given
  rw [hrest.readOut] at haccepted
  have hdrop : s.ring.accepted.drop (out.length + pbufs.length) = rest := by
    rw [← haccepted, ← List.length_append, List.drop_left]
  rw [hdrop, unfilled, hfilled, hrest.confirmed, ← haccepted, List.append_assoc, List.length_nil,
    Nat.add_zero, List.drop_left, List.append_assoc]

/-- The store of `prod.tail`: the chains filled wait for the stack from now on. -/
theorem StreamInv.confirm (h : StreamInv k start s v) (hsame : SameStack s s')
    (hring : RingSys.RingInv k start s'.ring) (hbehind : RingSys.HoldsBehind start s'.ring)
    (hconf : s'.ring.confirmed = s.ring.confirmed ++ s.filledChains.map Prod.fst)
    (hheap : s'.heap = s.heap) (hinits : s'.inits = s.inits)
    (hborn : s'.committedBorn = s.committedBorn) (hfilled : s'.filledChains = [])
    (hclaimed : s'.claimed = s.claimed) (hlastOf : ∀ q, s'.lastOf q = s.lastOf q)
    (hbytes : s'.acceptedBytes = s.acceptedBytes ++ s.heap.bytes (cells s.filledChains))
    (hwriter : s'.WriterIs start) (hlocks : s'.LockInv) :
    StreamInv k start s' { v with chains := v.chains ++ s.filledChains } := by
  have htaken : s'.taken v.rest v.left = s.taken v.rest v.left := by
    rw [taken, taken, hsame.sendPreDel]
  have hunfilled : s'.unfilled = s.unfilled := by
    rw [unfilled, unfilled, hsame.replenishing, hsame.owner.accepted, hconf, hfilled,
      List.length_append, List.length_map, List.length_nil, Nat.add_zero]
  have hdequeued := h.ring.dequeued_le
  have hwaiting : s'.ringWaiting = s.ringWaiting ++ s.filledChains.map Prod.fst := by
    rw [ringWaiting, ringWaiting, hsame.inHand, hconf, hsame.owner.dequeued,
      List.drop_append_of_le_length hdequeued, List.append_assoc]
  -- what is confirmed now is not with the stack
  have hnew : ∀ q, s'.ring.confirmed.getLast? = some q → q ∈ s.taken v.rest v.left →
      s.ring.confirmed.getLast? = some q := by
    intro q hq hmem
    by_cases hnil : s.filledChains = []
    · rw [hconf, hnil, List.map_nil, List.append_nil] at hq
      exact hq
    · have hne : s.filledChains.map Prod.fst ≠ [] := fun heq => hnil (List.map_eq_nil_iff.1 heq)
      rw [hconf, List.getLast?_append_of_ne_nil _ hne] at hq
      obtain ⟨w, hw, rfl⟩ := List.mem_map.1 (List.mem_of_getLast? hq)
      have hcell : w.1 ∈ cells (v.chains ++ s.filledChains) :=
        mem_cells_of_mem (List.mem_append_right _ hw) List.mem_cons_self
      exact absurd rfl ((List.nodup_append.1 h.stock.owned.nodup).2.2 _ hmem _
        (List.mem_append_left _ hcell))
  have hpre : ∀ q, s.sendPreDel = some q → q ∈ s.taken v.rest v.left := fun q hq => by
    rw [taken, hq]
    exact List.mem_cons_self
  refine ⟨hring, hbehind, fun q hq => ?_, hwriter, hsame.stackAt h.stack,
    hsame.stackIs h.stackIs (fun q hq hclosed => ?_) h.stack, hlocks, ?_, ?_, ?_, fun w hw => ?_,
    fun q hq => ?_, fun q hq hlastq hallow => ?_, fun q hq hmem => ?_, ?_⟩
  · rw [hsame.returned] at hq
    exact ⟨hsame.sendPreDel.trans (h.returned q hq).1, (h.returned q hq).2⟩
  · rw [ClosedOrCovered, hheap]
    exact hclosed.imp id fun hne hq' => hne (hnew q hq' (hpre q hq))
  · rw [hwaiting, ← h.heads, List.map_append]
  · rw [hheap, hsame.sendPreDel, hsame.sendLastdata]
    exact h.stackChains
  · rw [hheap, hinits, hborn, htaken, hfilled, List.append_nil, hclaimed, hunfilled]
    exact h.stock
  · rw [hfilled, List.append_nil] at hw
    rw [hlastOf]
    exact h.lasts w hw
  · rw [hunfilled] at hq
    exact (hlastOf q).trans (h.blankLasts q hq)
  · rw [hsame.sendPreDel] at hq
    rw [hheap] at hallow
    rw [hsame.returned, hlastOf]
    exact h.untouched q hq (hnew q hlastq (hpre q hq)) hallow
  · have hin : q ∈ s.taken v.rest v.left := List.mem_append_right _ hmem
    exact h.apart q (hnew q hq hin) hmem
  · rw [hbytes, hheap, htaken, committedBytes, hsame.committed, h.bytes, cells_append,
      SendHeap.bytes_append, SendHeap.bytes_append, SendHeap.bytes_append]
    simp only [List.append_assoc]
    rfl

/-- The steps in the `gazelle_ring_read` of `app_buff_write`. -/
theorem StreamInv.buffRead (hk : k ≤ 31) (h : StreamInv k start s v) {c : WriteCall} {num : U32}
    {alloc : Option (List PbufPtr)} (hpc : s.writer = .buffRead c num)
    (hs : s.writerStep cfg alloc = some s') : StreamInv k start s' v := by
  have hat := h.writer
  simp only [WriterIs, hpc] at hat
  obtain ⟨⟨out, hread⟩, hle, hfits⟩ := hat
  have hplain : s.writer.Plain := by rw [hpc]; trivial
  have hcurrent : ∀ w : WriterPc, w.call = some c →
      acceptedBytes { s with writer := w } = s.acceptedBytes := by
    intro w hw
    rw [acceptedBytes_of_call (s := s) (c := c) (by rw [hpc]; rfl), acceptedBytes_of_call hw]
  simp only [writerStep, hpc] at hs
  obtain ⟨ring, hring, heq⟩ := Option.map_eq_some_iff.1 hs
  split at heq <;> subst heq
  · rename_i pbufs hdone
    obtain ⟨hreturned, hlen⟩ := hread.returned hdone
    have hconfirmed := hread.confirmed
    have hback := hring
    rw [RingSys.step, RingSys.readerReturn_eq (.inl ⟨_, hdone⟩)] at hback
    obtain rfl := Option.some.inj hback
    exact h.setRing hk rfl hring rfl (filledChains_eq_nil hplain).symm (claimed_eq_nil hplain).symm
      (fun q => (lastOf_eq hplain q).symm) (hcurrent _ rfl) rfl
      ⟨⟨out, rfl, hreturned, hconfirmed⟩, hle, hlen.symm ▸ hfits⟩
  · rename_i hnotdone
    have hnext := hread.readerStep hk h.ring (fun pbufs hdone => hnotdone pbufs hdone) hring
    exact h.setRing hk rfl hring (hnext.confirmed.trans hread.confirmed.symm)
      (filledChains_eq_nil hplain).symm (claimed_eq_nil hplain).symm
      (fun q => (lastOf_eq hplain q).symm) (hcurrent _ rfl) rfl ⟨⟨out, hnext⟩, hle, hfits⟩

/-- The call of `gazelle_ring_read_over` from outside the ring. -/
theorem confirming_of_resting {ring ring' : RingSys PbufPtr} {out conf : List PbufPtr}
    (hrest : RingSys.ReaderResting out conf ring) (hring : ring.step .readOver = some ring') :
    RingSys.Confirming out conf ring' ∧ ring'.reader ≠ .overDone ∧
      ring'.confirmed = ring.confirmed := by
  have hconfirming := hrest.readOver hring
  have hnotdone : ring'.reader ≠ .overDone := by
    simp only [RingSys.step, hrest.reader, Option.some.injEq] at hring
    rw [← hring]
    rintro ⟨⟩
  exact ⟨hconfirming, hnotdone,
    (hconfirming.confirmed_of_not_done hnotdone).trans hrest.confirmed.symm⟩

/-- `app_buff_write` writes the data. -/
theorem StreamInv.buffStep (hops : cfg.ops.Lawful) (hk : k ≤ 31) (h : StreamInv k start s v)
    {c : WriteCall} {pbufs : List PbufPtr} (hpc : s.writer = .buffFill c pbufs)
    (hs : s.buffStep cfg c pbufs = some s') : StreamInv k start s' v := by
  have hat := h.writer
  simp only [WriterIs, hpc] at hat
  obtain ⟨⟨out, hrest⟩, hle, hfits⟩ := hat
  have hplain : s.writer.Plain := by rw [hpc]; trivial
  have hfilled := filledChains_eq_nil hplain
  -- the copy writes the pbufs read, and the first load of `gazelle_ring_read_over` follows
  simp only [WriteSys.buffStep] at hs
  rw [← WriteCall.left] at hs
  obtain ⟨ring, hring, rfl⟩ := Option.map_eq_some_iff.1 hs
  obtain ⟨hconfirming, hnotdone, hconfirmed⟩ := confirming_of_resting hrest hring
  have howner := RingSys.sameOwner_of_readerAct rfl hring
  -- the pbufs read are the blank ones in front
  have hunfilled := h.unfilled_eq_append hfilled hrest
  have hstock := h.stock
  rw [hfilled, claimed_eq_nil hplain, hunfilled, List.append_nil] at hstock
  have hnodup : pbufs.Nodup := by
    have hall := hstock.owned.nodup
    rw [List.nil_append] at hall
    exact (List.nodup_append.1 (List.nodup_append.1 (List.nodup_append.1 hall).2.1).2.1).1
  have hblank : ∀ p ∈ pbufs, (s.heap p).Blank := fun p hp =>
    hstock.blank p (List.mem_append_left _ hp)
  -- nothing else is written, and no pbuf is linked otherwise
  have hothers : ∀ q, q ∉ pbufs → (doAppWrite cfg s.heap pbufs c.left).1 q = s.heap q :=
    fun q hq => doAppWrite_of_notMem hq
  have hlinks : ∀ q, (s.heap q).SameLinks ((doAppWrite cfg s.heap pbufs c.left).1 q) := fun q =>
    doAppWrite_sameLinks c.left q
  obtain ⟨hbytes, hwritten⟩ := doAppWrite_spec hops hnodup (fun p hp => (hblank p hp).len)
    (fun p hp => (hblank p hp).totLen) hfits
  have hfill := hstock.fill hlinks hothers
  have hsame : SameStack s { s with
      heap := (doAppWrite cfg s.heap pbufs c.left).1
      addr := storeAddrs s.addr c.addr pbufs
      ring
      writer := .buffOver c pbufs (doAppWrite cfg s.heap pbufs c.left).2 } :=
    ⟨howner, rfl, rfl, rfl, rfl, rfl⟩
  -- the chains with the stack and in the ring are apart from the pbufs read
  have hold : ∀ q ∈ s.taken v.rest v.left ++ cells v.chains, q ∉ pbufs := fun q hq =>
    h.notMem_of_unfilled hunfilled hq
  have hlast : ∀ q, ((doAppWrite cfg s.heap pbufs c.left).1 q).last = s.lastOf q := fun q =>
    (hlinks q).last.trans (lastOf_eq hplain q).symm
  -- the blank pbufs that remain are those behind the ones read
  have hrestUnfilled : ring.accepted.drop (ring.confirmed.length +
      (pbufs.map fun p => (p, ([] : List PbufPtr))).length) ++ s.replenishing =
        s.ring.accepted.drop (out.length + pbufs.length) ++ s.replenishing := by
    rw [howner.accepted, hconfirmed, hrest.confirmed, List.length_map]
  refine h.setStock hsame (h.ring.step hk hring) (h.behind.step hk h.ring hring) hconfirmed
    (fun q hq => hothers q (hold q hq)) (fun q _ => hlast q) ?_ (fun w hw => ?_) (fun q hq => ?_) ?_
    ⟨⟨out, hconfirming, hnotdone⟩, hle, hwritten, hbytes⟩
    (h.locks.congr (.inr rfl) (.inl rfl) fun q _ => (hlinks q).locked)
  · rw [unfilled, hsame.replenishing]
    show StreamStock _ _ _ _ _ _ (ring.accepted.drop (ring.confirmed.length +
      (pbufs.map fun p => (p, ([] : List PbufPtr))).length) ++ s.replenishing)
    rw [hrestUnfilled]
    exact hfill
  · -- a pbuf filled is a chain of its own, so it is its own last one
    obtain ⟨p, hp, rfl⟩ := List.mem_map.1 hw
    show some p = some ((doAppWrite cfg s.heap pbufs c.left).1 p).last
    rw [hlast, h.blankLasts p (hunfilled ▸ List.mem_append_left _ hp)]
  · rw [unfilled, hsame.replenishing] at hq
    have hq' : q ∈ s.unfilled := by
      rw [hunfilled, ← hrestUnfilled]
      exact List.mem_append_right _ hq
    exact (hlast q).trans (h.blankLasts q hq')
  · -- nothing is confirmed, so nothing new is accepted
    rw [acceptedBytes_of_call (s := s) (c := c) (by rw [hpc]; rfl),
      acceptedBytes_of_call (c := c) rfl]

/-- The steps in the `gazelle_ring_read_over` of `app_buff_write`. -/
theorem StreamInv.buffOver (hk : k ≤ 31) (h : StreamInv k start s v) {c : WriteCall}
    {pbufs : List PbufPtr} {written : ℕ} {alloc : Option (List PbufPtr)}
    (hpc : s.writer = .buffOver c pbufs written) (hs : s.writerStep cfg alloc = some s') :
    ∃ v', StreamInv k start s' v' := by
  have hat := h.writer
  simp only [WriterIs, hpc] at hat
  obtain ⟨⟨out, hover, hnotdone⟩, hle, hwritten, hdata⟩ := hat
  have hfilled : s.filledChains = pbufs.map fun p => (p, []) := by simp only [filledChains, hpc]
  have hclaimed : s.claimed = [] := by simp only [claimed, hpc]
  have hlast : ∀ q, s.lastOf q = (s.heap q).last := fun q => by simp only [lastOf, hpc]
  have hcall := acceptedBytes_of_call (s := s) (c := c) (by rw [hpc]; rfl)
  -- until the store of `prod.tail` what is confirmed has not changed
  have hconfirmed := hover.confirmed_of_not_done hnotdone
  simp only [writerStep, hpc] at hs
  obtain ⟨ring, hring, heq⟩ := Option.map_eq_some_iff.1 hs
  have hinv := h.ring.step hk hring
  have hbehind := h.behind.step hk h.ring hring
  have howner := RingSys.sameOwner_of_readerAct rfl hring
  have hnext := hover.readerStep hnotdone hring
  split at heq <;> subst heq
  · -- the store of `prod.tail`
    rename_i head hstore
    simp only [RingSys.step, RingSys.readerStep, hstore, Option.some.injEq] at hring
    subst hring
    -- the call is over, all its data is in the pbufs
    have hsent : c.sendLen + written = c.data.length := by
      rw [hwritten, WriteCall.left, List.length_drop]
      omega
    refine ⟨_, h.confirm ⟨howner, rfl, rfl, rfl, rfl, rfl⟩ hinv hbehind ?_ rfl rfl rfl rfl
      hclaimed.symm (fun q => (hlast q).symm) ?_
        ⟨⟨_, ⟨hover.readOut, hover.readOut⟩, rfl⟩, hsent.le⟩
      (h.locks.congr (.inr rfl) (.inl rfl) fun _ _ => rfl)⟩
    · -- the pbufs confirmed are those read
      rw [hfilled, List.map_map, hconfirmed]
      show s.ring.readOut = out ++ pbufs.map id
      rw [List.map_id, hover.readOut]
    · -- the bytes accepted now are those that the pbufs hold
      rw [acceptedBytes_of_call (c := { c with sendLen := c.sendLen + written }) rfl, hcall,
        hfilled, cells_map_single, hdata]
      show s.accepted.flatMap Prod.fst ++ c.data.take (c.sendLen + written) = _
      rw [hsent, List.take_length, List.append_assoc, WriteCall.left, List.take_append_drop]
  · -- a load in `gazelle_ring_read_over`, which publishes nothing
    rename_i hnotstore
    have hload := hover.loads hnotstore hnotdone
    have hnotdone' : ring.reader ≠ .overDone := by
      simp only [RingSys.step, RingSys.readerStep, hload, Option.some.injEq] at hring
      rw [← hring]
      rintro ⟨⟩
    exact ⟨v, h.setRing hk rfl hring
      ((hnext.confirmed_of_not_done hnotdone').trans hconfirmed.symm) hfilled.symm hclaimed.symm
      (fun q => (hlast q).symm) ((acceptedBytes_of_call (c := c) rfl).trans hcall.symm) rfl
      ⟨⟨out, hnext, hnotdone'⟩, hle, hwritten, hdata⟩⟩

/-- The end of `app_buff_write`. -/
theorem StreamInv.buffDone (hk : k ≤ 31) (h : StreamInv k start s v) {c : WriteCall}
    {pbufs : List PbufPtr} {alloc : Option (List PbufPtr)} (hpc : s.writer = .buffDone c pbufs)
    (hs : s.writerStep cfg alloc = some s') : StreamInv k start s' v := by
  have hat := h.writer
  simp only [WriterIs, hpc] at hat
  obtain ⟨⟨out, hover, hdone⟩, hle⟩ := hat
  have hplain : s.writer.Plain := by rw [hpc]; trivial
  have hconfirmed := hover.confirmed_eq hdone
  simp only [writerStep, hpc] at hs
  obtain ⟨ring, hring, rfl⟩ := Option.map_eq_some_iff.1 hs
  have hinv := h.ring.step hk hring
  have hbehind := h.behind.step hk h.ring hring
  rw [RingSys.step, RingSys.readerReturn_eq (.inr hdone)] at hring
  obtain rfl := Option.some.inj hring
  refine h.setWriter ⟨⟨rfl, rfl, rfl⟩, rfl, rfl, rfl, rfl, rfl⟩ hinv hbehind rfl rfl rfl
    (filledChains_eq_nil hplain).symm (claimed_eq_nil hplain).symm (fun _ _ => .refl _)
    (fun _ _ => rfl) (fun q _ => (lastOf_eq hplain q).symm) ?_
    ⟨⟨out, rfl, hover.readOut, hconfirmed⟩, hle⟩
      (h.locks.congr (.inr rfl) (.inl rfl) fun _ _ => rfl)
  rw [acceptedBytes_of_call (s := s) (c := c) (by rw [hpc]; rfl),
    acceptedBytes_of_call (c := c) rfl]

/-! ### `app_direct_write` -/

/-- The pbufs are allocated, or not. -/
theorem StreamInv.directAlloc (hk : k ≤ 31) (h : StreamInv k start s v) {c : WriteCall} {num : U32}
    {alloc : Option (List PbufPtr)} (hpc : s.writer = .directAlloc c num)
    (hs : s.writerStep cfg alloc = some s') : StreamInv k start s' v := by
  have hat := h.writer
  simp only [WriterIs, hpc] at hat
  obtain ⟨hrests, hle, hfits, hlt⟩ := hat
  have hplain : s.writer.Plain := by rw [hpc]; trivial
  simp only [writerStep, hpc] at hs
  split at hs
  · -- `rte_pktmbuf_alloc` fails and the call ends
    exact Option.some.inj hs ▸ h.setPc hplain trivial (by simp only [current, hpc, WriterPc.call])
      (.inr rfl) ⟨hrests, hle⟩
  rename_i mbufs
  split at hs
  -- the allocator only gives what is in its pool
  swap
  · cases hs
  rename_i halloc
  obtain ⟨hnum, hnodup, hpool⟩ := halloc
  -- the allocation succeeds and one pbuf is read from the ring
  obtain ⟨ring, hring, rfl⟩ := Option.map_eq_some_iff.1 hs
  obtain ⟨out, hrest⟩ := hrests
  -- a blank pbuf was seen before, and only this thread takes one
  have hcount : (1 : U32) ≤ s.ring.ring.gazelleRingReadableCount := by
    rw [BitVec.le_def, h.ring.readableCount_toNat hk]
    exact Nat.sub_pos_of_lt hlt
  have hread := RingSys.fullReading_of_call hk h.ring hcount hring
  have hconfirmed := hread.confirmed
  rw [hrest.readOut, hrest.confirmed] at hread
  have howner := RingSys.sameOwner_of_readerAct rfl hring
  -- what is in the pool of the allocator is not a pbuf of the stream
  have hforeign : ∀ p ∈ mbufs, (s.heap p).place ≠ .gazelle := fun p hp => by
    rw [hpool p hp]
    rintro ⟨⟩
  have hstock := h.stock
  rw [claimed_eq_nil hplain] at hstock
  have hold : ∀ q ∈ s.stockPbufs v, s.heap.claim mbufs q = s.heap q := fun q hq =>
    if_neg fun hmem => h.stock.notMem (hforeign q hmem) hq
  -- an allocation changes the place and nothing else
  have hkeep : ∀ {β : Type} (g : SendPbuf → β) (q : PbufPtr),
      (∀ b : SendPbuf, g { b with place := .gazelle } = g b) →
        g (s.heap.claim mbufs q) = g (s.heap q) := by
    intro β g q hg
    unfold SendHeap.claim
    split
    · exact hg _
    · rfl
  have hsame : SameStack s { s with
      heap := s.heap.claim mbufs
      ring
      writer := .directRead c mbufs } := ⟨howner, rfl, rfl, rfl, rfl, rfl⟩
  -- the pbuf read is still blank
  have hunfilled : unfilled { s with ring, writer := .directRead c mbufs } = s.unfilled := by
    have hrep : replenishing { s with ring, writer := .directRead c mbufs } = s.replenishing :=
      SameStack.replenishing ⟨howner, rfl, rfl, rfl, rfl, rfl⟩
    rw [unfilled, unfilled, filledChains_eq_nil hplain, hrep]
    show ring.accepted.drop (ring.confirmed.length + 0) ++ _ = _
    rw [howner.accepted, hconfirmed]
    rfl
  have hlast : ∀ q, (s.heap.claim mbufs q).last = s.lastOf q := fun q =>
    (hkeep (·.last) q fun _ => rfl).trans (lastOf_eq hplain q).symm
  refine h.setStock hsame (h.ring.step hk hring) (h.behind.step hk h.ring hring) hconfirmed
    (fun q hq => hold q (mem_stockPbufs hq)) (fun q _ => hlast q) ?_ (fun w hw => absurd hw
      List.not_mem_nil) (fun q hq => ?_) ?_ ⟨⟨out, hread⟩, hle, ?_⟩
    (h.locks.congr (.inr rfl) (.inl rfl) fun q _ => hkeep (·.locked) q fun _ => rfl)
  · -- the pbufs allocated are claimed by this call
    have hclaim := hstock.claim hnodup hforeign
    rw [filledChains_eq_nil hplain, ← hunfilled] at hclaim
    exact hclaim
  · exact (hlast q).trans (h.blankLasts q (hunfilled ▸ hq))
  · -- the call has accepted nothing yet
    rw [acceptedBytes_of_call (s := s) (c := c) (by rw [hpc]; rfl),
      acceptedBytes_of_call (c := c) rfl]
  · -- one pbuf comes from the ring, the others were allocated
    have hpos := hfits.1
    rw [hnum, Nat.sub_add_cancel hpos]
    exact hfits

/-- The steps in the `gazelle_ring_read` of `app_direct_write`. -/
theorem StreamInv.directRead (hk : k ≤ 31) (h : StreamInv k start s v) {c : WriteCall}
    {mbufs : List PbufPtr} {alloc : Option (List PbufPtr)} (hpc : s.writer = .directRead c mbufs)
    (hs : s.writerStep cfg alloc = some s') : StreamInv k start s' v := by
  have hat := h.writer
  simp only [WriterIs, hpc] at hat
  obtain ⟨⟨out, hread⟩, hle, hfits⟩ := hat
  have hfilled : s.filledChains = [] := by simp only [filledChains, hpc]
  have hclaimed : s.claimed = mbufs := by simp only [claimed, hpc]
  have hlast : ∀ q, s.lastOf q = (s.heap q).last := fun q => by simp only [lastOf, hpc]
  have hcall := acceptedBytes_of_call (s := s) (c := c) (by rw [hpc]; rfl)
  simp only [writerStep, hpc] at hs
  obtain ⟨ring, hring, heq⟩ := Option.map_eq_some_iff.1 hs
  split at heq <;> subst heq
  · rename_i pbufs hdone
    obtain ⟨hreturned, hlen⟩ := hread.returned hdone
    obtain ⟨p, rfl⟩ := List.length_eq_one_iff.1 hlen
    have hconfirmed := hread.confirmed
    have hback := hring
    rw [RingSys.step, RingSys.readerReturn_eq (.inl ⟨_, hdone⟩)] at hback
    obtain rfl := Option.some.inj hback
    exact h.setRing hk rfl hring rfl hfilled.symm hclaimed.symm (fun q => (hlast q).symm)
      ((acceptedBytes_of_call (c := c) rfl).trans hcall.symm) rfl
      ⟨⟨out, p, mbufs, rfl, rfl, hreturned, hconfirmed⟩, hle, hfits⟩
  · rename_i hnotdone
    have hnext := hread.readerStep hk h.ring (fun pbufs hdone => hnotdone pbufs hdone) hring
    exact h.setRing hk rfl hring (hnext.confirmed.trans hread.confirmed.symm) hfilled.symm
      hclaimed.symm (fun q => (hlast q).symm)
      ((acceptedBytes_of_call (c := c) rfl).trans hcall.symm) rfl ⟨⟨out, hnext⟩, hle, hfits⟩

/-- `app_direct_write` initialises its pbufs and writes the data. -/
theorem StreamInv.directStep (hops : cfg.ops.Lawful) (hk : k ≤ 31) (h : StreamInv k start s v)
    {c : WriteCall} {pbufs : List PbufPtr} (hpc : s.writer = .directFill c pbufs)
    (hs : s.directStep cfg c pbufs = some s') : StreamInv k start s' v := by
  have hat := h.writer
  simp only [WriterIs, hpc] at hat
  obtain ⟨⟨out, p, mbufs, rfl, hrest⟩, hle, hfits⟩ := hat
  have hfilled : s.filledChains = [] := by simp only [filledChains, hpc]
  have hclaimed : s.claimed = mbufs := by simp only [claimed, hpc, List.tail_cons]
  have hlast : ∀ q, s.lastOf q = (s.heap q).last := fun q => by simp only [lastOf, hpc]
  have hunfilled := h.unfilled_eq_append hfilled hrest
  rw [List.length_singleton, List.singleton_append] at hunfilled
  obtain ⟨rest, hrestEq⟩ : ∃ rest, s.ring.accepted.drop (out.length + 1) ++ s.replenishing = rest :=
    ⟨_, rfl⟩
  rw [hrestEq] at hunfilled
  have hstock := h.stock
  rw [hfilled, hclaimed, hunfilled, List.append_nil] at hstock
  obtain ⟨hfill, hbytes, hwritten, hothers⟩ := hstock.fillDirect hops hfits
  simp only [WriteSys.directStep, List.tail_cons] at hs
  rw [← WriteCall.left] at hs
  generalize doAppWrite cfg (linkPbufs (initMbufs cfg s.heap s.inits mbufs) (p :: mbufs))
    (p :: mbufs) c.left = written at hfill hbytes hwritten hothers hs
  obtain ⟨ring, hring, rfl⟩ := Option.map_eq_some_iff.1 hs
  obtain ⟨hconfirming, hnotdone, hconfirmed⟩ := confirming_of_resting hrest hring
  have howner := RingSys.sameOwner_of_readerAct rfl hring
  have hsame : SameStack s { s with
      heap := written.1
      addr := initAddrs s.addr mbufs
      ring
      inits := s.inits + mbufs.length
      writer := .directOver c (p :: mbufs) written.2 } := ⟨howner, rfl, rfl, rfl, rfl, rfl⟩
  -- neither the stack nor the ring has any of the pbufs written to
  have hnodup := hstock.owned.nodup
  have hold : ∀ q ∈ s.taken v.rest v.left ++ cells v.chains, q ∉ p :: mbufs := by
    intro q hq hmem
    rw [← List.append_assoc] at hnodup
    refine (List.nodup_append.1 hnodup).2.2 q hq q ?_ rfl
    rcases List.mem_cons.1 hmem with rfl | hmem
    · exact List.mem_append_right _ List.mem_cons_self
    · exact List.mem_append_left _ hmem
  have hrestMem : ∀ q ∈ rest, q ∉ p :: mbufs := by
    intro q hq hmem
    have htail := (List.nodup_append.1 (List.nodup_append.1 hnodup).2.1).2.1
    rcases List.mem_cons.1 hmem with rfl | hmem
    · exact (List.nodup_cons.1 (List.nodup_append.1 htail).2.1).1 hq
    · exact (List.nodup_append.1 htail).2.2 q hmem q (List.mem_cons_of_mem _ hq) rfl
  have hlastOf : ∀ q, q ∉ p :: mbufs → lastOf { s with
      heap := written.1
      addr := initAddrs s.addr mbufs
      ring
      inits := s.inits + mbufs.length
      writer := .directOver c (p :: mbufs) written.2 } q = s.lastOf q := by
    intro q hq
    have hne : (p :: mbufs).head? ≠ some q := fun heq =>
      hq (List.mem_of_head? heq)
    rw [hlast, ← hothers q hq]
    exact if_neg hne
  have hunfilled' : unfilled { s with
      heap := written.1
      addr := initAddrs s.addr mbufs
      ring
      inits := s.inits + mbufs.length
      writer := .directOver c (p :: mbufs) written.2 } = rest := by
    rw [unfilled, hsame.replenishing, ← hrestEq]
    show ring.accepted.drop (ring.confirmed.length + 1) ++ _ = _
    rw [howner.accepted, hconfirmed, hrest.confirmed]
  refine h.setStock hsame (h.ring.step hk hring) (h.behind.step hk h.ring hring) hconfirmed
    (fun q hq => hothers q (hold q hq)) (fun q hq => hlastOf q (hold q hq)) ?_ (fun w hw => ?_)
    (fun q hq => ?_) ?_ ⟨⟨out, p, mbufs, rfl, hconfirming, hnotdone⟩, hle, hwritten, hbytes⟩
    (h.locks.congr (.inr rfl) (.inl rfl) fun q hq => ?_)
  · rw [hunfilled']
    exact hfill
  · obtain rfl := List.mem_singleton.1 hw
    have hself : lastOf { s with
        heap := written.1
        addr := initAddrs s.addr mbufs
        ring
        inits := s.inits + mbufs.length
        writer := .directOver c (p :: mbufs) written.2 } p = (p :: mbufs).getLastD 0 := if_pos rfl
    rw [hself, List.getLastD_eq_getLast?, List.getLast?_eq_some_getLast (List.cons_ne_nil p mbufs),
      Option.getD_some]
  · rw [hunfilled'] at hq
    rw [hlastOf q (hrestMem q hq)]
    exact h.blankLasts q (hunfilled ▸ List.mem_cons_of_mem _ hq)
  · rw [acceptedBytes_of_call (s := s) (c := c) (by rw [hpc]; rfl),
      acceptedBytes_of_call (c := c) rfl]
  · -- the application has no lock, and the stack has that of `send_pre_del`
    rcases hq with hq | hq
    · simp only [writerLock, hpc] at hq
      cases hq
    · have hmem : q ∈ s.taken v.rest v.left := by
        rw [taken, sendPreDel_of_stackLock h.stack hq]
        exact List.mem_cons_self
      exact congrArg SendPbuf.locked (hothers q (hold q (List.mem_append_left _ hmem)))

/-- The steps in the `gazelle_ring_read_over` of `app_direct_write`. -/
theorem StreamInv.directOver (hk : k ≤ 31) (h : StreamInv k start s v) {c : WriteCall}
    {pbufs : List PbufPtr} {written : ℕ} {alloc : Option (List PbufPtr)}
    (hpc : s.writer = .directOver c pbufs written) (hs : s.writerStep cfg alloc = some s') :
    ∃ v', StreamInv k start s' v' := by
  have hat := h.writer
  simp only [WriterIs, hpc] at hat
  obtain ⟨⟨out, p, mbufs, rfl, hover, hnotdone⟩, hle, hwritten, hdata⟩ := hat
  have hfilled : s.filledChains = [(p, mbufs)] := by simp only [filledChains, hpc]
  have hclaimed : s.claimed = [] := by simp only [claimed, hpc]
  have hlast : ∀ q, s.lastOf q =
      if (p :: mbufs).head? = some q then (p :: mbufs).getLastD 0 else (s.heap q).last :=
    fun q => by simp only [lastOf, hpc]
  have hcall := acceptedBytes_of_call (s := s) (c := c) (by rw [hpc]; rfl)
  -- until the store of `prod.tail` what is confirmed has not changed
  have hconfirmed := hover.confirmed_of_not_done hnotdone
  simp only [writerStep, hpc] at hs
  obtain ⟨ring, hring, heq⟩ := Option.map_eq_some_iff.1 hs
  have hinv := h.ring.step hk hring
  have hbehind := h.behind.step hk h.ring hring
  have howner := RingSys.sameOwner_of_readerAct rfl hring
  have hnext := hover.readerStep hnotdone hring
  split at heq <;> subst heq
  · -- the store of `prod.tail`
    rename_i head hstore
    simp only [RingSys.step, RingSys.readerStep, hstore, Option.some.injEq] at hring
    subst hring
    -- the call is over, all its data is in the chain
    have hsent : c.sendLen + written = c.data.length := by
      rw [hwritten, WriteCall.left, List.length_drop]
      omega
    -- the pbuf read is no longer blank
    have hpnot : p ∉ s.unfilled := by
      have hmem : (p, mbufs) ∈ v.chains ++ s.filledChains := by
        rw [hfilled]
        exact List.mem_append_right _ (List.mem_singleton_self _)
      exact h.stock.notMem_unfilled
        (List.mem_append_right _ (mem_cells_of_mem hmem List.mem_cons_self))
    have hconf : s.ring.readOut = s.ring.confirmed ++ [p] := by rw [hconfirmed, hover.readOut]
    refine ⟨_, h.confirm ⟨howner, rfl, rfl, rfl, rfl, rfl⟩ hinv hbehind ?_ rfl rfl rfl rfl
      hclaimed.symm (fun q => (hlast q).symm) ?_
      ⟨⟨_, ⟨hover.readOut, hover.readOut⟩, rfl⟩, hsent.le, p, mbufs, rfl, ?_⟩
      (h.locks.congr (.inr rfl) (.inl rfl) fun _ _ => rfl)⟩
    · -- one pbuf is confirmed, the allocated ones hang behind it
      rw [hfilled]
      exact hconf
    · -- the bytes accepted now are those that the chain holds
      rw [acceptedBytes_of_call (c := { c with sendLen := c.sendLen + written }) rfl, hcall,
        hfilled,
        cells_cons, cells_nil, List.append_nil, hdata]
      show s.accepted.flatMap Prod.fst ++ c.data.take (c.sendLen + written) = _
      rw [hsent, List.take_length, List.append_assoc, WriteCall.left, List.take_append_drop]
    · -- its `last` is stored later, which no blank pbuf sees
      rw [unfilled, hfilled] at hpnot
      show p ∉ s.ring.accepted.drop (s.ring.readOut.length + 0) ++ s.replenishing
      rw [hconf, List.length_append]
      exact hpnot
  · -- a load in `gazelle_ring_read_over`, which publishes nothing
    rename_i hnotstore
    have hload := hover.loads hnotstore hnotdone
    have hnotdone' : ring.reader ≠ .overDone := by
      simp only [RingSys.step, RingSys.readerStep, hload, Option.some.injEq] at hring
      rw [← hring]
      rintro ⟨⟩
    exact ⟨v, h.setRing hk rfl hring
      ((hnext.confirmed_of_not_done hnotdone').trans hconfirmed.symm) hfilled.symm hclaimed.symm
      (fun q => (hlast q).symm) ((acceptedBytes_of_call (c := c) rfl).trans hcall.symm) rfl
      ⟨⟨out, p, mbufs, rfl, hnext, hnotdone'⟩, hle, hwritten, hdata⟩⟩

/-- The store of `last` at the end of `app_direct_write`. -/
theorem StreamInv.directDone (hk : k ≤ 31) (h : StreamInv k start s v) {c : WriteCall}
    {pbufs : List PbufPtr} {alloc : Option (List PbufPtr)} (hpc : s.writer = .directDone c pbufs)
    (hs : s.writerStep cfg alloc = some s') : StreamInv k start s' v := by
  have hat := h.writer
  simp only [WriterIs, hpc] at hat
  obtain ⟨⟨out, hover, hdone⟩, hle, p, mbufs, rfl, -⟩ := hat
  have hfilled : s.filledChains = [] := by simp only [filledChains, hpc]
  have hclaimed : s.claimed = [] := by simp only [claimed, hpc]
  -- until the store of `last` the chain is held by the local variables of the call
  have hlast : ∀ q, s.lastOf q =
      if (p :: mbufs).head? = some q then (p :: mbufs).getLastD 0 else (s.heap q).last :=
    fun q => by simp only [lastOf, hpc]
  -- the ring has the chain from here on
  have hconfirmed := hover.confirmed_eq hdone
  simp only [writerStep, hpc] at hs
  obtain ⟨ring, hring, rfl⟩ := Option.map_eq_some_iff.1 hs
  have hinv := h.ring.step hk hring
  have hbehind := h.behind.step hk h.ring hring
  rw [RingSys.step, RingSys.readerReturn_eq (.inr hdone)] at hring
  obtain rfl := Option.some.inj hring
  -- the store changes no data
  have hbody : ∀ q, (s.heap q).SameBody
      (s.heap.modify p (fun b => { b with last := (p :: mbufs).getLastD 0 }) q) := fun q =>
    SendPbuf.SameBody.modify ⟨⟨rfl, rfl, rfl⟩, rfl, rfl, rfl⟩ q
  refine h.setWriter ⟨⟨rfl, rfl, rfl⟩, rfl, rfl, rfl, rfl, rfl⟩ hinv hbehind rfl rfl rfl
    hfilled.symm hclaimed.symm (fun q _ => hbody q)
    (fun q _ => SendHeap.modify_field (·.allowIn) rfl) (fun q _ => ?_) ?_
    ⟨⟨out, rfl, hover.readOut, hconfirmed⟩, hle⟩
    (h.locks.congr (.inr rfl) (.inl rfl) fun q _ => SendHeap.modify_field (·.locked) rfl)
  · -- which is the store that was missing
    rw [hlast]
    show (s.heap.modify p _ q).last = _
    by_cases hq : q = p
    · rw [hq, SendHeap.modify_self]
      exact (if_pos List.head?_cons).symm
    · rw [SendHeap.modify_of_ne hq]
      exact (if_neg fun heq : some p = some q => hq (Option.some.inj heq).symm).symm
  · rw [acceptedBytes_of_call (s := s) (c := c) (by rw [hpc]; rfl),
      acceptedBytes_of_call (c := c) rfl]

/-! ### The steps of the application -/

/-- The next step of the application. -/
theorem StreamInv.writerStep (hops : cfg.ops.Lawful) (hk : k ≤ 31) (h : StreamInv k start s v)
    {alloc : Option (List PbufPtr)} (hs : s.writerStep cfg alloc = some s') :
    ∃ v', StreamInv k start s' v' := by
  -- one lemma for each place of the application
  cases hpc : s.writer with
  | idle => simp only [WriteSys.writerStep, hpc] at hs; cases hs
  | lastTail use c =>
    simp only [WriteSys.writerStep, hpc] at hs
    exact ⟨v, Option.some.inj hs ▸ h.lastTail hpc⟩
  | lastSlot use c tail => exact ⟨v, h.lastSlot hpc hs⟩
  | lastLock use c p => exact ⟨v, h.lastLock hpc hs⟩
  | lastTest use c p => exact ⟨v, h.lastTest hpc hs⟩
  | lastRefuse use c p => exact ⟨v, h.lastRefuse hpc hs⟩
  | merge c p => exact ⟨v, h.merge hops hpc hs⟩
  | mergeOver c p => exact ⟨v, h.mergeOver hpc hs⟩
  | count c =>
    simp only [WriteSys.writerStep, hpc] at hs
    exact ⟨v, h.countStep hk hpc hs⟩
  | attach c p num => exact h.attach hops hpc hs
  | attachOver c p => exact ⟨v, h.attachOver hpc hs⟩
  | attachAddr c p => exact ⟨v, h.attachAddr hpc hs⟩
  | buffRead c num => exact ⟨v, h.buffRead hk hpc hs⟩
  | buffFill c pbufs =>
    simp only [WriteSys.writerStep, hpc] at hs
    exact ⟨v, h.buffStep hops hk hpc hs⟩
  | buffOver c pbufs written => exact h.buffOver hk hpc hs
  | buffDone c pbufs => exact ⟨v, h.buffDone hk hpc hs⟩
  | directAlloc c num => exact ⟨v, h.directAlloc hk hpc hs⟩
  | directRead c mbufs => exact ⟨v, h.directRead hk hpc hs⟩
  | directFill c pbufs =>
    simp only [WriteSys.writerStep, hpc] at hs
    exact ⟨v, h.directStep hops hk hpc hs⟩
  | directOver c pbufs written => exact h.directOver hk hpc hs
  | directDone c pbufs => exact ⟨v, h.directDone hk hpc hs⟩
  | ret c => exact ⟨v, h.ret hpc hs⟩

end WriteSys

end Gazelle
