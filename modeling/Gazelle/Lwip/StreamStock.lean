import Gazelle.Lwip.SendChains

/-!
# The pbufs of a stream

The pbufs of a TCP socket are with the stack, in the chains that wait for it or are about to, just
allocated, or not filled yet. `StreamStock` says that each is in one place, and what a pbuf has to
be like in each; there is one lemma for each way in which pbufs move.

* `StreamStock.take`, `StreamStock.detach`, `StreamStock.commit`: the stack takes a chain, takes it
  apart and commits its pbufs;
* `StreamStock.claim`, `StreamStock.replenish`: pbufs come from the pool;
* `StreamStock.fill`, `StreamStock.fillDirect`: `do_app_write` for the two kinds of chains;
* `StreamStock.attach`: `app_direct_attach`.
-/

namespace Gazelle

open Linked

/-- The pbufs `taken` by the stack, the `chains` behind them, the pbufs `claimed` from the pool and
those that are `unfilled`. -/
structure StreamStock (heap : SendHeap) (inits : ℕ) (done : List ℕ) (taken : List PbufPtr)
    (chains : List (PbufPtr × List PbufPtr)) (claimed unfilled : List PbufPtr) : Prop where
  /-- They are different and belong to the send path. -/
  owned : heap.Owned (taken ++ (cells chains ++ (claimed ++ unfilled)))
  /-- Their initialisations are different, and different from those that are done. -/
  births : heap.Births inits done (taken ++ (cells chains ++ unfilled))
  /-- The chains are linked. -/
  chained : ∀ w ∈ chains, heap.Chained w
  /-- Those that are unfilled are blank. -/
  blank : ∀ p ∈ unfilled, (heap p).Blank

namespace StreamStock

variable {heap heap' : SendHeap} {inits : ℕ} {done : List ℕ}
  {taken rest claimed unfilled mbufs pbufs : List PbufPtr}
  {chains chains' : List (PbufPtr × List PbufPtr)} {p q z : PbufPtr} {t : List PbufPtr}
  {cfg : SendCfg} {data : List Byte}

/-- What has been initialised is in the stock. -/
theorem mem_of_mem (hp : p ∈ taken ++ (cells chains ++ unfilled)) :
    p ∈ taken ++ (cells chains ++ (claimed ++ unfilled)) := by
  simp only [List.mem_append] at hp ⊢
  tauto

/-- A pbuf of someone else is not in the stock. -/
theorem notMem (h : StreamStock heap inits done taken chains claimed unfilled)
    (hp : (heap p).place ≠ .gazelle) : p ∉ taken ++ (cells chains ++ (claimed ++ unfilled)) :=
  h.owned.notMem hp

/-- Pbufs of the stack and of the chains are not blank ones. -/
theorem notMem_unfilled (h : StreamStock heap inits done taken chains claimed unfilled)
    (hp : p ∈ taken ++ cells chains) : p ∉ unfilled := by
  have hnodup := h.owned.nodup
  rw [← List.append_assoc] at hnodup
  exact fun hmem => (List.nodup_append.1 hnodup).2.2 p hp p (List.mem_append_right _ hmem) rfl

/-- Stores that leave the pbufs where they are, and those that are unfilled as they are. -/
theorem congr (h : StreamStock heap inits done taken chains claimed unfilled)
    (hsame : ∀ p ∈ taken ++ (cells chains ++ (claimed ++ unfilled)), (heap p).SameSpot (heap' p))
    (hblank : ∀ p ∈ unfilled, (heap' p).Blank) :
    StreamStock heap' inits done taken chains claimed unfilled where
  owned := h.owned.congr fun p hp => (hsame p hp).place
  births := h.births.congr (fun _ hp => hp) fun p hp => (hsame p (mem_of_mem hp)).born
  chained w hw := SendHeap.Chained.congr (h.chained w hw) fun p hp =>
    (hsame p (List.mem_append_right _ (List.mem_append_left _ (mem_cells_of_mem hw hp)))).next
  blank := hblank

/-- Stores that keep the data, too. -/
theorem congrBody (h : StreamStock heap inits done taken chains claimed unfilled)
    (hsame : ∀ p ∈ taken ++ (cells chains ++ (claimed ++ unfilled)), (heap p).SameBody (heap' p)) :
    StreamStock heap' inits done taken chains claimed unfilled :=
  h.congr (fun p hp => (hsame p hp).toSameSpot) fun p hp =>
    (hsame p (List.mem_append_right _ (List.mem_append_right _ (List.mem_append_right _ hp)))).blank
      (h.blank p hp)

/-- The stack takes the first chain. -/
theorem take (h : StreamStock heap inits done [] ((p, t) :: chains) claimed unfilled) :
    StreamStock heap inits done (p :: t) chains claimed unfilled := by
  have howned := h.owned
  have hbirths := h.births
  rw [List.nil_append, cells_cons, List.append_assoc] at howned hbirths
  exact ⟨howned, hbirths, fun w hw => h.chained w (List.mem_cons_of_mem _ hw), h.blank⟩

/-- The stack commits its first pbuf. -/
theorem commit (h : StreamStock heap inits done (p :: rest) chains claimed unfilled)
    (hothers : ∀ q, q ≠ p → heap' q = heap q) :
    StreamStock heap' inits (done ++ [(heap p).born]) rest chains claimed unfilled := by
  have hp : p ∉ rest ++ (cells chains ++ (claimed ++ unfilled)) :=
    (List.nodup_cons.1 h.owned.nodup).1
  have hsame : ∀ q ∈ rest ++ (cells chains ++ (claimed ++ unfilled)), heap' q = heap q :=
    fun q hq => hothers q fun heq => hp (heq ▸ hq)
  refine ⟨h.owned.tail fun q hq => by rw [hsame q hq],
    h.births.commit (fun hmem => hp (mem_of_mem hmem)) fun q hq => by rw [hsame q (mem_of_mem hq)],
    fun w hw => SendHeap.Chained.congr (h.chained w hw) fun q hq => ?_, fun q hq => ?_⟩
  · rw [hsame q (List.mem_append_right _ (List.mem_append_left _ (mem_cells_of_mem hw hq)))]
  · rw [hsame q
      (List.mem_append_right _ (List.mem_append_right _ (List.mem_append_right _ hq)))]
    exact h.blank q hq

/-- The first pbuf of the stack is detached from what is behind it. -/
theorem detach (h : StreamStock heap inits done (p :: rest) chains claimed unfilled) :
    StreamStock (heap.modify p (.setNext none)) inits done (p :: rest) chains claimed unfilled := by
  have hp : p ∉ rest ++ (cells chains ++ (claimed ++ unfilled)) :=
    (List.nodup_cons.1 h.owned.nodup).1
  have hothers : ∀ q ∈ rest ++ (cells chains ++ (claimed ++ unfilled)),
      heap.modify p (.setNext none) q = heap q :=
    fun q hq => SendHeap.modify_of_ne fun heq => hp (heq ▸ hq)
  refine ⟨h.owned.congr fun q _ => SendHeap.modify_field (·.place) rfl,
    h.births.congr (fun _ hq => hq) fun q _ => SendHeap.modify_field (·.born) rfl,
    fun w hw => SendHeap.Chained.congr (h.chained w hw) fun q hq => ?_, fun q hq => ?_⟩
  · rw [hothers q (List.mem_append_right _ (List.mem_append_left _ (mem_cells_of_mem hw hq)))]
  · rw [hothers q
      (List.mem_append_right _ (List.mem_append_right _ (List.mem_append_right _ hq)))]
    exact h.blank q hq

/-- Pbufs are claimed from the pool. -/
theorem claim (h : StreamStock heap inits done taken chains [] unfilled) (hnodup : mbufs.Nodup)
    (hforeign : ∀ p ∈ mbufs, (heap p).place ≠ .gazelle) :
    StreamStock (heap.claim mbufs) inits done taken chains mbufs unfilled := by
  have hsame : ∀ p ∈ taken ++ (cells chains ++ ([] ++ unfilled)), heap.claim mbufs p = heap p :=
    fun p hp => if_neg fun hmem => h.notMem (hforeign p hmem) hp
  have hstock : StreamStock (heap.claim mbufs) inits done taken chains [] unfilled :=
    h.congrBody fun p hp => hsame p hp ▸ SendPbuf.SameBody.refl _
  have howned : (heap.claim mbufs).Owned _ := h.owned.append hnodup hforeign
    (fun p hp => congrArg SendPbuf.place (hsame p hp)) fun p hp => by
      rw [SendHeap.claim, if_pos hp]
  refine ⟨howned.perm ?_, hstock.births, hstock.chained, hstock.blank⟩
  rw [List.nil_append, List.append_assoc, List.append_assoc]
  exact (List.Perm.append_left _ (List.Perm.append_left _ List.perm_append_comm))

/-- Blank pbufs come from the pool. -/
theorem replenish (hops : cfg.ops.Lawful)
    (h : StreamStock heap inits done taken chains claimed unfilled) (hnodup : mbufs.Nodup)
    (hforeign : ∀ p ∈ mbufs, (heap p).place ≠ .gazelle) :
    StreamStock (initMbufs cfg heap inits mbufs) (inits + mbufs.length) done taken chains claimed
      (unfilled ++ mbufs) := by
  have hsame : ∀ p ∈ taken ++ (cells chains ++ (claimed ++ unfilled)),
      initMbufs cfg heap inits mbufs p = heap p :=
    fun p hp => initMbufs_of_notMem fun hmem => h.notMem (hforeign p hmem) hp
  have hstock : StreamStock (initMbufs cfg heap inits mbufs) inits done taken chains claimed
      unfilled := h.congrBody fun p hp => hsame p hp ▸ SendPbuf.SameBody.refl _
  have howned : (initMbufs cfg heap inits mbufs).Owned _ := h.owned.append hnodup hforeign
    (fun p hp => congrArg SendPbuf.place (hsame p hp)) fun p hp =>
      (initMbufs_fresh hops hnodup hp).2
  refine ⟨?_, h.births.init (fun p hp => ?_)
    (fun p hp => congrArg SendPbuf.born (hsame p (mem_of_mem hp))) (map_born_initMbufs hnodup),
    hstock.chained, fun p hp => ?_⟩
  · simpa only [List.append_assoc] using howned
  · simp only [List.mem_append] at hp ⊢
    tauto
  · rcases List.mem_append.1 hp with hp | hp
    · exact hstock.blank p hp
    · have hfresh : (initMbufs cfg heap inits mbufs p).Fresh p := (initMbufs_fresh hops hnodup hp).1
      exact ⟨hfresh.len, hfresh.totLen, hfresh.next⟩

/-- The first blank pbufs are filled; each is a chain of its own. -/
theorem fill (h : StreamStock heap inits done taken chains [] (pbufs ++ rest))
    (hlinks : ∀ p, (heap p).SameLinks (heap' p)) (hothers : ∀ p, p ∉ pbufs → heap' p = heap p) :
    StreamStock heap' inits done taken (chains ++ pbufs.map fun p => (p, [])) [] rest := by
  have hnodup := h.owned.nodup
  have hrest : ∀ p ∈ rest, heap' p = heap p := by
    rw [List.nil_append] at hnodup
    have htail := (List.nodup_append.1 (List.nodup_append.1 hnodup).2.1).2.1
    exact fun p hp => hothers p fun hmem => (List.nodup_append.1 htail).2.2 p hmem p hp rfl
  have hcells : cells (chains ++ pbufs.map fun p => (p, [])) = cells chains ++ pbufs := by
    rw [cells_append, cells_map_single]
  have howned := h.owned.congr fun p _ => (hlinks p).place
  have hbirths := h.births.congr (fun _ hp => hp) fun p _ => (hlinks p).born
  refine ⟨?_, ?_, fun w hw => ?_, fun p hp => ?_⟩
  · rw [hcells, List.nil_append, List.append_assoc]
    exact howned
  · rw [hcells, List.append_assoc]
    exact hbirths
  · rcases List.mem_append.1 hw with hw | hw
    · exact SendHeap.Chained.congr (h.chained w hw) fun p _ => (hlinks p).next
    · obtain ⟨p, hp, rfl⟩ := List.mem_map.1 hw
      exact (hlinks p).next.trans (h.blank p (List.mem_append_left _ hp)).next
  · rw [hrest p hp]
    exact h.blank p (List.mem_append_right _ hp)

/-- The first blank pbuf is filled with those claimed behind it. -/
theorem fillDirect (hops : cfg.ops.Lawful)
    (h : StreamStock heap inits done taken chains mbufs (p :: rest))
    (hfits : Fits (p :: mbufs).length data) :
    let written := doAppWrite cfg (linkPbufs (initMbufs cfg heap inits mbufs) (p :: mbufs))
      (p :: mbufs) data
    StreamStock written.1 (inits + mbufs.length) done taken (chains ++ [(p, mbufs)]) [] rest ∧
      written.1.bytes (p :: mbufs) = data ∧ written.2 = data.length ∧
      ∀ q, q ∉ p :: mbufs → written.1 q = heap q := by
  -- the blank pbuf and those claimed become the last chain
  have hperm : (taken ++ (cells chains ++ (mbufs ++ p :: rest))).Perm
      (taken ++ (cells (chains ++ [(p, mbufs)]) ++ ([] ++ rest))) := by
    rw [cells_append, cells_cons, cells_nil, List.append_nil, List.nil_append, List.append_assoc,
      List.cons_append]
    exact List.Perm.append_left _ (List.Perm.append_left _ List.perm_middle)
  have hnodup := hperm.nodup_iff.1 h.owned.nodup
  have hchain : (p :: mbufs).Nodup ∧ ∀ q ∈ p :: mbufs, q ∉ rest := by
    rw [cells_append, cells_cons, cells_nil, List.append_nil, List.nil_append,
      List.append_assoc] at hnodup
    have htail := (List.nodup_append.1 (List.nodup_append.1 hnodup).2.1).2.1
    exact ⟨(List.nodup_append.1 htail).1, fun q hq hmem =>
      (List.nodup_append.1 htail).2.2 q hq q hmem rfl⟩
  obtain ⟨hpnodup, hdisjoint⟩ := hchain
  obtain ⟨hpmem, hmnodup⟩ := List.nodup_cons.1 hpnodup
  -- the one from the ring is blank, the others are after their initialisation
  have hblank : ∀ q ∈ p :: mbufs, (initMbufs cfg heap inits mbufs q).Blank := by
    intro q hq
    rcases List.mem_cons.1 hq with rfl | hq
    · rw [initMbufs_of_notMem hpmem]
      exact h.blank _ List.mem_cons_self
    · have hfresh : (initMbufs cfg heap inits mbufs q).Fresh q :=
        (initMbufs_fresh hops hmnodup hq).1
      exact ⟨hfresh.len, hfresh.totLen, hfresh.next⟩
  obtain ⟨hlinked, hbytes, hlen, hothers, hfields⟩ := writeChain_spec hops hpnodup hblank hfits
  intro written
  -- no other pbuf is written
  have hold : ∀ q, q ∉ p :: mbufs → written.1 q = heap q := fun q hq =>
    (hothers q hq).trans (initMbufs_of_notMem fun hmem => hq (List.mem_cons_of_mem p hmem))
  have hplace : ∀ q ∈ taken ++ (cells chains ++ (mbufs ++ p :: rest)),
      (written.1 q).place = (heap q).place := by
    intro q hq
    refine (hfields q).2.2.2.1.trans ?_
    by_cases hmem : q ∈ mbufs
    · rw [(initMbufs_fresh hops hmnodup hmem).2, h.owned.place q hq]
    · rw [initMbufs_of_notMem hmem]
  refine ⟨⟨(h.owned.congr hplace).perm hperm, ?_, fun w hw => ?_, fun q hq => ?_⟩, hbytes, hlen,
    hold⟩
  · -- each pbuf claimed is born now, after all that were born before
    refine h.births.init (fun q hq => ?_) (fun q hq => ?_) ?_
    · rw [cells_append, cells_cons, cells_nil, List.append_nil] at hq
      simp only [List.mem_append, List.mem_cons] at hq ⊢
      tauto
    · refine (hfields q).2.2.2.2.trans (congrArg SendPbuf.born (initMbufs_of_notMem fun hmem => ?_))
      -- a pbuf that is done is none of those claimed
      have hmem' : q ∈ mbufs ++ p :: rest := List.mem_append_left _ hmem
      rcases List.mem_append.1 hq with hq | hq
      · exact (List.nodup_append.1 h.owned.nodup).2.2 q hq q (List.mem_append_right _ hmem') rfl
      have htail := (List.nodup_append.1 h.owned.nodup).2.1
      rcases List.mem_append.1 hq with hq | hq
      · exact (List.nodup_append.1 htail).2.2 q hq q hmem' rfl
      · exact (List.nodup_append.1 (List.nodup_append.1 htail).2.1).2.2 q hmem q hq rfl
    · rw [← map_born_initMbufs hmnodup]
      exact List.map_congr_left fun q _ => (hfields q).2.2.2.2
  · rcases List.mem_append.1 hw with hw | hw
    · -- the old chains are apart from the new one
      refine SendHeap.Chained.congr (h.chained w hw) fun q hq => ?_
      rw [hold q fun hmem => ?_]
      have hmem' : q ∈ mbufs ++ p :: rest := by
        simp only [List.mem_cons, List.mem_append] at hmem ⊢
        tauto
      have htail := (List.nodup_append.1 h.owned.nodup).2.1
      exact (List.nodup_append.1 htail).2.2 q (mem_cells_of_mem hw hq) q hmem' rfl
    · rw [List.mem_singleton.1 hw]
      exact hlinked.2
  · rw [hold q fun hmem => hdisjoint q hmem hq]
    exact h.blank q (List.mem_cons_of_mem p hq)

end StreamStock

/-! ## Attaching -/

/-- Pbufs from the pool have been filled and hung behind `z`, the last pbuf of the chain of `p`. -/
structure Attached (heap heap' : SendHeap) (inits : ℕ) (p z : PbufPtr) (mbufs : List PbufPtr)
    (data : List Byte) : Prop where
  /-- The others are as before, but for what they are followed by. -/
  body : ∀ q ∉ mbufs, (heap' q).area = (heap q).area ∧ (heap' q).len = (heap q).len ∧
    (heap' q).totLen = (heap q).totLen ∧ (heap' q).place = (heap q).place ∧
    (heap' q).born = (heap q).born ∧ (heap' q).allowIn = (heap q).allowIn ∧
    (heap' q).locked = (heap q).locked
  /-- Only `z` has another next one. -/
  next : ∀ q ∉ mbufs, q ≠ z → (heap' q).next = (heap q).next
  /-- Only `p` has another last one. -/
  last : ∀ q ∉ mbufs, q ≠ p → (heap' q).last = (heap q).last
  /-- It is the last of those attached. -/
  last_self : (heap' p).last = mbufs.getLastD p
  /-- They belong to the send path. -/
  place : ∀ q ∈ mbufs, (heap' q).place = .gazelle
  /-- They have been initialised. -/
  born : mbufs.map (fun q => (heap' q).born) = List.range' inits mbufs.length
  /-- They hold the data. -/
  bytes : heap'.bytes mbufs = data

section Attach

variable {cfg : SendCfg} {heap heap' : SendHeap} {inits : ℕ} {p z : PbufPtr}
  {t mbufs : List PbufPtr} {data : List Byte}

/-- The stores of `app_direct_attach`. -/
theorem attached_hangChain (hops : cfg.ops.Lawful) (hnodup : mbufs.Nodup)
    (hfits : Fits mbufs.length data) (hz : z ∉ mbufs)
    (hchain : heap.Chained (p, t)) (hpt : (p :: t).Nodup) (hlast : (p :: t).getLast? = some z)
    (hdisjoint : ∀ q ∈ p :: t, q ∉ mbufs) :
    let written := doAppWrite cfg (linkPbufs (initMbufs cfg heap inits mbufs) mbufs) mbufs data
    Attached heap (hangChain written.1 p z mbufs) inits p z mbufs data ∧
      (hangChain written.1 p z mbufs).Chained (p, t ++ mbufs) ∧ written.2 = data.length := by
  -- the pbufs are blank after their initialisation
  have hblank : ∀ q ∈ mbufs, (initMbufs cfg heap inits mbufs q).Blank := by
    intro q hq
    have hfresh : (initMbufs cfg heap inits mbufs q).Fresh q := (initMbufs_fresh hops hnodup hq).1
    exact ⟨hfresh.len, hfresh.totLen, hfresh.next⟩
  obtain ⟨hlinked, hbytes, hlen, hothers, hfields⟩ := writeChain_spec hops hnodup hblank hfits
  intro written
  have hold : ∀ q, q ∉ mbufs → written.1 q = heap q := fun q hq =>
    (hothers q hq).trans (initMbufs_of_notMem hq)
  -- of the pbufs that are there only a `next` and a `last` are written
  have hfield : ∀ {β : Type} (g : SendPbuf → β), (∀ b o, g (.setNext o b) = g b) →
      (∀ (b : SendPbuf) x, g { b with last := x } = g b) → ∀ q ∉ mbufs,
      g (hangChain written.1 p z mbufs q) = g (heap q) := fun g hnext hlast q hq =>
    (hangChain_field g hnext hlast q).trans (congrArg g (hold q hq))
  refine ⟨⟨fun q hq => ⟨?_, ?_, ?_, ?_, ?_, ?_, ?_⟩, fun q hq hne => ?_, fun q hq hne => ?_, ?_,
    fun q hq => ?_, ?_, ?_⟩, ?_, hlen⟩
  · exact hfield (·.area) (fun _ _ => rfl) (fun _ _ => rfl) q hq
  · exact hfield (·.len) (fun _ _ => rfl) (fun _ _ => rfl) q hq
  · exact hfield (·.totLen) (fun _ _ => rfl) (fun _ _ => rfl) q hq
  · exact hfield (·.place) (fun _ _ => rfl) (fun _ _ => rfl) q hq
  · exact hfield (·.born) (fun _ _ => rfl) (fun _ _ => rfl) q hq
  · exact hfield (·.allowIn) (fun _ _ => rfl) (fun _ _ => rfl) q hq
  · exact hfield (·.locked) (fun _ _ => rfl) (fun _ _ => rfl) q hq
  · rw [next_hangChain hne, hold q hq]
  · rw [last_hangChain hne, hold q hq]
  · rw [hangChain, SendHeap.modify_self]
  · rw [hangChain_field (·.place) (fun _ _ => rfl) (fun _ _ => rfl) q, (hfields q).2.2.2.1]
    exact (initMbufs_fresh hops hnodup hq).2
  · -- they are born in the order of the list
    rw [← map_born_initMbufs hnodup]
    refine List.map_congr_left fun q _ => ?_
    exact (hangChain_field (·.born) (fun _ _ => rfl) (fun _ _ => rfl) q).trans
      (hfields q).2.2.2.2
  · -- the stores of the links come after the data and leave it
    refine (SendHeap.bytes_congr fun q _ => ?_).trans hbytes
    exact hangChain_field (·.bytes) (fun _ _ => rfl) (fun _ _ => rfl) q
  · -- the new pbufs hang behind the last one of the chain
    have hchain' : written.1.Chained (p, t) := SendHeap.Chained.congr hchain fun q hq => by
      rw [hold q (hdisjoint q hq)]
    exact chained_hangChain hchain' hlast hpt hlinked hz

/-- The pbufs attached are in the stock. -/
theorem StreamStock.attach {done : List ℕ} {taken taken' unfilled : List PbufPtr}
    {chains chains' : List (PbufPtr × List PbufPtr)}
    (h : StreamStock heap inits done taken chains [] unfilled)
    (ha : Attached heap heap' inits p z mbufs data)
    (hnodup : mbufs.Nodup) (hforeign : ∀ q ∈ mbufs, (heap q).place ≠ .gazelle)
    (hz : z ∈ taken ++ cells chains)
    (hcells : taken' ++ cells chains' = (taken ++ cells chains) ++ mbufs)
    (hchained : ∀ w ∈ chains', heap'.Chained w) :
    StreamStock heap' (inits + mbufs.length) done taken' chains' [] unfilled := by
  have hdisjoint : ∀ q ∈ taken ++ (cells chains ++ ([] ++ unfilled)), q ∉ mbufs :=
    fun q hq hmem => h.notMem (hforeign q hmem) hq
  have hperm : ((taken ++ (cells chains ++ ([] ++ unfilled))) ++ mbufs).Perm
      (taken' ++ (cells chains' ++ ([] ++ unfilled))) := by
    rw [← List.append_assoc taken', hcells, List.nil_append, ← List.append_assoc taken,
      List.append_assoc, List.append_assoc (taken ++ cells chains)]
    exact List.Perm.append_left _ List.perm_append_comm
  have howned : heap'.Owned _ := h.owned.append hnodup hforeign
    (fun q hq => (ha.body q (hdisjoint q hq)).2.2.2.1) ha.place
  refine ⟨howned.perm hperm, ?_, hchained, fun q hq => ?_⟩
  · refine h.births.init (fun q hq => ?_)
      (fun q hq => (ha.body q (hdisjoint q (mem_of_mem hq))).2.2.2.2.1) ha.born
    rw [← List.append_assoc, hcells] at hq
    simp only [List.mem_append] at hq ⊢
    tauto
  · have hmem : q ∈ taken ++ (cells chains ++ ([] ++ unfilled)) := by
      rw [List.nil_append]
      exact List.mem_append_right _ (List.mem_append_right _ hq)
    have hne : q ≠ z := fun heq => h.notMem_unfilled hz (heq ▸ hq)
    obtain ⟨-, hlen, htot, -⟩ := ha.body q (hdisjoint q hmem)
    have hblank := h.blank q hq
    exact ⟨hlen.trans hblank.len, htot.trans hblank.totLen,
      (ha.next q (hdisjoint q hmem) hne).trans hblank.next⟩

end Attach

end Gazelle
