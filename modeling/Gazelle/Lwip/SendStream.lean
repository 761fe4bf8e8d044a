import Gazelle.Lwip.StreamStack

/-!
# The stream of a TCP socket

All interleavings of `write_stack_data` with `write_lwip_data`, `write_lwip_over` and
`replenish_send_idlembuf`, on a ring of any size and with both settings of `expand_send_ring`: what
the stack commits is what the calls have accepted, in order, and the rest of it is still reached
from `send_pre_del`, `send_lastdata` and the ring.

* `WriteSys.Reaches`: the pbufs reached from there, which are determined by the state;
* `WriteSys.StreamInv.step`: every step keeps the invariant;
* `WriteSys.tcp_send_stream`: the stream.
-/

namespace Gazelle

open Linked

namespace WriteSys

variable {cfg : SendCfg} {k : ℕ} {start : U32} {s s' : WriteSys} {v v' : StreamView}

/-! ## What is reached -/

/-- The pbufs reached from `send_pre_del`, from `send_lastdata` and from those that wait in the
ring. -/
structure Reaches (s : WriteSys) (v : StreamView) : Prop where
  /-- The chains of the stack. -/
  stackChains : StackChains s.heap s.sendPreDel s.sendLastdata v.rest v.left
  /-- The chains of the ring start with its pbufs. -/
  heads : v.chains.map Prod.fst = s.ringWaiting
  /-- They are linked. -/
  chained : ∀ w ∈ v.chains, s.heap.Chained w

/-- The pbufs of the stack, and behind them those of the ring. -/
def reached (s : WriteSys) (v : StreamView) : List PbufPtr :=
  s.taken v.rest v.left ++ cells v.chains

/-- Chains with the same first pbufs are the same. -/
theorem chains_unique {heap : SendHeap} {ws ws' : List (PbufPtr × List PbufPtr)}
    (h : ∀ w ∈ ws, heap.Chained w) (h' : ∀ w ∈ ws', heap.Chained w)
    (hheads : ws.map Prod.fst = ws'.map Prod.fst) : ws = ws' := by
  induction ws generalizing ws' with
  | nil => exact (List.map_eq_nil_iff.1 hheads.symm).symm
  | cons w ws ih =>
    obtain ⟨w', ws'', rfl, hw, hws⟩ := List.map_eq_cons_iff.1 hheads.symm
    have hrest : ws = ws'' := ih (fun u hu => h u (List.mem_cons_of_mem w hu))
      (fun u hu => h' u (List.mem_cons_of_mem w' hu)) hws.symm
    have hchain : heap.Chain (heap w.1).next w'.2 := hw ▸ h' w' List.mem_cons_self
    have htail : w.2 = w'.2 := Linked.unique (h w List.mem_cons_self) hchain
    rw [hrest, Prod.ext hw.symm htail]

/-- The state determines what is reached. -/
theorem Reaches.unique (h : s.Reaches v) (h' : s.Reaches v') : v = v' := by
  have hrest : v.rest = v'.rest := by
    cases hpre : s.sendPreDel with
    | none => rw [h.stackChains.pre_none hpre, h'.stackChains.pre_none hpre]
    | some p => exact Linked.unique (h.stackChains.pre_some p hpre) (h'.stackChains.pre_some p hpre)
  have hleft : v.left = v'.left := Linked.unique h.stackChains.chain_left h'.stackChains.chain_left
  have hchains : v.chains = v'.chains :=
    chains_unique h.chained h'.chained (h.heads.trans h'.heads.symm)
  cases v
  cases v'
  simp only [StreamView.mk.injEq]
  exact ⟨hrest, hleft, hchains⟩

theorem StreamInv.reaches (h : StreamInv k start s v) : s.Reaches v :=
  ⟨h.stackChains, h.heads, fun w hw => h.stock.chained w (List.mem_append_left _ hw)⟩

/-! ## Every run -/

/-- One step of the socket. -/
theorem StreamInv.step (hops : cfg.ops.Lawful) (hk : k ≤ 31) (h : StreamInv k start s v)
    {a : WriteAct} (hreentry : s.NoReentry a) (hs : s.step cfg a = some s') :
    ∃ v', StreamInv k start s' v' := by
  cases a with
  | write data addr =>
    simp only [WriteSys.step] at hs
    split at hs
    · rename_i hpc
      split at hs
      · rename_i hdata
        obtain rfl := Option.some.inj hs
        refine ⟨v, h.write hpc hdata.1 hdata.2 ?_⟩
        -- without room in the last pbuf the call counts the blank ones at once
        split
        · exact .inl rfl
        · exact .inr rfl
      · cases hs
    · cases hs
  | writer alloc => exact h.writerStep hops hk hs
  | lwipData remainSize =>
    simp only [WriteSys.step] at hs
    split at hs
    · rename_i hpc
      exact h.lwipData hk hpc hs
    · cases hs
  | lwipOver =>
    simp only [WriteSys.step] at hs
    split at hs
    · rename_i p hpc hreturned
      -- what was returned is committed
      exact ⟨v, Option.some.inj hs ▸ h.lwipOver hpc hreturned⟩
    · cases hs
  | replenish alloc =>
    simp only [WriteSys.step] at hs
    split at hs
    · rename_i hpc
      -- the condition that what is allocated is not held is the one on the allocator
      exact ⟨v, h.replenish hops hk hpc hreentry hs⟩
    · cases hs
  | stack => exact h.stackStep hk hs
  | lwip p b addr =>
    simp only [WriteSys.step] at hs
    split at hs
    · rename_i hplace
      -- lwIP may write a pbuf that the application still looks at, but not its lock
      exact ⟨v, Option.some.inj hs ▸ h.setForeign hplace hreentry⟩
    · cases hs
  | release p =>
    simp only [WriteSys.step] at hs
    split at hs
    · rename_i hplace
      exact ⟨v, Option.some.inj hs ▸ h.setForeign hplace fun _ => ⟨rfl, rfl⟩⟩
    · cases hs

/-- A new socket. -/
theorem StreamInv.create (k : ℕ) (start : U32) (slots : U32 → PbufPtr) (heap : SendHeap)
    (addr : PbufPtr → PbufAddr) :
    StreamInv k start (create k start slots heap addr) ⟨[], [], []⟩ where
  ring := .create k start slots
  behind := .create k start slots
  returned _ hp := absurd hp (Option.not_mem_none _)
  writer := ⟨[], rfl, rfl, rfl⟩
  stack := rfl
  stackIs := trivial
  locks := ⟨fun _ hp => (nomatch hp), fun _ hp => (nomatch hp), fun _ hp => (nomatch hp)⟩
  heads := rfl
  stackChains := ⟨fun _ => rfl, fun _ hp => (nomatch hp), rfl, .inl rfl⟩
  stock := ⟨⟨List.nodup_nil, fun _ hp => absurd hp List.not_mem_nil⟩,
    ⟨List.nodup_nil, fun _ hb => absurd hb List.not_mem_nil, fun _ hp => absurd hp List.not_mem_nil,
      fun _ hp => absurd hp List.not_mem_nil, fun _ hp => absurd hp List.not_mem_nil⟩,
    fun _ hw => absurd hw List.not_mem_nil, fun _ hp => absurd hp List.not_mem_nil⟩
  lasts _ hw := absurd hw List.not_mem_nil
  blankLasts _ hp := absurd hp List.not_mem_nil
  untouched _ hp := nomatch hp
  apart _ _ := List.not_mem_nil
  bytes := rfl

/-- A call that is about to return has accepted no more than it was given. -/
theorem StreamInv.sendLen_le (h : StreamInv k start s v) {c : WriteCall} (hpc : s.writer = .ret c) :
    c.sendLen ≤ c.data.length := by
  have hat := h.writer
  simp only [WriterIs, hpc] at hat
  exact hat.2

/-- The stream of a TCP socket whose writes use no pbuf that is initialised again meanwhile. The
bytes committed are the first of those accepted, no pbuf is committed twice, and what is left is
reached from `send_pre_del`, `send_lastdata` and the ring, in this order. A call accepts the bytes
that it returns the number of. -/
theorem tcp_send_stream (hops : cfg.ops.Lawful) (hk : k ≤ 31)
    (hs : (system cfg k).ReachableUnder NoReentry s) :
    s.committedBytes <+: s.acceptedBytes ∧ s.committedBorn.Nodup ∧
      (∃ v, s.Reaches v ∧ s.acceptedBytes = s.committedBytes ++ s.heap.bytes (s.reached v)) ∧
      ∀ c, s.writer = .ret c → c.sendLen ≤ c.data.length := by
  have hinv : ∃ start v, StreamInv k start s v := by
    refine Transition.System.invariant_under (I := fun s => ∃ start v, StreamInv k start s v) ?_ ?_
      hs
    · rintro t ⟨start, slots, heap, addr, -, rfl⟩
      exact ⟨start, _, .create k start slots heap addr⟩
    · rintro t a t' ⟨start, v, h⟩ hreentry hstep
      exact ⟨start, h.step hops hk hreentry hstep⟩
  obtain ⟨start, v, h⟩ := hinv
  exact ⟨h.bytes ▸ List.prefix_append _ _, h.stock.births.nodup, ⟨v, h.reaches, h.bytes⟩,
    fun c hpc => h.sendLen_le hpc⟩

/-- The ring gets a pbuf, two calls write a byte into it, and the stack takes and commits it. -/
private def twoBytes : List WriteAct :=
  .replenish (some [5]) :: List.replicate 5 .stack ++
    .write [1] none :: List.replicate 11 (.writer none) ++
    .write [2] none :: List.replicate 7 (.writer none) ++
    .lwipData 100 :: List.replicate 10 .stack ++ [.lwipOver]

/-- The two bytes are committed. -/
theorem tcp_send_stream_merged :
    ∃ s : WriteSys, (system ⟨false, sendOps⟩ 1).Reachable s ∧ s.committedBytes = [1, 2] ∧
      s.committedBytes <+: s.acceptedBytes := by
  have hrun : ((system ⟨false, sendOps⟩ 1).run oneSlot twoBytes).any (fun s =>
      s.committedBytes = [1, 2]) = true := by
    decide +kernel
  have hmeet : (system ⟨false, sendOps⟩ 1).stepsMeet NoReentry oneSlot twoBytes := by
    decide +kernel
  obtain ⟨s, hs, hstate⟩ := (Option.any_eq_true _ _).1 hrun
  have hreach := Transition.System.reachableUnder_of_run (.init (oneSlot_init _)) hs hmeet
  exact ⟨s, hreach.reachable, of_decide_eq_true hstate,
    (tcp_send_stream sendOps_lawful (by decide) hreach).1⟩

end WriteSys

end Gazelle
