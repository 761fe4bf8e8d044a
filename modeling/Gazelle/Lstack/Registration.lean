import Gazelle.Ltran.Tables
import Gazelle.Ring.Calls

/-!
# The registration ring

`vdev_reg_xmit` (`lstack_vdev.c`) in ltran mode tells ltran about the listeners and connections of a
stack. A message is written to a slot of `reg_buf`, and a pointer to the slot is enqueued to
`reg_ring`, where `tcp_hash_table_handle` (`ltran_forward.c`) reads it and confirms it when it is
processed. The slots are taken in turn, one for each call, also for a call that gives up with the
ring full. After enough such calls a slot is taken that a message in the ring still uses.

* `RegSys.system`: all interleavings of the calls with ltran;
* `RegInv`: the messages in the ring are as their calls wrote them;
* `registration_intact`: messages are processed intact and in order, under which condition;
* `registration_overwritten`: a message in the ring is overwritten.
-/

namespace Gazelle

/-- `DEFAULT_RING_MASK`. -/
def defaultRingMask : U32 := 511

/-- `VDEV_REG_QUEUE_SZ`. -/
def vdevRegQueueSz : U32 := 512

/-- A pointer to a slot of `reg_buf`, with the call that enqueues it. -/
structure RegEntry where
  /-- The slot. -/
  slot : U32
  /-- How many calls took a slot before. -/
  call : ℕ
  /-- What the call writes. -/
  msg : RegRingMsg
  deriving DecidableEq

/-- Where the stack thread stands in `vdev_reg_xmit`. -/
inductive RegPc
  /-- Outside, with what the last call has returned. -/
  | idle (ret : Option U32)
  /-- In `gazelle_ring_sc_dequeue`. -/
  | deq (entry : RegEntry)
  /-- Before `gazelle_ring_free_count`. -/
  | count (entry : RegEntry)
  /-- Before the write to a field: `type`, `tid` and `qtuple` in turn, and then the call of
  `gazelle_ring_sp_enqueue`. -/
  | write (entry : RegEntry) (field : ℕ)
  /-- In `gazelle_ring_sp_enqueue`. -/
  | enq (entry : RegEntry)
  /-- At the condition of the loop. -/
  | test (entry : RegEntry) (sentPkts : U32)
  deriving DecidableEq

/-- Where ltran stands in `tcp_hash_table_handle`. -/
inductive HandlePc
  /-- Outside. -/
  | idle
  /-- In `gazelle_ring_read`. -/
  | read
  /-- In the loop, with the entries that are not processed yet. -/
  | modify (rest : List RegEntry)
  /-- In `gazelle_ring_read_over`. -/
  | readOver
  deriving DecidableEq

/-- A stack, ltran and what is between them. -/
structure RegSys where
  /-- `reg_ring`. -/
  ring : RingSys RegEntry
  /-- `reg_buf`. -/
  regBuf : U32 → RegRingMsg
  /-- `reg_head`. -/
  regHead : U32
  /-- The stack thread. -/
  pc : RegPc
  /-- The thread of ltran. -/
  ltran : HandlePc
  /-- The calls that took a slot. -/
  calls : ℕ
  /-- The messages of the calls that returned 1. -/
  sent : List RegRingMsg
  /-- The messages that ltran has processed, as it read them. -/
  processed : List RegRingMsg
  /-- Whether a slot was written while an entry of the ring that is not confirmed pointed to it. -/
  rewritten : Bool

/-- The actions. -/
inductive RegAct
  /-- A call of `vdev_reg_xmit`. -/
  | regXmit (type : RegRingType) (qtuple : Option GazelleQuintuple)
  /-- The stack thread goes on. -/
  | next
  /-- A loop that has sent nothing goes on, or its time is over or the stack is not registered. -/
  | retry (again : Bool)
  /-- A call of `tcp_hash_table_handle`, with what `pthread_mutex_trylock` says. -/
  | handle (locked : Bool)
  /-- ltran goes on. -/
  | ltran

namespace RegSys

variable (s : RegSys)

/-- The entries of the ring that ltran has not confirmed. -/
def unconfirmed : List RegEntry := s.ring.accepted.drop s.ring.confirmed.length

/-- A field of a slot is written. -/
def writeField (entry : RegEntry) (field : ℕ) : RegRingMsg :=
  let msg := s.regBuf entry.slot
  match field with
  | 0 => { msg with type := entry.msg.type }
  | 1 => { msg with tid := entry.msg.tid }
  | _ => { msg with qtuple := entry.msg.qtuple }

/-- The call of `vdev_reg_xmit` by the thread `tid`, where `matchHostAddr` says which addresses are
in the configuration. -/
def regXmit (matchHostAddr : Ipv4 → Bool) (tid : Tid) (type : RegRingType) :
    Option GazelleQuintuple → Option RegSys
  | none => some { s with pc := .idle (some (-1)) }
  | some qtuple =>
    if (type = .tcpListen ∨ type = .tcpListenClose) ∧ ¬ matchHostAddr qtuple.srcIp then
      some { s with pc := .idle (some 0) }
    else
      let entry : RegEntry := ⟨s.regHead &&& defaultRingMask, s.calls, ⟨type, qtuple, tid⟩⟩
      (s.ring.step (.dequeue vdevRegQueueSz)).map fun ring =>
        { s with ring, regHead := s.regHead + 1, calls := s.calls + 1, pc := .deq entry }

/-- The next step of the stack thread. -/
def next : Option RegSys :=
  match s.pc with
  | .idle _ => none
  | .deq entry =>
    match s.ring.owner with
    | .deqDone _ => (s.ring.step .owner).map fun ring => { s with ring, pc := .count entry }
    | _ => (s.ring.step .owner).map fun ring => { s with ring }
  | .count entry =>
    if s.ring.ring.gazelleRingFreeCount = 0 then some { s with pc := .test entry 0 }
    else some { s with pc := .write entry 0 }
  | .write entry field =>
    if field < 3 then
      some { s with
        regBuf := Function.update s.regBuf entry.slot (s.writeField entry field)
        rewritten := s.rewritten || s.unconfirmed.any fun e => e.slot = entry.slot
        pc := .write entry (field + 1) }
    else (s.ring.step (.enqueue [entry])).map fun ring => { s with ring, pc := .enq entry }
  | .enq entry =>
    match s.ring.owner with
    | .enqDone n => (s.ring.step .owner).map fun ring => { s with ring, pc := .test entry n }
    | _ => (s.ring.step .owner).map fun ring => { s with ring }
  | .test entry sentPkts =>
    if sentPkts < 1 then none
    else some { s with pc := .idle (some sentPkts), sent := s.sent ++ [entry.msg] }

/-- The loop of a call that has sent nothing. -/
def retry (again : Bool) : Option RegSys :=
  match s.pc with
  | .test entry sentPkts =>
    if sentPkts < 1 then
      if again then
        (s.ring.step (.dequeue vdevRegQueueSz)).map fun ring => { s with ring, pc := .deq entry }
      else some { s with pc := .idle (some sentPkts) }
    else none
  | _ => none

/-- The call of `tcp_hash_table_handle`. -/
def handle (locked : Bool) : Option RegSys :=
  match s.ltran with
  | .idle =>
    if s.ring.ring.gazelleRingReadableCount = 0 ∨ ¬ locked then some s
    else (s.ring.step (.read packetReadSize)).map fun ring => { s with ring, ltran := .read }
  | _ => none

/-- The next step of ltran. What `tcp_hash_table_modify` does with a message is not part of this. -/
def ltranStep : Option RegSys :=
  match s.ltran with
  | .idle => none
  | .read =>
    match s.ring.reader with
    | .readDone pkts => (s.ring.step .reader).map fun ring => { s with ring, ltran := .modify pkts }
    | _ => (s.ring.step .reader).map fun ring => { s with ring }
  | .modify (entry :: rest) =>
    some { s with processed := s.processed ++ [s.regBuf entry.slot], ltran := .modify rest }
  | .modify [] => (s.ring.step .readOver).map fun ring => { s with ring, ltran := .readOver }
  | .readOver =>
    match s.ring.reader with
    | .overDone => (s.ring.step .reader).map fun ring => { s with ring, ltran := .idle }
    | _ => (s.ring.step .reader).map fun ring => { s with ring }

/-- All interleavings, from an empty ring. -/
def system (matchHostAddr : Ipv4 → Bool) (tid : Tid) : Transition.System RegSys RegAct where
  Init s := ∃ slots regBuf, s = ⟨.create 9 0 slots, regBuf, 0, .idle none, .idle, 0, [], [], false⟩
  step s
    | .regXmit type qtuple =>
      match s.pc with
      | .idle _ => s.regXmit matchHostAddr tid type qtuple
      | _ => none
    | .next => s.next
    | .retry again => s.retry again
    | .handle locked => s.handle locked
    | .ltran => s.ltranStep

/-- The message of a call that is enqueued and has not returned. -/
def returning : List RegRingMsg :=
  match s.pc with
  | .enq entry => if entry ∈ s.ring.accepted then [entry.msg] else []
  | .test entry sentPkts => if sentPkts = 1 then [entry.msg] else []
  | _ => []

/-- Registration messages reach ltran intact and in order. -/
structure Intact (s : RegSys) : Prop where
  /-- Until it is confirmed, a message in the ring is as its call wrote it. -/
  intact : ∀ e ∈ s.unconfirmed, s.regBuf e.slot = e.msg
  /-- The messages in the ring are those of the calls that returned 1, or are about to. -/
  sent : s.ring.accepted.map RegEntry.msg = s.sent ++ s.returning
  /-- They are processed in order. -/
  processed : s.processed <+: s.ring.accepted.map RegEntry.msg
  /-- No slot is written that an entry in the ring still uses. -/
  rewritten : s.rewritten = false

/-- The entry that is written comes a number of calls after each entry that is not confirmed that is
not a multiple of the number of slots. -/
def Condition : RegAct → Prop
  | .next =>
    match s.pc with
    | .count entry =>
      s.ring.ring.gazelleRingFreeCount ≠ 0 →
        ∀ e ∈ s.unconfirmed, ¬ 512 ∣ entry.call - e.call
    | _ => True
  | _ => True

/-! ## The invariant -/

variable {s} {s' : RegSys} {entry : RegEntry} {acc deq : List RegEntry}

/-- The entry of the current call. -/
structure Fresh (s : RegSys) (entry : RegEntry) (acc : List RegEntry) : Prop where
  /-- It is of the last call. -/
  call : entry.call + 1 = s.calls
  /-- Its slot. -/
  slot : entry.slot.toNat = entry.call % 512
  /-- The entries before are of earlier calls. -/
  lt : ∀ e ∈ acc, e.call < entry.call

/-- The fields of the slot that are written. -/
def Written (entry : RegEntry) (field : ℕ) (msg : RegRingMsg) : Prop :=
  (0 < field → msg.type = entry.msg.type) ∧ (1 < field → msg.tid = entry.msg.tid) ∧
    (2 < field → msg.qtuple = entry.msg.qtuple)

/-- What the stack thread knows. -/
def PcInv (s : RegSys) : RegPc → Prop
  | .idle _ => ∃ acc deq, RingSys.Resting acc deq s.ring ∧ acc.map RegEntry.msg = s.sent
  | .deq entry =>
    ∃ acc deq, RingSys.Dequeuing vdevRegQueueSz acc deq s.ring ∧ acc.map RegEntry.msg = s.sent ∧
      Fresh s entry acc
  | .count entry =>
    ∃ acc deq, RingSys.Resting acc deq s.ring ∧ acc.map RegEntry.msg = s.sent ∧ Fresh s entry acc
  | .write entry field =>
    ∃ acc deq, RingSys.Resting acc deq s.ring ∧ acc.map RegEntry.msg = s.sent ∧
      Fresh s entry acc ∧ Written entry field (s.regBuf entry.slot) ∧
      ∀ e ∈ s.unconfirmed, e.slot ≠ entry.slot
  | .enq entry =>
    ∃ acc deq, RingSys.Enqueuing 9 [entry] acc deq s.ring ∧ acc.map RegEntry.msg = s.sent ∧
      Fresh s entry acc ∧ s.regBuf entry.slot = entry.msg
  | .test entry sentPkts =>
    ∃ acc deq, acc.map RegEntry.msg = s.sent ∧ Fresh s entry acc ∧
      (sentPkts = 0 ∧ RingSys.Resting acc deq s.ring ∨
        sentPkts = 1 ∧ RingSys.Resting (acc ++ [entry]) deq s.ring)

/-- What ltran knows. -/
def HandleInv (s : RegSys) : HandlePc → Prop
  | .idle => ∃ out, RingSys.ReaderResting out out s.ring ∧ s.processed = out.map RegEntry.msg
  | .read =>
    ∃ out, RingSys.Reading packetReadSize out out s.ring ∧ s.processed = out.map RegEntry.msg
  | .modify rest =>
    ∃ conf done, RingSys.ReaderResting (conf ++ done ++ rest) conf s.ring ∧
      s.processed = (conf ++ done).map RegEntry.msg
  | .readOver =>
    ∃ out conf, RingSys.Confirming out conf s.ring ∧ s.processed = out.map RegEntry.msg

/-- The messages in the ring are as their calls wrote them. -/
structure RegInv (s : RegSys) : Prop where
  /-- `reg_ring` is a FIFO. -/
  ring : RingSys.RingInv 9 0 s.ring
  /-- `reg_head` counts the calls. -/
  head : s.regHead = BitVec.ofNat 32 s.calls
  /-- The entries are of earlier calls, and in their slots. -/
  entries : ∀ e ∈ s.ring.accepted, e.call < s.calls ∧ e.slot.toNat = e.call % 512
  /-- The slots of the messages that are not confirmed. -/
  intact : ∀ e ∈ s.unconfirmed, s.regBuf e.slot = e.msg
  /-- No such slot was written. -/
  rewritten : s.rewritten = false
  /-- The stack thread. -/
  pc : s.PcInv s.pc
  /-- ltran. -/
  ltran : s.HandleInv s.ltran

/-- What the stack thread knows does not depend on ltran, which confirms entries. -/
theorem PcInv.congr {pc : RegPc} (h : s.PcInv pc) (hring : RingSys.SameOwner s.ring s'.ring)
    (hbuf : s'.regBuf = s.regBuf) (hcalls : s'.calls = s.calls) (hsent : s'.sent = s.sent)
    (hunconfirmed : ∀ e ∈ s'.unconfirmed, e ∈ s.unconfirmed) : s'.PcInv pc := by
  have hfresh : ∀ {entry acc}, Fresh s entry acc → Fresh s' entry acc :=
    fun hf => ⟨hcalls ▸ hf.call, hf.slot, hf.lt⟩
  cases pc with
  | idle ret =>
    obtain ⟨acc, deq, hrest, hmap⟩ := h
    exact ⟨acc, deq, hrest.congr hring, hsent ▸ hmap⟩
  | deq entry =>
    obtain ⟨acc, deq, hdeq, hmap, hf⟩ := h
    exact ⟨acc, deq, hdeq.congr hring, hsent ▸ hmap, hfresh hf⟩
  | count entry =>
    obtain ⟨acc, deq, hrest, hmap, hf⟩ := h
    exact ⟨acc, deq, hrest.congr hring, hsent ▸ hmap, hfresh hf⟩
  | write entry field =>
    obtain ⟨acc, deq, hrest, hmap, hf, hwritten, hne⟩ := h
    exact ⟨acc, deq, hrest.congr hring, hsent ▸ hmap, hfresh hf, hbuf ▸ hwritten,
      fun e he => hne e (hunconfirmed e he)⟩
  | enq entry =>
    obtain ⟨acc, deq, henq, hmap, hf, hslot⟩ := h
    exact ⟨acc, deq, henq.congr hring, hsent ▸ hmap, hfresh hf, hbuf ▸ hslot⟩
  | test entry sentPkts =>
    obtain ⟨acc, deq, hmap, hf, hrest⟩ := h
    exact ⟨acc, deq, hsent ▸ hmap, hfresh hf, hrest.imp (fun h => ⟨h.1, h.2.congr hring⟩)
      fun h => ⟨h.1, h.2.congr hring⟩⟩

/-- What ltran knows does not depend on the stack thread. -/
theorem HandleInv.congr {pc : HandlePc} (h : s.HandleInv pc)
    (hring : RingSys.SameReader s.ring s'.ring) (hprocessed : s'.processed = s.processed) :
    s'.HandleInv pc := by
  cases pc with
  | idle =>
    obtain ⟨out, hrest, hmap⟩ := h
    exact ⟨out, hrest.congr hring, hprocessed.trans hmap⟩
  | read =>
    obtain ⟨out, hread, hmap⟩ := h
    exact ⟨out, hread.congr hring, hprocessed.trans hmap⟩
  | modify rest =>
    obtain ⟨conf, done, hrest, hmap⟩ := h
    exact ⟨conf, done, hrest.congr hring, hprocessed.trans hmap⟩
  | readOver =>
    obtain ⟨out, conf, hover, hmap⟩ := h
    exact ⟨out, conf, hover.congr hring, hprocessed.trans hmap⟩

/-- ltran makes an access to the ring. -/
theorem RegInv.readerAct (h : s.RegInv) {a : RingAct RegEntry} {ring : RingSys RegEntry}
    (ha : a.isReader) (hring : s.ring.step a = some ring) {ltran : HandlePc}
    (hltran : HandleInv { s with ring, ltran } ltran) : RegInv { s with ring, ltran } := by
  have hsame := RingSys.sameOwner_of_readerAct ha hring
  have hmem : ∀ e ∈ unconfirmed { s with ring, ltran }, e ∈ s.unconfirmed := by
    intro e he
    rw [unconfirmed, hsame.accepted] at he
    refine List.drop_subset_drop_left _ ?_ he
    exact RingSys.confirmed_length_le_of_step h.ring hring
  exact {
    ring := h.ring.step (by decide) hring
    head := h.head
    entries := fun e he => h.entries e (hsame.accepted ▸ he)
    intact := fun e he => h.intact e (hmem e he)
    rewritten := h.rewritten
    pc := h.pc.congr hsame rfl rfl rfl hmem
    ltran := hltran }

/-- ltran goes on. -/
theorem RegInv.ltranStep (h : s.RegInv) (hs : s.ltranStep = some s') : s'.RegInv := by
  have hinv := h.ltran
  simp only [RegSys.ltranStep] at hs
  split at hs
  · cases hs
  · rename_i hpc
    rw [hpc] at hinv
    obtain ⟨out, hread, hmap⟩ := hinv
    split at hs
    · rename_i pkts hdone
      obtain ⟨ring, hring, rfl⟩ := Option.map_eq_some_iff.1 hs
      obtain ⟨hout, -⟩ := hread.returned hdone
      have hrest := RingSys.readerResting_of_return (.inl ⟨_, hdone⟩) hring
      rw [hout, hread.confirmed] at hrest
      refine h.readerAct rfl hring ⟨out, [], ?_, ?_⟩ <;> rw [List.append_nil]
      · exact hrest
      · exact hmap
    · rename_i hnot
      obtain ⟨ring, hring, rfl⟩ := Option.map_eq_some_iff.1 hs
      have hltran : RegInv { s with ring, ltran := .read } := h.readerAct rfl hring
        ⟨out, hread.readerStep h.ring hnot hring, hmap⟩
      rwa [← hpc] at hltran
  · rename_i entry rest hpc
    rw [hpc] at hinv
    obtain ⟨conf, done, hrest, hmap⟩ := hinv
    obtain rfl := Option.some.inj hs
    -- the entry is not confirmed yet
    have hmem : entry ∈ s.unconfirmed := by
      obtain ⟨left, hleft⟩ := h.ring.readOut_prefix
      rw [unconfirmed, hrest.confirmed, ← hleft, hrest.readOut]
      simp
    exact {
      ring := h.ring
      head := h.head
      entries := h.entries
      intact := h.intact
      rewritten := h.rewritten
      pc := h.pc.congr ⟨rfl, rfl, rfl⟩ rfl rfl rfl fun _ he => he
      ltran := by
        refine ⟨conf, done ++ [entry], by simpa using hrest, ?_⟩
        show s.processed ++ [s.regBuf entry.slot] = _
        rw [hmap, h.intact entry hmem]
        simp }
  · rename_i hpc
    rw [hpc] at hinv
    obtain ⟨conf, done, hrest, hmap⟩ := hinv
    obtain ⟨ring, hring, rfl⟩ := Option.map_eq_some_iff.1 hs
    rw [List.append_nil] at hrest
    exact h.readerAct rfl hring ⟨_, conf, hrest.readOver hring, hmap⟩
  · rename_i hpc
    rw [hpc] at hinv
    obtain ⟨out, conf, hover, hmap⟩ := hinv
    split at hs
    · rename_i hdone
      obtain ⟨ring, hring, rfl⟩ := Option.map_eq_some_iff.1 hs
      have hrest := RingSys.readerResting_of_return (.inr hdone) hring
      rw [hover.readOut, hover.confirmed_eq hdone] at hrest
      exact h.readerAct rfl hring ⟨out, hrest, hmap⟩
    · rename_i hnot
      obtain ⟨ring, hring, rfl⟩ := Option.map_eq_some_iff.1 hs
      have hltran : RegInv { s with ring, ltran := .readOver } := h.readerAct rfl hring
        ⟨out, conf, hover.readerStep hnot hring, hmap⟩
      rwa [← hpc] at hltran

/-- The call of `tcp_hash_table_handle`. -/
theorem RegInv.handle (h : s.RegInv) {locked : Bool} (hs : s.handle locked = some s') :
    s'.RegInv := by
  have hinv := h.ltran
  simp only [RegSys.handle] at hs
  split at hs
  · rename_i hpc
    rw [hpc] at hinv
    obtain ⟨out, hrest, hmap⟩ := hinv
    split at hs
    · exact Option.some.inj hs ▸ h
    · obtain ⟨ring, hring, rfl⟩ := Option.map_eq_some_iff.1 hs
      exact h.readerAct rfl hring ⟨out, hrest.read hring, hmap⟩
  · cases hs

/-- The stack thread makes an access to the ring that accepts nothing. -/
theorem RegInv.ownerAct (h : s.RegInv) {a : RingAct RegEntry} {ring : RingSys RegEntry}
    (ha : ¬ a.isReader) (hring : s.ring.step a = some ring)
    (hacc : ring.accepted = s.ring.accepted) {pc : RegPc} (hpc : PcInv { s with ring, pc } pc) :
    RegInv { s with ring, pc } := by
  have hsame := RingSys.sameReader_of_ownerAct hring ha
  have hunconfirmed : unconfirmed { s with ring, pc } = s.unconfirmed := by
    rw [unconfirmed, hacc, hsame.confirmed]
    rfl
  exact {
    ring := h.ring.step (by decide) hring
    head := h.head
    entries := fun e he => h.entries e (hacc ▸ he)
    intact := fun e he => h.intact e (hunconfirmed ▸ he)
    rewritten := h.rewritten
    pc := hpc
    ltran := h.ltran.congr hsame rfl }

/-- The stack thread goes on outside the ring functions. -/
theorem RegInv.goOn (h : s.RegInv) {pc : RegPc} (hpc : PcInv { s with pc } pc) :
    RegInv { s with pc } where
  ring := h.ring
  head := h.head
  entries := h.entries
  intact := h.intact
  rewritten := h.rewritten
  pc := hpc
  ltran := h.ltran.congr ⟨rfl, rfl, rfl⟩ rfl

/-- The slot of the call is not one of a message that is not confirmed. -/
theorem RegInv.slot_ne (h : s.RegInv) (hf : Fresh s entry s.ring.accepted)
    (hc : ∀ e ∈ s.unconfirmed, ¬ 512 ∣ entry.call - e.call) :
    ∀ e ∈ s.unconfirmed, e.slot ≠ entry.slot := by
  intro e he hslot
  have hmem : e ∈ s.ring.accepted := List.mem_of_mem_drop he
  have hlt := hf.lt e hmem
  have hmod := (h.entries e hmem).2
  rw [hslot, hf.slot] at hmod
  exact hc e he (by omega)

/-- A field of the slot is written. -/
theorem RegInv.write (h : s.RegInv) {field : ℕ} (hpc : s.pc = .write entry field)
    (hfield : field < 3) :
    RegInv { s with
      regBuf := Function.update s.regBuf entry.slot (s.writeField entry field)
      rewritten := s.rewritten || s.unconfirmed.any fun e => e.slot = entry.slot
      pc := .write entry (field + 1) } := by
  have hinv := h.pc
  rw [hpc] at hinv
  obtain ⟨acc, deq, hrest, hmap, hf, hwritten, hne⟩ := hinv
  have hnext : Written entry (field + 1) (s.writeField entry field) := by
    obtain ⟨htype, htid, hqtuple⟩ := hwritten
    unfold writeField
    obtain rfl | rfl | rfl : field = 0 ∨ field = 1 ∨ field = 2 := by omega
    · exact ⟨fun _ => rfl, fun h => absurd h (by decide), fun h => absurd h (by decide)⟩
    · exact ⟨fun _ => htype (by decide), fun _ => rfl, fun h => absurd h (by decide)⟩
    · exact ⟨fun _ => htype (by decide), fun _ => htid (by decide), fun _ => rfl⟩
  exact {
    ring := h.ring
    head := h.head
    entries := h.entries
    intact := fun e he => (Function.update_of_ne (hne e he) _ _).trans (h.intact e he)
    rewritten := by
      show (s.rewritten || s.unconfirmed.any _) = false
      rw [h.rewritten, Bool.false_or, List.any_eq_false]
      exact fun e he hslot => hne e he (of_decide_eq_true hslot)
    pc := by
      refine ⟨acc, deq, hrest, hmap, ⟨hf.call, hf.slot, hf.lt⟩, ?_, hne⟩
      show Written entry (field + 1) (Function.update s.regBuf entry.slot _ entry.slot)
      rw [Function.update_self]
      exact hnext
    ltran := h.ltran.congr ⟨rfl, rfl, rfl⟩ rfl }

/-- The entry is enqueued. -/
theorem RegInv.enqueue (h : s.RegInv) {ring : RingSys RegEntry} {pc : RegPc}
    (hring : s.ring.step .owner = some ring) (hf : Fresh s entry acc)
    (hold : s.ring.accepted = acc ∨ s.ring.accepted = acc ++ [entry])
    (hnew : ring.accepted = acc ∨ ring.accepted = acc ++ [entry])
    (hslot : s.regBuf entry.slot = entry.msg) (hpc : PcInv { s with ring, pc } pc) :
    RegInv { s with ring, pc } := by
  have hsame := RingSys.sameReader_of_ownerAct hring (by decide)
  have hle := h.ring.confirmed_le.trans h.ring.readOut_le
  -- an access either publishes the entry or leaves the ring as it was
  have hsub : ∀ e ∈ ring.accepted, e ∈ s.ring.accepted ∨ e = entry := by
    intro e he
    have hacc : e ∈ acc → e ∈ s.ring.accepted := by
      rcases hold with hold | hold <;> rw [hold]
      · exact id
      · exact List.mem_append_left _
    rcases hnew with hnew | hnew <;> rw [hnew] at he
    · exact .inl (hacc he)
    · rcases List.mem_append.1 he with he | he
      · exact .inl (hacc he)
      · exact .inr (List.mem_singleton.1 he)
  -- what ltran has not read is what was in the ring, or the entry
  have hunconfirmed : ∀ e ∈ ring.accepted.drop s.ring.confirmed.length,
      e ∈ s.unconfirmed ∨ e = entry := by
    intro e he
    have hprefix : ring.accepted <+: s.ring.accepted ++ [entry] := by
      rcases hold with hold | hold <;> rcases hnew with hnew | hnew <;> rw [hold, hnew]
      · exact List.prefix_append _ _
      · exact (List.prefix_append _ _).trans (List.prefix_append _ _)
      · exact List.prefix_append _ _
    have he' := (List.IsPrefix.drop hprefix s.ring.confirmed.length).subset he
    rw [List.drop_append_of_le_length hle] at he'
    exact (List.mem_append.1 he').imp id List.mem_singleton.1
  exact {
    ring := h.ring.step (by decide) hring
    head := h.head
    entries := fun e he => by
      rcases hsub e he with he | rfl
      · exact h.entries e he
      · exact ⟨by show e.call < s.calls; rw [← hf.call]; exact Nat.lt_succ_self _, hf.slot⟩
    intact := fun e he => by
      -- the slot of the entry has its message, the slots of the others are not written
      rw [unconfirmed, hsame.confirmed] at he
      rcases hunconfirmed e he with he | rfl
      · exact h.intact e he
      · exact hslot
    rewritten := h.rewritten
    pc := hpc
    ltran := h.ltran.congr hsame rfl }

/-- The stack thread goes on. -/
theorem RegInv.next (h : s.RegInv) (hc : s.Condition .next) (hs : s.next = some s') :
    s'.RegInv := by
  have hinv := h.pc
  simp only [RegSys.next] at hs
  split at hs
  · cases hs
  · -- inside of `gazelle_ring_sc_dequeue`, which gives the slots back that ltran has read
    rename_i entry hpc
    rw [hpc] at hinv
    obtain ⟨acc, deq, hdeq, hmap, hf⟩ := hinv
    split at hs
    · rename_i got hdone
      obtain ⟨ring, hring, rfl⟩ := Option.map_eq_some_iff.1 hs
      have hrest := RingSys.resting_of_return (.inr ⟨_, hdone⟩) hring
      rw [hdeq.accepted] at hrest
      exact h.ownerAct (by decide) hring (hrest.accepted.trans hdeq.accepted.symm)
        ⟨acc, _, hrest, hmap, hf.call, hf.slot, hf.lt⟩
    · -- one more access of it
      rename_i hnot
      obtain ⟨ring, hring, rfl⟩ := Option.map_eq_some_iff.1 hs
      have hdeq' := hdeq.ownerStep h.ring hnot hring
      have hnext : RegInv { s with ring, pc := .deq entry } := h.ownerAct (by decide) hring
        (hdeq'.accepted.trans hdeq.accepted.symm) ⟨acc, deq, hdeq', hmap, hf.call, hf.slot, hf.lt⟩
      rwa [← hpc] at hnext
  · rename_i entry hpc
    rw [hpc] at hinv
    obtain ⟨acc, deq, hrest, hmap, hf⟩ := hinv
    simp only [RegSys.Condition, hpc] at hc
    split at hs
    · -- the ring is full and nothing is sent in this round
      obtain rfl := Option.some.inj hs
      exact h.goOn ⟨acc, deq, hmap, ⟨hf.call, hf.slot, hf.lt⟩, .inl ⟨rfl, hrest⟩⟩
    · -- by the condition the slot of the entry is not one that ltran has still to read
      rename_i hroom
      obtain rfl := Option.some.inj hs
      have hne := h.slot_ne (hrest.accepted ▸ hf) (hc hroom)
      refine h.goOn ⟨acc, deq, hrest, hmap, ⟨hf.call, hf.slot, hf.lt⟩, ⟨?_, ?_, ?_⟩, hne⟩ <;>
        exact fun hlt => absurd hlt (by decide)
  · -- the three fields of the slot are written one by one
    rename_i entry field hpc
    split at hs
    · rename_i hfield
      exact Option.some.inj hs ▸ h.write hpc hfield
    · -- all three are written and the entry is enqueued
      rename_i hfield
      rw [hpc] at hinv
      obtain ⟨acc, deq, hrest, hmap, hf, ⟨htype, htid, hqtuple⟩, hne⟩ := hinv
      obtain ⟨ring, hring, rfl⟩ := Option.map_eq_some_iff.1 hs
      have henq := hrest.enqueue (k := 9) hring
      -- so the slot has the whole message
      have hslot : s.regBuf entry.slot = entry.msg := by
        have htype' := htype (by omega)
        have htid' := htid (by omega)
        have hqtuple' := hqtuple (by omega)
        revert htype' htid' hqtuple'
        cases s.regBuf entry.slot
        cases entry.msg
        rintro rfl rfl rfl
        rfl
      have hacc : ring.accepted = acc := henq.accepted_eq (RingSys.owner_ne_enqDone_of_call hring)
      have howner : ¬ (RingAct.enqueue [entry]).isReader := Bool.false_ne_true
      exact h.ownerAct howner hring (hacc.trans hrest.accepted.symm)
        ⟨acc, deq, henq, hmap, ⟨hf.call, hf.slot, hf.lt⟩, hslot⟩
  · -- inside of `gazelle_ring_sp_enqueue`
    rename_i entry hpc
    rw [hpc] at hinv
    obtain ⟨acc, deq, henq, hmap, hf, hslot⟩ := hinv
    split at hs
    · rename_i n hdone
      obtain ⟨ring, hring, rfl⟩ := Option.map_eq_some_iff.1 hs
      have hrest := RingSys.resting_of_return (.inl ⟨_, hdone⟩) hring
      rw [henq.dequeued] at hrest
      -- the entry fits or does not, and the result says which
      by_cases hfits : acc.length + [entry].length ≤ deq.length + (2 ^ 9 - 1)
      · obtain ⟨rfl, hacc⟩ := henq.accepted_of_fits hdone hfits
        rw [hacc] at hrest
        exact h.enqueue hring hf (.inr hacc) (.inr hrest.accepted) hslot
          ⟨acc, deq, hmap, ⟨hf.call, hf.slot, hf.lt⟩, .inr ⟨rfl, hrest⟩⟩
      · -- it did not fit, and nothing was sent
        obtain ⟨rfl, hacc⟩ := henq.accepted_of_not_fits hdone hfits
        rw [hacc] at hrest
        exact h.enqueue hring hf (.inl hacc) (.inl hrest.accepted) hslot
          ⟨acc, deq, hmap, ⟨hf.call, hf.slot, hf.lt⟩, .inl ⟨rfl, hrest⟩⟩
    · -- one more access of it
      rename_i hnot
      obtain ⟨ring, hring, rfl⟩ := Option.map_eq_some_iff.1 hs
      have henq' := henq.ownerStep (by decide) h.ring hnot hring
      have hnext : RegInv { s with ring, pc := .enq entry } := h.enqueue hring hf
        (.inl (henq.accepted_eq hnot)) henq'.accepted_cases hslot
          ⟨acc, deq, henq', hmap, ⟨hf.call, hf.slot, hf.lt⟩, hslot⟩
      rwa [← hpc] at hnext
  · rename_i entry sentPkts hpc
    rw [hpc] at hinv
    obtain ⟨acc, deq, hmap, hf, hcases⟩ := hinv
    split at hs
    · cases hs
    · rename_i hlt
      obtain rfl := Option.some.inj hs
      -- the loop only ends here when the entry was enqueued
      rcases hcases with ⟨rfl, -⟩ | ⟨rfl, hrest⟩
      · exact absurd (by decide) hlt
      · exact {
          ring := h.ring
          head := h.head
          entries := h.entries
          intact := h.intact
          rewritten := h.rewritten
          pc := ⟨_, deq, hrest, by rw [List.map_append, hmap]; rfl⟩
          ltran := h.ltran.congr ⟨rfl, rfl, rfl⟩ rfl }

/-- The loop of a call that has sent nothing. -/
theorem RegInv.retry (h : s.RegInv) {again : Bool} (hs : s.retry again = some s') : s'.RegInv := by
  have hinv := h.pc
  simp only [RegSys.retry] at hs
  split at hs
  swap
  · cases hs
  rename_i entry sentPkts hpc
  rw [hpc] at hinv
  obtain ⟨acc, deq, hmap, hf, hcases⟩ := hinv
  split at hs
  swap
  · cases hs
  rename_i hlt
  have hrest : RingSys.Resting acc deq s.ring := by
    rcases hcases with ⟨-, hrest⟩ | ⟨rfl, -⟩
    · exact hrest
    · exact absurd hlt (by decide)
  split at hs
  · obtain ⟨ring, hring, rfl⟩ := Option.map_eq_some_iff.1 hs
    have hdeq := hrest.dequeue hring
    exact h.ownerAct (by decide) hring (hdeq.accepted.trans hrest.accepted.symm)
      ⟨acc, deq, hdeq, hmap, hf.call, hf.slot, hf.lt⟩
  · obtain rfl := Option.some.inj hs
    exact h.goOn ⟨acc, deq, hrest, hmap⟩

/-- A call takes the next slot. -/
theorem RegInv.regXmit (h : s.RegInv) {matchHostAddr : Ipv4 → Bool} {tid : Tid}
    {type : RegRingType} {qtuple : Option GazelleQuintuple} {ret : Option U32}
    (hpc : s.pc = .idle ret) (hs : s.regXmit matchHostAddr tid type qtuple = some s') :
    s'.RegInv := by
  have hinv := h.pc
  rw [hpc] at hinv
  obtain ⟨acc, deq, hrest, hmap⟩ := hinv
  cases qtuple with
  | none =>
    -- without a quintuple there is nothing to filter
    obtain rfl := Option.some.inj hs
    exact h.goOn ⟨acc, deq, hrest, hmap⟩
  | some qtuple =>
    simp only [RegSys.regXmit] at hs
    split at hs
    · -- a message for another host is not sent
      obtain rfl := Option.some.inj hs
      exact h.goOn ⟨acc, deq, hrest, hmap⟩
    · obtain ⟨ring, hring, rfl⟩ := Option.map_eq_some_iff.1 hs
      -- otherwise the call begins with the slots that are free again
      have hdeq := hrest.dequeue hring
      have hacc : ring.accepted = s.ring.accepted := hdeq.accepted.trans hrest.accepted.symm
      have hsame := RingSys.sameReader_of_ownerAct hring (by decide)
      -- the head wraps at 32 bits and the number of slots divides that
      have hslot : (s.regHead &&& defaultRingMask).toNat = s.calls % 512 := by
        have hmask : (s.regHead &&& defaultRingMask).toNat = s.regHead.toNat % 2 ^ 9 :=
          WrapCounter.toNat_and_mask (k := 9) (by decide) s.regHead
        rw [hmask, h.head, BitVec.toNat_ofNat]
        exact Nat.mod_mod_of_dvd _ (by decide)
      exact {
        ring := h.ring.step (by decide) hring
        head := by
          show s.regHead + 1 = BitVec.ofNat 32 (s.calls + 1)
          rw [h.head, BitVec.ofNat_add]
          rfl
        entries := fun e he => by
          obtain ⟨hlt, hmod⟩ := h.entries e (hacc ▸ he)
          exact ⟨Nat.lt_succ_of_lt hlt, hmod⟩
        intact := fun e he => by
          rw [unconfirmed, hacc, hsame.confirmed] at he
          exact h.intact e he
        rewritten := h.rewritten
        pc := ⟨acc, deq, hdeq, hmap, rfl, hslot,
          fun e he => (h.entries e (hrest.accepted ▸ he)).1⟩
        ltran := h.ltran.congr hsame rfl }

/-- A step under the condition keeps the invariant. -/
theorem RegInv.step (h : s.RegInv) {matchHostAddr : Ipv4 → Bool} {tid : Tid} {a : RegAct}
    (hc : s.Condition a) (hs : (system matchHostAddr tid).step s a = some s') : s'.RegInv := by
  cases a with
  | regXmit type qtuple =>
    simp only [system] at hs
    split at hs
    · rename_i ret hpc
      exact h.regXmit hpc hs
    · cases hs
  | next => exact h.next hc hs
  | retry again => exact h.retry hs
  | handle locked => exact h.handle hs
  | ltran => exact h.ltranStep hs

/-- The initial state has the invariant. -/
theorem RegInv.init {matchHostAddr : Ipv4 → Bool} {tid : Tid}
    (hs : (system matchHostAddr tid).Init s) : s.RegInv := by
  obtain ⟨slots, regBuf, rfl⟩ := hs
  exact {
    ring := RingSys.RingInv.create 9 0 slots
    head := rfl
    entries := fun _ he => (List.not_mem_nil he).elim
    intact := fun _ he => (List.not_mem_nil he).elim
    rewritten := rfl
    pc := ⟨[], [], ⟨rfl, rfl, rfl⟩, rfl⟩
    ltran := ⟨[], ⟨rfl, rfl, rfl⟩, rfl⟩ }

/-! ## What ltran processes -/

/-- The messages in the ring are those of the calls that returned 1, or are about to. -/
theorem RegInv.accepted_map (h : s.RegInv) :
    s.ring.accepted.map RegEntry.msg = s.sent ++ s.returning := by
  have hinv := h.pc
  revert hinv
  unfold returning
  -- the call is ahead of `sent` only between the store of the head and its return
  cases s.pc with
  | idle ret =>
    rintro ⟨acc, deq, hrest, hmap⟩
    rw [hrest.accepted, hmap, List.append_nil]
  | deq entry =>
    rintro ⟨acc, deq, hdeq, hmap, -⟩
    rw [hdeq.accepted, hmap, List.append_nil]
  | count entry =>
    rintro ⟨acc, deq, hrest, hmap, -⟩
    rw [hrest.accepted, hmap, List.append_nil]
  | write entry field =>
    rintro ⟨acc, deq, hrest, hmap, -⟩
    rw [hrest.accepted, hmap, List.append_nil]
  | enq entry =>
    rintro ⟨acc, deq, henq, hmap, hf, -⟩
    dsimp only
    -- the entry is in the ring, or not yet
    rcases henq.accepted_cases with hacc | hacc
    · rw [if_neg, hacc, hmap, List.append_nil]
      rw [hacc]
      exact fun hmem => Nat.lt_irrefl _ (hf.lt entry hmem)
    · rw [if_pos (by rw [hacc]; exact List.mem_append_right _ (List.mem_singleton_self _)), hacc,
        List.map_append, hmap]
      rfl
  | test entry sentPkts =>
    -- the call sees whether its packet was taken
    rintro ⟨acc, deq, hmap, -, ⟨rfl, hrest⟩ | ⟨rfl, hrest⟩⟩ <;> dsimp only
    · rw [if_neg (by decide), hrest.accepted, hmap, List.append_nil]
    · rw [if_pos rfl, hrest.accepted, List.map_append, hmap]
      rfl

/-- ltran has processed the first of them. -/
theorem RegInv.processed_isPrefix (h : s.RegInv) :
    s.processed <+: s.ring.accepted.map RegEntry.msg := by
  obtain ⟨out, hout, hmap⟩ : ∃ out, out <+: s.ring.readOut ∧
      s.processed = out.map RegEntry.msg := by
    have hinv := h.ltran
    revert hinv
    cases s.ltran with
    | idle =>
      rintro ⟨out, hrest, hmap⟩
      exact ⟨out, hrest.readOut ▸ List.prefix_rfl, hmap⟩
    | read =>
      rintro ⟨out, hread, hmap⟩
      exact ⟨out, hread.isPrefix_readOut, hmap⟩
    | modify rest =>
      rintro ⟨conf, done, hrest, hmap⟩
      exact ⟨conf ++ done, hrest.readOut ▸ List.prefix_append _ _, hmap⟩
    | readOver =>
      rintro ⟨out, conf, hover, hmap⟩
      exact ⟨out, hover.readOut ▸ List.prefix_rfl, hmap⟩
  rw [hmap]
  exact (hout.trans h.ring.readOut_prefix).map _

/-- In runs whose steps meet the condition registration messages reach ltran intact and in order. -/
theorem registration_intact {matchHostAddr : Ipv4 → Bool} {tid : Tid}
    (hs : (system matchHostAddr tid).ReachableUnder Condition s) : s.Intact := by
  have h : s.RegInv := Transition.System.invariant_under (fun _ => RegInv.init)
    (fun _ _ _ h hc hs => h.step hc hs) hs
  exact ⟨h.intact, h.accepted_map, h.processed_isPrefix, h.rewritten⟩

/-! ## Runs -/

/-- The condition on an action is decidable. -/
instance (a : RegAct) : Decidable (s.Condition a) := by
  cases a with
  | next =>
    unfold Condition
    cases s.pc with
    | count entry => dsimp only; infer_instance
    | _ => exact isTrue trivial
  | _ => exact isTrue trivial

/-- A stack before any call. -/
private def quiet : RegSys :=
  ⟨.create 9 0 fun _ => ⟨0, 0, ⟨.unknown, ⟨0, 0, 0, 0, 0⟩, 0⟩⟩,
    fun _ => ⟨.unknown, ⟨0, 0, 0, 0, 0⟩, 0⟩, 0, .idle none, .idle, 0, [], [], false⟩

private theorem quiet_init (matchHostAddr : Ipv4 → Bool) (tid : Tid) :
    (system matchHostAddr tid).Init quiet := ⟨_, _, rfl⟩

/-- A connection. -/
private def someTuple : GazelleQuintuple := ⟨0, 80, 1024, 0x0a01a8c0, 0x0b01a8c0⟩

/-- A call that returns 1. -/
private def acceptedCall : List RegAct :=
  .regXmit .tcpConnect (some someTuple) :: List.replicate 14 .next

/-- A call that gives up with the ring full. -/
private def failedCall : List RegAct :=
  .regXmit .tcpConnect (some someTuple) :: List.replicate 4 .next ++ [.retry false]

/-- ltran processes and confirms `n` messages. -/
private def handleCall (n : ℕ) : List RegAct :=
  .handle true :: List.replicate (n + 4 + n + 4) .ltran

/-- Two messages are processed; a third call dequeues them and leaves its own, which is not read
yet. -/
private def intactRun : List RegAct :=
  acceptedCall ++ .regXmit .tcpConnectClose (some someTuple) :: List.replicate 14 .next ++
    handleCall 2 ++ .regXmit .tcpConnect (some someTuple) :: List.replicate 17 .next

/-- A connection is opened, closed and opened again: two messages have arrived in the order of their
calls, and the third one is in its slot. -/
theorem registration_intact_two :
    ∃ s, (system (fun _ => true) 7).ReachableUnder Condition s ∧
      s.processed = [⟨.tcpConnect, someTuple, 7⟩, ⟨.tcpConnectClose, someTuple, 7⟩] ∧
      s.unconfirmed.map RegEntry.msg = [⟨.tcpConnect, someTuple, 7⟩] ∧ s.Intact := by
  have hrun : ((system (fun _ => true) 7).run quiet intactRun).any (fun s =>
      s.processed = [⟨.tcpConnect, someTuple, 7⟩, ⟨.tcpConnectClose, someTuple, 7⟩] ∧
        s.unconfirmed.map RegEntry.msg = [⟨.tcpConnect, someTuple, 7⟩]) = true := by
    decide +kernel
  have hmeet : (system (fun _ => true) 7).stepsMeet Condition quiet intactRun := by
    decide +kernel
  obtain ⟨s, hs, hstate⟩ := (Option.any_eq_true _ _).1 hrun
  obtain ⟨hprocessed, hunconfirmed⟩ := of_decide_eq_true hstate
  have hreach := Transition.System.reachableUnder_of_run (.init (quiet_init _ _)) hs hmeet
  exact ⟨s, hreach, hprocessed, hunconfirmed, registration_intact hreach⟩

/-- The ring fills up, 33 calls give up, ltran processes 32 messages, and the next call writes to
the slot of the 33rd, which is still to be read. -/
private def overwritingRun : List RegAct :=
  (List.replicate 511 acceptedCall).flatten ++ (List.replicate 33 failedCall).flatten ++
    handleCall 32 ++ .regXmit .tcpConnectClose (some someTuple) :: List.replicate 38 .next

/-- A message that is to be read says that the connection is closed, while its call said that it was
opened. -/
theorem registration_overwritten :
    ¬ ∀ (matchHostAddr : Ipv4 → Bool) (tid : Tid) (s : RegSys),
      (system matchHostAddr tid).Reachable s → s.Intact := by
  intro hclaim
  have hrun : ((system (fun _ => true) 7).run quiet overwritingRun).any (fun s =>
      s.unconfirmed.head?.any fun e =>
        (s.regBuf e.slot).type = .tcpConnectClose ∧ e.msg.type = .tcpConnect) = true := by
    decide +kernel
  obtain ⟨s, hs, hstate⟩ := (Option.any_eq_true _ _).1 hrun
  obtain ⟨e, he, htypes⟩ := (Option.any_eq_true _ _).1 hstate
  obtain ⟨hread, hwritten⟩ := of_decide_eq_true htypes
  have hreach := Transition.System.reachable_of_run (.init (quiet_init _ _)) hs
  have hintact := (hclaim _ _ s hreach).intact e (List.mem_of_mem_head? he)
  rw [hintact, hwritten] at hread
  cases hread

end RegSys

end Gazelle
