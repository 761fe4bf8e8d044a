import Mathlib.Data.List.Perm.Basic
import Mathlib.Logic.Function.Basic
import Mathlib.Tactic.Common

/-!
# Making the rings to a process of the same node

`create_same_node_ring` (`lstack_lwip.c`) makes two rings for the pcb of a connection and, for each
direction, a memzone with a `struct same_node_ring` and a memzone for its data. Whichever of the six
fails, it goes to `END`, where everything is freed and the fields are reset. On the way it follows
the pointers to the two structures.

* `createSameNodeRing`: the function, from any values of the fields; it returns nothing when it
  follows `NULL` or a pointer to memory that was freed;
* `CleansUp`: what the function is to do, when it succeeds and when it fails;
* `create_same_node_ring_cleans_up_iff`: when it does;
* `not_cleans_up_null`: a failure with all fields `NULL`.
-/

namespace Gazelle

/-- The results of `create_same_node_ring`. -/
inductive SameNodeErr
  /-- `ERR_OK`. -/
  | ok
  /-- `ERR_BUF`. -/
  | buf
  deriving DecidableEq

/-- The resources that `create_same_node_ring` makes, in this order. -/
inductive MakeStep
  /-- `client_rx_ring`. -/
  | rxRing
  /-- `client_tx_ring`. -/
  | txRing
  /-- The memzone of `same_node_rx_ring`. -/
  | rxZone
  /-- The memzone of its data. -/
  | rxBuf
  /-- The memzone of `same_node_tx_ring`. -/
  | txZone
  /-- The memzone of its data. -/
  | txBuf
  deriving DecidableEq

/-- A ring or memzone: one that was there before the call, or one that the call has made. A `struct
same_node_ring` has the handle of the memzone that it is in. -/
inductive Handle
  /-- From before the call. -/
  | old (n : ℕ)
  /-- Made by the call. -/
  | made (step : MakeStep)
  deriving DecidableEq

/-- `struct same_node_ring`, with pointers of type `ρ`. -/
structure SameNodeStruct (ρ : Type*) where
  /-- `mz`. -/
  mz : Option ρ
  /-- `sndbegin`. -/
  sndbegin : BitVec 64
  /-- `sndend`. -/
  sndend : BitVec 64

/-- A structure that was there before the call. -/
def SameNodeStruct.old (r : SameNodeStruct ℕ) : SameNodeStruct Handle :=
  { r with mz := r.mz.map .old }

/-- The fields of the pcb and of the socket, with pointers of type `ρ`. -/
structure SameNodeFields (ρ : Type*) where
  /-- `pcb->client_rx_ring`. -/
  clientRxRing : Option ρ
  /-- `pcb->client_tx_ring`. -/
  clientTxRing : Option ρ
  /-- `pcb->free_ring`. -/
  freeRing : BitVec 8
  /-- `sock->same_node_rx_ring`. -/
  rxRing : Option ρ
  /-- `sock->same_node_rx_ring_mz`. -/
  rxRingMz : Option ρ
  /-- `sock->same_node_tx_ring`. -/
  txRing : Option ρ
  /-- `sock->same_node_tx_ring_mz`. -/
  txRingMz : Option ρ

/-- What the call is given: the fields and structures before it, and what the functions of DPDK
answer. -/
structure SameNodeInput where
  /-- The fields. -/
  fields : SameNodeFields ℕ
  /-- The structures, `none` where the memory was freed. -/
  structs : ℕ → Option (SameNodeStruct ℕ)
  /-- `use_sockmap`. -/
  useSockmap : Bool
  /-- The ring or memzone can be made. -/
  ok : MakeStep → Bool
  /-- What is in a new memzone. -/
  fresh : MakeStep → SameNodeStruct ℕ

/-- What may be freed. -/
inductive Resource
  /-- A ring. -/
  | ring (h : Handle)
  /-- A memzone. -/
  | zone (h : Handle)
  deriving DecidableEq

/-- The state of the call. -/
structure SameNodeCall extends SameNodeFields Handle where
  /-- The structures. -/
  structs : Handle → Option (SameNodeStruct Handle)
  /-- The rings and memzones made so far; nothing reads this. -/
  made : List Resource
  /-- The rings and memzones freed so far; nothing reads this. -/
  freed : List Resource

namespace SameNodeCall

variable (i : SameNodeInput) (s : SameNodeCall)

/-- The state before the call. -/
def start : SameNodeCall where
  clientRxRing := i.fields.clientRxRing.map .old
  clientTxRing := i.fields.clientTxRing.map .old
  freeRing := i.fields.freeRing
  rxRing := i.fields.rxRing.map .old
  rxRingMz := i.fields.rxRingMz.map .old
  txRing := i.fields.txRing.map .old
  txRingMz := i.fields.txRingMz.map .old
  structs
    | .old n => (i.structs n).map .old
    | .made _ => none
  made := []
  freed := []

/-- `same_node_ring_create`: the ring, if it succeeds. -/
def sameNodeRingCreate (step : MakeStep) : Option Handle :=
  if !i.useSockmap then none else if i.ok step then some (.made step) else none

/-- `same_node_memzone_create`: the memzone, if it succeeds. -/
def sameNodeMemzoneCreate (step : MakeStep) : Option Handle :=
  if i.ok step then some (.made step) else none

/-- A ring is there. -/
def addRing (step : MakeStep) : SameNodeCall := { s with made := s.made ++ [.ring (.made step)] }

/-- A memzone is there, and what happens to be in it. -/
def addZone (step : MakeStep) : SameNodeCall :=
  { s with
    structs := Function.update s.structs (.made step) (some (i.fresh step).old)
    made := s.made ++ [.zone (.made step)] }

/-- A structure is written to. -/
def writeStruct (h : Handle) (f : SameNodeStruct Handle → SameNodeStruct Handle) : SameNodeCall :=
  { s with structs := Function.update s.structs h ((s.structs h).map f) }

/-- The structure that a pointer points to. -/
def deref (p : Option Handle) : Option (SameNodeStruct Handle) := p.bind s.structs

/-- `rte_ring_free`. -/
def rteRingFree : Option Handle → SameNodeCall
  | some h => { s with freed := s.freed ++ [.ring h] }
  | none => s

/-- `rte_memzone_free`. -/
def rteMemzoneFree : Option Handle → SameNodeCall
  | some h => { s with
      structs := Function.update s.structs h none
      freed := s.freed ++ [.zone h] }
  | none => s

/-- `init_same_node_ring`. -/
def initSameNodeRing : SameNodeCall :=
  { s with
    clientRxRing := none
    clientTxRing := none
    freeRing := 0
    rxRing := none
    rxRingMz := none
    txRing := none
    txRingMz := none }

/-- The label `END`. -/
def cleanUp : Option (SameNodeErr × SameNodeCall) :=
  let s := s.rteRingFree s.clientRxRing
  let s := s.rteRingFree s.clientTxRing
  (s.deref s.rxRing).bind fun rx =>
    let s := s.rteMemzoneFree rx.mz
    let s := s.rteMemzoneFree s.rxRingMz
    (s.deref s.txRing).bind fun tx =>
      let s := s.rteMemzoneFree tx.mz
      let s := s.rteMemzoneFree s.txRingMz
      some (.buf, s.initSameNodeRing)

/-- The memzone for the data of a structure is made, and its counters are set. -/
def makeBuf (zone buf : MakeStep) : SameNodeCall × Bool :=
  let s := s.writeStruct (.made zone) ({ · with mz := sameNodeMemzoneCreate i buf })
  if i.ok buf then
    ((s.addZone i buf).writeStruct (.made zone) ({ · with sndbegin := 0, sndend := 0 }), true)
  else (s, false)

/-- The part for the sending direction. -/
def createTx : Option (SameNodeErr × SameNodeCall) :=
  let s := { s with txRingMz := sameNodeMemzoneCreate i .txZone }
  if !i.ok .txZone then s.cleanUp
  else
    let s := { s.addZone i .txZone with txRing := s.txRingMz }
    let made := s.makeBuf i .txZone .txBuf
    if made.2 then some (.ok, made.1) else made.1.cleanUp

/-- The part for the receiving direction. -/
def createRx : Option (SameNodeErr × SameNodeCall) :=
  let s := { s with rxRingMz := sameNodeMemzoneCreate i .rxZone }
  if !i.ok .rxZone then s.cleanUp
  else
    let s := { s.addZone i .rxZone with rxRing := s.rxRingMz }
    let made := s.makeBuf i .rxZone .rxBuf
    if made.2 then made.1.createTx i else made.1.cleanUp

end SameNodeCall

open SameNodeCall

/-- `create_same_node_ring`. -/
def createSameNodeRing (i : SameNodeInput) : Option (SameNodeErr × SameNodeCall) :=
  let s := start i
  let s := { s with clientRxRing := sameNodeRingCreate i .rxRing }
  if s.clientRxRing.isNone then s.cleanUp
  else
    let s := s.addRing .rxRing
    let s := { s with clientTxRing := sameNodeRingCreate i .txRing }
    if s.clientTxRing.isNone then s.cleanUp
    else
      let s := s.addRing .txRing
      let s := { s with freeRing := 1 }
      s.createRx i

/-- A ring or memzone exists at the end of the call. -/
def SameNodeCall.Present (s : SameNodeCall) (r : Resource) : Prop := r ∈ s.made ∧ r ∉ s.freed

/-- The pointer points to a structure in a memzone that exists, whose data area exists and whose
counters are 0. -/
def SameNodeCall.Ready (s : SameNodeCall) (p : Option Handle) : Prop :=
  ∃ h r buf, p = some h ∧ s.Present (.zone h) ∧ s.structs h = some r ∧ r.mz = some buf ∧
    s.Present (.zone buf) ∧ r.sndbegin = 0 ∧ r.sndend = 0

/-- Everything is there. -/
structure SameNodeCall.Complete (s : SameNodeCall) : Prop where
  /-- The ring from the other process. -/
  clientRxRing : ∃ h, s.clientRxRing = some h ∧ s.Present (.ring h)
  /-- The ring to the other process. -/
  clientTxRing : ∃ h, s.clientTxRing = some h ∧ s.Present (.ring h)
  /-- The structure for receiving. -/
  rxRing : s.Ready s.rxRing
  /-- The structure for sending. -/
  txRing : s.Ready s.txRing

/-- What the call has made is freed, each once, and nothing else; and the fields are reset. -/
structure SameNodeCall.Undone (s : SameNodeCall) : Prop where
  /-- What is freed. -/
  freed : s.freed.Perm s.made
  /-- The fields of the pcb. -/
  rings : s.clientRxRing = none ∧ s.clientTxRing = none
  /-- The fields of the socket. -/
  structs : s.rxRing = none ∧ s.rxRingMz = none ∧ s.txRing = none ∧ s.txRingMz = none

/-- The call has followed no pointer that is `NULL` or stale, and has done what it is to do. -/
def CleanResult (r : Option (SameNodeErr × SameNodeCall)) : Prop :=
  ∃ ret s, r = some (ret, s) ∧ match ret with
    | .ok => s.Complete
    | .buf => s.Undone

/-- The function cleans up exactly what it made, or makes everything. -/
def CleansUp (i : SameNodeInput) : Prop := CleanResult (createSameNodeRing i)

/-- The first of the resources that cannot be made. -/
def SameNodeInput.firstFailure (i : SameNodeInput) : Option MakeStep :=
  if !i.useSockmap then some .rxRing
  else [.rxRing, .txRing, .rxZone, .rxBuf, .txZone, .txBuf].find? fun step => !i.ok step

/-- The field points to a structure that has no data area. -/
def SameNodeInput.Bare (i : SameNodeInput) (p : Option ℕ) : Prop :=
  ∃ n r, p = some n ∧ i.structs n = some r ∧ r.mz = none

/-- The fields that a failure of `step` has left unset point to nothing that would be freed, and the
pointers to the structures may be followed. -/
def SameNodeInput.Harmless (i : SameNodeInput) : MakeStep → Prop
  | .rxRing => i.fields.clientTxRing = none ∧ i.fields.rxRingMz = none ∧
      i.Bare i.fields.rxRing ∧ i.fields.txRingMz = none ∧ i.Bare i.fields.txRing
  | .txRing => i.fields.rxRingMz = none ∧
      i.Bare i.fields.rxRing ∧ i.fields.txRingMz = none ∧ i.Bare i.fields.txRing
  | .rxZone => i.Bare i.fields.rxRing ∧ i.fields.txRingMz = none ∧ i.Bare i.fields.txRing
  | .rxBuf => i.fields.txRingMz = none ∧ i.Bare i.fields.txRing
  | .txZone => i.Bare i.fields.txRing
  | .txBuf => True

/-! ## The label `END` -/

section CleanUp

variable {i : SameNodeInput} {s : SameNodeCall}

/-- What `END` frees, when the structures have these contents. -/
def SameNodeCall.endFrees (s : SameNodeCall) (rx tx : SameNodeStruct Handle) : List Resource :=
  s.clientRxRing.toList.map .ring ++ s.clientTxRing.toList.map .ring ++ rx.mz.toList.map .zone ++
    s.rxRingMz.toList.map .zone ++ tx.mz.toList.map .zone ++ s.txRingMz.toList.map .zone

/-- `rte_ring_free` only frees the ring. -/
theorem rteRingFree_eq (o : Option Handle) :
    s.rteRingFree o = { s with freed := s.freed ++ o.toList.map .ring } := by
  cases o with
  | none => rw [Option.toList_none, List.map_nil, List.append_nil]; rfl
  | some h => rfl

/-- `rte_memzone_free` frees the memzone and what is in it. -/
theorem rteMemzoneFree_eq (o : Option Handle) :
    s.rteMemzoneFree o = { s with
      structs := fun h => if o = some h then none else s.structs h
      freed := s.freed ++ o.toList.map .zone } := by
  cases o with
  | none =>
    rw [Option.toList_none, List.map_nil, List.append_nil]
    rfl
  | some h =>
    have hstructs : Function.update s.structs h none =
        fun h' => if some h = some h' then none else s.structs h' := by
      funext h'
      by_cases heq : h' = h
      · rw [heq, Function.update_self, if_pos rfl]
      · rw [Function.update_of_ne heq, if_neg fun hsome => heq (Option.some.inj hsome).symm]
    rw [SameNodeCall.rteMemzoneFree, hstructs]
    rfl

/-- `END` does what it is to do if and only if both structures may be followed, the one for sending
also after the other one is freed, and what is freed was made by the call. -/
theorem cleanResult_cleanUp_iff (hfreed : s.freed = []) :
    CleanResult s.cleanUp ↔
      ∃ rx tx h, s.deref s.rxRing = some rx ∧ s.txRing = some h ∧ s.structs h = some tx ∧
        rx.mz ≠ some h ∧ s.rxRingMz ≠ some h ∧ (s.endFrees rx tx).Perm s.made := by
  -- the structure for sending is only there when neither zone freed before was its own
  have hderef : ∀ {rx : SameNodeStruct Handle} {tx},
      (s.txRing.bind fun h => if s.rxRingMz = some h then none
          else if rx.mz = some h then none else s.structs h) = some tx ↔
        ∃ h, s.txRing = some h ∧ s.structs h = some tx ∧ rx.mz ≠ some h ∧ s.rxRingMz ≠ some h := by
    intro rx tx
    rw [Option.bind_eq_some_iff]
    refine exists_congr fun h => and_congr_right fun _ => ?_
    by_cases hzone : s.rxRingMz = some h
    · simp [hzone]
    · by_cases hbuf : rx.mz = some h
      · simp [hbuf]
      · simp [hzone, hbuf]
  -- what `END` frees, in its order
  have hfrees : ∀ rx tx : SameNodeStruct Handle,
      s.freed ++ s.clientRxRing.toList.map Resource.ring ++ s.clientTxRing.toList.map .ring ++
        rx.mz.toList.map .zone ++ s.rxRingMz.toList.map .zone ++ tx.mz.toList.map .zone ++
        s.txRingMz.toList.map .zone = s.endFrees rx tx := by
    intro rx tx
    rw [hfreed, List.nil_append]
    rfl
  constructor
  · -- `END` has run, so both structures were there
    rintro ⟨ret, s', hrun, hdone⟩
    simp only [SameNodeCall.cleanUp, rteRingFree_eq, rteMemzoneFree_eq, SameNodeCall.deref] at hrun
    obtain ⟨rx, hrx, hrun⟩ := Option.bind_eq_some_iff.1 hrun
    obtain ⟨tx, htx, hrun⟩ := Option.bind_eq_some_iff.1 hrun
    obtain ⟨h, hring, hstruct, hbuf, hzone⟩ := hderef.1 htx
    obtain ⟨rfl, rfl⟩ := Prod.mk.inj (Option.some.inj hrun)
    refine ⟨rx, tx, h, hrx, hring, hstruct, hbuf, hzone, ?_⟩
    rw [← hfrees rx tx]
    exact hdone.freed
  · -- both structures are there, so `END` runs
    rintro ⟨rx, tx, h, hrx, hring, hstruct, hbuf, hzone, hperm⟩
    have htx := hderef.2 ⟨h, hring, hstruct, hbuf, hzone⟩
    rw [← hfrees rx tx] at hperm
    have hrun : ∃ s', s.cleanUp = some (.buf, s') ∧ s'.Undone := by
      simp only [SameNodeCall.cleanUp, rteRingFree_eq, rteMemzoneFree_eq, SameNodeCall.deref]
      rw [show s.rxRing.bind s.structs = some rx from hrx, Option.bind_some, htx, Option.bind_some]
      exact ⟨_, rfl, hperm, ⟨rfl, rfl⟩, rfl, rfl, rfl, rfl⟩
    obtain ⟨s', hs', hundone⟩ := hrun
    exact ⟨.buf, s', hs', hundone⟩

/-- A structure of before the call that the call has not written to. -/
theorem deref_old_iff (hold : ∀ n, s.structs (.old n) = (i.structs n).map .old) {p : Option ℕ} :
    (∃ h r, p.map Handle.old = some h ∧ s.structs h = some r ∧ r.mz = none) ↔ i.Bare p := by
  constructor
  · rintro ⟨h, r, hp, hr, hmz⟩
    obtain ⟨n, hn, rfl⟩ := Option.map_eq_some_iff.1 hp
    rw [hold] at hr
    obtain ⟨r₀, hr₀, rfl⟩ := Option.map_eq_some_iff.1 hr
    exact ⟨n, r₀, hn, hr₀, Option.map_eq_none_iff.1 hmz⟩
  · rintro ⟨n, r₀, rfl, hr₀, hmz⟩
    refine ⟨.old n, r₀.old, rfl, ?_, ?_⟩
    · rw [hold, hr₀]
      rfl
    · exact congrArg (Option.map Handle.old) hmz

/-- What a pointer adds to a list is nothing if and only if it is `NULL`. -/
theorem map_toList_eq_nil {α β : Type*} {o : Option α} {f : α → β} :
    o.toList.map f = [] ↔ o = none := by
  rw [List.map_eq_nil_iff, Option.toList_eq_nil_iff]

/-- When some of the parts of a list are a permutation of the whole, the others are empty. -/
theorem perm_parts_iff {α : Type*} {a b c d e f b' c' d' : List α} (hb : b' = b ∨ b' = [])
    (hc : c' = c ∨ c' = []) (hd : d' = d ∨ d' = []) :
    (a ++ b ++ c ++ d ++ e ++ f).Perm (a ++ b' ++ d' ++ c') ↔
      b = b' ∧ c = c' ∧ d = d' ∧ e = [] ∧ f = [] := by
  constructor
  · intro hperm
    have hlen := hperm.length_eq
    simp only [List.length_append] at hlen
    have hpart : ∀ {x y : List α}, y = x ∨ y = [] → y.length ≤ x.length ∧
        (x.length = y.length → x = y) := by
      rintro x y (rfl | rfl)
      · exact ⟨Nat.le_refl _, fun _ => rfl⟩
      · exact ⟨Nat.zero_le _, fun h => List.eq_nil_of_length_eq_zero h⟩
    obtain ⟨hble, hbeq⟩ := hpart hb
    obtain ⟨hcle, hceq⟩ := hpart hc
    obtain ⟨hdle, hdeq⟩ := hpart hd
    exact ⟨hbeq (by omega), hceq (by omega), hdeq (by omega),
      List.eq_nil_of_length_eq_zero (by omega), List.eq_nil_of_length_eq_zero (by omega)⟩
  · rintro ⟨rfl, rfl, rfl, rfl, rfl⟩
    rw [List.append_nil, List.append_nil, List.append_assoc, List.append_assoc (a ++ b)]
    exact List.perm_append_comm.append_left (a ++ b)

/-- `END` before the structure for sending is made: the call has made the ring `client_rx_ring`, if
it is set, and the parts `tx`, `zone` and `buf` of what is freed. -/
theorem cleanResult_cleanUp_old_iff (hfreed : s.freed = [])
    (hold : ∀ n, s.structs (.old n) = (i.structs n).map .old)
    (htx : s.txRing = i.fields.txRing.map .old) (tx zone buf : List Resource)
    (hmade : s.made = s.clientRxRing.toList.map .ring ++ tx ++ zone ++ buf)
    (htx' : tx = s.clientTxRing.toList.map .ring ∨ tx = [])
    (hzone : zone = s.rxRingMz.toList.map .zone ∨ zone = [])
    (hbuf : ∀ rx, s.deref s.rxRing = some rx → buf = rx.mz.toList.map .zone ∨ buf = [])
    (hout : ∀ n, .zone (.old n) ∉ zone ∧ .zone (.old n) ∉ buf) :
    CleanResult s.cleanUp ↔ s.clientTxRing.toList.map .ring = tx ∧
      s.rxRingMz.toList.map .zone = zone ∧
      (∃ rx, s.deref s.rxRing = some rx ∧ rx.mz.toList.map .zone = buf) ∧
      s.txRingMz = none ∧ i.Bare i.fields.txRing := by
  have hnotmem : ∀ {o : Option Handle} {l : List Resource} {n : ℕ}, o.toList.map .zone = l →
      .zone (.old n) ∉ l → o ≠ some (.old n) := by
    rintro o l n rfl hnot rfl
    exact hnot List.mem_cons_self
  rw [cleanResult_cleanUp_iff hfreed, ← deref_old_iff hold, ← htx]
  constructor
  · rintro ⟨rx, r, h, hrx, hring, hstruct, -, -, hperm⟩
    rw [hmade] at hperm
    obtain ⟨h₁, h₂, h₃, h₄, h₅⟩ := (perm_parts_iff htx' (hbuf rx hrx) hzone).1 hperm
    exact ⟨h₁, h₃, ⟨rx, hrx, h₂⟩, map_toList_eq_nil.1 h₅, h, r, hring, hstruct,
      map_toList_eq_nil.1 h₄⟩
  · rintro ⟨h₁, h₃, ⟨rx, hrx, h₂⟩, h₅, h, r, hring, hstruct, h₄⟩
    obtain ⟨n, -, rfl⟩ := Option.map_eq_some_iff.1 (htx.symm.trans hring)
    refine ⟨rx, r, .old n, hrx, hring, hstruct, hnotmem h₂ (hout n).2, hnotmem h₃ (hout n).1, ?_⟩
    rw [hmade]
    exact (perm_parts_iff htx' (hbuf rx hrx) hzone).2
      ⟨h₁, h₂, h₃, map_toList_eq_nil.2 h₄, map_toList_eq_nil.2 h₅⟩

end CleanUp

/-! ## The six failures -/

section Failures

variable {i : SameNodeInput}

/-- A pointer of before the call points to a structure without data. -/
theorem bare_iff {s : SameNodeCall} (hold : ∀ n, s.structs (.old n) = (i.structs n).map .old)
    {p : Option ℕ} : (∃ rx, s.deref (p.map .old) = some rx ∧
      rx.mz.toList.map Resource.zone = []) ↔ i.Bare p := by
  rw [← deref_old_iff hold]
  constructor
  · rintro ⟨rx, hrx, hmz⟩
    obtain ⟨h, hp, hstruct⟩ := Option.bind_eq_some_iff.1 hrx
    exact ⟨h, rx, hp, hstruct, map_toList_eq_nil.1 hmz⟩
  · rintro ⟨h, r, hp, hstruct, hmz⟩
    exact ⟨r, Option.bind_eq_some_iff.2 ⟨h, hp, hstruct⟩, map_toList_eq_nil.2 hmz⟩

/-- `client_rx_ring` cannot be made. -/
theorem cleansUp_rxRing (h : i.useSockmap = false ∨ i.ok .rxRing = false) :
    CleansUp i ↔ i.Harmless .rxRing := by
  have hnone : sameNodeRingCreate i .rxRing = none := by
    rcases h with h | h <;> simp [sameNodeRingCreate, h]
  have hcreate : createSameNodeRing i =
      ({ start i with clientRxRing := none } : SameNodeCall).cleanUp := by
    rw [createSameNodeRing, hnone]
    rfl
  rw [CleansUp, hcreate, cleanResult_cleanUp_old_iff (i := i) rfl (fun _ => rfl) rfl [] [] [] rfl
    (.inr rfl) (.inr rfl) (fun _ _ => .inr rfl) (fun _ => ⟨nofun, nofun⟩)]
  rw [map_toList_eq_nil, map_toList_eq_nil]
  exact and_congr Option.map_eq_none_iff (and_congr Option.map_eq_none_iff
    (Iff.trans (and_congr (bare_iff fun _ => rfl) (and_congr_left fun _ => Option.map_eq_none_iff))
      Iff.rfl))

/-- `client_tx_ring` cannot be made. -/
theorem cleansUp_txRing (hsock : i.useSockmap = true) (hrx : i.ok .rxRing = true)
    (h : i.ok .txRing = false) : CleansUp i ↔ i.Harmless .txRing := by
  have hcreate : createSameNodeRing i =
      ({ ({ start i with clientRxRing := some (.made .rxRing) } : SameNodeCall).addRing .rxRing with
        clientTxRing := none } : SameNodeCall).cleanUp := by
    simp [createSameNodeRing, sameNodeRingCreate, hsock, hrx, h]
  rw [CleansUp, hcreate, cleanResult_cleanUp_old_iff (i := i) rfl (fun _ => rfl) rfl [] [] [] rfl
    (.inr rfl) (.inr rfl) (fun _ _ => .inr rfl) (fun _ => ⟨nofun, nofun⟩)]
  refine (and_iff_right rfl).trans (and_congr (map_toList_eq_nil.trans Option.map_eq_none_iff)
    (and_congr (bare_iff fun _ => rfl) (and_congr_left fun _ => Option.map_eq_none_iff)))

/-- The state when both rings are made. -/
def SameNodeInput.afterRings (i : SameNodeInput) : SameNodeCall :=
  { start i with
    clientRxRing := some (.made .rxRing)
    clientTxRing := some (.made .txRing)
    freeRing := 1
    made := [.ring (.made .rxRing), .ring (.made .txRing)] }

/-- Both rings are made. -/
theorem createSameNodeRing_rings (hsock : i.useSockmap = true) (hrx : i.ok .rxRing = true)
    (htx : i.ok .txRing = true) : createSameNodeRing i = i.afterRings.createRx i := by
  simp [createSameNodeRing, sameNodeRingCreate, hsock, hrx, htx, SameNodeInput.afterRings, addRing,
    start]

/-- The memzone of `same_node_rx_ring` cannot be made. -/
theorem cleanResult_rxZone (h : i.ok .rxZone = false) :
    CleanResult (i.afterRings.createRx i) ↔ i.Harmless .rxZone := by
  have hcreate : i.afterRings.createRx i =
      ({ i.afterRings with rxRingMz := none } : SameNodeCall).cleanUp := by
    simp [createRx, sameNodeMemzoneCreate, h]
  rw [hcreate, cleanResult_cleanUp_old_iff (i := i) rfl (fun _ => rfl) rfl
    [.ring (.made .txRing)] [] [] rfl (.inl rfl) (.inr rfl) (fun _ _ => .inr rfl)
    (fun _ => ⟨nofun, nofun⟩)]
  exact (and_iff_right rfl).trans ((and_iff_right rfl).trans
    (and_congr (bare_iff fun _ => rfl) (and_congr_left fun _ => Option.map_eq_none_iff)))

/-- The state when the memzone of `same_node_rx_ring` is made, and `mz` is set. -/
def SameNodeInput.afterRxZone (i : SameNodeInput) (mz : Option Handle) : SameNodeCall :=
  let s := { i.afterRings with rxRingMz := some (.made .rxZone) }
  let s := { s.addZone i .rxZone with rxRing := s.rxRingMz }
  s.writeStruct (.made .rxZone) ({ · with mz })

/-- The memzone of the data of `same_node_rx_ring` cannot be made. -/
theorem cleanResult_rxBuf (hzone : i.ok .rxZone = true) (h : i.ok .rxBuf = false) :
    CleanResult (i.afterRings.createRx i) ↔ i.Harmless .rxBuf := by
  have hcreate : i.afterRings.createRx i = (i.afterRxZone none).cleanUp := by
    simp [createRx, makeBuf, sameNodeMemzoneCreate, hzone, h, SameNodeInput.afterRxZone]
  have hrx : (i.afterRxZone none).deref (i.afterRxZone none).rxRing =
      some { (i.fresh .rxZone).old with mz := none } := by
    simp [deref, SameNodeInput.afterRxZone, writeStruct, addZone]
  rw [hcreate, cleanResult_cleanUp_old_iff (i := i) rfl (fun _ => rfl) rfl
    [.ring (.made .txRing)] [.zone (.made .rxZone)] [] rfl (.inl rfl) (.inl rfl)
    (fun _ _ => .inr rfl) (fun _ => ⟨nofun, nofun⟩)]
  exact (and_iff_right rfl).trans ((and_iff_right rfl).trans ((and_iff_right ⟨_, hrx, rfl⟩).trans
    (and_congr_left fun _ => Option.map_eq_none_iff)))

/-- The state when everything for receiving is made. -/
def SameNodeInput.afterRx (i : SameNodeInput) : SameNodeCall :=
  ((i.afterRxZone (some (.made .rxBuf))).addZone i .rxBuf).writeStruct (.made .rxZone)
    ({ · with sndbegin := 0, sndend := 0 })

/-- Everything for receiving is made. -/
theorem createRx_eq (hzone : i.ok .rxZone = true) (hbuf : i.ok .rxBuf = true) :
    i.afterRings.createRx i = i.afterRx.createTx i := by
  simp [createRx, makeBuf, sameNodeMemzoneCreate, hzone, hbuf, SameNodeInput.afterRxZone,
    SameNodeInput.afterRx]

/-- The structure for receiving. -/
theorem afterRx_structs : i.afterRx.structs (.made .rxZone) =
    some { mz := some (.made .rxBuf), sndbegin := 0, sndend := 0 } := by
  simp [SameNodeInput.afterRx, SameNodeInput.afterRxZone, writeStruct, addZone]

/-- The memzone of `same_node_tx_ring` cannot be made. -/
theorem cleanResult_txZone (h : i.ok .txZone = false) :
    CleanResult (i.afterRx.createTx i) ↔ i.Harmless .txZone := by
  have hcreate : i.afterRx.createTx i =
      ({ i.afterRx with txRingMz := none } : SameNodeCall).cleanUp := by
    simp [createTx, sameNodeMemzoneCreate, h]
  have hrx : ({ i.afterRx with txRingMz := none } : SameNodeCall).deref i.afterRx.rxRing =
      some { mz := some (.made .rxBuf), sndbegin := 0, sndend := 0 } := afterRx_structs
  rw [hcreate, cleanResult_cleanUp_old_iff (i := i) rfl (fun _ => rfl) rfl
    [.ring (.made .txRing)] [.zone (.made .rxZone)] [.zone (.made .rxBuf)] rfl (.inl rfl) (.inl rfl)
    (fun rx hrx' => .inl ?_) (fun _ => ⟨nofun, nofun⟩)]
  · exact (and_iff_right rfl).trans ((and_iff_right rfl).trans ((and_iff_right ⟨_, hrx, rfl⟩).trans
      (and_iff_right rfl)))
  · obtain rfl := Option.some.inj (hrx.symm.trans hrx')
    rfl

/-- The state when the memzone of `same_node_tx_ring` is made, and `mz` is set. -/
def SameNodeInput.afterTxZone (i : SameNodeInput) (mz : Option Handle) : SameNodeCall :=
  let s := { i.afterRx with txRingMz := some (.made .txZone) }
  let s := { s.addZone i .txZone with txRing := s.txRingMz }
  s.writeStruct (.made .txZone) ({ · with mz })

/-- The structures, when the one for sending is made. -/
theorem afterTxZone_structs (mz : Option Handle) :
    (i.afterTxZone mz).structs (.made .rxZone) =
        some { mz := some (.made .rxBuf), sndbegin := 0, sndend := 0 } ∧
      (i.afterTxZone mz).structs (.made .txZone) = some { (i.fresh .txZone).old with mz } := by
  constructor <;> simp [SameNodeInput.afterTxZone, writeStruct, addZone, afterRx_structs]

/-- The memzone of the data of `same_node_tx_ring` cannot be made: all pointers are set. -/
theorem cleanResult_txBuf (hzone : i.ok .txZone = true) (h : i.ok .txBuf = false) :
    CleanResult (i.afterRx.createTx i) := by
  have hcreate : i.afterRx.createTx i = (i.afterTxZone none).cleanUp := by
    simp [createTx, makeBuf, sameNodeMemzoneCreate, hzone, h, SameNodeInput.afterTxZone]
  obtain ⟨hrx, htx⟩ := afterTxZone_structs (i := i) none
  rw [hcreate, cleanResult_cleanUp_iff rfl]
  refine ⟨_, _, .made .txZone, hrx, rfl, htx, nofun, nofun, ?_⟩
  -- the data of the structure for receiving is freed before the structure
  have hswap : [Resource.zone (.made .rxBuf), .zone (.made .rxZone), .zone (.made .txZone)].Perm
      [.zone (.made .rxZone), .zone (.made .rxBuf), .zone (.made .txZone)] := .swap _ _ _
  exact hswap.append_left [.ring (.made .rxRing), .ring (.made .txRing)]

/-- Everything is made. -/
theorem cleanResult_ok (hzone : i.ok .txZone = true) (hbuf : i.ok .txBuf = true) :
    CleanResult (i.afterRx.createTx i) := by
  let s := ((i.afterTxZone (some (.made .txBuf))).addZone i .txBuf).writeStruct (.made .txZone)
    ({ · with sndbegin := 0, sndend := 0 })
  have hcreate : i.afterRx.createTx i = some (.ok, s) := by
    simp [createTx, makeBuf, sameNodeMemzoneCreate, hzone, hbuf, SameNodeInput.afterTxZone, s]
  obtain ⟨hrx, htx⟩ := afterTxZone_structs (i := i) (some (.made .txBuf))
  have hmade : s.made = [.ring (.made .rxRing), .ring (.made .txRing), .zone (.made .rxZone),
      .zone (.made .rxBuf), .zone (.made .txZone), .zone (.made .txBuf)] := rfl
  have hpresent : ∀ r ∈ s.made, s.Present r := fun r hr => ⟨hr, List.not_mem_nil⟩
  have hrxStruct : s.structs (.made .rxZone) =
      some { mz := some (.made .rxBuf), sndbegin := 0, sndend := 0 } := by
    simp [s, writeStruct, addZone, hrx]
  have htxStruct : s.structs (.made .txZone) =
      some { mz := some (.made .txBuf), sndbegin := 0, sndend := 0 } := by
    simp [s, writeStruct, addZone, htx]
  refine ⟨.ok, s, hcreate, ?_⟩
  exact {
    clientRxRing := ⟨.made .rxRing, rfl, hpresent _ (by simp [hmade])⟩
    clientTxRing := ⟨.made .txRing, rfl, hpresent _ (by simp [hmade])⟩
    rxRing := ⟨.made .rxZone, _, .made .rxBuf, rfl, hpresent _ (by simp [hmade]), hrxStruct, rfl,
      hpresent _ (by simp [hmade]), rfl, rfl⟩
    txRing := ⟨.made .txZone, _, .made .txBuf, rfl, hpresent _ (by simp [hmade]), htxStruct, rfl,
      hpresent _ (by simp [hmade]), rfl, rfl⟩ }

/-- The first failure, when the rings can be made up to a step. -/
theorem firstFailure_eq (hsock : i.useSockmap = true) :
    i.firstFailure =
      [.rxRing, .txRing, .rxZone, .rxBuf, .txZone, .txBuf].find? fun step => !i.ok step := by
  simp [SameNodeInput.firstFailure, hsock]

end Failures

/-- `create_same_node_ring` makes everything, or frees what it made and nothing else and follows no
pointer that is `NULL` or stale, if and only if the fields that it has not yet set when a step fails
are harmless. -/
theorem create_same_node_ring_cleans_up_iff (i : SameNodeInput) :
    CleansUp i ↔ ∀ step, i.firstFailure = some step → i.Harmless step := by
  -- it is enough to look at the step that fails first
  have hfails : ∀ step {r}, i.firstFailure = some step → createSameNodeRing i = r →
      (CleanResult r ↔ i.Harmless step) →
      (CleansUp i ↔ ∀ step, i.firstFailure = some step → i.Harmless step) := by
    intro step r hfirst hrun hiff
    rw [CleansUp, hrun, hiff]
    exact ⟨fun h step' hfirst' => Option.some.inj (hfirst.symm.trans hfirst') ▸ h,
      fun h => h step hfirst⟩
  -- the steps are taken in the order of the source, each after those before it went well
  by_cases hsock : i.useSockmap = true
  swap
  · have hoff : i.useSockmap = false := by simpa using hsock
    exact hfails .rxRing (by simp [SameNodeInput.firstFailure, hoff]) rfl
      (cleansUp_rxRing (.inl hoff))
  have hfirst := firstFailure_eq hsock
  cases hrxRing : i.ok .rxRing with
  | false => exact hfails .rxRing (by simp [hfirst, hrxRing]) rfl (cleansUp_rxRing (.inr hrxRing))
  | true =>
  cases htxRing : i.ok .txRing with
  | false =>
    exact hfails .txRing (by simp [hfirst, hrxRing, htxRing]) rfl
      (cleansUp_txRing hsock hrxRing htxRing)
  | true =>
  have hrings := createSameNodeRing_rings hsock hrxRing htxRing
  cases hrxZone : i.ok .rxZone with
  | false =>
    exact hfails .rxZone (by simp [hfirst, hrxRing, htxRing, hrxZone]) hrings
      (cleanResult_rxZone hrxZone)
  | true =>
  cases hrxBuf : i.ok .rxBuf with
  | false =>
    exact hfails .rxBuf (by simp [hfirst, hrxRing, htxRing, hrxZone, hrxBuf]) hrings
      (cleanResult_rxBuf hrxZone hrxBuf)
  | true =>
  have hrx := hrings.trans (createRx_eq hrxZone hrxBuf)
  cases htxZone : i.ok .txZone with
  | false =>
    exact hfails .txZone (by simp [hfirst, hrxRing, htxRing, hrxZone, hrxBuf, htxZone]) hrx
      (cleanResult_txZone htxZone)
  | true =>
  cases htxBuf : i.ok .txBuf with
  | false =>
    exact hfails .txBuf (by simp [hfirst, hrxRing, htxRing, hrxZone, hrxBuf, htxZone, htxBuf]) hrx
      (iff_of_true (cleanResult_txBuf htxZone htxBuf) trivial)
  | true =>
    have hnone : i.firstFailure = none := by
      simp [hfirst, hrxRing, htxRing, hrxZone, hrxBuf, htxZone, htxBuf]
    rw [CleansUp, hrx]
    refine iff_of_true (cleanResult_ok htxZone htxBuf) fun step hstep => ?_
    exact absurd (hnone.symm.trans hstep) nofun

/-- The fields of a new socket, and `client_rx_ring` cannot be made. -/
def nullFields : SameNodeInput where
  fields :=
    { clientRxRing := none
      clientTxRing := none
      freeRing := 0
      rxRing := none
      rxRingMz := none
      txRing := none
      txRingMz := none }
  structs _ := none
  useSockmap := true
  ok _ := false
  fresh _ := { mz := none, sndbegin := 0, sndend := 0 }

/-- The function follows `NULL` when the first ring cannot be made. -/
theorem not_cleans_up_null : ¬ ∀ i, CleansUp i := by
  intro h
  obtain ⟨ret, s, hrun, -⟩ := h nullFields
  have hnull : createSameNodeRing nullFields = none := rfl
  exact absurd (hnull.symm.trans hrun) nofun

end Gazelle
