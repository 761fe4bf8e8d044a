import Mathlib.Data.List.Basic
import Mathlib.Data.List.TakeDrop
import Mathlib.Algebra.Group.Nat.Defs

/-!
# Chains of packet buffers

A `struct pbuf *` is the list of the pbufs that are linked by `next`, the empty list being `NULL`.
`pbuf_copy_partial` and `pbuf_remove_header` are functions of lwIP: `PbufOps` has them, and
`PbufOps.Lawful` says what they do.

* `bytes_pbufFreePartial`: `pbuf_free_partial` drops bytes from the front of a chain;
* `Pbuf.WellFormed.pbufFreePartial`: what it leaves is a chain again.
-/

namespace Gazelle

/-- A byte. -/
abbrev Byte := BitVec 8

/-- `addr` and `port` of a `struct pbuf`. -/
structure PbufAddr where
  /-- `addr`. -/
  addr : BitVec 32
  /-- `port`. -/
  port : BitVec 16
  deriving DecidableEq

/-- `struct pbuf`. -/
structure Pbuf where
  /-- The `len` bytes from `payload` on. -/
  payload : List Byte
  /-- The number of bytes from here to the end of the chain. -/
  totLen : BitVec 16
  deriving DecidableEq

namespace Pbuf

/-- `pbuf->len`. -/
def len (p : Pbuf) : BitVec 16 := BitVec.ofNat 16 p.payload.length

/-- The bytes of a chain. -/
def bytes (pbuf : List Pbuf) : List Byte := pbuf.flatMap payload

@[simp] theorem bytes_nil : bytes [] = [] := rfl

@[simp]
theorem bytes_cons (p : Pbuf) (rest : List Pbuf) :
    bytes (p :: rest) = p.payload ++ bytes rest := rfl

/-- `pbuf->tot_len` of a chain. -/
def chainTotLen : List Pbuf → BitVec 16
  | [] => 0
  | p :: _ => p.totLen

/-- A chain that is not `NULL` and whose `tot_len` is the sum of the lengths. -/
structure WellFormed (pbuf : List Pbuf) : Prop where
  /-- There is a first pbuf. -/
  ne_nil : pbuf ≠ []
  /-- Its `tot_len` is right. -/
  totLen : (chainTotLen pbuf).toNat = (bytes pbuf).length

/-- The bytes of a chain fit a `uint16_t`. -/
theorem WellFormed.length_lt {pbuf : List Pbuf} (h : WellFormed pbuf) :
    (bytes pbuf).length < 2 ^ 16 :=
  h.totLen ▸ (chainTotLen pbuf).isLt

end Pbuf

open Pbuf

/-- A chain as the stack enqueues it. -/
structure PbufChain where
  /-- The pbufs. -/
  pbufs : List Pbuf
  /-- They are a chain. -/
  wellFormed : WellFormed pbufs

/-- The bytes of several chains. -/
def payload (chains : List PbufChain) : List Byte := chains.flatMap fun c => bytes c.pbufs

@[simp] theorem payload_nil : payload [] = [] := rfl

@[simp]
theorem payload_append (a b : List PbufChain) : payload (a ++ b) = payload a ++ payload b := by
  simp [payload]

/-- The functions of lwIP. -/
structure PbufOps where
  /-- `pbuf_copy_partial`: the bytes copied of a chain, given a length and an offset. -/
  pbufCopyPartial : List Pbuf → BitVec 16 → BitVec 16 → List Byte
  /-- `pbuf_remove_header`. -/
  pbufRemoveHeader : Pbuf → BitVec 16 → Pbuf

/-- What lwIP documents of its functions. -/
structure PbufOps.Lawful (ops : PbufOps) : Prop where
  /-- As many bytes are copied as are asked for and there. -/
  pbufCopyPartial : ∀ pbuf copyLen, WellFormed pbuf →
    ops.pbufCopyPartial pbuf copyLen 0 = (bytes pbuf).take copyLen.toNat
  /-- The payload starts later. -/
  pbufRemoveHeader : ∀ p : Pbuf, ∀ headerSize : BitVec 16, headerSize.toNat ≤ p.payload.length →
    (ops.pbufRemoveHeader p headerSize).payload = p.payload.drop headerSize.toNat

section FreePartial

variable (ops : PbufOps)

/-- The loop of `pbuf_free_partial`. -/
def pbufFreePartialLoop : List Pbuf → BitVec 16 → List Pbuf
  | [], _ => []
  | p :: next, freeLen =>
    if freeLen = 0 then p :: next
    else if p.len ≤ freeLen then pbufFreePartialLoop next (freeLen - p.len)
    else ops.pbufRemoveHeader p freeLen :: next

/-- `pbuf_free_partial`. -/
def pbufFreePartial (pbuf : List Pbuf) (freeLen : BitVec 16) : List Pbuf :=
  let totLen : BitVec 32 := (chainTotLen pbuf).setWidth 32 - freeLen.setWidth 32
  match pbufFreePartialLoop ops pbuf freeLen with
  | [] => []
  | p :: next => { p with totLen := totLen.setWidth 16 } :: next

variable {ops} (hops : ops.Lawful) {pbuf : List Pbuf} {freeLen : BitVec 16}

include hops

/-- The loop drops the bytes that are read. -/
theorem bytes_pbufFreePartialLoop (hlen : (bytes pbuf).length < 2 ^ 16) :
    bytes (pbufFreePartialLoop ops pbuf freeLen) = (bytes pbuf).drop freeLen.toNat := by
  induction pbuf generalizing freeLen with
  | nil => simp [pbufFreePartialLoop]
  | cons p next ih =>
    rw [bytes_cons, List.length_append] at hlen
    have hplen : p.len.toNat = p.payload.length := by
      rw [len, BitVec.toNat_ofNat]
      exact Nat.mod_eq_of_lt (by omega)
    rw [pbufFreePartialLoop]
    split
    · rename_i hzero
      simp [hzero]
    split
    · rename_i hle
      have hsub : (freeLen - p.len).toNat = freeLen.toNat - p.payload.length := by
        rw [BitVec.toNat_sub_of_le hle, hplen]
      rw [BitVec.le_def, hplen] at hle
      rw [ih (by omega), hsub, bytes_cons, List.drop_append, List.drop_eq_nil_of_le hle,
        List.nil_append]
    · rename_i hgt
      rw [BitVec.not_le, BitVec.lt_def, hplen] at hgt
      rw [bytes_cons, bytes_cons, hops.pbufRemoveHeader p freeLen (Nat.le_of_lt hgt),
        List.drop_append_of_le_length (Nat.le_of_lt hgt)]

/-- `pbuf_free_partial` drops the bytes that are read. -/
theorem bytes_pbufFreePartial (hlen : (bytes pbuf).length < 2 ^ 16) :
    bytes (pbufFreePartial ops pbuf freeLen) = (bytes pbuf).drop freeLen.toNat := by
  rw [← bytes_pbufFreePartialLoop hops hlen, pbufFreePartial]
  split <;> rename_i hloop <;> rw [hloop]
  rfl

/-- What is left of a chain that is not read to its end is a chain. -/
theorem Pbuf.WellFormed.pbufFreePartial (h : WellFormed pbuf)
    (hlt : freeLen.toNat < (bytes pbuf).length) :
    WellFormed (pbufFreePartial ops pbuf freeLen) := by
  have hbytes : bytes (Gazelle.pbufFreePartial ops pbuf freeLen) =
      (bytes pbuf).drop freeLen.toNat := bytes_pbufFreePartial hops h.length_lt
  have hlen : (bytes (Gazelle.pbufFreePartial ops pbuf freeLen)).length =
      (bytes pbuf).length - freeLen.toNat := by rw [hbytes, List.length_drop]
  have hne : Gazelle.pbufFreePartial ops pbuf freeLen ≠ [] := by
    intro hnil
    rw [hnil] at hlen
    simp only [bytes_nil, List.length_nil] at hlen
    omega
  refine ⟨hne, ?_⟩
  rw [hlen, ← h.totLen]
  have hle : freeLen.toNat ≤ (chainTotLen pbuf).toNat := by
    rw [h.totLen]
    exact Nat.le_of_lt hlt
  have htot : chainTotLen (Gazelle.pbufFreePartial ops pbuf freeLen) =
      ((chainTotLen pbuf).setWidth 32 - freeLen.setWidth 32).setWidth 16 := by
    unfold Gazelle.pbufFreePartial at hne ⊢
    split <;> rename_i hloop
    · simp [hloop] at hne
    · rfl
  rw [htot]
  have := (chainTotLen pbuf).isLt
  simp only [BitVec.toNat_setWidth, BitVec.toNat_sub]
  omega

end FreePartial

/-- The loop of `pbuf_copy_partial`. -/
def copyPartialLoop : List Pbuf → ℕ → ℕ → List Byte
  | [], _, _ => []
  | p :: next, left, offset =>
    if left = 0 then []
    else if offset ≠ 0 ∧ p.payload.length ≤ offset then
      copyPartialLoop next left (offset - p.payload.length)
    else
      (p.payload.drop offset).take left ++
        copyPartialLoop next (left - (p.payload.length - offset)) 0

/-- The functions of lwIP, as far as chains are concerned. -/
def lwipOps : PbufOps where
  pbufCopyPartial pbuf copyLen offset := copyPartialLoop pbuf copyLen.toNat offset.toNat
  pbufRemoveHeader p headerSize :=
    { payload := p.payload.drop headerSize.toNat, totLen := p.totLen - headerSize }

/-- They do what lwIP documents. -/
theorem lwipOps_lawful : lwipOps.Lawful where
  pbufCopyPartial pbuf copyLen _ := by
    have hloop : ∀ (l : List Pbuf) (n : ℕ), copyPartialLoop l n 0 = (bytes l).take n := by
      intro l
      induction l with
      | nil => simp [copyPartialLoop]
      | cons p next ih =>
        intro n
        rw [copyPartialLoop]
        split
        · simp [*]
        · simp [ih, List.take_append]
    exact hloop pbuf copyLen.toNat
  pbufRemoveHeader _ _ _ := rfl

end Gazelle
