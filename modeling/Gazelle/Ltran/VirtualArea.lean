import Gazelle.Address.Ranges
import Gazelle.Transition.System

/-!
# The search for a virtual area

`get_virtual_area` (`ltran_instance.c`) reserves a range of addresses for a process that registers.
Without an address from the process it asks `mmap` for one address after the other, from the static
`next_addr` on in steps of `MAP_ADDR_STEP`, and starts at `MAP_ADDR_HEAD` again at the end of the
addresses. `next_addr` itself is not set back then, so that only `MAP_ADDR_HEAD` is tried.

`mmap` with an address maps there when the range is free, and elsewhere otherwise; the mapping
elsewhere is removed at once. It does not map at `NULL`.

* `VirtualMap.searchLoop`, `VirtualMap.getVirtualArea`: the search;
* `VirtualMap.search_spec`: which addresses a search tries, and that it ends;
* `VirtualMap.areas_disjoint`: the areas that are reserved do not overlap;
* `VirtualMap.get_virtual_area_complete_iff`: when a call finds an area if there is one;
* `VirtualMap.not_complete_behind`: an area is released and never found again.
-/

namespace Gazelle

open Address

/-- `MAP_ADDR_TAIL`. -/
abbrev mapAddrTail : BitVec 64 := 0x7fffffffff

/-- `MAP_ADDR_HEAD`. -/
abbrev mapAddrHead : BitVec 64 := 0x1000000000

/-- `MAP_RESERVE_SIZE`. -/
abbrev mapReserveSize : BitVec 64 := 0x0008000000

/-- `MAX_HUGEPAGE_SIZE`. -/
abbrev maxHugepageSize : BitVec 64 := 0x0040000000

/-- `MAP_ADDR_STEP`. -/
abbrev mapAddrStep : BitVec 64 := 0x0008000000

/-- The page size of the machine, a power of two of at most 128 MB. -/
structure PageSize where
  /-- The exponent. -/
  bits : ℕ
  /-- It is not too large. -/
  bits_le : bits ≤ 27

/-- `sysconf(_SC_PAGESIZE)`. -/
def PageSize.size (page : PageSize) : ℕ := 2 ^ page.bits

/-- `map_size_align`. -/
def mapSizeAlign (size pageSz : BitVec 64) : BitVec 64 :=
  let mapSize := mapReserveSize + size
  let mapSize := (mapSize / maxHugepageSize + 1) * maxHugepageSize
  let mapSize := if 0 < pageSz then (mapSize / pageSz + 1) * pageSz else mapSize
  if mapSize < size then size else mapSize

/-- `RTE_PTR_ALIGN`, for a power of two. -/
def rtePtrAlign (page : PageSize) (ptr : BitVec 64) : BitVec 64 :=
  .ofNat 64 (alignUp page.size ptr.toNat)

/-- The mappings of ltran, and where the next search starts. -/
structure VirtualMap where
  /-- The static `next_addr` of `get_virtual_area`. -/
  nextAddr : BitVec 64
  /-- The areas that `get_virtual_area` has reserved and that are not released. -/
  areas : List Range
  /-- The other mappings. -/
  others : List Range
  deriving DecidableEq

namespace VirtualMap

/-- `mmap` maps at the address that it is given. -/
def Honours (occupied : List Range) (addr mapSize : ℕ) : Prop :=
  addr ≠ 0 ∧ Range.Free occupied ⟨addr, mapSize⟩

/-- Whether `mmap` maps at an address is decidable. -/
instance (occupied : List Range) (addr mapSize : ℕ) : Decidable (Honours occupied addr mapSize) :=
  inferInstanceAs (Decidable (addr ≠ 0 ∧ Range.Free occupied ⟨addr, mapSize⟩))

section Search

variable (page : PageSize) (occupied : List Range) (mapSize : BitVec 64) (given : Bool)

/-- The loop of `get_virtual_area`, for `arg_addr` or from `next_addr` on, in at most that many
rounds: `map_addr` and `next_addr` at the end. -/
def searchLoop : ℕ → BitVec 64 → BitVec 64 → Bool → Option (Option (BitVec 64) × BitVec 64)
  | 0, _, _, _ => none
  | rounds + 1, nextAddr, mapHead, tryFlags =>
    let wraps := decide (mapAddrTail ≤ mapHead)
    let tryFlags := tryFlags || wraps
    let mapHead := rtePtrAlign page (if wraps then mapAddrHead else mapHead)
    if Honours occupied mapHead.toNat mapSize.toNat then some (some mapHead, mapHead + mapSize)
    else if given then some (none, nextAddr)
    else
      let nextAddr := nextAddr + mapAddrStep
      if !tryFlags || decide (nextAddr < mapAddrTail) then
        searchLoop rounds nextAddr nextAddr tryFlags
      else some (none, nextAddr)

end Search

variable (page : PageSize) (s : VirtualMap)

/-- All mappings. -/
def occupied : List Range := s.areas ++ s.others

/-- `get_virtual_area`, in at most that many rounds: the address and the size, `none` when it
fails. -/
def getVirtualArea (rounds : ℕ) (needAddr size : BitVec 64) :
    Option (Option (BitVec 64 × BitVec 64) × VirtualMap) :=
  let given := decide (needAddr ≠ 0)
  let mapHead := if given then needAddr else s.nextAddr
  let mapSize := mapSizeAlign size (.ofNat 64 page.size)
  (searchLoop page s.occupied mapSize given rounds s.nextAddr mapHead false).map fun
    | (none, nextAddr) => (none, { s with nextAddr })
    | (some mapAddr, nextAddr) =>
      (some (mapAddr, mapSize),
        { s with nextAddr, areas := ⟨mapAddr.toNat, mapSize.toNat⟩ :: s.areas })

/-- `remove_virtual_area`. -/
def removeVirtualArea (area : Range) : VirtualMap :=
  if area.size = 0 ∨ area.addr = 0 then s else { s with areas := s.areas.erase area }

/-- The steps. -/
inductive Act
  /-- `get_virtual_area`, that ends after at most that many rounds. -/
  | get (needAddr size : BitVec 64) (rounds : ℕ)
  /-- `remove_virtual_area`, for an area that is reserved. -/
  | remove (area : Range)
  /-- The rest of ltran maps and unmaps. -/
  | rest (others : List Range)

/-- One step. -/
def step : Act → Option VirtualMap
  | .get needAddr size rounds => (s.getVirtualArea page rounds needAddr size).map (·.2)
  | .remove area => if area ∈ s.areas then some (s.removeVirtualArea area) else none
  | .rest others => some { s with others }

/-- Calls of the two functions in any order, with any other mappings. -/
def system : Transition.System VirtualMap Act where
  Init s := s.nextAddr = mapAddrHead ∧ s.areas = []
  step := step page

/-- A range of free addresses that the search cannot miss. -/
def Gap (addr mapSize : ℕ) : Prop :=
  mapAddrHead.toNat ≤ addr ∧ addr + (mapSize + mapAddrStep.toNat) ≤ mapAddrTail.toNat ∧
    Range.Free s.occupied ⟨addr, mapSize + mapAddrStep.toNat⟩

/-- Whether there is a gap is decidable. -/
instance (addr mapSize : ℕ) : Decidable (s.Gap addr mapSize) :=
  inferInstanceAs (Decidable (_ ∧ _ ∧ Range.Free s.occupied _))

/-- The call ends, its area is large enough and was free, and it fails only when there is no gap. -/
def Complete (needAddr size : BitVec 64) : Prop :=
  ∃ rounds result s', s.getVirtualArea page rounds needAddr size = some (result, s') ∧
    match result with
    | some (addr, mapSize) =>
      size ≤ mapSize ∧ Range.Free s.occupied ⟨addr.toNat, mapSize.toNat⟩
    | none => needAddr = 0 → ∀ addr, ¬ s.Gap addr (mapSizeAlign size (.ofNat 64 page.size)).toNat

/-- The first address of the search that is in steps of `MAP_ADDR_STEP`: `next_addr`, unless it is
so large that the next step overflows. -/
def searchStart : ℕ :=
  let next := s.nextAddr.toNat + mapAddrStep.toNat
  if next < 2 ^ 64 then s.nextAddr.toNat else next - 2 ^ 64

/-- An address that a search tries, unless it ends before. -/
def Probed (addr : ℕ) : Prop :=
  addr = mapAddrHead.toNat ∨ ∃ k, s.searchStart + k * mapAddrStep.toNat < mapAddrTail.toNat ∧
    addr = alignUp page.size (s.searchStart + k * mapAddrStep.toNat)

/-- The condition on a call without an address: one of the addresses that are tried is free, or no
gap is left behind by `next_addr`. -/
def Findable (needAddr size : BitVec 64) : Prop :=
  let mapSize := (mapSizeAlign size (.ofNat 64 page.size)).toNat
  needAddr = 0 → (∃ addr, s.Probed page addr ∧ Honours s.occupied addr mapSize) ∨
    ∀ addr, s.Gap addr mapSize → alignUp page.size s.searchStart ≤ addr + mapAddrStep.toNat

/-! ## The numbers -/

section Numbers

variable {page}

/-- The page size is positive. -/
theorem pageSize_pos : 0 < page.size := Nat.two_pow_pos _

/-- The page size divides the step. -/
theorem pageSize_dvd_step : page.size ∣ mapAddrStep.toNat :=
  show 2 ^ page.bits ∣ 2 ^ 27 from pow_dvd_pow 2 page.bits_le

/-- A page is not larger than the step. -/
theorem pageSize_le : page.size ≤ mapAddrStep.toNat :=
  Nat.le_of_dvd (by decide) pageSize_dvd_step

/-- The first address is aligned. -/
theorem alignUp_head : alignUp page.size mapAddrHead.toNat = mapAddrHead.toNat :=
  alignUp_of_dvd pageSize_pos
    (show 2 ^ page.bits ∣ 2 ^ 36 from pow_dvd_pow 2 (page.bits_le.trans (by decide)))

/-- An address that is not behind the last one is aligned without overflow. -/
theorem rtePtrAlign_toNat {ptr : BitVec 64} (h : ptr.toNat < mapAddrTail.toNat) :
    (rtePtrAlign page ptr).toNat = alignUp page.size ptr.toNat := by
  have hlt := alignUp_lt (d := page.size) pageSize_pos ptr.toNat
  have hpage : page.size ≤ mapAddrStep.toNat := pageSize_le
  have htail : mapAddrTail.toNat + mapAddrStep.toNat < 2 ^ 64 := by decide
  rw [rtePtrAlign, BitVec.toNat_ofNat, Nat.mod_eq_of_lt (by omega)]

/-- The aligned size is not too small. -/
theorem le_mapSizeAlign (size pageSz : BitVec 64) : size ≤ mapSizeAlign size pageSz := by
  have hguard : ∀ n : BitVec 64, size ≤ if n < size then size else n := by
    intro n
    split
    · exact BitVec.le_refl size
    · rename_i h
      exact BitVec.not_lt.1 h
  exact hguard _

/-- The aligned size is not `0`. -/
theorem mapSizeAlign_pos (size : BitVec 64) :
    0 < (mapSizeAlign size (.ofNat 64 page.size)).toNat := by
  by_contra hzero
  have hle := BitVec.le_def.1 (le_mapSizeAlign size (.ofNat 64 page.size))
  obtain rfl : size = 0 := BitVec.eq_of_toNat_eq (by
    rw [Nat.le_zero.1 (hle.trans (Nat.not_lt.1 hzero))]
    rfl)
  have hall : ∀ bits < 28, 0 < (mapSizeAlign 0 (.ofNat 64 (2 ^ bits))).toNat := by decide
  exact hzero (hall page.bits (Nat.lt_succ_of_le page.bits_le))

end Numbers

/-! ## The search -/

section Search

variable {page} {occupied : List Range} {mapSize : BitVec 64} {next : BitVec 64}
  {r : Option (BitVec 64) × BitVec 64}

/-- The address that a round tries. -/
def probe (page : PageSize) (mapHead : BitVec 64) : BitVec 64 :=
  rtePtrAlign page (if mapAddrTail ≤ mapHead then mapAddrHead else mapHead)

/-- One round. -/
theorem searchLoop_succ {given : Bool} {rounds : ℕ} {nextAddr mapHead : BitVec 64}
    {tryFlags : Bool} :
    searchLoop page occupied mapSize given (rounds + 1) nextAddr mapHead tryFlags =
      if Honours occupied (probe page mapHead).toNat mapSize.toNat then
        some (some (probe page mapHead), probe page mapHead + mapSize)
      else if given then some (none, nextAddr)
      else if (tryFlags || decide (mapAddrTail ≤ mapHead)) = false ∨
          nextAddr + mapAddrStep < mapAddrTail then
        searchLoop page occupied mapSize given rounds (nextAddr + mapAddrStep)
          (nextAddr + mapAddrStep) (tryFlags || decide (mapAddrTail ≤ mapHead))
      else some (none, nextAddr + mapAddrStep) := by
  rw [searchLoop, probe]
  simp only [decide_eq_true_eq, Bool.or_eq_true, Bool.not_eq_true']

/-- More rounds do not change the result. -/
theorem searchLoop_mono {given : Bool} {rounds n : ℕ} {nextAddr mapHead : BitVec 64}
    {tryFlags : Bool}
    (h : searchLoop page occupied mapSize given rounds nextAddr mapHead tryFlags = some r)
    (hle : rounds ≤ n) :
    searchLoop page occupied mapSize given n nextAddr mapHead tryFlags = some r := by
  induction rounds generalizing n nextAddr mapHead tryFlags with
  | zero => cases h
  | succ rounds ih =>
    obtain ⟨n, rfl⟩ : ∃ m, n = m + 1 := ⟨n - 1, by omega⟩
    rw [searchLoop_succ] at h ⊢
    split_ifs at h ⊢
    · exact h
    · exact h
    · exact ih h (Nat.le_of_succ_le_succ hle)
    · exact h

/-- The search without an address ends with a result. -/
def Runs (page : PageSize) (occupied : List Range) (mapSize next : BitVec 64) (tryFlags : Bool)
    (r : Option (BitVec 64) × BitVec 64) : Prop :=
  ∃ rounds, searchLoop page occupied mapSize false rounds next next tryFlags = some r

/-- A round finds an area. -/
theorem runs_found (tryFlags : Bool)
    (h : Honours occupied (probe page next).toNat mapSize.toNat) :
    Runs page occupied mapSize next tryFlags (some (probe page next), probe page next + mapSize) :=
  ⟨1, searchLoop_succ.trans (if_pos h)⟩

/-- A round finds nothing, and the search goes on. -/
theorem runs_next {tryFlags : Bool}
    (h : ¬ Honours occupied (probe page next).toNat mapSize.toNat)
    (hgo : (tryFlags || decide (mapAddrTail ≤ next)) = false ∨ next + mapAddrStep < mapAddrTail)
    (hrest : Runs page occupied mapSize (next + mapAddrStep)
      (tryFlags || decide (mapAddrTail ≤ next)) r) :
    Runs page occupied mapSize next tryFlags r := by
  obtain ⟨rounds, hrest⟩ := hrest
  exact ⟨rounds + 1, searchLoop_succ.trans
    ((if_neg h).trans ((if_neg Bool.false_ne_true).trans ((if_pos hgo).trans hrest)))⟩

/-- A round finds nothing, and the search ends. -/
theorem runs_end {tryFlags : Bool}
    (h : ¬ Honours occupied (probe page next).toNat mapSize.toNat)
    (htry : (tryFlags || decide (mapAddrTail ≤ next)) = true)
    (hend : mapAddrTail ≤ next + mapAddrStep) :
    Runs page occupied mapSize next tryFlags (none, next + mapAddrStep) := by
  refine ⟨1, searchLoop_succ.trans
    ((if_neg h).trans ((if_neg Bool.false_ne_true).trans (if_neg ?_)))⟩
  rintro (hgo | hgo)
  · exact Bool.false_ne_true (hgo.symm.trans htry)
  · exact BitVec.not_lt.2 hend hgo

/-- The address that is tried before the end of the addresses. -/
theorem probe_below (h : next.toNat < mapAddrTail.toNat) :
    (probe page next).toNat = alignUp page.size next.toNat := by
  rw [probe, if_neg (BitVec.not_le.2 (BitVec.lt_def.2 h)), rtePtrAlign_toNat h]

/-- The address that is tried behind the end of the addresses. -/
theorem probe_behind (h : mapAddrTail.toNat ≤ next.toNat) :
    (probe page next).toNat = mapAddrHead.toNat := by
  rw [probe, if_pos (BitVec.le_def.2 h), rtePtrAlign_toNat (by decide), alignUp_head]

/-- A step before the end does not overflow. -/
theorem add_step_toNat (h : next.toNat + mapAddrStep.toNat < 2 ^ 64) :
    (next + mapAddrStep).toNat = next.toNat + mapAddrStep.toNat := by
  rw [BitVec.toNat_add, Nat.mod_eq_of_lt h]

/-- A search from an address before the end: it finds an area at one of the addresses in steps of
`MAP_ADDR_STEP`, or there is none at these and it comes to the end of the addresses, where it stops
if it has been there before. -/
theorem search_below (page : PageSize) (occupied : List Range) (mapSize : BitVec 64) (j : ℕ)
    {next : BitVec 64} (tryFlags : Bool) (hnext : next.toNat < mapAddrTail.toNat)
    (hj : mapAddrTail.toNat ≤ next.toNat + j * mapAddrStep.toNat) :
    (∃ k addr nextAddr, next.toNat + k * mapAddrStep.toNat < mapAddrTail.toNat ∧
      addr.toNat = alignUp page.size (next.toNat + k * mapAddrStep.toNat) ∧
      Honours occupied addr.toNat mapSize.toNat ∧
      Runs page occupied mapSize next tryFlags (some addr, nextAddr)) ∨
    ((∀ k, next.toNat + k * mapAddrStep.toNat < mapAddrTail.toNat → ¬ Honours occupied
        (alignUp page.size (next.toNat + k * mapAddrStep.toNat)) mapSize.toNat) ∧
      ∃ last : BitVec 64, mapAddrTail.toNat ≤ last.toNat ∧
        last.toNat < mapAddrTail.toNat + mapAddrStep.toNat ∧
        (tryFlags = true → Runs page occupied mapSize next tryFlags (none, last)) ∧
        ∀ r, tryFlags = false → Runs page occupied mapSize last tryFlags r →
          Runs page occupied mapSize next tryFlags r) := by
  induction j generalizing next with
  | zero => omega
  | succ j ih =>
    have hprobe : (probe page next).toNat = alignUp page.size next.toNat := probe_below hnext
    by_cases hfree : Honours occupied (probe page next).toNat mapSize.toNat
    · refine .inl ⟨0, probe page next, _, by omega, ?_, hfree, runs_found tryFlags hfree⟩
      rw [hprobe, Nat.zero_mul, Nat.add_zero]
    have hstep : (next + mapAddrStep).toNat = next.toNat + mapAddrStep.toNat := by
      have htail : mapAddrTail.toNat + mapAddrStep.toNat < 2 ^ 64 := by decide
      exact add_step_toNat (by omega)
    have hflag : (tryFlags || decide (mapAddrTail ≤ next)) = tryFlags := by
      rw [decide_eq_false (BitVec.not_le.2 (BitVec.lt_def.2 hnext)), Bool.or_false]
    have hmul : ∀ k, (next + mapAddrStep).toNat + k * mapAddrStep.toNat =
        next.toNat + (k + 1) * mapAddrStep.toNat := by
      intro k
      rw [hstep, Nat.succ_mul]
      omega
    -- the address of this round is not free
    have hzero : ¬ Honours occupied (alignUp page.size (next.toNat + 0 * mapAddrStep.toNat))
        mapSize.toNat := by
      rw [Nat.zero_mul, Nat.add_zero, ← hprobe]
      exact hfree
    by_cases hlast : (next + mapAddrStep).toNat < mapAddrTail.toNat
    · have hgo : ∀ r, Runs page occupied mapSize (next + mapAddrStep) tryFlags r →
          Runs page occupied mapSize next tryFlags r := fun r hrest =>
        runs_next hfree (.inr (BitVec.lt_def.2 hlast)) (hflag.symm ▸ hrest)
      rcases ih hlast (by rw [hmul]; exact hj) with
        ⟨k, addr, nextAddr, hk, haddr, hhonours, hrun⟩ | ⟨hnone, last, hle, hlt, hend, hrest⟩
      · rw [hmul] at hk haddr
        exact .inl ⟨k + 1, addr, nextAddr, hk, haddr, hhonours, hgo _ hrun⟩
      · refine .inr ⟨fun k hk => ?_, last, hle, hlt, fun htry => hgo _ (hend htry),
          fun r htry hrun => hgo r (hrest r htry hrun)⟩
        cases k with
        | zero => exact hzero
        | succ k =>
          rw [← hmul] at hk ⊢
          exact hnone k hk
    · refine .inr ⟨fun k hk => ?_, next + mapAddrStep, by omega, by omega, fun htry => ?_,
        fun r htry hrun => ?_⟩
      · cases k with
        | zero => exact hzero
        | succ k =>
          rw [← hmul] at hk
          omega
      · exact runs_end hfree (hflag.trans htry) (BitVec.le_def.2 (by omega))
      · exact runs_next hfree (.inl (hflag.trans htry)) (hflag.symm ▸ hrun)

/-- A search from the end of the addresses tries the first address, and stops there unless the next
step overflows. -/
theorem search_behind (page : PageSize) (occupied : List Range) (mapSize : BitVec 64)
    {next : BitVec 64} (tryFlags : Bool) (hnext : mapAddrTail.toNat ≤ next.toNat) :
    (∃ addr nextAddr, addr.toNat = mapAddrHead.toNat ∧
      Honours occupied addr.toNat mapSize.toNat ∧
      Runs page occupied mapSize next tryFlags (some addr, nextAddr)) ∨
    (¬ Honours occupied mapAddrHead.toNat mapSize.toNat ∧
      (mapAddrTail.toNat ≤ (next + mapAddrStep).toNat →
        Runs page occupied mapSize next tryFlags (none, next + mapAddrStep)) ∧
      ∀ r, (next + mapAddrStep).toNat < mapAddrTail.toNat →
        Runs page occupied mapSize (next + mapAddrStep) true r →
        Runs page occupied mapSize next tryFlags r) := by
  have hprobe : (probe page next).toNat = mapAddrHead.toNat := probe_behind hnext
  have hflag : (tryFlags || decide (mapAddrTail ≤ next)) = true := by
    rw [decide_eq_true (BitVec.le_def.2 hnext), Bool.or_true]
  by_cases hfree : Honours occupied (probe page next).toNat mapSize.toNat
  · exact .inl ⟨probe page next, _, hprobe, hfree, runs_found tryFlags hfree⟩
  · refine .inr ⟨hprobe ▸ hfree, fun hend => ?_, fun r hlt hrun => ?_⟩
    · exact runs_end hfree hflag (BitVec.le_def.2 hend)
    · exact runs_next hfree (.inr (BitVec.lt_def.2 hlt)) (hflag.symm ▸ hrun)

/-- A search without an address ends. It finds an area at an address that it tries, or there is none
at any of these. -/
theorem search_spec (page : PageSize) (s : VirtualMap) (mapSize : BitVec 64) :
    ∃ r : Option (BitVec 64) × BitVec 64, Runs page s.occupied mapSize s.nextAddr false r ∧
      match r.1 with
      | some addr => s.Probed page addr.toNat ∧ Honours s.occupied addr.toNat mapSize.toNat
      | none => ∀ addr, s.Probed page addr → ¬ Honours s.occupied addr mapSize.toNat := by
  have htail : mapAddrTail.toNat + 2 * mapAddrStep.toNat < 2 ^ 64 := by decide
  have hlen : mapAddrTail.toNat ≤ 4096 * mapAddrStep.toNat := by decide
  by_cases hnext : s.nextAddr.toNat < mapAddrTail.toNat
  · have hsmall : s.nextAddr.toNat + mapAddrStep.toNat < 2 ^ 64 := by omega
    have hstart : s.searchStart = s.nextAddr.toNat := by rw [searchStart, if_pos hsmall]
    rcases search_below page s.occupied mapSize 4096 false hnext (by omega) with
      ⟨k, addr, nextAddr, hk, haddr, hhonours, hrun⟩ | ⟨hnone, last, hle, hlt, -, hrest⟩
    · exact ⟨_, hrun, .inr ⟨k, by rwa [hstart], by rwa [hstart]⟩, hhonours⟩
    rcases search_behind page s.occupied mapSize false hle with
      ⟨addr, nextAddr, haddr, hhonours, hrun⟩ | ⟨hhead, hend, -⟩
    · exact ⟨_, hrest _ rfl hrun, .inl haddr, hhonours⟩
    · have hstep : (last + mapAddrStep).toNat = last.toNat + mapAddrStep.toNat :=
        add_step_toNat (by omega)
      refine ⟨_, hrest _ rfl (hend (by omega)), ?_⟩
      rintro addr (rfl | ⟨k, hk, rfl⟩)
      · exact hhead
      · rw [hstart] at hk ⊢
        exact hnone k hk
  · have hnext := Nat.not_lt.1 hnext
    rcases search_behind page s.occupied mapSize false hnext with
      ⟨addr, nextAddr, haddr, hhonours, hrun⟩ | ⟨hhead, hend, hrest⟩
    · exact ⟨_, hrun, .inl haddr, hhonours⟩
    by_cases hover : s.nextAddr.toNat + mapAddrStep.toNat < 2 ^ 64
    · have hstart : s.searchStart = s.nextAddr.toNat := by rw [searchStart, if_pos hover]
      have hstep := add_step_toNat hover
      refine ⟨_, hend (by omega), ?_⟩
      rintro addr (rfl | ⟨k, hk, rfl⟩)
      · exact hhead
      · rw [hstart] at hk
        omega
    · -- the search starts again below the first address
      have hstart : s.searchStart = (s.nextAddr + mapAddrStep).toNat := by
        have hlt := s.nextAddr.isLt
        have hstep : mapAddrStep.toNat < 2 ^ 64 := by decide
        rw [BitVec.toNat_add, searchStart, if_neg hover, Nat.mod_eq_sub_mod (by omega),
          Nat.mod_eq_of_lt (by omega)]
      have hsmall : (s.nextAddr + mapAddrStep).toNat < mapAddrTail.toNat := by
        have hlt := s.nextAddr.isLt
        have hstep : mapAddrStep.toNat < mapAddrTail.toNat := by decide
        rw [← hstart, searchStart, if_neg hover]
        omega
      rcases search_below page s.occupied mapSize 4096 true hsmall (by omega) with
        ⟨k, addr, nextAddr, hk, haddr, hhonours, hrun⟩ | ⟨hnone, last, -, -, hstop, -⟩
      · exact ⟨_, hrest _ hsmall hrun, .inr ⟨k, by rwa [hstart], by rwa [hstart]⟩, hhonours⟩
      · refine ⟨_, hrest _ hsmall (hstop rfl), ?_⟩
        rintro addr (rfl | ⟨k, hk, rfl⟩)
        · exact hhead
        · rw [hstart] at hk ⊢
          exact hnone k hk

/-- An area that is found is free, whether there is an address or not. -/
theorem honours_of_searchLoop {given : Bool} {rounds : ℕ}
    {nextAddr mapHead addr nextAddr' : BitVec 64} {tryFlags : Bool}
    (h : searchLoop page occupied mapSize given rounds nextAddr mapHead tryFlags =
      some (some addr, nextAddr')) : Honours occupied addr.toNat mapSize.toNat := by
  induction rounds generalizing nextAddr mapHead tryFlags with
  | zero => cases h
  | succ rounds ih =>
    rw [searchLoop_succ] at h
    split_ifs at h with hfree hgiven hgo
    · obtain rfl := Option.some.inj (Prod.mk.inj (Option.some.inj h)).1
      exact hfree
    · cases h
    · exact ih h
    · cases h

/-- A gap that `next_addr` has not left behind has an address that is tried, with enough space. -/
theorem Gap.probed {s : VirtualMap} {addr n : ℕ} (h : s.Gap addr n) (hn : 0 < n)
    (hstart : alignUp page.size s.searchStart ≤ addr + mapAddrStep.toNat) :
    ∃ p, s.Probed page p ∧ Honours s.occupied p n := by
  obtain ⟨hhead, htail, hfree⟩ := h
  obtain ⟨k, hle, hge⟩ := exists_grid (show 0 < mapAddrStep.toNat by decide) hstart
  have halign : alignUp page.size (s.searchStart + k * mapAddrStep.toNat) =
      alignUp page.size s.searchStart + k * mapAddrStep.toNat :=
    alignUp_add pageSize_pos _ (Dvd.dvd.mul_left pageSize_dvd_step k)
  have hbefore := le_alignUp (d := page.size) pageSize_pos (s.searchStart + k * mapAddrStep.toNat)
  have hpos : 0 < mapAddrHead.toNat := by decide
  refine ⟨_, .inr ⟨k, by omega, halign.symm⟩, by omega, hfree.mono hle ?_⟩
  dsimp only
  omega

end Search

variable {page}

/-- The result of a call is that of its search. -/
theorem getVirtualArea_eq_some {s s' : VirtualMap} {rounds : ℕ} {needAddr size : BitVec 64}
    {result : Option (BitVec 64 × BitVec 64)} :
    s.getVirtualArea page rounds needAddr size = some (result, s') ↔
      ∃ found nextAddr, searchLoop page s.occupied (mapSizeAlign size (.ofNat 64 page.size))
          (decide (needAddr ≠ 0)) rounds s.nextAddr
          (if decide (needAddr ≠ 0) then needAddr else s.nextAddr) false = some (found, nextAddr) ∧
        result = found.map (·, mapSizeAlign size (.ofNat 64 page.size)) ∧
        s' = { s with
          nextAddr
          areas := (found.map fun mapAddr => Range.mk mapAddr.toNat
            (mapSizeAlign size (.ofNat 64 page.size)).toNat).toList ++ s.areas } := by
  unfold getVirtualArea
  constructor
  · intro h
    obtain ⟨⟨found, nextAddr⟩, hloop, heq⟩ := Option.map_eq_some_iff.1 h
    refine ⟨found, nextAddr, hloop, ?_⟩
    cases found with
    | none =>
      obtain ⟨rfl, rfl⟩ := Prod.mk.inj heq
      exact ⟨rfl, rfl⟩
    | some addr =>
      obtain ⟨rfl, rfl⟩ := Prod.mk.inj heq
      exact ⟨rfl, rfl⟩
  · rintro ⟨found, nextAddr, hloop, rfl, rfl⟩
    refine Option.map_eq_some_iff.2 ⟨_, hloop, ?_⟩
    cases found with
    | none => rfl
    | some addr => rfl

/-- A call without an address finds an area if there is a gap, if and only if one of the addresses
that it tries is free or no gap is left behind by `next_addr`. Every call ends, and an area that is
found is large enough and was free. -/
theorem get_virtual_area_complete_iff (s : VirtualMap) (needAddr size : BitVec 64) :
    s.Complete page needAddr size ↔ s.Findable page needAddr size := by
  have hsize := le_mapSizeAlign size (.ofNat 64 page.size)
  by_cases hneed : needAddr = 0
  swap
  · -- an address is given: there is one round
    refine iff_of_true ?_ fun hzero => absurd hzero hneed
    have hround : ∀ {found nextAddr}, searchLoop page s.occupied
        (mapSizeAlign size (.ofNat 64 page.size)) true 1 s.nextAddr needAddr false =
          some (found, nextAddr) → searchLoop page s.occupied
        (mapSizeAlign size (.ofNat 64 page.size)) (decide (needAddr ≠ 0)) 1 s.nextAddr
        (if decide (needAddr ≠ 0) then needAddr else s.nextAddr) false =
          some (found, nextAddr) := by
      intro found nextAddr hloop
      rw [decide_eq_true hneed, if_pos rfl, hloop]
    by_cases hfree : Honours s.occupied (probe page needAddr).toNat
        (mapSizeAlign size (.ofNat 64 page.size)).toNat
    · have hloop := hround (searchLoop_succ.trans (if_pos hfree))
      exact ⟨1, _, _, getVirtualArea_eq_some.2 ⟨_, _, hloop, rfl, rfl⟩, hsize, hfree.2⟩
    · have hloop := hround (searchLoop_succ.trans ((if_neg hfree).trans (if_pos rfl)))
      exact ⟨1, _, _, getVirtualArea_eq_some.2 ⟨_, _, hloop, rfl, rfl⟩,
        fun hzero => absurd hzero hneed⟩
  obtain ⟨⟨found, nextAddr⟩, ⟨rounds, hrun⟩, hspec⟩ :=
    search_spec page s (mapSizeAlign size (.ofNat 64 page.size))
  have hgiven : decide (needAddr ≠ 0) = false := decide_eq_false fun hne => hne hneed
  have hcall : ∀ {n r}, searchLoop page s.occupied (mapSizeAlign size (.ofNat 64 page.size))
      (decide (needAddr ≠ 0)) n s.nextAddr
      (if decide (needAddr ≠ 0) then needAddr else s.nextAddr) false = r ↔
      searchLoop page s.occupied (mapSizeAlign size (.ofNat 64 page.size)) false n s.nextAddr
        s.nextAddr false = r := by
    intro n r
    rw [hgiven, if_neg Bool.false_ne_true]
  constructor
  · rintro ⟨n, result, s', hget, hdone⟩ -
    obtain ⟨found', nextAddr', hloop, rfl, -⟩ := getVirtualArea_eq_some.1 hget
    -- all searches that end have the same result
    have hsame : found' = found := by
      have hle := searchLoop_mono (hcall.1 hloop) (Nat.le_max_left n rounds)
      have hle' := searchLoop_mono hrun (Nat.le_max_right n rounds)
      exact (Prod.mk.inj (Option.some.inj (hle.symm.trans hle'))).1
    subst hsame
    cases found' with
    | none => exact .inr fun addr hgap => absurd hgap (hdone hneed addr)
    | some addr => exact .inl ⟨addr.toNat, hspec⟩
  · intro hfind
    refine ⟨rounds, _, _, getVirtualArea_eq_some.2 ⟨found, nextAddr, hcall.2 hrun, rfl, rfl⟩, ?_⟩
    cases found with
    | some addr => exact ⟨hsize, hspec.2.2⟩
    | none =>
      rintro - addr hgap
      rcases hfind hneed with ⟨p, hprobed, hfree⟩ | hbehind
      · exact hspec p hprobed hfree
      · obtain ⟨p, hprobed, hfree⟩ := hgap.probed (mapSizeAlign_pos size) (hbehind addr hgap)
        exact hspec p hprobed hfree

/-! ## Runs -/

/-- The areas that are reserved do not overlap, in every order of calls. -/
theorem areas_disjoint {s : VirtualMap} (hs : (system page).Reachable s) :
    s.areas.Pairwise fun a b => ¬ a.Overlaps b := by
  refine Transition.System.invariant (I := fun s => s.areas.Pairwise fun a b => ¬ a.Overlaps b)
    (fun s hinit => ?_) (fun s a s' _ h hstep => ?_) hs
  · rw [hinit.2]
    exact .nil
  cases a with
  | get needAddr size rounds =>
    obtain ⟨⟨result, s₁⟩, hget, rfl⟩ := Option.map_eq_some_iff.1 hstep
    obtain ⟨found, nextAddr, hloop, -, rfl⟩ := getVirtualArea_eq_some.1 hget
    cases found with
    | none => exact h
    | some addr =>
      have hfree := (honours_of_searchLoop hloop).2
      exact List.pairwise_cons.2 ⟨fun b hb => hfree b (List.mem_append_left _ hb), h⟩
  | remove area =>
    have hstep : (if area ∈ s.areas then some (s.removeVirtualArea area) else none) = some s' :=
      hstep
    split at hstep
    · obtain rfl := Option.some.inj hstep
      unfold removeVirtualArea
      split
      · exact h
      · exact h.sublist List.erase_sublist
    · cases hstep
  | rest others =>
    obtain rfl := Option.some.inj hstep
    exact h

/-- Pages of 4096 bytes. -/
def smallPage : PageSize := ⟨12, by decide⟩

/-- A process reserves a small area, which is at `MAP_ADDR_HEAD`, and another one an area that
reaches to the end of the addresses; the second one is released. -/
def behindRun : List Act :=
  [.get 0 0 1, .get 0 0x6ff7ffffff 1, .remove ⟨0x1040001000, 0x7000001000⟩]

/-- The next process is refused, although all addresses behind the small area are free. -/
theorem not_complete_behind :
    ¬ ∀ page s needAddr size, (system page).Reachable s → s.Complete page needAddr size := by
  intro hclaim
  let start : VirtualMap := ⟨mapAddrHead, [], []⟩
  let s : VirtualMap := ⟨0x8040002000, [⟨0x1000000000, 0x40001000⟩], []⟩
  have hrun : (system smallPage).run start behindRun = some s := by decide
  have hreach : (system smallPage).Reachable s :=
    Transition.System.reachable_of_run (.init ⟨rfl, rfl⟩) hrun
  obtain ⟨rounds, result, s', hget, hdone⟩ := hclaim smallPage s 0 0 hreach
  obtain ⟨found, nextAddr, hloop, rfl, -⟩ := getVirtualArea_eq_some.1 hget
  have hone : searchLoop smallPage s.occupied (mapSizeAlign 0 (.ofNat 64 smallPage.size)) false 1
      s.nextAddr s.nextAddr false = some (none, 0x8048002000) := by decide
  -- the only address that is tried is `MAP_ADDR_HEAD`
  have hfound : found = none := by
    have hle := searchLoop_mono hloop (Nat.le_max_left rounds 1)
    have hle' := searchLoop_mono hone (Nat.le_max_right rounds 1)
    exact (Prod.mk.inj (Option.some.inj (hle.symm.trans hle'))).1
  subst hfound
  exact hdone rfl 0x1040001000 (by decide)

end VirtualMap

end Gazelle
