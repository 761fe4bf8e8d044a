import Gazelle.Counter.Subsets
import Gazelle.Ltran.Monitor
import Mathlib.Algebra.Order.Ring.Int

/-!
# The descriptors of the control thread of ltran

`ltran_monitor.c` keeps the listening sockets and the connections of the statistics and of the
registration server in the slots of `g_sockfd_data`. A slot is free when its descriptor is not
positive. `dfx_server_msg_proc` refuses a connection when `g_dfx_fd_cnt` is more than
`GAZELLE_MAX_DFX_FD_NUM`, and raises the counter before it takes a slot and calls `epoll_ctl`.

* `DfxCtl.system`: the events of the control thread in any order, with any answers of the kernel;
* `DfxCtl.FdInv.step`: how much too high the counter is after a step;
* `DfxCtl.bookkeeping_iff`: along which runs the counter and the slots are right;
* `DfxCtl.not_bookkeeping_epoll_ctl`: the counter is wrong after `epoll_ctl` fails.
-/

namespace Gazelle

/-- `GAZELLE_MAX_DFX_FD_NUM`. -/
abbrev gazelleMaxDfxFdNum : ℤ := 32

/-- The kinds of `enum sockfd_type`. -/
inductive CtlFdType
  /-- `GAZELLE_DFX_SERVER_FD`. -/
  | dfxServer
  /-- `GAZELLE_DFX_CONN_FD`. -/
  | dfxConn
  /-- `GAZELLE_REG_SERVER_FD`. -/
  | regServer
  /-- `GAZELLE_REG_CONN_FD`. -/
  | regConn
  deriving DecidableEq

/-- `struct sockfd_data` without the pid; the type selects `func`. -/
structure CtlSlot where
  /-- `fd`. -/
  fd : ℤ
  /-- `type`. -/
  type : CtlFdType
  deriving DecidableEq

namespace CtlSlot

variable (data : CtlSlot)

/-- A slot after `memset`. -/
def zero : CtlSlot := ⟨0, .dfxServer⟩

/-- The slot is in use. -/
def InUse : Prop := 0 < data.fd

/-- The slot is in use for a connection of the statistics server. -/
def IsDfxConn : Prop := data.InUse ∧ data.type = .dfxConn

/-- Whether a slot is in use is decidable. -/
instance : Decidable data.InUse := inferInstanceAs (Decidable (0 < data.fd))

/-- So is whether it has a connection of the dfx socket. -/
instance : Decidable data.IsDfxConn :=
  inferInstanceAs (Decidable (data.InUse ∧ data.type = .dfxConn))

end CtlSlot

/-- What a descriptor of the process is. -/
inductive FdState
  /-- It is not open. -/
  | closed
  /-- A socket of the control thread. -/
  | ctl
  /-- It belongs to the rest of the process. -/
  | other
  deriving DecidableEq

/-- What the kernel and the peer answer while an event is handled. -/
structure CtlEnv where
  /-- `EPOLLERR` is set. -/
  err : Bool
  /-- `EPOLLHUP` is set. -/
  hup : Bool
  /-- The result of `accept`, `none` when it fails. -/
  conn : Option ℤ
  /-- `epoll_ctl` adds the connection. -/
  added : Bool
  /-- The request is read. -/
  read : Bool
  /-- The registration request is handled. -/
  handled : Bool

/-- The steps. -/
inductive DfxCtlAct
  /-- `epoll_wait` reports an event on the descriptor of a slot. -/
  | event (slot : Fin gazelleEpollSize) (env : CtlEnv)
  /-- The rest of the process opens a descriptor. -/
  | openOther (fd : ℤ)
  /-- The rest of the process closes a descriptor. -/
  | closeOther (fd : ℤ)

/-- The control thread and the descriptors of the process. -/
structure DfxCtl where
  /-- `g_sockfd_data`. -/
  sockfdData : Fin gazelleEpollSize → CtlSlot
  /-- The static `head` of `sockfd_data_alloc`. -/
  head : Fin gazelleEpollSize
  /-- `g_dfx_fd_cnt`. -/
  dfxFdCnt : ℤ
  /-- The descriptors. -/
  fds : ℤ → FdState

namespace DfxCtl

variable (s : DfxCtl)

/-- The loop of `sockfd_data_alloc`: the first of `n` slots from `head` on that is free. -/
def nextFree (sockfdData : Fin gazelleEpollSize → CtlSlot) (head : Fin gazelleEpollSize) :
    ℕ → Option (Fin gazelleEpollSize)
  | 0 => none
  | n + 1 => if (sockfdData head).InUse then nextFree sockfdData (head + 1) n else some head

/-- `sockfd_data_alloc`. The search ends with `NULL` when it is back at its start. -/
def sockfdDataAlloc (type : CtlFdType) (fd : ℤ) : DfxCtl × Option (Fin gazelleEpollSize) :=
  match nextFree s.sockfdData s.head gazelleEpollSize with
  | none => (s, none)
  | some slot =>
    ({ s with sockfdData := Function.update s.sockfdData slot ⟨fd, type⟩, head := slot }, some slot)

/-- `close`. -/
def close (fd : ℤ) : DfxCtl := { s with fds := Function.update s.fds fd .closed }

/-- `sockfd_data_free`. -/
def sockfdDataFree (slot : Fin gazelleEpollSize) : DfxCtl :=
  let s := s.close (s.sockfdData slot).fd
  { s with sockfdData := Function.update s.sockfdData slot .zero }

/-- The kernel opens a descriptor that was not in use. -/
def newFd (fd : ℤ) : Option DfxCtl :=
  if 0 ≤ fd ∧ s.fds fd = .closed then some { s with fds := Function.update s.fds fd .ctl } else none

/-- A new connection takes a slot and is added to the `epoll` instance. -/
def addConn (type : CtlFdType) (connFd : ℤ) (added : Bool) : DfxCtl :=
  match s.sockfdDataAlloc type connFd with
  | (s, none) => s.close connFd
  | (s, some slot) => if added then s else s.sockfdDataFree slot

/-- There are too many requests of the statistics server. -/
def DfxRefused : Prop := gazelleMaxDfxFdNum < s.dfxFdCnt

/-- Whether a request is refused is decidable. -/
instance : Decidable s.DfxRefused :=
  inferInstanceAs (Decidable (gazelleMaxDfxFdNum < s.dfxFdCnt))

/-- `dfx_server_msg_proc`. -/
def dfxServerMsgProc (slot : Fin gazelleEpollSize) (env : CtlEnv) : Option DfxCtl :=
  if env.err then some (s.sockfdDataFree slot)
  else
    match env.conn with
    | none => some s
    | some connFd =>
      (s.newFd connFd).map fun s =>
        if s.DfxRefused then s.close connFd
        else { s with dfxFdCnt := s.dfxFdCnt + 1 }.addConn .dfxConn connFd env.added

/-- `dfx_conn_msg_proc`: the connection is closed whatever happens. -/
def dfxConnMsgProc (slot : Fin gazelleEpollSize) : DfxCtl :=
  { s with dfxFdCnt := s.dfxFdCnt - 1 }.sockfdDataFree slot

/-- `reg_server_msg_proc`. -/
def regServerMsgProc (slot : Fin gazelleEpollSize) (env : CtlEnv) : Option DfxCtl :=
  if env.err then some (s.sockfdDataFree slot)
  else
    match env.conn with
    | none => some s
    | some connFd => (s.newFd connFd).map (·.addConn .regConn connFd env.added)

/-- `reg_conn_msg_proc`: the connection is closed unless the request is read and handled. -/
def regConnMsgProc (slot : Fin gazelleEpollSize) (env : CtlEnv) : DfxCtl :=
  if env.err || env.hup || !env.read || !env.handled then s.sockfdDataFree slot else s

/-- One step; only open sockets have events. -/
def step : DfxCtlAct → Option DfxCtl
  | .event slot env =>
    if (s.sockfdData slot).InUse then
      match (s.sockfdData slot).type with
      | .dfxServer => s.dfxServerMsgProc slot env
      | .dfxConn => some (s.dfxConnMsgProc slot)
      | .regServer => s.regServerMsgProc slot env
      | .regConn => some (s.regConnMsgProc slot env)
    else none
  | .openOther fd =>
    if 0 ≤ fd ∧ s.fds fd = .closed then some { s with fds := Function.update s.fds fd .other }
    else none
  -- descriptor 0 is the standard input, or else the `epoll` instance, and is never closed; a slot
  -- with this descriptor would count as free
  | .closeOther fd => if fd ≠ 0 ∧ s.fds fd = .other then some (s.close fd) else none

/-- The variables before `gazelle_ctl_init`. -/
def zero (fds : ℤ → FdState) : DfxCtl where
  sockfdData _ := .zero
  head := 0
  dfxFdCnt := 0
  fds := fds

/-- `gazelle_ctl_init`, with the sockets that `unix_server_create` makes, when it succeeds. -/
def gazelleCtlInit (dfxFd regFd : ℤ) : Option DfxCtl :=
  (s.newFd dfxFd).bind fun s =>
    let s := (s.sockfdDataAlloc .dfxServer dfxFd).1
    (s.newFd regFd).map fun s => (s.sockfdDataAlloc .regServer regFd).1

/-- The descriptors when the servers are made: `epoll_create` has taken the descriptor `0`, if it
was free. -/
def FdsAtInit (fds : ℤ → FdState) : Prop := fds 0 = .other ∧ ∀ fd, fds fd ≠ .ctl

/-- The runs of the control thread, once it is started. -/
def system : Transition.System DfxCtl DfxCtlAct where
  Init s := ∃ fds dfxFd regFd, FdsAtInit fds ∧ (zero fds).gazelleCtlInit dfxFd regFd = some s
  step := step

/-- The connections of the statistics server that are open. -/
def dfxConns : Finset (Fin gazelleEpollSize) :=
  Finset.univ.filter fun slot => (s.sockfdData slot).IsDfxConn

/-- The bookkeeping is right. -/
structure Bookkeeping : Prop where
  /-- The counter is the number of connections of the statistics server. -/
  counts : s.dfxFdCnt = s.dfxConns.card
  /-- A slot that is in use has an open descriptor. -/
  isOpen : ∀ slot, (s.sockfdData slot).InUse → s.fds (s.sockfdData slot).fd ≠ .closed
  /-- No other slot has it. -/
  distinct : ∀ a b, (s.sockfdData a).InUse → (s.sockfdData b).InUse →
    (s.sockfdData a).fd = (s.sockfdData b).fd → a = b
  /-- `sockfd_data_alloc` finds a free slot if there is one. -/
  alloc : ∀ type fd, match (s.sockfdDataAlloc type fd).2 with
    | none => ∀ slot, (s.sockfdData slot).InUse
    | some slot => ¬ (s.sockfdData slot).InUse
  /-- A request is refused only when too many are open. -/
  refused : s.DfxRefused → gazelleMaxDfxFdNum < s.dfxConns.card

/-- The condition on a step: when the statistics server takes a connection, there is a free slot and
`epoll_ctl` succeeds. -/
def Adds : DfxCtlAct → Prop
  | .event slot env => (s.sockfdData slot).type = .dfxServer → env.err = false →
      env.conn ≠ none → ¬ s.DfxRefused → (∃ slot, ¬ (s.sockfdData slot).InUse) ∧ env.added = true
  | .openOther _ | .closeOther _ => True

/-! ## Taking and freeing slots -/

section Slots

variable {s s' : DfxCtl} {slot : Fin gazelleEpollSize} {type : CtlFdType} {fd : ℤ}
  {data : CtlSlot} {a : DfxCtlAct}

/-- The search for a free slot ends where one is. -/
theorem nextFree_some {sockfdData : Fin gazelleEpollSize → CtlSlot} {head : Fin gazelleEpollSize}
    {n : ℕ} (h : nextFree sockfdData head n = some slot) : ¬ (sockfdData slot).InUse := by
  induction n generalizing head with
  | zero => cases h
  | succ n ih =>
    rw [nextFree] at h
    split at h
    · exact ih h
    · rename_i hfree
      cases h
      exact hfree

/-- The search has passed only slots in use. -/
theorem nextFree_none {sockfdData : Fin gazelleEpollSize → CtlSlot} {head : Fin gazelleEpollSize}
    {n : ℕ} (h : nextFree sockfdData head n = none) :
    ∀ k < n, (sockfdData (head + Fin.ofNat gazelleEpollSize k)).InUse := by
  induction n generalizing head with
  | zero => exact fun k hk => absurd hk (Nat.not_lt_zero k)
  | succ n ih =>
    rw [nextFree] at h
    split at h
    · rename_i huse
      intro k hk
      cases k with
      | zero => simpa using huse
      | succ k =>
        have hnext := ih h k (Nat.lt_of_succ_lt_succ hk)
        have hplace : head + 1 + Fin.ofNat gazelleEpollSize k =
            head + Fin.ofNat gazelleEpollSize (k + 1) := by
          ext
          simp [Fin.val_add, gazelleEpollSize]
          omega
        rwa [hplace] at hnext
    · cases h

/-- The search passes all slots. -/
theorem all_inUse (h : nextFree s.sockfdData s.head gazelleEpollSize = none)
    (slot : Fin gazelleEpollSize) : (s.sockfdData slot).InUse := by
  have hplace : s.head + Fin.ofNat gazelleEpollSize (slot - s.head).val = slot := by
    ext
    simp [Fin.val_add, Fin.val_sub, gazelleEpollSize]
    omega
  have huse := nextFree_none h (slot - s.head).val (slot - s.head).isLt
  rwa [hplace] at huse

/-- `sockfd_data_alloc` takes a free slot, or all are in use. -/
theorem sockfdDataAlloc_cases (s : DfxCtl) (type : CtlFdType) (fd : ℤ) :
    (∃ slot, ¬ (s.sockfdData slot).InUse ∧ s.sockfdDataAlloc type fd =
      ({ s with sockfdData := Function.update s.sockfdData slot ⟨fd, type⟩, head := slot },
        some slot)) ∨
    ((∀ slot, (s.sockfdData slot).InUse) ∧ s.sockfdDataAlloc type fd = (s, none)) := by
  unfold sockfdDataAlloc
  cases hnext : nextFree s.sockfdData s.head gazelleEpollSize with
  | none => exact .inr ⟨all_inUse hnext, rfl⟩
  | some slot => exact .inl ⟨slot, nextFree_some hnext, rfl⟩

/-- The slots and the descriptors belong to each other. -/
structure FdInv (s : DfxCtl) : Prop where
  /-- The descriptor `0` is not one of the control thread. -/
  zero : s.fds 0 = .other
  /-- A slot in use has a descriptor of the control thread. -/
  owned : ∀ slot, (s.sockfdData slot).InUse → s.fds (s.sockfdData slot).fd = .ctl
  /-- No other slot has it. -/
  distinct : ∀ a b, (s.sockfdData a).InUse → (s.sockfdData b).InUse →
    (s.sockfdData a).fd = (s.sockfdData b).fd → a = b

/-- No slot in use has the descriptor. -/
def Unheld (s : DfxCtl) (fd : ℤ) : Prop :=
  ∀ slot, (s.sockfdData slot).InUse → (s.sockfdData slot).fd ≠ fd

/-- A descriptor that no slot has changes. -/
theorem FdInv.setFd (h : FdInv s) (hfd : s.Unheld fd) (hzero : fd ≠ 0) (state : FdState) :
    FdInv { s with fds := Function.update s.fds fd state } where
  zero := (Function.update_of_ne hzero.symm _ _).trans h.zero
  owned slot huse := (Function.update_of_ne (hfd slot huse) _ _).trans (h.owned slot huse)
  distinct := h.distinct

/-- A descriptor that is not one of the control thread is in no slot. -/
theorem FdInv.unheld (h : FdInv s) (hfd : s.fds fd ≠ .ctl) : s.Unheld fd :=
  fun slot huse heq => hfd (heq ▸ h.owned slot huse)

/-- A new descriptor. -/
theorem FdInv.newFd (h : FdInv s) (hnew : s.newFd fd = some s') :
    s' = { s with fds := Function.update s.fds fd .ctl } ∧ 0 < fd ∧ FdInv s' ∧ s'.Unheld fd := by
  unfold DfxCtl.newFd at hnew
  split at hnew
  · rename_i hguard
    obtain ⟨hnonneg, hclosed⟩ := hguard
    have hzero : fd ≠ 0 := by
      rintro rfl
      exact absurd (h.zero.symm.trans hclosed) (by decide)
    have hunheld : s.Unheld fd := h.unheld (by rw [hclosed]; decide)
    obtain rfl := Option.some.inj hnew
    exact ⟨rfl, by omega, h.setFd hunheld hzero .ctl, hunheld⟩
  · cases hnew

/-- A new descriptor is put into a free slot. -/
theorem FdInv.take (h : FdInv s) (hfd : s.fds fd = .ctl) (hunheld : s.Unheld fd)
    (type : CtlFdType) (slot : Fin gazelleEpollSize) (head : Fin gazelleEpollSize) :
    FdInv { s with sockfdData := Function.update s.sockfdData slot ⟨fd, type⟩, head } := by
  refine ⟨h.zero, fun a ha => ?_, fun a b ha hb heq => ?_⟩
  · by_cases hslot : a = slot
    · subst hslot
      simpa using hfd
    · simp only [Function.update_of_ne hslot] at ha ⊢
      exact h.owned a ha
  · by_cases hslot : a = slot <;> by_cases hslot' : b = slot
    · rw [hslot, hslot']
    · subst hslot
      simp only [Function.update_self, Function.update_of_ne hslot'] at heq hb
      exact absurd heq.symm (hunheld b hb)
    · subst hslot'
      simp only [Function.update_self, Function.update_of_ne hslot] at heq ha
      exact absurd heq (hunheld a ha)
    · simp only [Function.update_of_ne hslot, Function.update_of_ne hslot'] at heq ha hb
      exact h.distinct a b ha hb heq

/-- A slot in use is freed. -/
theorem FdInv.free (h : FdInv s) (huse : (s.sockfdData slot).InUse) :
    FdInv (s.sockfdDataFree slot) := by
  have hother : ∀ a, (Function.update s.sockfdData slot .zero a).InUse →
      a ≠ slot ∧ (s.sockfdData a).InUse ∧ Function.update s.sockfdData slot .zero a =
        s.sockfdData a := by
    intro a ha
    by_cases hslot : a = slot
    · subst hslot
      rw [Function.update_self] at ha
      exact absurd ha (by decide)
    · rw [Function.update_of_ne hslot] at ha
      exact ⟨hslot, ha, Function.update_of_ne hslot _ _⟩
  refine ⟨(Function.update_of_ne (Int.ne_of_lt huse) _ _).trans h.zero, fun a ha => ?_,
    fun a b ha hb heq => ?_⟩
  · obtain ⟨hslot, ha', hkeep⟩ := hother a ha
    have hne : (s.sockfdData a).fd ≠ (s.sockfdData slot).fd := fun heq =>
      hslot (h.distinct a slot ha' huse heq)
    exact (congrArg _ (congrArg CtlSlot.fd hkeep)).trans
      ((Function.update_of_ne hne _ _).trans (h.owned a ha'))
  · obtain ⟨-, ha', hkeep⟩ := hother a ha
    obtain ⟨-, hb', hkeep'⟩ := hother b hb
    exact h.distinct a b ha' hb' ((congrArg CtlSlot.fd hkeep).symm.trans
      (heq.trans (congrArg CtlSlot.fd hkeep')))

/-- The counter does not matter. -/
theorem FdInv.setCnt (h : FdInv s) (cnt : ℤ) : FdInv { s with dfxFdCnt := cnt } :=
  ⟨h.zero, h.owned, h.distinct⟩

/-! ## The number of connections -/

/-- A slot changes. -/
theorem card_dfxConns_update (h : s'.sockfdData = Function.update s.sockfdData slot data) :
    (s'.dfxConns.card : ℤ) = s.dfxConns.card + (if data.IsDfxConn then 1 else 0) -
      if (s.sockfdData slot).IsDfxConn then 1 else 0 := by
  have hcard := Counting.card_filter_update s.sockfdData slot data CtlSlot.IsDfxConn
  rw [← h] at hcard
  unfold dfxConns
  split_ifs at hcard ⊢ <;> omega

/-- A free slot has no connection. -/
theorem not_isDfxConn (hfree : ¬ (s.sockfdData slot).InUse) : ¬ (s.sockfdData slot).IsDfxConn :=
  fun h => hfree h.1

/-- A slot that is freed. -/
theorem card_dfxConns_free (hdata : s.sockfdData slot = data) :
    ((s.sockfdDataFree slot).dfxConns.card : ℤ) =
      s.dfxConns.card - if data.IsDfxConn then 1 else 0 := by
  have hzero : ¬ CtlSlot.zero.IsDfxConn := by decide
  have hcard : ((s.sockfdDataFree slot).dfxConns.card : ℤ) = s.dfxConns.card +
      (if CtlSlot.zero.IsDfxConn then 1 else 0) - if (s.sockfdData slot).IsDfxConn then 1 else 0 :=
    card_dfxConns_update rfl
  rw [hcard, if_neg hzero, add_zero, hdata]

/-- A new connection is one more, if it has a slot and is added. -/
theorem FdInv.addConn (h : FdInv s) (hpos : 0 < fd) (hfd : s.fds fd = .ctl)
    (hunheld : s.Unheld fd) (type : CtlFdType) (added : Bool) :
    FdInv (s.addConn type fd added) ∧ (s.addConn type fd added).dfxFdCnt = s.dfxFdCnt ∧
      ((type = .dfxConn ∧ (∃ slot, ¬ (s.sockfdData slot).InUse) ∧ added = true →
        ((s.addConn type fd added).dfxConns.card : ℤ) = s.dfxConns.card + 1) ∧
      (¬ (type = .dfxConn ∧ (∃ slot, ¬ (s.sockfdData slot).InUse) ∧ added = true) →
        ((s.addConn type fd added).dfxConns.card : ℤ) = s.dfxConns.card)) := by
  unfold DfxCtl.addConn
  rcases s.sockfdDataAlloc_cases type fd with ⟨slot, hfree, halloc⟩ | ⟨hall, halloc⟩
  · rw [halloc]
    have htake := h.take hfd hunheld type slot slot
    have hcard : (DfxCtl.dfxConns { s with
          sockfdData := Function.update s.sockfdData slot ⟨fd, type⟩
          head := slot }).card = (s.dfxConns.card : ℤ) +
        if CtlSlot.IsDfxConn ⟨fd, type⟩ then 1 else 0 := by
      refine (card_dfxConns_update (s := s) rfl).trans ?_
      rw [if_neg (not_isDfxConn hfree), sub_zero]
    have hconn : CtlSlot.IsDfxConn ⟨fd, type⟩ ↔ type = .dfxConn := and_iff_right hpos
    cases added with
    | true =>
      refine ⟨htake, rfl, fun hadds => ?_, fun hadds => ?_⟩
      · exact hcard.trans (by rw [if_pos (hconn.2 hadds.1)])
      · have htype : type ≠ .dfxConn := fun htype => hadds ⟨htype, ⟨slot, hfree⟩, rfl⟩
        exact hcard.trans (by rw [if_neg (mt hconn.1 htype), add_zero])
    | false =>
      -- the slot is freed again
      have huse : (Function.update s.sockfdData slot ⟨fd, type⟩ slot).InUse := by
        rw [Function.update_self]
        exact hpos
      refine ⟨htake.free huse, rfl, fun hadds => absurd hadds.2.2 Bool.false_ne_true, fun _ => ?_⟩
      · refine (card_dfxConns_free (Function.update_self ..)).trans ?_
        rw [hcard, add_sub_cancel_right]
  · rw [halloc]
    refine ⟨h.setFd hunheld hpos.ne' .closed, rfl, fun hadds => ?_, fun _ => rfl⟩
    obtain ⟨slot, hslot⟩ := hadds.2.1
    exact absurd (hall slot) hslot

/-- How much the counter is too high. -/
def drift (s : DfxCtl) : ℤ := s.dfxFdCnt - s.dfxConns.card

/-- A slot that is not a connection of the statistics server is freed. -/
theorem drift_free (hconn : ¬ (s.sockfdData slot).IsDfxConn) :
    (s.sockfdDataFree slot).drift = s.drift := by
  refine congrArg (s.dfxFdCnt - ·) ((card_dfxConns_free rfl).trans ?_)
  rw [if_neg hconn, sub_zero]

/-- The statistics server has an event: the counter is too high by one more if the connection that
is taken is not added. -/
theorem FdInv.dfxServerMsgProc (h : FdInv s) {env : CtlEnv} (huse : (s.sockfdData slot).InUse)
    (htype : (s.sockfdData slot).type = .dfxServer)
    (hstep : s.dfxServerMsgProc slot env = some s') :
    FdInv s' ∧ (s.Adds (.event slot env) → s'.drift = s.drift) ∧
      (¬ s.Adds (.event slot env) → s'.drift = s.drift + 1) := by
  unfold DfxCtl.dfxServerMsgProc at hstep
  cases herr : env.err with
  | true =>
    rw [herr, if_pos rfl] at hstep
    obtain rfl := Option.some.inj hstep
    -- the server itself is not counted
    have hconn : ¬ (s.sockfdData slot).IsDfxConn := fun hconn =>
      absurd (htype.symm.trans hconn.2) (by decide)
    refine ⟨h.free huse, fun _ => drift_free hconn, fun hadds => ?_⟩
    exact absurd (fun _ herr' => nomatch herr.symm.trans herr') hadds
  | false =>
  rw [herr, if_neg Bool.false_ne_true] at hstep
  cases hconn : env.conn with
  | none =>
    -- no connection was waiting
    rw [hconn] at hstep
    obtain rfl := Option.some.inj hstep
    exact ⟨h, fun _ => rfl, fun hadds => absurd (fun _ _ hne => absurd hconn hne) hadds⟩
  | some connFd =>
  rw [hconn] at hstep
  obtain ⟨s₁, hnew, hrest⟩ := Option.map_eq_some_iff.1 hstep
  obtain ⟨rfl, hpos, hinv, hunheld⟩ := h.newFd hnew
  -- too many connections, and the new one is closed at once
  by_cases hrefused : s.DfxRefused
  · obtain rfl := (if_pos hrefused).symm.trans hrest
    refine ⟨hinv.setFd hunheld hpos.ne' .closed, fun _ => rfl, fun hadds => ?_⟩
    exact absurd (fun _ _ _ hnot => absurd hrefused hnot) hadds
  · -- the counter is raised before the connection is added
    have hrest := (if_neg hrefused).symm.trans hrest
    have hadd := (hinv.setCnt (s.dfxFdCnt + 1)).addConn hpos (Function.update_self ..) hunheld
      .dfxConn env.added
    obtain ⟨hinv', hcnt, hone, hnone⟩ := hrest ▸ hadd
    -- added, the number of connections has grown as well
    refine ⟨hinv', fun hadds => ?_, fun hadds => ?_⟩
    · have hne : env.conn ≠ none := by
        rw [hconn]
        exact Option.some_ne_none _
      have hcard := hone ⟨rfl, hadds htype herr hne hrefused⟩
      rw [drift, hcnt, hcard]
      exact add_sub_add_right_eq_sub ..
    · -- not added, the number is as before
      have hcard := hnone fun hall => hadds fun _ _ _ _ => hall.2
      rw [drift, hcnt, hcard]
      exact (sub_add_eq_add_sub ..).symm

/-- A step that meets the condition does not change by how much the counter is too high, and another
step raises it by one. -/
theorem FdInv.step (h : FdInv s) (hstep : s.step a = some s') :
    FdInv s' ∧ (s.Adds a → s'.drift = s.drift) ∧ (¬ s.Adds a → s'.drift = s.drift + 1) := by
  -- the steps that have nothing to do with the statistics server
  have hkeep : s.Adds a → FdInv s' → s'.drift = s.drift →
      FdInv s' ∧ (s.Adds a → s'.drift = s.drift) ∧ (¬ s.Adds a → s'.drift = s.drift + 1) :=
    fun hadds hinv hdrift => ⟨hinv, fun _ => hdrift, fun hnot => absurd hadds hnot⟩
  cases a with
  | openOther fd =>
    rw [DfxCtl.step] at hstep
    split at hstep
    · rename_i hguard
      obtain rfl := Option.some.inj hstep
      have hzero : fd ≠ 0 := by
        rintro rfl
        exact absurd (h.zero.symm.trans hguard.2) (by decide)
      exact hkeep trivial (h.setFd (h.unheld (by rw [hguard.2]; decide)) hzero .other) rfl
    · cases hstep
  | closeOther fd =>
    rw [DfxCtl.step] at hstep
    split at hstep
    · rename_i hguard
      obtain rfl := Option.some.inj hstep
      exact hkeep trivial (h.setFd (h.unheld (by rw [hguard.2]; decide)) hguard.1 .closed) rfl
    · cases hstep
  | event slot env =>
  rw [DfxCtl.step] at hstep
  split at hstep
  swap
  · cases hstep
  rename_i huse
  have hadds : (s.sockfdData slot).type ≠ .dfxServer → s.Adds (.event slot env) :=
    fun hne htype => absurd htype hne
  cases htype : (s.sockfdData slot).type with
  | dfxServer =>
    simp only [htype] at hstep
    exact h.dfxServerMsgProc huse htype hstep
  | dfxConn =>
    simp only [htype] at hstep
    obtain rfl := Option.some.inj hstep
    refine hkeep (hadds (by rw [htype]; decide)) ((h.setCnt (s.dfxFdCnt - 1)).free huse) ?_
    have hcard : ((s.dfxConnMsgProc slot).dfxConns.card : ℤ) = s.dfxConns.card - 1 := by
      refine (card_dfxConns_free (s := { s with dfxFdCnt := s.dfxFdCnt - 1 }) rfl).trans ?_
      exact congrArg _ (if_pos ⟨huse, htype⟩)
    rw [drift, hcard]
    exact sub_sub_sub_cancel_right ..
  | regServer =>
    simp only [htype] at hstep
    have hadds := hadds (by rw [htype]; decide)
    have hconn : ¬ (s.sockfdData slot).IsDfxConn := fun hconn =>
      absurd (htype.symm.trans hconn.2) (by decide)
    unfold regServerMsgProc at hstep
    split at hstep
    · obtain rfl := Option.some.inj hstep
      exact hkeep hadds (h.free huse) (drift_free hconn)
    · split at hstep
      · obtain rfl := Option.some.inj hstep
        exact hkeep hadds h rfl
      · obtain ⟨s₁, hnew, hrest⟩ := Option.map_eq_some_iff.1 hstep
        obtain ⟨rfl, hpos, hinv, hunheld⟩ := h.newFd hnew
        have hadd := hinv.addConn hpos (Function.update_self ..) hunheld .regConn env.added
        obtain ⟨hinv', hcnt, -, hnone⟩ := hrest ▸ hadd
        refine hkeep hadds hinv' ?_
        rw [drift, hcnt, hnone fun hall => nomatch hall.1]
        rfl
  | regConn =>
    simp only [htype] at hstep
    have hadds := hadds (by rw [htype]; decide)
    have hconn : ¬ (s.sockfdData slot).IsDfxConn := fun hconn =>
      absurd (htype.symm.trans hconn.2) (by decide)
    have hend := Option.some.inj hstep
    unfold regConnMsgProc at hend
    split at hend
    · subst hend
      exact hkeep hadds (h.free huse) (drift_free hconn)
    · subst hend
      exact hkeep hadds h rfl

end Slots

/-! ## Runs -/

/-- The counter and the slots, when the control thread is started. -/
theorem fdInv_init {s : DfxCtl} (hs : system.Init s) : FdInv s ∧ s.drift = 0 := by
  obtain ⟨fds, dfxFd, regFd, hfds, hinit⟩ := hs
  have hfree : ¬ CtlSlot.zero.InUse := by decide
  have hnotInUse : ∀ slot, ¬ ((zero fds).sockfdData slot).InUse := fun _ => hfree
  have hzero : FdInv (zero fds) :=
    ⟨hfds.1, fun slot huse => absurd huse (hnotInUse slot),
      fun a b ha => absurd ha (hnotInUse a)⟩
  have hnone : (zero fds).drift = 0 := by
    have hempty : (zero fds).dfxConns = ∅ :=
      Finset.filter_eq_empty_iff.2 fun slot _ hconn => hnotInUse slot hconn.1
    rw [drift, hempty]
    rfl
  -- one of the servers takes a slot
  have halloc : ∀ type ≠ CtlFdType.dfxConn, ∀ {s s₁ : DfxCtl} {fd : ℤ}, FdInv s →
      s.newFd fd = some s₁ → FdInv (s₁.sockfdDataAlloc type fd).1 ∧
        (s₁.sockfdDataAlloc type fd).1.drift = s.drift := by
    intro type htype s s₁ fd h hnew
    obtain ⟨rfl, hpos, hinv, hunheld⟩ := h.newFd hnew
    rcases sockfdDataAlloc_cases { s with fds := Function.update s.fds fd .ctl } type fd with
      ⟨slot, hfree, heq⟩ | ⟨-, heq⟩
    · rw [heq]
      refine ⟨hinv.take (Function.update_self ..) hunheld type slot slot, ?_⟩
      have hconn : ¬ CtlSlot.IsDfxConn ⟨fd, type⟩ := fun hconn => htype hconn.2
      refine congrArg (s.dfxFdCnt - ·) ((card_dfxConns_update (s := s) rfl).trans ?_)
      rw [if_neg (not_isDfxConn hfree), if_neg hconn, add_zero, sub_zero]
    · rw [heq]
      exact ⟨hinv, rfl⟩
  obtain ⟨s₁, hnew, hrest⟩ := Option.bind_eq_some_iff.1 hinit
  obtain ⟨s₂, hnew', rfl⟩ := Option.map_eq_some_iff.1 hrest
  obtain ⟨hinv, hdrift⟩ := halloc .dfxServer (by decide) hzero hnew
  obtain ⟨hinv', hdrift'⟩ := halloc .regServer (by decide) hinv hnew'
  exact ⟨hinv', hdrift'.trans (hdrift.trans hnone)⟩

/-- The bookkeeping is right when the counter is. -/
theorem FdInv.bookkeeping {s : DfxCtl} (h : FdInv s) (hdrift : s.drift = 0) : s.Bookkeeping := by
  have hcounts : s.dfxFdCnt = s.dfxConns.card := sub_eq_zero.1 hdrift
  refine ⟨hcounts, fun slot huse => ?_, h.distinct, fun type fd => ?_, fun hrefused => ?_⟩
  · rw [h.owned slot huse]
    decide
  · rcases s.sockfdDataAlloc_cases type fd with ⟨slot, hfree, heq⟩ | ⟨hall, heq⟩
    · rw [heq]
      exact hfree
    · rw [heq]
      exact hall
  · rw [← hcounts]
    exact hrefused

/-- The counter is never too low: failures only make the server refuse too early. -/
theorem card_dfxConns_le {s : DfxCtl} (hs : system.Reachable s) :
    s.dfxConns.card ≤ s.dfxFdCnt := by
  have hinv : FdInv s ∧ 0 ≤ s.drift := by
    refine Transition.System.invariant (I := fun s => FdInv s ∧ 0 ≤ s.drift) (fun s hs => ?_)
      (fun s a s' _ h hstep => ?_) hs
    · obtain ⟨hinv, hdrift⟩ := fdInv_init hs
      exact ⟨hinv, hdrift.ge⟩
    · obtain ⟨hinv, hkeep, hraise⟩ := h.1.step hstep
      refine ⟨hinv, ?_⟩
      by_cases hadds : s.Adds a
      · exact (hkeep hadds).symm ▸ h.2
      · rw [hraise hadds]
        exact Int.add_nonneg h.2 Int.one_nonneg
  exact sub_nonneg.1 hinv.2

/-- Along a run of the control thread, the counter and the slots are right in every state if and
only if every connection that the statistics server takes finds a free slot and is added by
`epoll_ctl`. -/
theorem bookkeeping_iff {s : DfxCtl} (hs : system.Init s) (acts : List DfxCtlAct) :
    system.statesHold Bookkeeping s acts ↔ system.stepsMeet Adds s acts := by
  apply Transition.System.statesHold_iff_stepsMeet (J := fun s => FdInv s ∧ s.drift = 0)
  · exact fun s h => h.1.bookkeeping h.2
  · rintro s a s' ⟨hinv, hdrift⟩ hadds hstep
    obtain ⟨hinv', hkeep, -⟩ := hinv.step hstep
    exact ⟨hinv', (hkeep hadds).trans hdrift⟩
  · rintro s a s' ⟨hinv, hdrift⟩ hbook hstep
    obtain ⟨-, -, hraise⟩ := hinv.step hstep
    by_contra hnot
    have hone := (hraise hnot).trans (congrArg (· + 1) hdrift)
    have hzero : s'.drift = 0 := sub_eq_zero.2 hbook.counts
    exact absurd (hzero.symm.trans hone) (by decide)
  · exact fdInv_init hs

/-- The descriptors of a process with a standard input. -/
def exampleFds : ℤ → FdState := fun fd => if fd = 0 then .other else .closed

/-- The control thread with the servers on the descriptors `3` and `4`. -/
def exampleCtl : DfxCtl where
  sockfdData :=
    Function.update (Function.update (fun _ => .zero) 0 ⟨3, .dfxServer⟩) 1 ⟨4, .regServer⟩
  head := 1
  dfxFdCnt := 0
  fds := Function.update (Function.update exampleFds 3 .ctl) 4 .ctl

/-- `gazelle_ctl_init` makes these slots and descriptors. -/
theorem exampleCtl_init : system.Init exampleCtl := by
  refine ⟨exampleFds, 3, 4, ⟨rfl, fun fd => ?_⟩, rfl⟩
  unfold exampleFds
  split <;> decide

/-- The statistics server takes a connection on the descriptor `fd`. -/
def acceptEnv (fd : ℤ) (added : Bool) : CtlEnv where
  err := false
  hup := false
  conn := some fd
  added := added
  read := true
  handled := true

/-- Two connections are taken, and the first is closed with its request before the second. -/
def twoRequests : List DfxCtlAct :=
  [.event 0 (acceptEnv 5 true), .event 0 (acceptEnv 6 true), .event 2 (acceptEnv 5 true),
    .event 3 (acceptEnv 6 true)]

/-- The condition on a step is decidable. -/
instance (s : DfxCtl) (a : DfxCtlAct) : Decidable (s.Adds a) := by
  cases a <;> unfold Adds <;> infer_instance

/-- Every connection of the run is added, so the counter and the slots are right in every state. -/
theorem bookkeeping_iff_two :
    (system.run exampleCtl twoRequests).isSome = true ∧
      system.stepsMeet Adds exampleCtl twoRequests ∧
      system.statesHold Bookkeeping exampleCtl twoRequests := by
  have hmeet : system.stepsMeet Adds exampleCtl twoRequests := by decide +kernel
  exact ⟨rfl, hmeet, (bookkeeping_iff exampleCtl_init _).2 hmeet⟩

/-- The counter is wrong after `epoll_ctl` fails. -/
theorem not_bookkeeping_epoll_ctl : ¬ ∀ s, system.Reachable s → s.Bookkeeping := by
  intro hclaim
  obtain ⟨s, hs⟩ : ∃ s, system.step exampleCtl (.event 0 (acceptEnv 5 false)) = some s := ⟨_, rfl⟩
  obtain ⟨hinv, hdrift⟩ := fdInv_init exampleCtl_init
  obtain ⟨-, -, hraise⟩ := FdInv.step (a := .event 0 (acceptEnv 5 false)) hinv hs
  have hnot : ¬ exampleCtl.Adds (.event 0 (acceptEnv 5 false)) := fun hadds =>
    absurd (hadds rfl rfl (Option.some_ne_none _) (by decide)).2 Bool.false_ne_true
  have hone := (hraise hnot).trans (congrArg (· + 1) hdrift)
  have hzero : s.drift = 0 :=
    sub_eq_zero.2 (hclaim s (.step (.init exampleCtl_init) hs)).counts
  exact absurd (hzero.symm.trans hone) (by decide)

end DfxCtl

end Gazelle
