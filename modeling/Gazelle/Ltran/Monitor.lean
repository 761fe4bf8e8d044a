import Gazelle.Transition.System
import Gazelle.Ltran.Instance
import Mathlib.Data.Int.Notation
import Mathlib.Algebra.GroupWithZero.Nat

/-!
# The registration connections of ltran

The control thread of `ltran_monitor.c`: connections are accepted into the slots of
`g_sockfd_data`, their requests are handled, and a connection that fails is closed and logs out
the pid it carries. `reg_conn_msg_proc` copies the pid of a `RQT_REG_PROC_MEM` to the connection
before the request is checked.

* `LtranCtl.system`: all orders of accepted connections, requests, failures and closes;
* `owned_removals_iff`: instances are removed only through their own connections in exactly the
  runs in which no connection asks for a pid that is registered;
* `owned_removals_fail`: a refused request removes the instance of another connection.
-/

namespace Gazelle

/-- `GAZELLE_EPOLL_SIZE`. -/
abbrev gazelleEpollSize : ℕ := 1024

/-- There are slots. -/
instance : NeZero gazelleEpollSize := ⟨Nat.succ_ne_zero 1023⟩

/-- The kinds of `enum sockfd_type` that own a slot. -/
inductive SockfdType
  /-- Not a registration connection: a listener or a statistics connection. -/
  | other
  /-- `GAZELLE_REG_CONN_FD`. -/
  | regConn
  deriving DecidableEq

/-- `struct sockfd_data`. -/
structure SockfdData where
  /-- The descriptor, `0` when the slot is free. -/
  fd : ℤ
  /-- The kind, which selects the handler. -/
  type : SockfdType
  /-- The pid of the last `RQT_REG_PROC_MEM`. -/
  pid : Pid
  /-- Which of the accepted connections this is; nothing reads this. -/
  conn : ℕ
  deriving DecidableEq

/-- A slot after `memset`. -/
def SockfdData.zero : SockfdData := ⟨0, .other, 0, 0⟩

/-- A request message. -/
inductive RegRequestMsg
  /-- `RQT_REG_PROC_MEM`. -/
  | procMem (conf : ClientProcConf)
  /-- `RQT_REG_PROC_ATT`. -/
  | procAtt (conf : ClientProcConf)
  /-- `RQT_REG_THRD_RING`. -/
  | thrdRing (conf : ClientThrdConf)
  /-- Any other type. -/
  | other
  deriving DecidableEq

/-- An instance that `handle_instance_logout` removed. -/
structure Removal where
  /-- The connection that created the instance. -/
  creator : ℕ
  /-- The connection whose failure or close was handled. -/
  conn : ℕ
  /-- What failed was a `RQT_REG_PROC_MEM` that `instance_info_check` refused. -/
  refused : Bool
  deriving DecidableEq

/-- The state of the control thread. -/
structure LtranCtl where
  /-- The registered processes and their stacks. -/
  registry : LtranRegistry
  /-- `g_sockfd_data`. -/
  sockfdData : Fin gazelleEpollSize → SockfdData
  /-- The static `head` of `sockfd_data_alloc`. -/
  head : Fin gazelleEpollSize
  /-- The number of connections accepted; nothing reads this. -/
  accepted : ℕ
  /-- The instances removed; nothing reads this. -/
  removals : List Removal

/-- The events that the control thread handles. -/
inductive CtlEvent
  /-- A registration connection is accepted; `added` says whether `epoll_ctl` adds it. The
  descriptor is positive, `0` being in use as the standard input. -/
  | accept (fd : ℤ) (added : Bool)
  /-- A listener or statistics connection takes a slot. -/
  | openOther (fd : ℤ)
  /-- A listener or statistics connection is closed. -/
  | closeOther (slot : Fin gazelleEpollSize)
  /-- An error, a hang-up or a failed read on a registration connection. -/
  | fail (slot : Fin gazelleEpollSize)
  /-- A request on a registration connection. -/
  | request (slot : Fin gazelleEpollSize) (msg : RegRequestMsg) (env : RegEnv)

namespace LtranCtl

variable (config : LtranConfig)

/-- The loop of `sockfd_data_alloc`: the first of `n` slots from `head` on that is free. -/
def findSlot (sockfdData : Fin gazelleEpollSize → SockfdData) (head : Fin gazelleEpollSize) :
    ℕ → Option (Fin gazelleEpollSize)
  | 0 => none
  | n + 1 => if 0 < (sockfdData head).fd then findSlot sockfdData (head + 1) n else some head

/-- The slot found is free. -/
theorem fd_of_findSlot {sockfdData : Fin gazelleEpollSize → SockfdData}
    {head slot : Fin gazelleEpollSize} {n : ℕ} (h : findSlot sockfdData head n = some slot) :
    (sockfdData slot).fd ≤ 0 := by
  induction n generalizing head with
  | zero => cases h
  | succ n ih =>
    rw [findSlot] at h
    split at h
    · exact ih h
    · rename_i hfree
      cases h
      omega

/-- `sockfd_data_alloc`; it does not touch the pid of the slot. -/
def sockfdDataAlloc (s : LtranCtl) (type : SockfdType) (fd : ℤ) :
    LtranCtl × Option (Fin gazelleEpollSize) :=
  match findSlot s.sockfdData s.head gazelleEpollSize with
  | none => (s, none)
  | some slot =>
    ({ s with
        sockfdData := Function.update s.sockfdData slot
          { s.sockfdData slot with fd := fd, type := type, conn := s.accepted }
        head := slot
        accepted := s.accepted + 1 }, some slot)

/-- `sockfd_data_free`. -/
def sockfdDataFree (s : LtranCtl) (slot : Fin gazelleEpollSize) : LtranCtl :=
  { s with sockfdData := Function.update s.sockfdData slot .zero }

/-- The `END` of `reg_conn_msg_proc`: the pid of the connection is logged out and the connection
closed. -/
def endConn (s : LtranCtl) (slot : Fin gazelleEpollSize) (refused : Bool) : LtranCtl :=
  let data := s.sockfdData slot
  let s :=
    if data.pid = 0 then s
    else
      { s with
        registry := s.registry.handleInstanceLogout data.pid
        removals := match s.registry.mgr.gazelleInstanceGetByPid data.pid with
          | none => s.removals
          | some (_, inst) => ⟨inst.creator, data.conn, refused⟩ :: s.removals }
  s.sockfdDataFree slot

/-- The `switch` of `reg_conn_msg_proc`: the state afterwards and whether the request was
handled. -/
def handleRequest (s : LtranCtl) (slot : Fin gazelleEpollSize) (msg : RegRequestMsg)
    (env : RegEnv) : LtranCtl × Bool :=
  let data := s.sockfdData slot
  match msg with
  | .procMem conf =>
    let (registry, ok) := s.registry.handleRegMsgProcMem config data.fd data.conn conf env
    ({ s with
        registry := registry
        sockfdData := Function.update s.sockfdData slot { data with pid := conf.pid } }, ok)
  | .procAtt conf =>
    let (registry, ok) := s.registry.handleRegMsgProcAtt conf env
    ({ s with registry := registry }, ok)
  | .thrdRing conf =>
    let (registry, ok) := s.registry.handleRegMsgThrdRing conf env
    ({ s with registry := registry }, ok)
  | .other => (s, true)

/-- The message is a `RQT_REG_PROC_MEM` that `instance_info_check` refuses. -/
def refuses (s : LtranCtl) : RegRequestMsg → Bool
  | .procMem conf => !instanceInfoCheck config s.registry.mgr conf
  | _ => false

/-- `reg_conn_msg_proc` for a request that was read. -/
def regConnMsgProc (s : LtranCtl) (slot : Fin gazelleEpollSize) (msg : RegRequestMsg)
    (env : RegEnv) : LtranCtl :=
  match s.handleRequest config slot msg env with
  | (s', true) => s'
  | (s', false) => s'.endConn slot (s.refuses config msg)

/-- The slot belongs to an open registration connection. -/
def IsRegConn (s : LtranCtl) (slot : Fin gazelleEpollSize) : Prop :=
  0 < (s.sockfdData slot).fd ∧ (s.sockfdData slot).type = .regConn

/-- Whether a slot belongs to such a connection is decidable. -/
instance (s : LtranCtl) (slot : Fin gazelleEpollSize) : Decidable (s.IsRegConn slot) := by
  unfold IsRegConn
  infer_instance

/-- One event of the control thread. -/
def step (s : LtranCtl) : CtlEvent → Option LtranCtl
  | .accept fd added =>
    if fd ≤ 0 then none
    else
      match s.sockfdDataAlloc .regConn fd with
      | (s, none) => some s
      | (s, some slot) => some (if added then s else s.sockfdDataFree slot)
  | .openOther fd => if fd ≤ 0 then none else some (s.sockfdDataAlloc .other fd).1
  | .closeOther slot =>
    if (s.sockfdData slot).type = .other then some (s.sockfdDataFree slot) else none
  | .fail slot => if s.IsRegConn slot then some (s.endConn slot false) else none
  | .request slot msg env =>
    if s.IsRegConn slot then some (s.regConnMsgProc config slot msg env) else none

/-- The control thread after its start: `gazelle_instance_mgr_create`, no stack and no
connection. -/
def create (maxInstanceNum maxStackNum : BitVec 32) : LtranCtl where
  registry :=
    { mgr := ⟨0, maxInstanceNum, fun _ => 0, fun _ => none⟩
      stackTable := ⟨maxStackNum, [], 0⟩ }
  sockfdData := fun _ => .zero
  head := 0
  accepted := 0
  removals := []

/-- All orders of events. -/
def system (maxInstanceNum maxStackNum : BitVec 32) : Transition.System LtranCtl CtlEvent where
  Init s := s = create maxInstanceNum maxStackNum
  step := step config

/-! ## The property, the condition and the invariant -/

/-- Every instance was removed while a failure or close of its own connection was handled, and
none by a request that `instance_info_check` refused. -/
def OwnedRemovals (s : LtranCtl) : Prop :=
  ∀ r ∈ s.removals, r.conn = r.creator ∧ r.refused = false

/-- The condition on an event: a `RQT_REG_PROC_MEM` with a pid other than zero asks for a pid
that is not registered. -/
def FreshPid (s : LtranCtl) : CtlEvent → Prop
  | .request _ (.procMem conf) _ =>
    conf.pid ≠ 0 → s.registry.mgr.gazelleInstanceGetByPid conf.pid = none
  | _ => True

/-- The invariant of the runs that meet the condition. -/
structure CtlInv (s : LtranCtl) : Prop where
  /-- A slot that carries a pid is an open connection that created the instance of the pid. -/
  owned : ∀ slot, (s.sockfdData slot).pid ≠ 0 → 0 < (s.sockfdData slot).fd ∧
    ∃ i, s.registry.mgr.owners i = some ((s.sockfdData slot).pid, (s.sockfdData slot).conn)
  /-- No pid is registered twice. -/
  unique : ∀ i j p c d, s.registry.mgr.owners i = some (p, c) →
    s.registry.mgr.owners j = some (p, d) → i = j
  /-- Connections in use were accepted before. -/
  accepted : ∀ slot, 0 < (s.sockfdData slot).fd → (s.sockfdData slot).conn < s.accepted
  /-- No two slots hold one connection. -/
  distinct : ∀ a b, 0 < (s.sockfdData a).fd → 0 < (s.sockfdData b).fd →
    (s.sockfdData a).conn = (s.sockfdData b).conn → a = b
  /-- The removals so far were right. -/
  removals : s.OwnedRemovals

/-- The invariant holds when the control thread starts. -/
theorem CtlInv.create (maxInstanceNum maxStackNum : BitVec 32) :
    CtlInv (create maxInstanceNum maxStackNum) := by
  constructor <;>
    simp [LtranCtl.create, SockfdData.zero, InstanceMgr.owners, OwnedRemovals]

section Steps

variable {config} {s t : LtranCtl} (h : CtlInv s)

include h

/-- Closing a connection keeps the invariant when no instance comes or goes. -/
theorem CtlInv.free (slot : Fin gazelleEpollSize)
    (howners : t.registry.mgr.owners = s.registry.mgr.owners)
    (hdata : t.sockfdData = Function.update s.sockfdData slot .zero)
    (haccepted : t.accepted = s.accepted) (hremovals : t.removals = s.removals) : CtlInv t := by
  have hother : ∀ a, a ≠ slot → t.sockfdData a = s.sockfdData a := by
    intro a ha
    rw [hdata, Function.update_of_ne ha]
  -- the slot is empty now: it has neither a descriptor nor a pid
  have hslot : ∀ a, 0 < (t.sockfdData a).fd → a ≠ slot := by
    rintro a hfd rfl
    rw [hdata, Function.update_self] at hfd
    exact absurd hfd (by decide)
  have hpid : ∀ a, (t.sockfdData a).pid ≠ 0 → a ≠ slot := by
    rintro a hpid rfl
    rw [hdata, Function.update_self] at hpid
    exact hpid rfl
  constructor
  case owned =>
    intro a ha
    rw [howners, hother a (hpid a ha)]
    exact h.owned a (hother a (hpid a ha) ▸ ha)
  case unique =>
    rw [howners]
    exact h.unique
  case accepted =>
    intro a ha
    rw [haccepted, hother a (hslot a ha)]
    exact h.accepted a (hother a (hslot a ha) ▸ ha)
  case distinct =>
    intro a b ha hb heq
    rw [hother a (hslot a ha), hother b (hslot b hb)] at heq
    exact h.distinct a b (hother a (hslot a ha) ▸ ha) (hother b (hslot b hb) ▸ hb) heq
  case removals =>
    intro r hr
    exact h.removals r (hremovals ▸ hr)

/-- Taking a slot keeps the invariant: the slot that `sockfd_data_alloc` finds carries no pid. -/
theorem CtlInv.sockfdDataAlloc (type : SockfdType) (fd : ℤ) :
    CtlInv (s.sockfdDataAlloc type fd).1 := by
  unfold LtranCtl.sockfdDataAlloc
  cases hfind : findSlot s.sockfdData s.head gazelleEpollSize with
  | none => exact h
  | some slot =>
    -- a free slot has no descriptor, and a pid is only kept with one
    have hfree := fd_of_findSlot hfind
    have hpid : (s.sockfdData slot).pid = 0 := by
      by_contra hne
      have hpos := (h.owned slot hne).1
      omega
    constructor
    case owned =>
      intro a ha
      by_cases hslot : a = slot
      · subst hslot
        simp [hpid] at ha
      · simp only [Function.update_of_ne hslot] at ha ⊢
        exact h.owned a ha
    case unique => exact h.unique
    case accepted =>
      intro a ha
      by_cases hslot : a = slot
      · subst hslot
        simp
      · simp only [Function.update_of_ne hslot] at ha ⊢
        -- the slot taken gets the number of this connection, which is larger than all others
        exact Nat.lt_succ_of_lt (h.accepted a ha)
    case distinct =>
      intro a b ha hb heq
      -- two slots with one number are the same slot
      by_cases hslot : a = slot <;> by_cases hslot' : b = slot
      · rw [hslot, hslot']
      · subst hslot
        simp only [Function.update_self, Function.update_of_ne hslot'] at heq hb
        have hlt := h.accepted b hb
        omega
      · subst hslot'
        simp only [Function.update_self, Function.update_of_ne hslot] at heq ha
        have hlt := h.accepted a ha
        omega
      · simp only [Function.update_of_ne hslot, Function.update_of_ne hslot'] at heq ha hb
        exact h.distinct a b ha hb heq
    case removals => exact h.removals

/-- Closing a connection logs out the instance that the connection created, and no other. -/
theorem CtlInv.endConn {slot : Fin gazelleEpollSize} : CtlInv (s.endConn slot false) := by
  unfold LtranCtl.endConn
  -- a connection that has created no instance only frees its slot
  by_cases hzero : (s.sockfdData slot).pid = 0
  · simp only [hzero, if_true]
    exact h.free _ rfl rfl rfl rfl
  simp only [if_neg hzero]
  obtain ⟨hfd, i, howner⟩ := h.owned slot hzero
  -- the instance of this pid is looked up, and there is at most one
  rcases LtranRegistry.owners_handleInstanceLogout s.registry (s.sockfdData slot).pid with
    ⟨hnone, -⟩ | ⟨j, inst, hget, howners⟩
  · exact absurd howner (InstanceMgr.gazelleInstanceGetByPid_none hnone)
  have hj := InstanceMgr.owners_of_getByPid hget
  -- so the instance is the one that the slot owns
  obtain rfl : i = j := h.unique _ _ _ _ _ howner hj
  have hcreator : inst.creator = (s.sockfdData slot).conn := by
    rw [howner, Option.some.injEq, Prod.mk.injEq] at hj
    exact hj.2.symm
  constructor
  case owned =>
    intro a ha
    simp only [sockfdDataFree] at ha ⊢
    have hslot : a ≠ slot := by
      rintro rfl
      simp [SockfdData.zero] at ha
    rw [Function.update_of_ne hslot] at ha ⊢
    obtain ⟨hpos, k, hk⟩ := h.owned a ha
    refine ⟨hpos, k, ?_⟩
    rw [howners, Function.update_of_ne]
    · exact hk
    · -- another slot with this instance would have the number of this connection
      rintro rfl
      rw [howner, Option.some.injEq, Prod.mk.injEq] at hk
      exact hslot (h.distinct a slot hpos hfd hk.2.symm)
  case unique =>
    intro a b p c d ha hb
    simp only [sockfdDataFree] at ha hb
    -- an instance that is left was there before
    have hne : ∀ k (q : Pid × ℕ), Function.update s.registry.mgr.owners i none k = some q →
        s.registry.mgr.owners k = some q := by
      intro k q hk
      rw [Function.update_apply] at hk
      split at hk
      · cases hk
      · exact hk
    rw [howners] at ha hb
    exact h.unique a b p c d (hne a _ ha) (hne b _ hb)
  case accepted =>
    exact (h.free (t := s.sockfdDataFree slot) slot rfl rfl rfl rfl).accepted
  case distinct =>
    exact (h.free (t := s.sockfdDataFree slot) slot rfl rfl rfl rfl).distinct
  case removals =>
    intro r hr
    simp only [sockfdDataFree, hget, List.mem_cons] at hr
    -- the only removal that is new is that of the instance of this connection
    rcases hr with rfl | hr
    · exact ⟨hcreator.symm, rfl⟩
    · exact h.removals r hr

omit h in
/-- Closing a connection whose pid is not registered only frees its slot. -/
theorem endConn_of_unregistered {slot : Fin gazelleEpollSize} {refused : Bool}
    (hpid : (s.sockfdData slot).pid ≠ 0 →
      s.registry.mgr.gazelleInstanceGetByPid (s.sockfdData slot).pid = none) :
    s.endConn slot refused = s.sockfdDataFree slot := by
  unfold LtranCtl.endConn
  by_cases hzero : (s.sockfdData slot).pid = 0
  · simp only [hzero, if_true]
  · simp only [if_neg hzero, hpid hzero, LtranRegistry.handleInstanceLogout]

/-- A request that leaves the owners and the connections alone, and closes the connection when
it fails. -/
private theorem CtlInv.request_same {slot : Fin gazelleEpollSize} {msg : RegRequestMsg}
    {env : RegEnv} {reg : LtranRegistry} (ok : Bool)
    (howners : reg.mgr.owners = s.registry.mgr.owners)
    (hrefuses : s.refuses config msg = false)
    (hhandle : s.handleRequest config slot msg env = ({ s with registry := reg }, ok)) :
    CtlInv (s.regConnMsgProc config slot msg env) := by
  have hreg : CtlInv { s with registry := reg } := by
    refine ⟨fun a ha => ?_, ?_, h.accepted, h.distinct, h.removals⟩
    · simp only [howners]
      exact h.owned a ha
    · simp only [howners]
      exact h.unique
  rw [regConnMsgProc, hhandle, hrefuses]
  cases ok
  · exact hreg.endConn
  · exact hreg

/-- A `RQT_REG_PROC_MEM` for a pid that is not registered keeps the invariant. -/
theorem CtlInv.procMem {slot : Fin gazelleEpollSize} {conf : ClientProcConf} {env : RegEnv}
    (hconn : s.IsRegConn slot)
    (hfresh : conf.pid ≠ 0 → s.registry.mgr.gazelleInstanceGetByPid conf.pid = none) :
    CtlInv (s.regConnMsgProc config slot (.procMem conf) env) := by
  by_cases hcheck : instanceInfoCheck config s.registry.mgr conf = true
  case neg =>
    -- refused: the connection is closed, and its new pid is not registered
    have hfalse := Bool.eq_false_of_not_eq_true hcheck
    simp only [regConnMsgProc, handleRequest, LtranRegistry.handleRegMsgProcMem_refused hfalse]
    rw [endConn_of_unregistered (by simpa using hfresh)]
    exact h.free slot rfl (by simp [sockfdDataFree]) rfl rfl
  case pos =>
    have hnone := LtranRegistry.getByPid_of_instanceInfoCheck hcheck
    have hrefuses : s.refuses config (.procMem conf) = false := by simp [refuses, hcheck]
    cases hhandle : s.registry.handleRegMsgProcMem config (s.sockfdData slot).fd
      (s.sockfdData slot).conn conf env with
    | mk reg ok =>
    simp only [regConnMsgProc, handleRequest, hhandle, hrefuses]
    rcases LtranRegistry.owners_handleRegMsgProcMem hcheck hhandle with
      ⟨rfl, howners⟩ | ⟨i, hfree, howners⟩
    · dsimp only
      rw [endConn_of_unregistered]
      · exact h.free slot howners (by simp [sockfdDataFree]) rfl rfl
      · intro _
        rw [InstanceMgr.gazelleInstanceGetByPid_eq_none] at hnone ⊢
        simp only [Function.update_self, howners]
        exact hnone
    · -- created: the connection owns the new instance
      rw [InstanceMgr.gazelleInstanceGetByPid_eq_none] at hnone
      have hold : ∀ k (q : Pid × ℕ), s.registry.mgr.owners k = some q → k ≠ i := by
        rintro k q hk rfl
        rw [hfree] at hk
        cases hk
      have howned : CtlInv { s with
          registry := reg
          sockfdData := Function.update s.sockfdData slot
            { s.sockfdData slot with pid := conf.pid } } := by
        constructor
        case owned =>
          intro a ha
          simp only at ha ⊢
          by_cases hslot : a = slot
          · subst hslot
            rw [Function.update_self]
            exact ⟨hconn.1, i, by rw [howners, Function.update_self]⟩
          · rw [Function.update_of_ne hslot] at ha ⊢
            obtain ⟨hpos, k, hk⟩ := h.owned a ha
            exact ⟨hpos, k, by rw [howners, Function.update_of_ne (hold k _ hk), hk]⟩
        case unique =>
          intro a b p c d ha hb
          simp only [howners, Function.update_apply] at ha hb
          split at ha <;> split at hb
          · rename_i hai hbi
            rw [hai, hbi]
          · simp only [Option.some.injEq, Prod.mk.injEq] at ha
            exact absurd (ha.1 ▸ hb) (hnone b d)
          · simp only [Option.some.injEq, Prod.mk.injEq] at hb
            exact absurd (hb.1 ▸ ha) (hnone a c)
          · exact h.unique a b p c d ha hb
        case accepted =>
          intro a ha
          by_cases hslot : a = slot
          · subst hslot
            simp only [Function.update_self] at ha ⊢
            exact h.accepted a ha
          · simp only [Function.update_of_ne hslot] at ha ⊢
            exact h.accepted a ha
        case distinct =>
          intro a b ha hb heq
          have hkeep : ∀ c, (Function.update s.sockfdData slot
                { s.sockfdData slot with pid := conf.pid } c).fd = (s.sockfdData c).fd ∧
              (Function.update s.sockfdData slot
                { s.sockfdData slot with pid := conf.pid } c).conn = (s.sockfdData c).conn := by
            intro c
            rw [Function.update_apply]
            split
            · rename_i hc
              subst hc
              exact ⟨rfl, rfl⟩
            · exact ⟨rfl, rfl⟩
          simp only [(hkeep a).1, (hkeep b).1, (hkeep a).2, (hkeep b).2] at ha hb heq
          exact h.distinct a b ha hb heq
        case removals => exact h.removals
      cases ok
      · exact howned.endConn
      · exact howned

/-- An event that meets the condition keeps the invariant. -/
theorem CtlInv.step {e : CtlEvent} (hc : FreshPid s e) (hstep : s.step config e = some t) :
    CtlInv t := by
  cases e with
  | accept fd added =>
    simp only [LtranCtl.step] at hstep
    split at hstep
    · cases hstep
    · have halloc := h.sockfdDataAlloc .regConn fd
      split at hstep <;> rename_i halloc' <;> rw [halloc'] at halloc <;> cases hstep
      · -- no slot is free, or epoll takes the descriptor
        exact halloc
      · split
        · exact halloc
        · -- epoll refuses it and the slot is freed again
          exact halloc.free _ rfl rfl rfl rfl
  | openOther fd =>
    simp only [LtranCtl.step] at hstep
    split at hstep
    · cases hstep
    · exact Option.some.inj hstep ▸ h.sockfdDataAlloc .other fd
  | closeOther slot =>
    simp only [LtranCtl.step] at hstep
    split at hstep <;> cases hstep
    exact h.free slot rfl rfl rfl rfl
  | fail slot =>
    simp only [LtranCtl.step] at hstep
    split at hstep <;> cases hstep
    exact h.endConn
  | request slot msg env =>
    simp only [LtranCtl.step] at hstep
    split at hstep <;> cases hstep
    rename_i hconn
    cases msg with
    | procMem conf => exact h.procMem hconn hc
    | procAtt conf =>
      -- the other requests create no instance
      cases hhandle : s.registry.handleRegMsgProcAtt conf env with
      | mk reg ok =>
      exact h.request_same ok (LtranRegistry.owners_handleRegMsgProcAtt hhandle) rfl
        (by simp only [handleRequest, hhandle])
    | thrdRing conf =>
      cases hhandle : s.registry.handleRegMsgThrdRing conf env with
      | mk reg ok =>
      exact h.request_same ok (LtranRegistry.owners_handleRegMsgThrdRing hhandle) rfl
        (by simp only [handleRequest, hhandle])
    | other => exact h

omit h in
/-- A `RQT_REG_PROC_MEM` for a registered pid removes its instance by a refused request. -/
theorem not_ownedRemovals_of_registered {slot : Fin gazelleEpollSize} {conf : ClientProcConf}
    {env : RegEnv} (hzero : conf.pid ≠ 0)
    (hsome : s.registry.mgr.gazelleInstanceGetByPid conf.pid ≠ none) :
    ¬ OwnedRemovals (s.regConnMsgProc config slot (.procMem conf) env) := by
  have hcheck : instanceInfoCheck config s.registry.mgr conf = false := by
    by_contra htrue
    exact hsome (LtranRegistry.getByPid_of_instanceInfoCheck (by simpa using htrue))
  obtain ⟨⟨i, inst⟩, hget⟩ := Option.ne_none_iff_exists'.1 hsome
  intro howned
  have hremoval := howned ⟨inst.creator, (s.sockfdData slot).conn, true⟩ (by
    simp only [regConnMsgProc, handleRequest, refuses,
      LtranRegistry.handleRegMsgProcMem_refused hcheck, hcheck,
      LtranCtl.endConn, Function.update_self, if_neg hzero, hget, sockfdDataFree, Bool.not_false,
      List.mem_cons, true_or])
  cases hremoval.2

end Steps

/-! ## Runs -/

/-- Along a run of the control thread, instances are removed only through the connections that
created them, and never by a refused request, exactly when no `RQT_REG_PROC_MEM` asks for a
registered pid. -/
theorem owned_removals_iff (maxInstanceNum maxStackNum : BitVec 32) (es : List CtlEvent) :
    (system config maxInstanceNum maxStackNum).statesHold OwnedRemovals
        (create maxInstanceNum maxStackNum) es ↔
      (system config maxInstanceNum maxStackNum).stepsMeet FreshPid
        (create maxInstanceNum maxStackNum) es := by
  apply Transition.System.statesHold_iff_stepsMeet (J := CtlInv)
  · exact fun s h => h.removals
  · exact fun s e s' h hc hstep => h.step hc hstep
  · rintro s e s' h howned hstep
    cases e with
    | request slot msg env =>
      cases msg with
      | procMem conf =>
        intro hzero
        by_contra hsome
        simp only [system, LtranCtl.step] at hstep
        split at hstep <;> cases hstep
        exact not_ownedRemovals_of_registered hzero hsome howned
      | _ => trivial
    | _ => trivial
  · exact CtlInv.create maxInstanceNum maxStackNum

/-- A configuration of one subnet and one bond port. -/
private def exampleConfig : LtranConfig where
  ipv4NetMask := 0xff
  ipv4SubnetAddr := 0xc0a80100
  bondMac := [0x1]

/-- A process in that subnet. -/
private def exampleConf : ClientProcConf where
  pid := 7
  baseVirtaddr := 0
  socketSize := 0x1000
  filePrefix := "client"
  macAddr := 0x1
  ipv4 := 0x0a01a8c0
  argc := 0

/-- Everything outside ltran succeeds. -/
private def exampleEnv : RegEnv := ⟨true, some (0x1000, 0x1000), true, true, true⟩

/-- The first connection registers the process, the second asks for the same pid. -/
private def refusedRun : List CtlEvent :=
  [.accept 5 true, .request 0 (.procMem exampleConf) exampleEnv, .accept 6 true,
    .request 1 (.procMem exampleConf) exampleEnv]

/-- The refused request of the second connection removes the instance that the first one
registered. -/
theorem owned_removals_fail :
    ¬ ∀ s, (system exampleConfig 32 128).Reachable s → s.OwnedRemovals := by
  intro hclaim
  obtain ⟨s, hs, hremovals⟩ : ∃ s, (system exampleConfig 32 128).Reachable s ∧
      s.removals = [⟨0, 1, true⟩] :=
    ⟨_, Transition.System.reachable_of_run (l := refusedRun) (.init rfl) rfl, rfl⟩
  have howned := hclaim s hs ⟨0, 1, true⟩ (by simp [hremovals])
  cases howned.2

end LtranCtl

end Gazelle
