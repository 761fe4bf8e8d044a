import Gazelle.Lists.Linked
import Gazelle.Lstack.ConnNum
import Mathlib.Data.List.Perm.Subperm
import Mathlib.Data.List.Range

/-!
# Listening on all stacks

`stack_broadcast_listen` and `stack_broadcast_bind` (`lstack_protocol_stack.c`) give a descriptor
shadows on the other stacks, which are linked by `listen_next`. When a step fails,
`stack_broadcast_close` closes the whole chain, the descriptor of the caller with it.

* `ListenTable`: the sockets with their links;
* `ListenTable.stackBroadcastListen`, `ListenTable.stackBroadcastBind`: the two functions;
* `broadcast_all_or_nothing`: when exactly they do all or nothing.
-/

namespace Gazelle

/-- `sock->conn`. -/
structure ListenConn where
  /-- It is bound. -/
  bound : Bool
  /-- It listens. -/
  listening : Bool
  /-- `is_master_fd`. -/
  isMasterFd : Bool
  deriving DecidableEq

/-- `struct lwip_sock`. -/
structure ListenSock where
  /-- `stack`. -/
  stack : Option ℕ
  /-- `conn`. -/
  conn : Option ListenConn
  /-- `listen_next`. -/
  listenNext : Option ℕ
  deriving DecidableEq

/-- The sockets of the descriptors below `sockNum`. -/
structure ListenTable where
  /-- The number of entries. -/
  sockNum : ℕ
  /-- The entries. -/
  sock : ℕ → ListenSock

/-- The stacks. -/
structure BroadcastCfg where
  /-- `stack_num`. -/
  stackNum : ℕ
  /-- There is a stack. -/
  stackNum_pos : 0 < stackNum
  /-- `seperate_send_recv`. -/
  seperateSendRecv : Bool
  /-- `conn_num` of the stacks. -/
  connNum : ℕ → BitVec 16

/-- What comes of a call of `create_shadow_fd`. -/
inductive ShadowMade
  /-- There is no message or no socket. -/
  | failed
  /-- The shadow cannot be bound. -/
  | bindFailed (fd : ℕ)
  /-- The shadow is bound. -/
  | made (fd : ℕ)
  deriving DecidableEq

/-- The descriptor that the call returns. -/
def ShadowMade.made? : ShadowMade → Option ℕ
  | .made fd => some fd
  | _ => none

/-- The descriptor of the shadow. -/
def ShadowMade.fd? : ShadowMade → Option ℕ
  | .failed => none
  | .bindFailed fd => some fd
  | .made fd => some fd

/-- What the remote calls come to. -/
structure BroadcastEnv where
  /-- `rpc_call_getsockname` succeeds. -/
  getsockname : Bool
  /-- `rpc_call_bind` succeeds. -/
  bind : Bool
  /-- The shadow on a stack. -/
  shadow : ℕ → ShadowMade
  /-- `rpc_call_listen` on a stack succeeds. -/
  listen : ℕ → Bool
  /-- `rpc_call_close` of a descriptor gets its message. -/
  closeMsg : ℕ → Bool

namespace BroadcastCfg

variable (cfg : BroadcastCfg)

/-- `is_send_thread`, as `init_stack_value` sets it. -/
def isSendThread (i : ℕ) : Bool := cfg.seperateSendRecv && i % 2 == 1

/-- The loop of `stack_broadcast_listen` does not pass over the stack. -/
def listens (i : ℕ) : Bool := !(cfg.seperateSendRecv && cfg.isSendThread i)

/-- The loop of `get_min_conn_stack`, with the index and the number found so far. -/
def getMinConnLoop : ℕ → ℕ → ℕ × ℕ → ℕ × ℕ
  | 0, _, found => found
  | rounds + 1, i, found =>
    getMinConnLoop rounds (i + 1)
      (if cfg.listens i && (cfg.connNum i).toNat < found.2 then (i, (cfg.connNum i).toNat)
      else found)

/-- `get_min_conn_stack`. -/
def getMinConnStack : ℕ := (cfg.getMinConnLoop cfg.stackNum 0 (0, gazelleMaxClients)).1

end BroadcastCfg

namespace ListenTable

variable (cfg : BroadcastCfg) (env : BroadcastEnv) (s : ListenTable)

/-- Write to an entry. -/
def modify (fd : ℕ) (f : ListenSock → ListenSock) : ListenTable :=
  { s with sock := Function.update s.sock fd (f (s.sock fd)) }

/-- Write to `conn` of an entry. -/
def modifyConn (fd : ℕ) (f : ListenConn → ListenConn) : ListenTable :=
  s.modify fd fun x => { x with conn := x.conn.map f }

/-- The last socket of a chain, found by following `listen_next`. -/
def lastSock : ℕ → ℕ → ℕ
  | 0, fd => fd
  | rounds + 1, fd =>
    match (s.sock fd).listenNext with
    | none => fd
    | some x => lastSock rounds x

/-- `create_shadow_fd` when a socket was made: it is linked behind the last one. -/
def linkShadow (k fd x : ℕ) : ListenTable :=
  let s := s.modify x fun _ => ⟨some k, some ⟨false, false, false⟩, none⟩
  s.modify (s.lastSock s.sockNum fd) fun y => { y with listenNext := some x }

/-- `rpc_call_shadow_fd`, with the descriptor or `-1`. -/
def createShadowFd (k fd : ℕ) : ShadowMade → Option ℕ × ListenTable
  | .failed => (none, s)
  | .bindFailed x => (none, s.linkShadow k fd x)
  | .made x => (some x, (s.linkShadow k fd x).modifyConn x fun c => { c with bound := true })

/-- `stack_close`: `lwip_close` and `gazelle_clean_sock`. -/
def stackClose (fd : ℕ) : ListenTable :=
  s.modify fd fun x =>
    if x.stack = none then { x with conn := none } else ⟨none, none, none⟩

/-- `rpc_call_close`, which needs the stack of the socket and a message. -/
def rpcCallClose (fd : ℕ) : ListenTable :=
  if (s.sock fd).stack ≠ none ∧ env.closeMsg fd then s.stackClose fd else s

/-- The loop of `stack_broadcast_close`. -/
def closeLoop : ℕ → ListenTable → ℕ → ListenTable
  | 0, s, _ => s
  | rounds + 1, s, fd =>
    let next := (s.sock fd).listenNext
    let s := s.rpcCallClose env fd
    match next with
    | none => s
    | some x => if (s.sock x).conn = none then s else closeLoop rounds s x

/-- `stack_broadcast_close`. -/
def stackBroadcastClose (fd : ℕ) : ListenTable :=
  if (s.sock fd).conn = none then s else closeLoop env s.sockNum s fd

/-- The part of a round of `stack_broadcast_listen` that follows the choice of the descriptor: the
master is marked, and the descriptor listens. -/
def listenOn (i cloneFd : ℕ) : Bool × ListenTable :=
  let s := s.modifyConn cloneFd fun c =>
    { c with isMasterFd := decide (cfg.getMinConnStack = i) }
  if env.listen i then (true, s.modifyConn cloneFd fun c => { c with listening := true })
  else (false, s)

/-- One round of `stack_broadcast_listen`. -/
def listenRound (fd : ℕ) (cur : Option ℕ) (i : ℕ) : Bool × ListenTable :=
  if cur = some i then s.listenOn cfg env i fd
  else
    match s.createShadowFd i fd (env.shadow i) with
    | (none, s) => (false, s)
    | (some x, s) => s.listenOn cfg env i x

/-- The loop of `stack_broadcast_listen`. -/
def listenLoop (fd : ℕ) (cur : Option ℕ) : ℕ → ℕ → ListenTable → Bool × ListenTable
  | 0, _, s => (true, s)
  | rounds + 1, i, s =>
    if cfg.listens i then
      match s.listenRound cfg env fd cur i with
      | (true, s) => listenLoop fd cur rounds (i + 1) s
      | (false, s) => (false, s.stackBroadcastClose env fd)
    else listenLoop fd cur rounds (i + 1) s

/-- `stack_broadcast_listen`; it returns `0` or `-1`. -/
def stackBroadcastListen (fd : ℕ) : ℤ × ListenTable :=
  if (s.sock fd).conn = none then (-1, s)
  else if (s.sock fd).stack = none ∨ ¬ env.getsockname then (-1, s)
  else
    match s.listenLoop cfg env fd (s.sock fd).stack cfg.stackNum 0 with
    | (true, s) => (0, s)
    | (false, s) => (-1, s)

/-- The loop of `stack_broadcast_bind`. -/
def bindLoop (fd : ℕ) (cur : Option ℕ) : ℕ → ℕ → ListenTable → Bool × ListenTable
  | 0, _, s => (true, s)
  | rounds + 1, i, s =>
    if cur = some i then bindLoop fd cur rounds (i + 1) s
    else
      match s.createShadowFd i fd (env.shadow i) with
      | (some _, s) => bindLoop fd cur rounds (i + 1) s
      | (none, s) => (false, s.stackBroadcastClose env fd)

/-- `stack_broadcast_bind`; it returns `0` or `-1`. -/
def stackBroadcastBind (fd : ℕ) : ℤ × ListenTable :=
  if (s.sock fd).conn = none then (-1, s)
  else if (s.sock fd).stack = none ∨ ¬ env.bind then
    -- `close(fd)`, which comes to `stack_broadcast_close`
    (-1, s.stackBroadcastClose env fd)
  else
    let s' := s.modifyConn fd fun c => { c with bound := true }
    match s'.bindLoop env fd (s.sock fd).stack cfg.stackNum 0 with
    | (true, s) => (0, s)
    | (false, s) => (-1, s)

/-! ## All or nothing -/

/-- The `listen_next` chain of a descriptor consists of these sockets; they are open. -/
structure Chain (fd : ℕ) (tail : List ℕ) : Prop where
  /-- They are linked. -/
  linked : Linked (fun x => (s.sock x).listenNext) (some fd) (fd :: tail)
  /-- They are different. -/
  nodup : (fd :: tail).Nodup
  /-- They are in the table. -/
  lt : ∀ x ∈ fd :: tail, x < s.sockNum
  /-- The shadows are open. -/
  isOpen : ∀ x ∈ tail, (s.sock x).conn ≠ none

/-- The socket listens on the stack. -/
def listensOn (k x : ℕ) : Bool :=
  (s.sock x).stack = some k && (s.sock x).conn.any (·.listening)

/-- The socket listens on a stack that is not a send thread, and is marked as the master. -/
def masterOn (x : ℕ) : Bool :=
  (s.sock x).stack.any (fun k => k < cfg.stackNum && cfg.listens k && s.listensOn k x) &&
    (s.sock x).conn.any (·.isMasterFd)

/-- `stack_broadcast_listen` has done all, when it returns `0`, or nothing. -/
def ListenHolds (fd : ℕ) (r : ℤ × ListenTable) : Prop :=
  if r.1 = 0 then
    ∃ tail, r.2.Chain fd tail ∧
      (∀ k < cfg.stackNum, cfg.listens k → (fd :: tail).countP (r.2.listensOn k) = 1) ∧
      (fd :: tail).countP (r.2.masterOn cfg) = 1
  else (∀ x, (s.sock x).conn = none → (r.2.sock x).conn = none) ∧ r.2.sock fd = s.sock fd

/-- `stack_broadcast_bind` has done nothing, unless it returns `0`. -/
def BindHolds (fd : ℕ) (r : ℤ × ListenTable) : Prop :=
  r.1 ≠ 0 → (∀ x, (s.sock x).conn = none → (r.2.sock x).conn = none) ∧ r.2.sock fd = s.sock fd

/-- `stack_broadcast_listen` fails before it does anything, or no step fails and no shadow of an
earlier call listens. -/
def ListenCondition (fd : ℕ) (tail : List ℕ) : Prop :=
  (s.sock fd).conn = none ∨ (s.sock fd).stack = none ∨ env.getsockname = false ∨
    (∀ k < cfg.stackNum, cfg.listens k → env.listen k = true ∧
      ((s.sock fd).stack ≠ some k → ∃ x, env.shadow k = .made x)) ∧
    ∀ k < cfg.stackNum, cfg.listens k → ∀ x ∈ tail, s.listensOn k x = false

/-- `stack_broadcast_bind` fails before it does anything, or no step fails. -/
def BindCondition (fd : ℕ) : Prop :=
  (s.sock fd).conn = none ∨ (s.sock fd).stack = none ∨
    env.bind = true ∧
      ∀ k < cfg.stackNum, (s.sock fd).stack ≠ some k → ∃ x, env.shadow k = .made x

/-- The kernel returns descriptors that are not open. -/
def FreshShadows : Prop :=
  (∀ k < cfg.stackNum, ∀ x ∈ (env.shadow k).fd?, x < s.sockNum ∧ (s.sock x).conn = none) ∧
    ∀ j < cfg.stackNum, ∀ k < cfg.stackNum, ∀ x ∈ (env.shadow j).fd?,
      x ∈ (env.shadow k).fd? → j = k

variable {cfg env s} {fd x k i : ℕ} {tail : List ℕ}

@[simp] theorem sockNum_modify (f : ListenSock → ListenSock) :
    (s.modify x f).sockNum = s.sockNum := rfl

@[simp] theorem sock_modify_self (f : ListenSock → ListenSock) :
    (s.modify x f).sock x = f (s.sock x) := Function.update_self ..

theorem sock_modify_of_ne (f : ListenSock → ListenSock) {y : ℕ} (h : y ≠ x) :
    (s.modify x f).sock y = s.sock y := Function.update_of_ne h ..

/-- The links do not change by a write to `conn`. -/
theorem listenNext_modifyConn (f : ListenConn → ListenConn) (y : ℕ) :
    ((s.modifyConn x f).sock y).listenNext = (s.sock y).listenNext := by
  unfold modifyConn
  by_cases h : y = x
  · rw [h, sock_modify_self]
  · rw [sock_modify_of_ne _ h]

/-- No socket is closed by a write to `conn`. -/
theorem conn_modifyConn_eq_none (f : ListenConn → ListenConn) (y : ℕ) :
    ((s.modifyConn x f).sock y).conn = none ↔ (s.sock y).conn = none := by
  unfold modifyConn
  by_cases h : y = x
  · rw [h, sock_modify_self]
    exact Option.map_eq_none_iff
  · rw [sock_modify_of_ne _ h]

/-- The stack does not change by a write to `conn`. -/
theorem stack_modifyConn (f : ListenConn → ListenConn) (y : ℕ) :
    ((s.modifyConn x f).sock y).stack = (s.sock y).stack := by
  unfold modifyConn
  by_cases h : y = x
  · rw [h, sock_modify_self]
  · rw [sock_modify_of_ne _ h]

/-- Only the links and what is open matter to the chain. -/
theorem Chain.congr {s' : ListenTable} (h : s.Chain fd tail) (hnum : s'.sockNum = s.sockNum)
    (hnext : ∀ y ∈ fd :: tail, (s'.sock y).listenNext = (s.sock y).listenNext)
    (hopen : ∀ y ∈ tail, (s'.sock y).conn = none → (s.sock y).conn = none) :
    s'.Chain fd tail where
  linked := h.linked.congr hnext
  nodup := h.nodup
  lt y hy := hnum ▸ h.lt y hy
  isOpen y hy hnone := h.isOpen y hy (hopen y hy hnone)

/-- A write to `conn` leaves the chain as it is. -/
theorem Chain.modifyConn (h : s.Chain fd tail) (x : ℕ) (f : ListenConn → ListenConn) :
    (s.modifyConn x f).Chain fd tail :=
  h.congr rfl (fun y _ => listenNext_modifyConn f y)
    (fun y _ hnone => (conn_modifyConn_eq_none f y).1 hnone)

/-- The chain fits into the table. -/
theorem Chain.length_le (h : s.Chain fd tail) : tail.length + 1 ≤ s.sockNum := by
  have hsub : (fd :: tail) ⊆ List.range s.sockNum := fun x hx => List.mem_range.2 (h.lt x hx)
  have hle := (List.subperm_of_subset h.nodup hsub).length_le
  rwa [List.length_range] at hle

/-- Following the links, the last socket is found. -/
theorem lastSock_spec {l : List ℕ} {rounds p : ℕ}
    (h : Linked (fun x => (s.sock x).listenNext) (some p) (p :: l)) (hle : l.length ≤ rounds) :
    ∃ m, p :: l = m ++ [s.lastSock rounds p] := by
  induction l generalizing p rounds with
  | nil =>
    have hnone : (s.sock p).listenNext = none := h.2
    refine ⟨[], ?_⟩
    cases rounds with
    | zero => rfl
    | succ rounds => rw [lastSock, hnone]; rfl
  | cons q l ih =>
    obtain ⟨rounds, rfl⟩ := Nat.exists_eq_add_one.2 (Nat.lt_of_lt_of_le (Nat.succ_pos _) hle)
    have hq : (s.sock p).listenNext = some q := h.2.1
    have hrest : Linked (fun x => (s.sock x).listenNext) (some q) (q :: l) := ⟨rfl, h.2.2⟩
    obtain ⟨m, hm⟩ := ih hrest (Nat.le_of_succ_le_succ hle)
    refine ⟨p :: m, ?_⟩
    rw [lastSock, hq]
    exact congrArg (p :: ·) hm

/-- A link changes neither the stack nor the connection. -/
theorem sock_link (s : ListenTable) (z y : ℕ) (o : Option ℕ) :
    ((s.modify z fun v => { v with listenNext := o }).sock y).stack = (s.sock y).stack ∧
      ((s.modify z fun v => { v with listenNext := o }).sock y).conn = (s.sock y).conn := by
  by_cases hyz : y = z
  · rw [hyz, sock_modify_self]
    exact ⟨rfl, rfl⟩
  · rw [sock_modify_of_ne _ hyz]
    exact ⟨rfl, rfl⟩

/-- Linking a shadow changes the stack and the connection of no other socket. -/
theorem linkShadow_of_ne {y : ℕ} (h : y ≠ x) (k fd : ℕ) :
    ((s.linkShadow k fd x).sock y).stack = (s.sock y).stack ∧
      ((s.linkShadow k fd x).sock y).conn = (s.sock y).conn := by
  rw [← sock_modify_of_ne (s := s) (fun _ => ⟨some k, some ⟨false, false, false⟩, none⟩) h]
  exact sock_link _ _ y (some x)

/-- A shadow is linked behind the last socket of the chain. -/
theorem Chain.linkShadow (h : s.Chain fd tail) (hx : x < s.sockNum) (hmem : x ∉ fd :: tail)
    (k : ℕ) :
    (s.linkShadow k fd x).Chain fd (tail ++ [x]) ∧
      (s.linkShadow k fd x).sock x = ⟨some k, some ⟨false, false, false⟩, none⟩ := by
  have hne : ∀ y ∈ fd :: tail, y ≠ x := fun y hy hyx => hmem (hyx ▸ hy)
  -- the new socket is not in the chain
  have h₁ : (s.modify x fun _ => ⟨some k, some ⟨false, false, false⟩, none⟩).Chain fd tail := by
    refine h.congr rfl (fun y hy => ?_) (fun y hy => ?_)
    · rw [sock_modify_of_ne _ (hne y hy)]
    · rw [sock_modify_of_ne _ (hne y (List.mem_cons_of_mem _ hy))]
      exact id
  obtain ⟨m, hm⟩ := lastSock_spec h₁.linked
    (Nat.le_of_succ_le h₁.length_le : tail.length ≤ s.sockNum)
  have hlink : s.linkShadow k fd x =
      (s.modify x fun _ => ⟨some k, some ⟨false, false, false⟩, none⟩).modify
        ((s.modify x fun _ => ⟨some k, some ⟨false, false, false⟩, none⟩).lastSock s.sockNum fd)
        fun y => { y with listenNext := some x } := rfl
  generalize hs₁ : s.modify x (fun _ => ⟨some k, some ⟨false, false, false⟩, none⟩) = s₁ at *
  generalize hz : s₁.lastSock s.sockNum fd = z at *
  have hzmem : z ∈ fd :: tail := hm ▸ by simp
  have hzx : z ≠ x := hne z hzmem
  have hsx : s₁.sock x = ⟨some k, some ⟨false, false, false⟩, none⟩ := by
    rw [← hs₁, sock_modify_self]
  rw [hlink]
  refine ⟨⟨?_, ?_, ?_, ?_⟩, ?_⟩
  · have hnodup := h₁.nodup
    have hlinked := h₁.linked
    rw [hm] at hnodup hlinked
    have happ : fd :: (tail ++ [x]) = m ++ z :: [x] := by
      rw [← List.cons_append, hm, List.append_assoc]
      rfl
    rw [happ]
    refine hlinked.append (fun hz => ?_) (fun p hp => ?_) ?_
    · exact (List.nodup_append.1 hnodup).2.2 z hz z List.mem_cons_self rfl
    · rw [sock_modify_of_ne _ hp]
    · rw [sock_modify_self]
      refine ⟨rfl, ?_⟩
      show ((s₁.modify z _).sock x).listenNext = none
      rw [sock_modify_of_ne _ (Ne.symm hzx), hsx]
  · rw [← List.cons_append]
    exact List.nodup_append.2 ⟨h.nodup, List.nodup_singleton x, fun y hy w hw => by
      rw [List.mem_singleton.1 hw]
      exact hne y hy⟩
  · intro y hy
    show y < s₁.sockNum
    have hnum : s₁.sockNum = s.sockNum := hs₁ ▸ rfl
    rw [hnum]
    rw [← List.cons_append] at hy
    rcases List.mem_append.1 hy with hy | hy
    · exact h.lt y hy
    · rwa [List.mem_singleton.1 hy]
  · intro y hy
    rcases List.mem_append.1 hy with hy | hy
    · by_cases hyz : y = z
      · rw [hyz, sock_modify_self]
        exact h₁.isOpen z (hyz ▸ hy)
      · rw [sock_modify_of_ne _ hyz]
        exact h₁.isOpen y hy
    · rw [List.mem_singleton.1 hy, sock_modify_of_ne _ (Ne.symm hzx), hsx]
      exact Option.some_ne_none _
  · rw [sock_modify_of_ne _ (Ne.symm hzx), hsx]

/-! ## The loop of `stack_broadcast_listen` -/

/-- The shadows that the rounds before the given one make. -/
def created (cfg : BroadcastCfg) (env : BroadcastEnv) (cur : Option ℕ) (i : ℕ) : List ℕ :=
  (List.range i).filterMap fun j =>
    if cfg.listens j ∧ cur ≠ some j then (env.shadow j).made? else none

/-- What holds before a round, when all rounds before have succeeded. -/
structure Listened (cfg : BroadcastCfg) (env : BroadcastEnv) (s₀ : ListenTable) (fd : ℕ)
    (tail : List ℕ) (i : ℕ) (s : ListenTable) : Prop where
  /-- The chain. -/
  chain : s.Chain fd (tail ++ created cfg env (s₀.sock fd).stack i)
  /-- The table is as long as before. -/
  sockNum : s.sockNum = s₀.sockNum
  /-- The sockets that were in the chain. -/
  old : ∀ y ∈ tail, (s.sock y).stack = (s₀.sock y).stack ∧ (s.sock y).conn = (s₀.sock y).conn
  /-- The stack of the descriptor. -/
  stack : (s.sock fd).stack = (s₀.sock fd).stack
  /-- The descriptor is open. -/
  isOpen : (s.sock fd).conn ≠ none
  /-- It listens when it was its turn. -/
  own : ∀ j < i, cfg.listens j → (s₀.sock fd).stack = some j →
    ∃ b, (s.sock fd).conn = some ⟨b, true, decide (cfg.getMinConnStack = j)⟩
  /-- The shadows listen. -/
  new : ∀ j < i, cfg.listens j → (s₀.sock fd).stack ≠ some j → ∀ x, env.shadow j = .made x →
    (s.sock x).stack = some j ∧
      (s.sock x).conn = some ⟨true, true, decide (cfg.getMinConnStack = j)⟩
  /-- The descriptors of the rounds to come are not open. -/
  unborn : ∀ j < cfg.stackNum, i ≤ j → ∀ x ∈ (env.shadow j).fd?, (s.sock x).conn = none

/-- One stack more. -/
theorem created_succ (cfg : BroadcastCfg) (env : BroadcastEnv) (cur : Option ℕ) (i : ℕ) :
    created cfg env cur (i + 1) = created cfg env cur i ++
      (if cfg.listens i ∧ cur ≠ some i then (env.shadow i).made? else none).toList := by
  rw [created, List.range_succ, List.filterMap_append, created]
  congr 1

/-- What a round with a descriptor does to the entries. -/
theorem listenOn_spec (cfg : BroadcastCfg) (env : BroadcastEnv) (s : ListenTable) (i x : ℕ) :
    (∀ y, ((s.listenOn cfg env i x).2.sock y).stack = (s.sock y).stack ∧
        ((s.listenOn cfg env i x).2.sock y).listenNext = (s.sock y).listenNext ∧
        (((s.listenOn cfg env i x).2.sock y).conn = none ↔ (s.sock y).conn = none)) ∧
      (∀ y ≠ x, ((s.listenOn cfg env i x).2.sock y) = s.sock y) ∧
      (s.listenOn cfg env i x).2.sockNum = s.sockNum ∧
      (s.listenOn cfg env i x).1 = env.listen i ∧
      (env.listen i = true → ∀ c, (s.sock x).conn = some c →
        ((s.listenOn cfg env i x).2.sock x).conn =
          some ⟨c.bound, true, decide (cfg.getMinConnStack = i)⟩) := by
  unfold listenOn
  cases hl : env.listen i with
  | true =>
    simp only [if_true]
    refine ⟨fun y => ⟨?_, ?_, ?_⟩, fun y hy => ?_, rfl, trivial, fun _ c hc => ?_⟩
    · rw [stack_modifyConn, stack_modifyConn]
    · rw [listenNext_modifyConn, listenNext_modifyConn]
    · rw [conn_modifyConn_eq_none, conn_modifyConn_eq_none]
    · rw [modifyConn, sock_modify_of_ne _ hy, modifyConn, sock_modify_of_ne _ hy]
    · rw [modifyConn, sock_modify_self, modifyConn, sock_modify_self, hc]
      rfl
  | false =>
    simp only [Bool.false_eq_true, if_false]
    refine ⟨fun y => ⟨?_, ?_, ?_⟩, fun y hy => ?_, rfl, trivial, False.elim⟩
    · rw [stack_modifyConn]
    · rw [listenNext_modifyConn]
    · rw [conn_modifyConn_eq_none]
    · rw [modifyConn, sock_modify_of_ne _ hy]

/-- Before the first round. -/
theorem Listened.zero (h : s.Chain fd tail) (hopen : (s.sock fd).conn ≠ none)
    (hfresh : s.FreshShadows cfg env) : Listened cfg env s fd tail 0 s where
  chain := by
    rw [created, List.range_zero, List.filterMap_nil, List.append_nil]
    exact h
  sockNum := rfl
  old _ _ := ⟨rfl, rfl⟩
  stack := rfl
  isOpen := hopen
  own _ hj := absurd hj (Nat.not_lt_zero _)
  new _ hj := absurd hj (Nat.not_lt_zero _)
  unborn j hj _ x hx := (hfresh.1 j hj x hx).2

/-- A stack that does not listen is passed over. -/
theorem Listened.skip {s₀ : ListenTable} (h : Listened cfg env s₀ fd tail i s)
    (hi : cfg.listens i = false) : Listened cfg env s₀ fd tail (i + 1) s where
  chain := by
    rw [created_succ, if_neg (by simp [hi])]
    simpa using h.chain
  sockNum := h.sockNum
  old := h.old
  stack := h.stack
  isOpen := h.isOpen
  own j hj hl := by
    rcases Nat.lt_succ_iff_lt_or_eq.1 hj with hj | rfl
    · exact h.own j hj hl
    · simp [hi] at hl
  new j hj hl := by
    rcases Nat.lt_succ_iff_lt_or_eq.1 hj with hj | rfl
    · exact h.new j hj hl
    · simp [hi] at hl
  unborn j hj hij := h.unborn j hj (Nat.le_of_succ_le hij)

/-- A round succeeds exactly when its steps do. -/
theorem listenRound_fst (cfg : BroadcastCfg) (env : BroadcastEnv) (s : ListenTable) (fd : ℕ)
    (cur : Option ℕ) (i : ℕ) : (s.listenRound cfg env fd cur i).1 = true ↔
      env.listen i = true ∧ (cur ≠ some i → ∃ x, env.shadow i = .made x) := by
  unfold listenRound
  split
  · next hcur => simp [(listenOn_spec cfg env s i fd).2.2.2.1, hcur]
  · next hcur =>
    cases hsh : env.shadow i with
    | failed => simp [createShadowFd, hcur]
    | bindFailed x => simp [createShadowFd, hcur]
    | made x => simp [createShadowFd, (listenOn_spec cfg env _ i x).2.2.2.1]

/-- The first round and the others. -/
theorem forall_rounds {P : ℕ → Prop} {rounds : ℕ} :
    (∀ j, i ≤ j → j < i + (rounds + 1) → P j) ↔
      P i ∧ ∀ j, i + 1 ≤ j → j < i + 1 + rounds → P j := by
  refine ⟨fun h => ⟨h i (Nat.le_refl i) (by omega), fun j h₁ h₂ => h j (by omega) (by omega)⟩,
    fun h j h₁ h₂ => ?_⟩
  rcases Nat.eq_or_lt_of_le h₁ with rfl | h₁
  · exact h.1
  · exact h.2 j h₁ (by omega)

/-- The loop succeeds exactly when its rounds do. -/
theorem listenLoop_fst (cfg : BroadcastCfg) (env : BroadcastEnv) (fd : ℕ) (cur : Option ℕ)
    (rounds i : ℕ) (s : ListenTable) : (s.listenLoop cfg env fd cur rounds i).1 = true ↔
      ∀ j, i ≤ j → j < i + rounds → cfg.listens j = true →
        env.listen j = true ∧ (cur ≠ some j → ∃ x, env.shadow j = .made x) := by
  induction rounds generalizing i s with
  | zero =>
    refine iff_of_true rfl fun j hij hj => ?_
    omega
  | succ rounds ih =>
    rw [forall_rounds, listenLoop]
    cases hl : cfg.listens i with
    | false =>
      simp only [Bool.false_eq_true, if_false, false_imp_iff, true_and]
      exact ih (i + 1) s
    | true =>
      rw [if_pos rfl]
      have hfst := listenRound_fst cfg env s fd cur i
      rcases hr : s.listenRound cfg env fd cur i with ⟨ok, s'⟩
      rw [hr] at hfst
      cases ok with
      | true =>
        simp only [true_imp_iff]
        rw [ih (i + 1) s']
        exact ⟨fun h => ⟨hfst.1 rfl, h⟩, fun h => h.2⟩
      | false =>
        refine iff_of_false Bool.false_ne_true fun h => ?_
        exact absurd (hfst.2 (h.1 rfl)) Bool.false_ne_true

/-- A descriptor of a round to come is not in the chain. -/
theorem Listened.not_mem {s₀ : ListenTable} (h : Listened cfg env s₀ fd tail i s)
    (hi : i < cfg.stackNum) (hx : x ∈ (env.shadow i).fd?) :
    x ∉ fd :: (tail ++ created cfg env (s₀.sock fd).stack i) := by
  have hnone := h.unborn i hi (Nat.le_refl i) x hx
  intro hmem
  rcases List.mem_cons.1 hmem with rfl | hmem
  · exact h.isOpen hnone
  · exact h.chain.isOpen x hmem hnone

/-- A round with the descriptor itself. -/
theorem Listened.own_round {s₀ s' : ListenTable} (h : Listened cfg env s₀ fd tail i s)
    (hl : cfg.listens i = true) (hcur : (s₀.sock fd).stack = some i)
    (hr : s.listenOn cfg env i fd = (true, s')) : Listened cfg env s₀ fd tail (i + 1) s' := by
  obtain ⟨hsame, hother, hnum, hfst, hown⟩ := listenOn_spec cfg env s i fd
  rw [hr] at hsame hother hnum hfst hown
  -- the descriptor is no link of its own chain
  have hfd : ∀ y ∈ tail ++ created cfg env (s₀.sock fd).stack i, y ≠ fd := fun y hy hyfd =>
    (List.nodup_cons.1 h.chain.nodup).1 (hyfd ▸ hy)
  -- in this round no shadow is made
  have hcreated : created cfg env (s₀.sock fd).stack (i + 1) =
      created cfg env (s₀.sock fd).stack i := by
    rw [created_succ, if_neg (by simp [hcur]), Option.toList_none, List.append_nil]
  refine ⟨?_, hnum.trans h.sockNum, fun y hy => ?_, ?_, ?_, fun j hj hjl hjs => ?_,
    fun j hj hjl hjs x hx => ?_, fun j hj hij x hx => ?_⟩
  · rw [hcreated]
    exact h.chain.congr hnum (fun y _ => (hsame y).2.1) (fun y _ => (hsame y).2.2.1)
  · rw [hother y (hfd y (List.mem_append_left _ hy))]
    exact h.old y hy
  · exact (hsame fd).1.trans h.stack
  · exact fun hnone => h.isOpen ((hsame fd).2.2.1 hnone)
  · -- for the stack of the descriptor: it listens now
    obtain rfl : j = i := Option.some.inj (hjs.symm.trans hcur)
    obtain ⟨c, hc⟩ := Option.ne_none_iff_exists'.1 h.isOpen
    exact ⟨c.bound, hown hfst.symm c hc⟩
  · -- for the stacks before: their shadows are other descriptors
    have hji : j < i := by
      rcases Nat.lt_succ_iff_lt_or_eq.1 hj with hj | rfl
      · exact hj
      · exact absurd hcur hjs
    have hmem : x ∈ created cfg env (s₀.sock fd).stack i := by
      refine List.mem_filterMap.2 ⟨j, List.mem_range.2 hji, ?_⟩
      rw [if_pos ⟨hjl, hjs⟩, hx]
      rfl
    rw [hother x (hfd x (List.mem_append_right _ hmem))]
    exact h.new j hji hjl hjs x hx
  · have hnone := h.unborn j hj (Nat.le_of_succ_le hij) x hx
    exact (hsame x).2.2.2 hnone

/-- A round with a shadow. -/
theorem Listened.shadow_round {s₀ s' : ListenTable} (h : Listened cfg env s₀ fd tail i s)
    (hi : i < cfg.stackNum) (hfresh : s₀.FreshShadows cfg env) (hl : cfg.listens i = true)
    (hcur : (s₀.sock fd).stack ≠ some i) (hx : env.shadow i = .made x)
    (hr : ((s.linkShadow i fd x).modifyConn x fun c => { c with bound := true }).listenOn cfg env
      i x = (true, s')) : Listened cfg env s₀ fd tail (i + 1) s' := by
  have hxfd : x ∈ (env.shadow i).fd? := by
    rw [hx]
    rfl
  -- the descriptor of the shadow is a new one, in no chain yet
  have hxmem := h.not_mem hi hxfd
  have hxnum : x < s.sockNum := h.sockNum ▸ (hfresh.1 i hi x hxfd).1
  obtain ⟨hchain, hself⟩ := h.chain.linkShadow hxnum hxmem i
  have hrest : ∀ y ≠ x, _ := fun y hy => linkShadow_of_ne (s := s) hy i fd
  generalize hs₁ : s.linkShadow i fd x = s₁ at *
  have hconn : ((s₁.modifyConn x fun c => { c with bound := true }).sock x) =
      ⟨some i, some ⟨true, false, false⟩, none⟩ := by
    rw [modifyConn, sock_modify_self, hself]
    rfl
  -- `bind` and `listen` only write this socket
  obtain ⟨hsame, hother, hnum, hfst, hown⟩ :=
    listenOn_spec cfg env (s₁.modifyConn x fun c => { c with bound := true }) i x
  rw [hr] at hsame hother hnum hfst hown
  have hkeep : ∀ y ≠ x, (s'.sock y).stack = (s.sock y).stack ∧
      (s'.sock y).conn = (s.sock y).conn := by
    intro y hy
    rw [hother y hy, modifyConn, sock_modify_of_ne _ hy]
    exact hrest y hy
  have hne : ∀ y ∈ fd :: (tail ++ created cfg env (s₀.sock fd).stack i), y ≠ x :=
    fun y hy hyx => hxmem (hyx ▸ hy)
  -- one more shadow is created, behind those of the earlier rounds
  have hcreated : created cfg env (s₀.sock fd).stack (i + 1) =
      created cfg env (s₀.sock fd).stack i ++ [x] := by
    rw [created_succ, if_pos ⟨hl, hcur⟩, hx]
    rfl
  have hnum' : s'.sockNum = s.sockNum := by
    rw [hnum, modifyConn, sockNum_modify, ← hs₁]
    rfl
  -- the chain gets longer, and the sockets in it stay what they were
  refine ⟨?_, hnum'.trans h.sockNum, fun y hy => ?_, ?_, ?_, fun j hj hjl hjs => ?_,
    fun j hj hjl hjs y hy => ?_, fun j hj hij y hy => ?_⟩
  · rw [hcreated, ← List.append_assoc]
    exact (hchain.modifyConn x _).congr hnum (fun y _ => (hsame y).2.1)
      (fun y _ => (hsame y).2.2.1)
  · have hy' := hkeep y (hne y (by simp [hy]))
    rw [hy'.1, hy'.2]
    exact h.old y hy
  · rw [(hkeep fd (hne fd (by simp))).1]
    exact h.stack
  · rw [(hkeep fd (hne fd (by simp))).2]
    exact h.isOpen
  · -- the socket of the call itself is of another stack in this round
    have hji : j < i := by
      rcases Nat.lt_succ_iff_lt_or_eq.1 hj with hj | rfl
      · exact hj
      · exact absurd hjs hcur
    rw [(hkeep fd (hne fd (by simp))).2]
    exact h.own j hji hjl hjs
  · rcases Nat.lt_succ_iff_lt_or_eq.1 hj with hji | rfl
    · have hmem : y ∈ created cfg env (s₀.sock fd).stack i := by
        refine List.mem_filterMap.2 ⟨j, List.mem_range.2 hji, ?_⟩
        rw [if_pos ⟨hjl, hjs⟩, hy]
        rfl
      have hy' := hkeep y (hne y (by simp [hmem]))
      rw [hy'.1, hy'.2]
      exact h.new j hji hjl hjs y hy
    · -- the shadow of this round listens on its stack
      obtain rfl : x = y := by
        rw [hx] at hy
        exact ShadowMade.made.inj hy
      refine ⟨?_, ?_⟩
      · rw [(hsame x).1, hconn]
      · exact hown hfst.symm ⟨true, false, false⟩ (by rw [hconn])
  · -- shadows of later rounds have other descriptors
    have hyx : y ≠ x := by
      rintro rfl
      have := hfresh.2 j hj i hi y hy hxfd
      omega
    rw [(hkeep y hyx).2]
    exact h.unborn j hj (Nat.le_of_succ_le hij) y hy

/-- A round that succeeds. -/
theorem Listened.round {s₀ s' : ListenTable} (h : Listened cfg env s₀ fd tail i s)
    (hi : i < cfg.stackNum) (hfresh : s₀.FreshShadows cfg env) (hl : cfg.listens i = true)
    (hr : s.listenRound cfg env fd (s₀.sock fd).stack i = (true, s')) :
    Listened cfg env s₀ fd tail (i + 1) s' := by
  have hok := (listenRound_fst cfg env s fd (s₀.sock fd).stack i).1 (by rw [hr])
  unfold listenRound at hr
  split at hr
  · next hcur => exact h.own_round hl hcur hr
  · next hcur =>
    obtain ⟨x, hx⟩ := hok.2 hcur
    rw [hx] at hr
    exact h.shadow_round hi hfresh hl hcur hx hr

/-- The rounds of the loop, when it succeeds. -/
theorem Listened.loop {s₀ s' : ListenTable} {rounds : ℕ} (h : Listened cfg env s₀ fd tail i s)
    (hi : i + rounds = cfg.stackNum) (hfresh : s₀.FreshShadows cfg env)
    (hr : s.listenLoop cfg env fd (s₀.sock fd).stack rounds i = (true, s')) :
    Listened cfg env s₀ fd tail cfg.stackNum s' := by
  induction rounds generalizing i s with
  | zero =>
    obtain rfl : s = s' := (Prod.mk.inj hr).2
    obtain rfl : i = cfg.stackNum := hi
    exact h
  | succ rounds ih =>
    rw [listenLoop] at hr
    split at hr
    · next hl =>
      split at hr
      · next s₁ hround => exact ih (h.round (by omega) hfresh hl hround) (by omega) hr
      · exact absurd (Prod.mk.inj hr).1 Bool.false_ne_true
    · next hl => exact ih (h.skip (by simpa using hl)) (by omega) hr

/-! ## When a step fails -/

/-- A socket that is not open stays so when others are closed. -/
theorem conn_rpcCallClose {y : ℕ} (h : (s.sock y).conn = none) :
    ((s.rpcCallClose env x).sock y).conn = none := by
  unfold rpcCallClose
  split
  · unfold stackClose
    by_cases hy : y = x
    · rw [hy, sock_modify_self]
      split <;> rfl
    · rw [sock_modify_of_ne _ hy]
      exact h
  · exact h

/-- It stays so in the whole loop. -/
theorem conn_closeLoop {y rounds : ℕ} (h : (s.sock y).conn = none) :
    ((closeLoop env rounds s x).sock y).conn = none := by
  induction rounds generalizing s x with
  | zero => exact h
  | succ rounds ih =>
    have h₁ : ((s.rpcCallClose env x).sock y).conn = none := conn_rpcCallClose h
    rw [closeLoop]
    split
    · exact h₁
    · split
      · exact h₁
      · exact ih h₁

/-- `stack_broadcast_close` closes the descriptor. -/
theorem conn_stackBroadcastClose (hstack : (s.sock fd).stack ≠ none) (hmsg : env.closeMsg fd = true)
    (hpos : 0 < s.sockNum) : ((s.stackBroadcastClose env fd).sock fd).conn = none := by
  have hclose : ((s.rpcCallClose env fd).sock fd).conn = none := by
    rw [rpcCallClose, if_pos ⟨hstack, hmsg⟩, stackClose, sock_modify_self]
    split <;> rfl
  unfold stackBroadcastClose
  split
  · next h => exact h
  · obtain ⟨n, hn⟩ := Nat.exists_eq_add_one.2 hpos
    rw [hn, closeLoop]
    split
    · exact hclose
    · split
      · exact hclose
      · exact conn_closeLoop hclose

/-- Making a shadow changes the stack of no other socket. -/
theorem stack_createShadowFd {made : ShadowMade} (h : ∀ x ∈ made.fd?, fd ≠ x) (k : ℕ) :
    ((s.createShadowFd k fd made).2.sock fd).stack = (s.sock fd).stack ∧
      (s.createShadowFd k fd made).2.sockNum = s.sockNum := by
  cases made with
  | failed => exact ⟨rfl, rfl⟩
  | bindFailed x => exact ⟨(linkShadow_of_ne (h x rfl) k fd).1, rfl⟩
  | made x =>
    refine ⟨?_, rfl⟩
    show (((s.linkShadow k fd x).modifyConn x _).sock fd).stack = _
    rw [stack_modifyConn]
    exact (linkShadow_of_ne (h x rfl) k fd).1

/-- A round leaves the stack of the descriptor. -/
theorem stack_listenRound {cur : Option ℕ} (h : ∀ x ∈ (env.shadow i).fd?, fd ≠ x) :
    ((s.listenRound cfg env fd cur i).2.sock fd).stack = (s.sock fd).stack ∧
      (s.listenRound cfg env fd cur i).2.sockNum = s.sockNum := by
  unfold listenRound
  split
  · have hspec := listenOn_spec cfg env s i fd
    exact ⟨(hspec.1 fd).1, hspec.2.2.1⟩
  · have hcreate := stack_createShadowFd (s := s) h i
    rcases hs₁ : s.createShadowFd i fd (env.shadow i) with ⟨_ | x, s₁⟩ <;> rw [hs₁] at hcreate
    · exact hcreate
    · have hspec := listenOn_spec cfg env s₁ i x
      exact ⟨((hspec.1 fd).1).trans hcreate.1, hspec.2.2.1.trans hcreate.2⟩

/-- When a round of `stack_broadcast_listen` fails, the descriptor is closed. -/
theorem conn_listenLoop {s' : ListenTable} {cur : Option ℕ} {rounds : ℕ}
    (hshadow : ∀ j < i + rounds, ∀ x ∈ (env.shadow j).fd?, fd ≠ x)
    (hstack : (s.sock fd).stack ≠ none) (hpos : 0 < s.sockNum) (hmsg : env.closeMsg fd = true)
    (hr : s.listenLoop cfg env fd cur rounds i = (false, s')) : (s'.sock fd).conn = none := by
  induction rounds generalizing i s with
  | zero => exact absurd (Prod.mk.inj hr).1 Bool.true_eq_false.mp
  | succ rounds ih =>
    rw [listenLoop] at hr
    split at hr
    · have hround : ((s.listenRound cfg env fd cur i).2.sock fd).stack = (s.sock fd).stack ∧
          (s.listenRound cfg env fd cur i).2.sockNum = s.sockNum :=
        stack_listenRound (hshadow i (by omega))
      split at hr
      · next s₁ hs₁ =>
        rw [hs₁] at hround
        exact ih (fun j hj => hshadow j (by omega)) (hround.1 ▸ hstack) (hround.2 ▸ hpos) hr
      · next s₁ hs₁ =>
        rw [hs₁] at hround
        obtain rfl := (Prod.mk.inj hr).2
        exact conn_stackBroadcastClose (hround.1 ▸ hstack) hmsg (hround.2 ▸ hpos)
    · exact ih (fun j hj => hshadow j (by omega)) hstack hpos hr

/-- When a round of `stack_broadcast_bind` fails, the descriptor is closed. -/
theorem conn_bindLoop {s' : ListenTable} {cur : Option ℕ} {rounds : ℕ}
    (hshadow : ∀ j < i + rounds, ∀ x ∈ (env.shadow j).fd?, fd ≠ x)
    (hstack : (s.sock fd).stack ≠ none) (hpos : 0 < s.sockNum) (hmsg : env.closeMsg fd = true)
    (hr : s.bindLoop env fd cur rounds i = (false, s')) : (s'.sock fd).conn = none := by
  induction rounds generalizing i s with
  | zero => exact absurd (Prod.mk.inj hr).1 Bool.true_eq_false.mp
  | succ rounds ih =>
    rw [bindLoop] at hr
    split at hr
    · exact ih (fun j hj => hshadow j (by omega)) hstack hpos hr
    · have hround := stack_createShadowFd (s := s) (hshadow i (by omega)) i
      split at hr
      · next x s₁ hs₁ =>
        rw [hs₁] at hround
        exact ih (fun j hj => hshadow j (by omega)) (hround.1 ▸ hstack) (hround.2 ▸ hpos) hr
      · next s₁ hs₁ =>
        rw [hs₁] at hround
        obtain rfl := (Prod.mk.inj hr).2
        exact conn_stackBroadcastClose (hround.1 ▸ hstack) hmsg (hround.2 ▸ hpos)

/-- The loop of `stack_broadcast_bind` succeeds exactly when all shadows are made. -/
theorem bindLoop_fst (env : BroadcastEnv) (fd : ℕ) (cur : Option ℕ) (rounds i : ℕ)
    (s : ListenTable) : (s.bindLoop env fd cur rounds i).1 = true ↔
      ∀ j, i ≤ j → j < i + rounds → cur ≠ some j → ∃ x, env.shadow j = .made x := by
  induction rounds generalizing i s with
  | zero =>
    refine iff_of_true rfl fun j hij hj => ?_
    omega
  | succ rounds ih =>
    rw [forall_rounds, bindLoop]
    split
    · next hcur =>
      rw [ih]
      exact ⟨fun h => ⟨fun hne => absurd hcur hne, h⟩, fun h => h.2⟩
    · next hcur =>
      cases hsh : env.shadow i with
      | failed => simp [createShadowFd, hcur]
      | bindFailed x => simp [createShadowFd, hcur]
      | made x => simp [createShadowFd, ih]

/-! ## The sockets in the end -/

/-- Among the shadows that were made, there is one for which `p` holds exactly when its stack is
`k`. -/
theorem countP_created {p : ℕ → Bool} {cur : Option ℕ} {n k : ℕ} (hk : k < n)
    (hmade : ∀ j < n, cfg.listens j = true → cur ≠ some j →
      ∃ x, env.shadow j = .made x ∧ p x = decide (j = k)) :
    (created cfg env cur n).countP p = if cfg.listens k ∧ cur ≠ some k then 1 else 0 := by
  rw [created, List.countP_filterMap]
  -- the shadow of stack `j` counts only if `j` is `k`
  have hcongr : ∀ j ∈ List.range n,
      ((if cfg.listens j ∧ cur ≠ some j then (env.shadow j).made? else none).map p).getD false =
        decide (j = k ∧ cfg.listens k = true ∧ cur ≠ some k) := by
    intro j hj
    split
    · next hc =>
      obtain ⟨x, hx, hp⟩ := hmade j (List.mem_range.1 hj) hc.1 hc.2
      rw [hx]
      show p x = _
      rw [hp]
      by_cases hjk : j = k
      · subst hjk
        simp [hc]
      · simp [hjk]
    · next hc =>
      symm
      simp only [Option.map_none, Option.getD_none, decide_eq_false_iff_not]
      rintro ⟨rfl, hc'⟩
      exact hc hc'
  rw [List.countP_congr fun j hj => by rw [hcongr j hj]]
  -- the stack `k` is among the rounds, and only once
  split
  · next hc =>
    have hcount : (List.range n).countP (fun j => decide (j = k ∧ cfg.listens k = true ∧
        cur ≠ some k)) = (List.range n).count k := by
      refine List.countP_congr fun j _ => ?_
      simp [hc]
    rw [hcount]
    exact List.count_eq_one_of_mem List.nodup_range (List.mem_range.2 hk)
  · next hc =>
    refine List.countP_eq_zero.2 fun j _ hj => ?_
    exact hc (of_decide_eq_true hj).2

/-- The stack with the smallest `conn_num` is one of those that listen. -/
theorem getMinConnLoop_spec (cfg : BroadcastCfg) {rounds i : ℕ} {found : ℕ × ℕ}
    (hfound : found.1 < i + rounds ∧ cfg.listens found.1 = true) :
    (cfg.getMinConnLoop rounds i found).1 < i + rounds ∧
      cfg.listens (cfg.getMinConnLoop rounds i found).1 = true := by
  induction rounds generalizing i found with
  | zero => exact hfound
  | succ rounds ih =>
    rw [BroadcastCfg.getMinConnLoop]
    have hnext : (if cfg.listens i && (cfg.connNum i).toNat < found.2 then
        (i, (cfg.connNum i).toNat) else found).1 < i + 1 + rounds ∧
        cfg.listens (if cfg.listens i && (cfg.connNum i).toNat < found.2 then
          (i, (cfg.connNum i).toNat) else found).1 = true := by
      split
      · next hif => exact ⟨by dsimp only; omega, (Bool.and_eq_true_iff.1 hif).1⟩
      · exact ⟨by omega, hfound.2⟩
    have h := ih hnext
    exact ⟨by omega, h.2⟩

theorem getMinConnStack_spec (cfg : BroadcastCfg) :
    cfg.getMinConnStack < cfg.stackNum ∧ cfg.listens cfg.getMinConnStack = true := by
  have hpos := cfg.stackNum_pos
  have hfound : 0 < 0 + cfg.stackNum ∧ cfg.listens 0 = true :=
    ⟨by omega, by simp [BroadcastCfg.listens, BroadcastCfg.isSendThread]⟩
  have h := @getMinConnLoop_spec cfg cfg.stackNum 0 (0, gazelleMaxClients) hfound
  rwa [Nat.zero_add] at h

/-- A stack that listens has one listening socket more than those of earlier calls. -/
theorem Listened.count_listensOn {s₀ : ListenTable}
    (h : Listened cfg env s₀ fd tail cfg.stackNum s)
    (hok : ∀ j < cfg.stackNum, cfg.listens j = true → (s₀.sock fd).stack ≠ some j →
      ∃ x, env.shadow j = .made x) (hk : k < cfg.stackNum) (hl : cfg.listens k = true) :
    (fd :: (tail ++ created cfg env (s₀.sock fd).stack cfg.stackNum)).countP (s.listensOn k) =
      tail.countP (s₀.listensOn k) + 1 := by
  have hnew : (created cfg env (s₀.sock fd).stack cfg.stackNum).countP (s.listensOn k) =
      if cfg.listens k ∧ (s₀.sock fd).stack ≠ some k then 1 else 0 := by
    refine countP_created hk fun j hj hjl hjs => ?_
    obtain ⟨x, hx⟩ := hok j hj hjl hjs
    obtain ⟨hstack, hconn⟩ := h.new j hj hjl hjs x hx
    refine ⟨x, hx, ?_⟩
    rw [listensOn, hstack, hconn]
    simp
  have hold : tail.countP (s.listensOn k) = tail.countP (s₀.listensOn k) := by
    refine List.countP_congr fun y hy => ?_
    rw [listensOn, listensOn, (h.old y hy).1, (h.old y hy).2]
  have hown : (if s.listensOn k fd then 1 else 0) =
      if (s₀.sock fd).stack = some k then 1 else 0 := by
    rw [listensOn, h.stack]
    by_cases hs : (s₀.sock fd).stack = some k
    · obtain ⟨b, hb⟩ := h.own k hk hl hs
      rw [hb, if_pos hs, hs]
      simp
    · rw [if_neg hs]
      simp [hs]
  rw [List.countP_cons, List.countP_append, hnew, hold, hown]
  by_cases hs : (s₀.sock fd).stack = some k
  · simp [hs]
  · simp [hs, hl]

/-- Exactly one of the listening sockets is the master, when none is left of earlier calls. -/
theorem Listened.count_masterOn {s₀ : ListenTable}
    (h : Listened cfg env s₀ fd tail cfg.stackNum s)
    (hok : ∀ j < cfg.stackNum, cfg.listens j = true → (s₀.sock fd).stack ≠ some j →
      ∃ x, env.shadow j = .made x)
    (hold : ∀ k < cfg.stackNum, cfg.listens k = true → ∀ x ∈ tail, s₀.listensOn k x = false) :
    (fd :: (tail ++ created cfg env (s₀.sock fd).stack cfg.stackNum)).countP (s.masterOn cfg) =
      1 := by
  obtain ⟨hmin, hminl⟩ := getMinConnStack_spec cfg
  -- among the shadows the master is the one on the stack with the fewest connections
  have hnew : (created cfg env (s₀.sock fd).stack cfg.stackNum).countP (s.masterOn cfg) =
      if cfg.listens cfg.getMinConnStack ∧ (s₀.sock fd).stack ≠ some cfg.getMinConnStack then 1
      else 0 := by
    refine countP_created hmin fun j hj hjl hjs => ?_
    obtain ⟨x, hx⟩ := hok j hj hjl hjs
    obtain ⟨hstack, hconn⟩ := h.new j hj hjl hjs x hx
    refine ⟨x, hx, ?_⟩
    simp only [masterOn, listensOn, hstack, hconn]
    simp [hj, hjl, eq_comm]
  -- a socket left of earlier calls does not listen
  have htail : tail.countP (s.masterOn cfg) = 0 := by
    refine List.countP_eq_zero.2 fun y hy hm => ?_
    rw [masterOn, (h.old y hy).1, Bool.and_eq_true, Option.any_eq_true] at hm
    obtain ⟨⟨k, hk, hkl⟩, -⟩ := hm
    rw [Bool.and_eq_true, Bool.and_eq_true, decide_eq_true_eq] at hkl
    obtain ⟨⟨hkn, hkl⟩, hlisten⟩ := hkl
    have hno := hold k hkn hkl y hy
    rw [listensOn, (h.old y hy).1, (h.old y hy).2, ← listensOn, hno] at hlisten
    exact Bool.false_ne_true hlisten
  -- the socket of the call is the master when it is on that stack
  have hown : (if s.masterOn cfg fd then 1 else 0) =
      if (s₀.sock fd).stack = some cfg.getMinConnStack then 1 else 0 := by
    simp only [masterOn, listensOn, h.stack]
    cases hs : (s₀.sock fd).stack with
    | none => simp
    | some k =>
      by_cases hl : k < cfg.stackNum ∧ cfg.listens k = true
      · obtain ⟨b, hb⟩ := h.own k hl.1 hl.2 hs
        rw [hb]
        simp [hl.1, hl.2, eq_comm]
      · have hne : k ≠ cfg.getMinConnStack := fun he => hl (he ▸ ⟨hmin, hminl⟩)
        have hfalse : (decide (k < cfg.stackNum) && cfg.listens k) = false := by
          rw [← Bool.not_eq_true, Bool.and_eq_true, decide_eq_true_eq]
          exact hl
        simp [hfalse, hne]
  rw [List.countP_cons, List.countP_append, hnew, htail, hown]
  -- it is one or the other, never both
  by_cases hs : (s₀.sock fd).stack = some cfg.getMinConnStack
  · simp [hs]
  · simp [hs, hminl]

/-- The kernel does not return the descriptor of the caller. -/
theorem FreshShadows.ne (h : s.FreshShadows cfg env) (hopen : (s.sock fd).conn ≠ none) {j : ℕ}
    (hj : j < 0 + cfg.stackNum) : ∀ x ∈ (env.shadow j).fd?, fd ≠ x := by
  rintro x hx rfl
  rw [Nat.zero_add] at hj
  exact hopen (h.1 j hj fd hx).2

/-- `stack_broadcast_listen` does all or nothing under its condition. -/
theorem listenHolds_of_condition (h : s.Chain fd tail) (hfresh : s.FreshShadows cfg env)
    (hc : ListenCondition cfg env s fd tail) :
    ListenHolds cfg s fd (s.stackBroadcastListen cfg env fd) := by
  have hfail : ListenHolds cfg s fd (-1, s) := ⟨fun _ h => h, rfl⟩
  unfold stackBroadcastListen
  split
  · exact hfail
  split
  · exact hfail
  · next hopen hname =>
    obtain ⟨hstack, hname⟩ := not_or.1 hname
    obtain ⟨hok, hold⟩ : (∀ k < cfg.stackNum, cfg.listens k → env.listen k = true ∧
        ((s.sock fd).stack ≠ some k → ∃ x, env.shadow k = .made x)) ∧
        ∀ k < cfg.stackNum, cfg.listens k → ∀ x ∈ tail, s.listensOn k x = false := by
      rcases hc with hc | hc | hc | hc
      · exact absurd hc hopen
      · exact absurd hc hstack
      · exact absurd hc (by simpa using hname)
      · exact hc
    have hfst := (listenLoop_fst cfg env fd (s.sock fd).stack cfg.stackNum 0 s).2
      fun j _ hj hjl => hok j (by omega) hjl
    rcases hr : s.listenLoop cfg env fd (s.sock fd).stack cfg.stackNum 0 with ⟨ok, s'⟩
    rw [hr] at hfst
    obtain rfl : ok = true := hfst
    have hdone := (Listened.zero h hopen hfresh).loop (Nat.zero_add _) hfresh hr
    have hmade : ∀ j < cfg.stackNum, cfg.listens j = true → (s.sock fd).stack ≠ some j →
        ∃ x, env.shadow j = .made x := fun j hj hjl => (hok j hj hjl).2
    refine ⟨_, hdone.chain, fun k hk hl => ?_, hdone.count_masterOn hmade hold⟩
    have hzero : tail.countP (s.listensOn k) = 0 :=
      List.countP_eq_zero.2 fun x hx => by simp [hold k hk hl x hx]
    rw [hdone.count_listensOn hmade hk hl, hzero]

/-- It needs its condition, as far as the sockets are closed when a step fails. -/
theorem condition_of_listenHolds (h : s.Chain fd tail) (hfresh : s.FreshShadows cfg env)
    (hmsg : env.closeMsg fd = true)
    (hholds : ListenHolds cfg s fd (s.stackBroadcastListen cfg env fd)) :
    ListenCondition cfg env s fd tail := by
  by_contra hc
  obtain ⟨hopen, hc⟩ := not_or.1 hc
  obtain ⟨hstack, hc⟩ := not_or.1 hc
  obtain ⟨hname, hc⟩ := not_or.1 hc
  rw [stackBroadcastListen, if_neg hopen, if_neg (by simp [hstack, hname])] at hholds
  rcases hr : s.listenLoop cfg env fd (s.sock fd).stack cfg.stackNum 0 with ⟨ok, s'⟩
  rw [hr] at hholds
  cases ok with
  | true =>
    have hok := (listenLoop_fst cfg env fd (s.sock fd).stack cfg.stackNum 0 s).1 (by rw [hr])
    have hok : ∀ k < cfg.stackNum, cfg.listens k → env.listen k = true ∧
        ((s.sock fd).stack ≠ some k → ∃ x, env.shadow k = .made x) :=
      fun k hk hl => hok k (Nat.zero_le k) (by omega) hl
    have hdone := (Listened.zero h hopen hfresh).loop (Nat.zero_add _) hfresh hr
    refine hc ⟨hok, fun k hk hl x hx => ?_⟩
    obtain ⟨tail', hchain, hcount, -⟩ := hholds
    obtain rfl := (List.cons.inj (hchain.linked.unique hdone.chain.linked)).2
    have hone := hcount k hk hl
    rw [hdone.count_listensOn (fun j hj hjl => (hok j hj hjl).2) hk hl] at hone
    have hzero := List.countP_eq_zero.1 (Nat.succ.inj hone) x hx
    simpa using hzero
  | false =>
    have hpos : 0 < s.sockNum := Nat.lt_of_lt_of_le (Nat.succ_pos _) h.length_le
    have hclosed := conn_listenLoop (fun j hj => hfresh.ne hopen hj) hstack hpos hmsg hr
    have hsame : s'.sock fd = s.sock fd := hholds.2
    rw [hsame] at hclosed
    exact hopen hclosed

/-- Closing a chain leaves the other sockets alone. -/
theorem sock_closeLoop {l : List ℕ} {rounds : ℕ}
    (h : Linked (fun y => (s.sock y).listenNext) (some x) (x :: l)) (hnodup : (x :: l).Nodup)
    (hfd : fd ∉ x :: l) : (closeLoop env rounds s x).sock fd = s.sock fd := by
  induction rounds generalizing s x l with
  | zero => rfl
  | succ rounds ih =>
    have hclose : ∀ y ≠ x, (s.rpcCallClose env x).sock y = s.sock y := by
      intro y hy
      unfold rpcCallClose
      split
      · exact sock_modify_of_ne _ hy
      · rfl
    have hne : fd ≠ x := fun he => hfd (he ▸ List.mem_cons_self)
    rw [closeLoop]
    cases hnext : (s.sock x).listenNext with
    | none => exact hclose fd hne
    | some x' =>
      dsimp only
      split
      · exact hclose fd hne
      · have hlinked : Linked (fun y => (s.sock y).listenNext) (some x') l := hnext ▸ h.2
        obtain ⟨l', rfl, hl'⟩ := hlinked.eq_cons
        have hx : x ∉ x' :: l' := (List.nodup_cons.1 hnodup).1
        rw [← hclose fd hne]
        refine ih (l := l') (hlinked.congr fun y hy => ?_) (List.nodup_cons.1 hnodup).2
          (fun hmem => hfd (List.mem_cons_of_mem _ hmem))
        rw [hclose y fun he => hx (he ▸ hy)]

/-- A descriptor without a stack is not closed by `stack_broadcast_close`. -/
theorem sock_stackBroadcastClose (h : s.Chain fd tail) (hstack : (s.sock fd).stack = none) :
    (s.stackBroadcastClose env fd).sock fd = s.sock fd := by
  unfold stackBroadcastClose
  split
  · rfl
  · have hno : s.rpcCallClose env fd = s := if_neg (by simp [hstack])
    cases hn : s.sockNum with
    | zero => rfl
    | succ n =>
      rw [closeLoop, hno]
      cases hnext : (s.sock fd).listenNext with
      | none => rfl
      | some x =>
        dsimp only
        split
        · rfl
        · have hlinked : Linked (fun y => (s.sock y).listenNext) (some x) tail := hnext ▸ h.linked.2
          obtain ⟨l, rfl, hl⟩ := hlinked.eq_cons
          exact sock_closeLoop hlinked (List.nodup_cons.1 h.nodup).2 (List.nodup_cons.1 h.nodup).1

/-- `stack_broadcast_bind` does nothing when it fails under its condition. -/
theorem bindHolds_of_condition (h : s.Chain fd tail) (hc : BindCondition cfg env s fd) :
    BindHolds s fd (s.stackBroadcastBind cfg env fd) := by
  unfold stackBroadcastBind
  split
  · exact fun _ => ⟨fun _ h => h, rfl⟩
  · next hopen =>
    by_cases hstack : (s.sock fd).stack = none
    · rw [if_pos (.inl hstack)]
      refine fun _ => ⟨fun y hy => ?_, sock_stackBroadcastClose h hstack⟩
      unfold stackBroadcastClose
      split
      · exact hy
      · exact conn_closeLoop hy
    · obtain ⟨hbind, hmade⟩ : env.bind = true ∧
          ∀ k < cfg.stackNum, (s.sock fd).stack ≠ some k → ∃ x, env.shadow k = .made x := by
        rcases hc with hc | hc | hc
        · exact absurd hc hopen
        · exact absurd hc hstack
        · exact hc
      rw [if_neg (by simp [hstack, hbind])]
      have hfst := (bindLoop_fst env fd (s.sock fd).stack cfg.stackNum 0
        (s.modifyConn fd fun c => { c with bound := true })).2 fun j _ hj => hmade j (by omega)
      rcases hr : (s.modifyConn fd fun c => { c with bound := true }).bindLoop env fd
        (s.sock fd).stack cfg.stackNum 0 with ⟨ok, s'⟩
      rw [hr] at hfst
      obtain rfl : ok = true := hfst
      dsimp only
      rw [hr]
      exact fun hne => absurd rfl hne

/-- It needs its condition, as far as the sockets are closed when a step fails. -/
theorem condition_of_bindHolds (h : s.Chain fd tail) (hfresh : s.FreshShadows cfg env)
    (hmsg : env.closeMsg fd = true)
    (hholds : BindHolds s fd (s.stackBroadcastBind cfg env fd)) : BindCondition cfg env s fd := by
  by_contra hc
  obtain ⟨hopen, hc⟩ := not_or.1 hc
  obtain ⟨hstack, hc⟩ := not_or.1 hc
  have hpos : 0 < s.sockNum := Nat.lt_of_lt_of_le (Nat.succ_pos _) h.length_le
  have hclosed : ∀ r : ℤ × ListenTable, BindHolds s fd r → r.1 ≠ 0 →
      (r.2.sock fd).conn ≠ none := by
    intro r hr hne hnone
    rw [(hr hne).2] at hnone
    exact hopen hnone
  rw [stackBroadcastBind, if_neg hopen] at hholds
  by_cases hbind : env.bind = true
  · rw [if_neg (by simp [hstack, hbind])] at hholds
    rcases hr : (s.modifyConn fd fun c => { c with bound := true }).bindLoop env fd
      (s.sock fd).stack cfg.stackNum 0 with ⟨ok, s'⟩
    dsimp only at hholds
    rw [hr] at hholds
    cases ok with
    | true =>
      have hmade := (bindLoop_fst env fd (s.sock fd).stack cfg.stackNum 0 _).1 (by rw [hr])
      exact hc ⟨hbind, fun k hk hne => hmade k (Nat.zero_le k) (by omega) hne⟩
    | false =>
      have hstack' :
          ((s.modifyConn fd fun c => { c with bound := true }).sock fd).stack ≠ none := by
        rw [stack_modifyConn]
        exact hstack
      exact hclosed (-1, s') hholds (by simp)
        (conn_bindLoop (fun j hj => hfresh.ne hopen hj) hstack' hpos hmsg hr)
  · rw [if_pos (.inr hbind)] at hholds
    exact hclosed (-1, _) hholds (by simp) (conn_stackBroadcastClose hstack hmsg hpos)

/-- `stack_broadcast_listen` and `stack_broadcast_bind` do all or nothing when no step fails but the
first one, and no shadow of an earlier call listens; and only then, as far as the descriptor of the
caller is closed when another step fails. -/
theorem broadcast_all_or_nothing (cfg : BroadcastCfg) (env : BroadcastEnv) (s : ListenTable)
    {fd : ℕ} {tail : List ℕ} (h : s.Chain fd tail) (hfresh : s.FreshShadows cfg env) :
    (ListenCondition cfg env s fd tail →
        ListenHolds cfg s fd (s.stackBroadcastListen cfg env fd)) ∧
      (BindCondition cfg env s fd → BindHolds s fd (s.stackBroadcastBind cfg env fd)) ∧
      (env.closeMsg fd = true →
        (ListenHolds cfg s fd (s.stackBroadcastListen cfg env fd) →
          ListenCondition cfg env s fd tail) ∧
        (BindHolds s fd (s.stackBroadcastBind cfg env fd) → BindCondition cfg env s fd)) :=
  ⟨listenHolds_of_condition h hfresh, bindHolds_of_condition h, fun hmsg =>
    ⟨condition_of_listenHolds h hfresh hmsg, condition_of_bindHolds h hfresh hmsg⟩⟩

/-- Two stacks without connections. -/
def twoListening : BroadcastCfg where
  stackNum := 2
  stackNum_pos := by decide
  seperateSendRecv := false
  connNum _ := 0

/-- A bound socket on the first stack. -/
def oneBound : ListenTable where
  sockNum := 8
  sock x := if x = 3 then ⟨some 0, some ⟨true, false, false⟩, none⟩ else ⟨none, none, none⟩

/-- Every step succeeds; the shadow is what is given. -/
def shadowEnv (made : ShadowMade) : BroadcastEnv where
  getsockname := true
  bind := true
  shadow k := if k = 1 then made else .failed
  listen _ := true
  closeMsg _ := true

/-- The socket has no shadow yet. -/
theorem oneBound_chain : oneBound.Chain 3 [] where
  linked := ⟨rfl, rfl⟩
  nodup := by decide
  lt := by decide
  isOpen := by decide

/-- A bound socket listens on both stacks afterwards. -/
theorem broadcast_all :
    ListenHolds twoListening oneBound 3
      (oneBound.stackBroadcastListen twoListening (shadowEnv (.made 5)) 3) := by
  have hfresh : oneBound.FreshShadows twoListening (shadowEnv (.made 5)) := by
    unfold FreshShadows
    decide
  refine (broadcast_all_or_nothing twoListening (shadowEnv (.made 5)) oneBound oneBound_chain
    hfresh).1 (.inr (.inr (.inr ⟨fun k hk _ => ⟨rfl, fun hne => ?_⟩, by simp⟩)))
  have hk1 : k = 1 := by
    have hk : k < 2 := hk
    have hk0 : k ≠ 0 := fun h => hne (h ▸ rfl)
    omega
  exact ⟨5, hk1 ▸ rfl⟩

/-- A shadow cannot be made: the socket of the caller is closed. -/
theorem broadcast_closes_caller :
    ¬ ∀ (cfg : BroadcastCfg) (env : BroadcastEnv) (s : ListenTable) (fd : ℕ) (tail : List ℕ),
      s.Chain fd tail → s.FreshShadows cfg env →
        ListenHolds cfg s fd (s.stackBroadcastListen cfg env fd) ∧
          BindHolds s fd (s.stackBroadcastBind cfg env fd) := by
  intro h
  have hfresh : oneBound.FreshShadows twoListening (shadowEnv .failed) := by
    unfold FreshShadows
    decide
  have hholds := (h twoListening (shadowEnv .failed) oneBound 3 [] oneBound_chain hfresh).1
  rw [ListenHolds, if_neg (by decide)] at hholds
  exact absurd hholds.2 (by decide)

end ListenTable

end Gazelle
