import Gazelle.Lists.EraseByKey
import Gazelle.Ltran.Monitor

/-!
# What a registration holds

The registration of a process reserves a virtual area, attaches the memory of the process, adds its
stacks and allocates an instance. What `handle_instance_logout` gives back of it depends on
`reg_state`, which each request sets, and on two fields of the instance (`ltran_instance.c`). This
module keeps a ledger of these resources for the requests of one process.

* `RegLedger`: the registry with what was reserved, unmapped, attached, detached and freed;
* `LedgerInv`: what the registry knows of the ledger;
* `released_iff`: everything is given back exactly once when the requests came in order;
* `released_fails`: a process that attaches twice has its area unmapped twice.
-/

namespace Gazelle

/-- An area that `get_virtual_area` reserved: its address and its size. -/
abbrev VirtualArea := BitVec 64 × BitVec 64

/-- `remove_virtual_area`: what it unmaps. -/
def removeVirtualArea (addr size : BitVec 64) : List VirtualArea :=
  if size = 0 ∨ addr = 0 then [] else [(addr, size)]

/-- The requests that came as far as to change `reg_state` of an instance. -/
inductive RegStage
  /-- A `RQT_REG_PROC_ATT` came to `rte_eal_sec_attach`. -/
  | attach
  /-- A `RQT_REG_THRD_RING` added a stack. -/
  | stack (tid : Tid)
  deriving DecidableEq

/-- The thread of a stage. -/
def RegStage.tid? : RegStage → Option Tid
  | .attach => none
  | .stack tid => some tid

/-- A request as the control thread handles it. -/
structure RegRequest where
  /-- The message. -/
  msg : RegRequestMsg
  /-- The descriptor it came from. -/
  fd : ℤ
  /-- The connection it came from. -/
  creator : ℕ
  /-- What the calls outside ltran return. -/
  env : RegEnv

/-- The process that a message is about. -/
def RegRequestMsg.pid? : RegRequestMsg → Option Pid
  | .procMem conf => some conf.pid
  | .procAtt conf => some conf.pid
  | .thrdRing conf => some conf.pid
  | .other => none

/-- The registry with the history of the resources of one process. -/
structure RegLedger where
  /-- The instances and stacks. -/
  reg : LtranRegistry
  /-- The areas that `get_virtual_area` reserved. -/
  reserved : List VirtualArea
  /-- The areas that `remove_virtual_area` unmapped. -/
  unmapped : List VirtualArea
  /-- The instances allocated. -/
  created : ℕ
  /-- The instances freed. -/
  freed : ℕ
  /-- The requests that changed `reg_state`. -/
  stages : List RegStage
  /-- The calls of `rte_eal_sec_detach`. -/
  detached : ℕ

namespace LtranRegistry

variable (reg : LtranRegistry)

/-- A `RQT_REG_PROC_MEM` comes to `get_virtual_area`, with an instance that it has added. -/
def reachesVirtualArea (config : LtranConfig) (conf : ClientProcConf) (env : RegEnv) (creator : ℕ) :
    Bool :=
  instanceInfoCheck config reg.mgr conf &&
    (reg.mgr.gazelleInstanceAddByPid conf.pid env.calloc creator).2.isSome

/-- A `RQT_REG_PROC_ATT` comes to `remove_virtual_area` and `rte_eal_sec_attach`, with this
instance. -/
def reachesAttach (conf : ClientProcConf) : Option GazelleInstance :=
  match reg.mgr.gazelleInstanceGetByPid conf.pid with
  | none => none
  | some (_, inst) =>
    if conf.argc.toInt < 0 ∨ gazelleMaxRegArgs < conf.argc.toInt then none else some inst

/-- A `RQT_REG_THRD_RING` comes to write a stack into `stack_array`. -/
def reachesStackArray (conf : ClientThrdConf) (env : RegEnv) : Bool :=
  if (reg.stackTable.gazelleStackGetByTid reg.mgr conf.tid).isSome then false
  else
    match reg.mgr.gazelleInstanceGetByPid conf.pid with
    | none => false
    | some (_, inst) =>
      if gazelleMaxInstanceNum - 1 < inst.stackCnt.toNat then false
      else
        (reg.stackTable.gazelleStackAddByTid conf.tid env.calloc).2.isSome &&
          (gazelleGetFreeStackIdx inst).isSome

end LtranRegistry

namespace RegLedger

variable (config : LtranConfig) (s : RegLedger)

/-- A request is handled. -/
def handle (r : RegRequest) : RegLedger :=
  match r.msg with
  | .procMem conf =>
    let reg := (s.reg.handleRegMsgProcMem config r.fd r.creator conf r.env).1
    if s.reg.reachesVirtualArea config conf r.env r.creator then
      { s with
        reg
        created := s.created + 1
        reserved := s.reserved ++ r.env.virtualArea.toList }
    else { s with reg }
  | .procAtt conf =>
    let reg := (s.reg.handleRegMsgProcAtt conf r.env).1
    match s.reg.reachesAttach conf with
    | none => { s with reg }
    | some inst =>
      { s with
        reg
        unmapped := s.unmapped ++ removeVirtualArea inst.baseVirtaddr inst.socketSize
        stages := s.stages ++ [.attach] }
  | .thrdRing conf =>
    let reg := (s.reg.handleRegMsgThrdRing conf r.env).1
    if s.reg.reachesStackArray conf r.env then
      { s with reg, stages := s.stages ++ [.stack conf.tid] }
    else { s with reg }
  | .other => s

/-- `handle_inst_logout_reg_proc_mem`. -/
def handleInstLogoutRegProcMem (baseVirtaddr socketSize : BitVec 64) : RegLedger :=
  { s with
    unmapped := s.unmapped ++ removeVirtualArea baseVirtaddr socketSize
    freed := s.freed + 1 }

/-- `handle_inst_logout_reg_proc_att`, which forgets the area, and the case it falls through to. -/
def handleInstLogoutRegProcAtt : RegLedger :=
  { s with detached := s.detached + 1 }.handleInstLogoutRegProcMem 0 0

/-- `handle_instance_logout`. The stacks leave the table in the case `RQT_REG_THRD_RING`, which
falls through to the next one. -/
def logout (pid : Pid) : RegLedger :=
  match s.reg.mgr.gazelleInstanceGetByPid pid with
  | none => s
  | some (_, inst) =>
    let s := { s with reg := s.reg.handleInstanceLogout pid }
    match inst.regState with
    | .regThrdRing | .regProcAtt => s.handleInstLogoutRegProcAtt
    | .regProcMem => s.handleInstLogoutRegProcMem inst.baseVirtaddr inst.socketSize
    | _ => s

/-- The ledger before the first request of a process. -/
def start (reg : LtranRegistry) : RegLedger where
  reg := reg
  reserved := []
  unmapped := []
  created := 0
  freed := 0
  stages := []
  detached := 0

/-- Everything that was taken since `reg` was given back: the area was unmapped once, the memory was
detached once if it was attached, no stack is left and the instance was freed once. -/
def Released (reg : LtranRegistry) : Prop :=
  s.unmapped = s.reserved ∧
    s.detached = (if .attach ∈ s.stages then 1 else 0) ∧
    (∀ stack ∈ s.reg.stackTable.entries, stack ∈ reg.stackTable.entries) ∧
    s.freed = s.created

/-- The threads of the stacks that were added. -/
def tids : List Tid := s.stages.filterMap RegStage.tid?

/-- The requests came in order: a process with an area attached once at most, and a process that
added stacks had attached, added a stack last, and added none twice. -/
def InOrder : Prop :=
  (s.reserved ≠ [] → s.stages.count .attach ≤ 1) ∧
    (s.tids ≠ [] → .attach ∈ s.stages ∧ (∃ tid, s.stages.getLast? = some (.stack tid)) ∧
      s.tids.Nodup)

end RegLedger

/-! ## The instance of a pid -/

namespace InstanceMgr

variable {mgr mgr' : InstanceMgr} {pid : Pid} {i : Fin gazelleMaxInstanceNum} {creator : ℕ}
  {calloc : Bool}

/-- A search through the slots that ended at slot `i` still ends there when only what is found there
changes. -/
private theorem findSome?_slot {β : Type} {l : List (Fin gazelleMaxInstanceNum)}
    {f g : Fin gazelleMaxInstanceNum → Option (Fin gazelleMaxInstanceNum × β)} {x y : β}
    (hf : l.findSome? f = some (i, x)) (hslot : ∀ j z, f j = some z → z.1 = j)
    (hother : ∀ j, j ≠ i → g j = f j) (hi : g i = some (i, y)) : l.findSome? g = some (i, y) := by
  induction l with
  | nil => cases hf
  | cons j l ih =>
    rw [List.findSome?_cons] at hf ⊢
    by_cases hj : j = i
    · rw [hj, hi]
    · rw [hother j hj]
      cases hfj : f j with
      | none =>
        rw [hfj] at hf
        exact ih hf
      | some z =>
        rw [hfj, Option.some.injEq] at hf
        have hz := hslot j z hfj
        rw [hf] at hz
        exact absurd hz.symm hj

/-- The instance that is written back is found again. -/
theorem getByPid_setInstance {inst inst' : GazelleInstance}
    (h : mgr.gazelleInstanceGetByPid pid = some (i, inst)) (hpid : inst'.pid = pid) :
    (mgr.setInstance i inst').gazelleInstanceGetByPid pid = some (i, inst') := by
  refine findSome?_slot h ?_ ?_ ?_
  · intro j z hz
    obtain ⟨found, -, hfound⟩ := Option.bind_eq_some_iff.1 hz
    split at hfound
    · cases hfound
      rfl
    · cases hfound
  · intro j hj
    simp only [setInstance, Function.update_of_ne hj]
  · simp [setInstance, hpid]

/-- `gazelle_instance_add_by_pid` that adds nothing changes nothing. -/
theorem addByPid_none (h : mgr.gazelleInstanceAddByPid pid calloc creator = (mgr', none)) :
    mgr' = mgr := by
  unfold gazelleInstanceAddByPid at h
  split at h
  · cases h
  · split at h
    · cases h
      rfl
    · split at h
      · cases h
        rfl
      · split at h
        · cases h
          rfl
        · cases h

/-- What `gazelle_instance_add_by_pid` adds for a new pid is found under this pid. -/
theorem addByPid_some (hnew : mgr.gazelleInstanceGetByPid pid = none) {inst : GazelleInstance}
    (h : mgr.gazelleInstanceAddByPid pid calloc creator = (mgr', some (i, inst))) :
    inst = mgr.newInstance i pid creator ∧ mgr'.gazelleInstanceGetByPid pid = some (i, inst) := by
  unfold gazelleInstanceAddByPid at h
  rw [hnew] at h
  dsimp only at h
  split at h
  · cases h
  · split at h
    · cases h
    · split at h
      · cases h
      · cases h
        refine ⟨rfl, ?_⟩
        have hnone := List.findSome?_eq_none_iff.1 hnew
        unfold gazelleInstanceGetByPid
        -- the other slots have other pids
        have hfind : ∀ l : List (Fin gazelleMaxInstanceNum), i ∈ l →
            (l.findSome? fun j =>
              (Function.update mgr.instances i (some (mgr.newInstance i pid creator)) j).bind
                fun inst => if inst.pid = pid then some (j, inst) else none) =
              some (i, mgr.newInstance i pid creator) := by
          intro l hl
          induction l with
          | nil => cases hl
          | cons j l ih =>
            rw [List.findSome?_cons]
            by_cases hj : j = i
            · subst hj
              simp [newInstance]
            · rw [Function.update_of_ne hj, hnone j (List.mem_finRange j)]
              exact ih ((List.mem_cons.1 hl).resolve_left (Ne.symm hj))
        exact hfind _ (List.mem_finRange i)

end InstanceMgr

/-! ## The stacks of an instance -/

namespace StackTable

/-- The entries have different addresses that were given out before. -/
structure Fresh (table : StackTable) : Prop where
  /-- They are different. -/
  nodup : (table.entries.map (·.addr)).Nodup
  /-- They were given out before. -/
  lt : ∀ stack ∈ table.entries, stack.addr < table.nextAddr

variable {table table' : StackTable} {tid : Tid} {calloc : Bool} {stack : GazelleStack}

/-- `gazelle_stack_add_by_tid` puts a new stack at the head. -/
theorem stackAdd_some (h : table.gazelleStackAddByTid tid calloc = (table', some stack)) :
    table'.entries = stack :: table.entries ∧ table'.nextAddr = table.nextAddr + 1 ∧
      stack.addr = table.nextAddr ∧ stack.tid = tid := by
  unfold gazelleStackAddByTid at h
  split at h
  · cases h
  · cases h
    exact ⟨rfl, rfl, rfl, rfl⟩

/-- `gazelle_stack_add_by_tid` that adds nothing changes nothing. -/
theorem stackAdd_none (h : table.gazelleStackAddByTid tid calloc = (table', none)) :
    table' = table := by
  unfold gazelleStackAddByTid at h
  split at h <;> cases h
  rfl

/-- Writing to the entry at the head leaves the others alone. -/
theorem entries_modify_head {rest : List GazelleStack} {f : GazelleStack → GazelleStack}
    (hentries : table.entries = stack :: rest) (hrest : ∀ e ∈ rest, e.addr ≠ stack.addr) :
    (table.modify stack.addr f).entries = f stack :: rest := by
  have hmap : rest.map (fun e => if e.addr = stack.addr then f e else e) = rest := by
    conv_rhs => rw [← List.map_id rest]
    exact List.map_congr_left fun e he => if_neg (hrest e he)
  rw [modify, hentries, List.map_cons, if_pos rfl, hmap]

end StackTable

namespace LtranRegistry

/-- One turn of the loop of `handle_inst_logout_for_reg_thrd_ring`. -/
private def logoutTurn (acc : GazelleInstance × StackTable) (i : Fin gazelleMaxInstanceNum) :
    GazelleInstance × StackTable :=
  if acc.1.stackCnt = 0 then acc
  else
    match acc.1.stackArray i with
    | none => acc
    | some addr =>
      match acc.2.entries.find? (·.addr = addr) with
      | none => acc
      | some stack =>
        ({ acc.1 with
            stackArray := fun j => if (j.val : ℤ) = stack.index then none else acc.1.stackArray j
            stackCnt := acc.1.stackCnt - 1 },
          acc.2.gazelleStackDelByTid stack.tid)

/-- The loop with the stacks `own` of the instance before the turn for slot `k`: the stacks `left`
are still in the table, ahead of the stacks `old` of others. -/
private structure TurnInv (own old left : List GazelleStack) (k : ℕ)
    (acc : GazelleInstance × StackTable) : Prop where
  entries : acc.2.entries = left ++ old
  subset : ∀ stack ∈ left, stack ∈ own
  cnt : acc.1.stackCnt.toNat = left.length
  array : ∀ j : Fin gazelleMaxInstanceNum, k ≤ j.val →
    acc.1.stackArray j = own[j.val]?.map (·.addr)

section Loop

variable {own old left : List GazelleStack} {acc : GazelleInstance × StackTable}
  (hown : ∀ a ∈ own, ∀ b ∈ own, a.addr = b.addr → a = b)
  (hold : ∀ a ∈ own, ∀ b ∈ old, a.addr ≠ b.addr)
  (hindex : ∀ k (hk : k < own.length), own[k].index = k)

include hown hold

/-- A stack of the instance is found while it is there. -/
private theorem TurnInv.find {k : ℕ} (h : TurnInv own old left k acc) {stack : GazelleStack}
    (hstack : stack ∈ own) :
    acc.2.entries.find? (·.addr = stack.addr) = if stack ∈ left then some stack else none := by
  -- nothing else has its address
  have heq : ∀ e ∈ left ++ old, decide (e.addr = stack.addr) = true → e = stack ∧ e ∈ left := by
    intro e he haddr
    rw [decide_eq_true_eq] at haddr
    rcases List.mem_append.1 he with hleft | hright
    · exact ⟨hown e (h.subset e hleft) stack hstack haddr, hleft⟩
    · exact absurd haddr.symm (hold stack hstack e hright)
  rw [h.entries]
  cases hfind : (left ++ old).find? fun e => e.addr = stack.addr with
  | none =>
    rw [if_neg]
    intro hin
    exact List.find?_eq_none.1 hfind stack (List.mem_append_left _ hin) (by simp)
  | some e =>
    have haddr := List.find?_some hfind
    obtain ⟨rfl, hin⟩ := heq e (List.mem_of_find?_eq_some hfind) haddr
    rw [if_pos hin]

include hindex

/-- A turn for a slot of the instance. -/
private theorem TurnInv.turn {i : Fin gazelleMaxInstanceNum} (hi : i.val < own.length)
    (h : TurnInv own old left i acc) :
    TurnInv own old (left.eraseByKey (·.tid) own[i.val]) (i + 1) (logoutTurn acc i) := by
  have hmem : own[i.val] ∈ own := List.getElem_mem hi
  have harray := h.array i (Nat.le_refl _)
  rw [List.getElem?_eq_getElem hi, Option.map_some] at harray
  have hfind := h.find hown hold hmem
  have hcnt := h.cnt
  unfold logoutTurn
  by_cases hin : own[i.val] ∈ left
  · -- the stack is there, and the newest with its thread leaves
    have hpos : 0 < left.length := List.length_pos_of_mem hin
    have hne : acc.1.stackCnt ≠ 0 := by
      intro hzero
      rw [hzero] at hcnt
      exact absurd hcnt (by simpa using Nat.ne_of_lt hpos)
    rw [if_neg hne, harray]
    dsimp only
    rw [hfind, if_pos hin]
    refine ⟨?_, fun e he => h.subset e (List.eraseByKey_subset _ he), ?_, fun j hj => ?_⟩
    · show acc.2.entries.eraseP _ = _
      rw [h.entries, List.eraseP_append_left (by simp) _ hin, List.eraseByKey, if_pos hin]
    · show (acc.1.stackCnt - 1).toNat = _
      have hone : (1 : BitVec 32).toNat = 1 := rfl
      have hle : (1 : BitVec 32) ≤ acc.1.stackCnt := by
        rw [BitVec.le_def, hcnt, hone]
        exact hpos
      rw [BitVec.toNat_sub_of_le hle, hcnt, List.length_eraseByKey _ hin, hone]
    · have hother : ¬ (j.val : ℤ) = own[i.val].index := by
        rw [hindex i.val hi]
        omega
      show (if (j.val : ℤ) = own[i.val].index then none else acc.1.stackArray j) = _
      rw [if_neg hother]
      exact h.array j (by omega)
  · -- it has left before
    have hsame : (if acc.1.stackCnt = 0 then acc
        else
          match acc.1.stackArray i with
          | none => acc
          | some addr =>
            match acc.2.entries.find? (·.addr = addr) with
            | none => acc
            | some stack =>
              ({ acc.1 with
                  stackArray := fun j =>
                    if (j.val : ℤ) = stack.index then none else acc.1.stackArray j
                  stackCnt := acc.1.stackCnt - 1 },
                acc.2.gazelleStackDelByTid stack.tid)) = acc := by
      rw [harray]
      dsimp only
      rw [hfind, if_neg hin]
      exact ite_self acc
    rw [hsame, List.eraseByKey_of_not_mem _ hin]
    exact ⟨h.entries, h.subset, h.cnt, fun j hj => h.array j (by omega)⟩

/-- The loop from slot `k` on. -/
private theorem TurnInv.loop {k : ℕ} (hlen : own.length ≤ gazelleMaxInstanceNum)
    (h : TurnInv own old left k acc) :
    (((List.finRange gazelleMaxInstanceNum).drop k).foldl logoutTurn acc).2.entries =
      (own.drop k).foldl (List.eraseByKey (·.tid)) left ++ old := by
  induction hd : gazelleMaxInstanceNum - k generalizing k left acc with
  | zero =>
    rw [List.drop_eq_nil_of_le (by simp; omega), List.drop_eq_nil_of_le (by omega)]
    exact h.entries
  | succ d ih =>
    have hk : k < (List.finRange gazelleMaxInstanceNum).length := by simp; omega
    have hget : (List.finRange gazelleMaxInstanceNum)[k] = ⟨k, by omega⟩ := by simp
    rw [List.drop_eq_getElem_cons hk, List.foldl_cons, hget]
    by_cases hi : k < own.length
    · have hturn : TurnInv own old (left.eraseByKey (·.tid) own[k]) (k + 1)
          (logoutTurn acc ⟨k, by omega⟩) := h.turn (i := ⟨k, by omega⟩) hown hold hindex hi
      rw [ih hturn (by omega), List.drop_eq_getElem_cons hi, List.foldl_cons]
    · -- no stack is in this slot
      have harray := h.array ⟨k, by omega⟩ (Nat.le_refl _)
      rw [List.getElem?_eq_none (by simpa using hi), Option.map_none] at harray
      have hsame : logoutTurn acc ⟨k, by omega⟩ = acc := by
        unfold logoutTurn
        rw [harray]
        exact ite_self acc
      have hnext : TurnInv own old left (k + 1) acc :=
        ⟨h.entries, h.subset, h.cnt, fun j hj => h.array j (by omega)⟩
      rw [hsame, ih hnext (by omega), List.drop_eq_nil_of_le (by omega),
        List.drop_eq_nil_of_le (by omega)]

end Loop

/-- The stacks `own` of an instance, the oldest first, are at the head of the table and in
`stack_array`. -/
structure HasStacks (inst : GazelleInstance) (own old : List GazelleStack) (table : StackTable) :
    Prop where
  /-- The table has them ahead of the others. -/
  entries : table.entries = own.reverse ++ old
  /-- `stack_cnt` counts them. -/
  cnt : inst.stackCnt.toNat = own.length
  /-- `stack_array` has them from slot 0 on. -/
  array : ∀ j : Fin gazelleMaxInstanceNum, inst.stackArray j = own[j.val]?.map (·.addr)
  /-- They know their slots. -/
  index : ∀ k (hk : k < own.length), own[k].index = k
  /-- There are slots for them. -/
  length_le : own.length ≤ gazelleMaxInstanceNum
  /-- All entries have addresses of their own. -/
  fresh : table.Fresh

variable {inst : GazelleInstance} {own old : List GazelleStack} {table : StackTable}

/-- What `handle_inst_logout_for_reg_thrd_ring` leaves in the table. -/
theorem HasStacks.logout (h : HasStacks inst own old table) :
    (handleInstLogoutForRegThrdRing inst table).entries =
      own.foldl (List.eraseByKey (·.tid)) own.reverse ++ old := by
  have hnodup := h.fresh.nodup
  rw [h.entries, List.map_append, List.nodup_append] at hnodup
  obtain ⟨hownNodup, -, hdisjoint⟩ := hnodup
  have hown : ∀ a ∈ own, ∀ b ∈ own, a.addr = b.addr → a = b := by
    intro a ha b hb heq
    exact List.inj_on_of_nodup_map hownNodup (List.mem_reverse.2 ha) (List.mem_reverse.2 hb) heq
  have hold : ∀ a ∈ own, ∀ b ∈ old, a.addr ≠ b.addr := by
    intro a ha b hb
    exact hdisjoint _ (List.mem_map_of_mem (List.mem_reverse.2 ha)) _ (List.mem_map_of_mem hb)
  have hturn : TurnInv own old own.reverse 0 (inst, table) :=
    ⟨h.entries, fun e he => List.mem_reverse.1 he, by rw [h.cnt, List.length_reverse],
      fun j _ => h.array j⟩
  have hloop := hturn.loop hown hold h.index h.length_le
  rw [List.drop_zero, List.drop_zero] at hloop
  unfold handleInstLogoutForRegThrdRing
  -- the body of the loop is the turn
  refine (congrArg
    (fun f => ((List.finRange gazelleMaxInstanceNum).foldl f (inst, table)).2.entries)
    (?_ : _ = logoutTurn)).trans hloop
  funext acc i
  unfold logoutTurn
  split
  · rfl
  · rfl

/-- The first free slot is the one after the last stack. -/
theorem HasStacks.freeIdx (h : HasStacks inst own old table) {idx : Fin gazelleMaxInstanceNum}
    (hidx : gazelleGetFreeStackIdx inst = some idx) : idx.val = own.length := by
  unfold gazelleGetFreeStackIdx at hidx
  have hfree := List.find?_some hidx
  rw [h.array, Option.isNone_map, Option.isNone_iff_eq_none, List.getElem?_eq_none_iff] at hfree
  obtain ⟨-, pre, post, hsplit, hpre⟩ := List.find?_eq_some_iff_append.1 hidx
  by_contra hne
  have hlt : own.length < gazelleMaxInstanceNum := by omega
  -- the slot after the last stack is free and comes first
  have hmem : (⟨own.length, hlt⟩ : Fin gazelleMaxInstanceNum) ∈ pre := by
    have hpos : pre.length = idx.val := by
      have hget : (List.finRange gazelleMaxInstanceNum)[pre.length]? = some idx := by
        rw [hsplit]
        simp
      rw [List.getElem?_eq_some_iff] at hget
      obtain ⟨hlen, hget⟩ := hget
      rw [List.getElem_finRange] at hget
      exact congrArg Fin.val hget
    have hget : (pre ++ idx :: post)[own.length]? = some ⟨own.length, hlt⟩ := by
      rw [← hsplit]
      simp [hlt]
    rw [List.getElem?_append_left (by omega)] at hget
    exact List.mem_of_getElem? hget
  have hused := hpre _ hmem
  rw [h.array] at hused
  simp at hused

/-- A stack that does not get a slot leaves the table again. -/
theorem HasStacks.refuse (h : HasStacks inst own old table) {tid : Tid} {calloc : Bool}
    {table' : StackTable} {stack : GazelleStack}
    (hadd : table.gazelleStackAddByTid tid calloc = (table', some stack)) :
    HasStacks inst own old (table'.gazelleStackDelByTid tid) := by
  obtain ⟨hentries, hnext, -, htid⟩ := StackTable.stackAdd_some hadd
  have hdel : (table'.gazelleStackDelByTid tid).entries = table.entries := by
    rw [StackTable.gazelleStackDelByTid, hentries, List.eraseP_cons_of_pos (by simpa using htid)]
  refine ⟨hdel.trans h.entries, h.cnt, h.array, h.index, h.length_le, hdel ▸ h.fresh.nodup, ?_⟩
  intro e he
  rw [hdel] at he
  show e.addr < table'.nextAddr
  have := h.fresh.lt e he
  omega

/-- A stack that gets a slot is the newest one. Its ticks do not matter. -/
theorem HasStacks.add (h : HasStacks inst own old table) {tid : Tid} {calloc : Bool}
    {table' table'' : StackTable} {stack stack' : GazelleStack} {idx : Fin gazelleMaxInstanceNum}
    (hadd : table.gazelleStackAddByTid tid calloc = (table', some stack))
    (hidx : gazelleGetFreeStackIdx inst = some idx)
    (hentries' : table''.entries = stack' :: table.entries)
    (hnext' : table''.nextAddr = table'.nextAddr)
    (haddr' : stack'.addr = stack.addr) (hindex' : stack'.index = idx.val) {inst' : GazelleInstance}
    (hcnt : inst'.stackCnt = inst.stackCnt + 1)
    (harray : inst'.stackArray = Function.update inst.stackArray idx (some stack.addr)) :
    HasStacks inst' (own ++ [stack']) old table'' := by
  obtain ⟨-, hnext, haddr, -⟩ := StackTable.stackAdd_some hadd
  -- the free place is the first one, since the places are filled in order
  have hlen := h.freeIdx hidx
  have hlt : idx.val < 32 := idx.isLt
  refine ⟨?_, ?_, fun j => ?_, fun k hk => ?_, ?_, ?_, ?_⟩
  · rw [hentries', h.entries, List.reverse_append, List.reverse_singleton]
    rfl
  · -- the counter does not wrap, there are fewer than 32 stacks
    rw [hcnt, BitVec.toNat_add, h.cnt, List.length_append]
    have hone : (1 : BitVec 32).toNat = 1 := rfl
    rw [hone, List.length_singleton, Nat.mod_eq_of_lt (by omega)]
  · rw [harray]
    -- the new stack is in its place, the others are where they were
    by_cases hj : j = idx
    · subst hj
      rw [Function.update_self, List.getElem?_append_right (by omega), hlen]
      simp [haddr']
    · rw [Function.update_of_ne hj, h.array]
      have hne : j.val ≠ own.length := fun heq => hj (Fin.ext (heq.trans hlen.symm))
      by_cases hjlt : j.val < own.length
      · rw [List.getElem?_append_left hjlt]
      · rw [List.getElem?_eq_none (by omega), List.getElem?_eq_none (by simp; omega)]
  · by_cases hklt : k < own.length
    · rw [List.getElem_append_left hklt]
      exact h.index k hklt
    · have hkeq : k = own.length := by
        rw [List.length_append, List.length_singleton] at hk
        omega
      subst hkeq
      rw [List.getElem_append_right (Nat.le_refl _)]
      simp [hindex', hlen]
  · rw [List.length_append, List.length_singleton]
    omega
  · -- its address is larger than all that were given before
    rw [hentries', List.map_cons, List.nodup_cons, haddr', haddr]
    refine ⟨fun hmem => ?_, h.fresh.nodup⟩
    obtain ⟨e, he, heq⟩ := List.mem_map.1 hmem
    have := h.fresh.lt e he
    omega
  · intro e he
    rw [hentries'] at he
    rw [hnext', hnext]
    rcases List.mem_cons.1 he with rfl | he
    · omega
    · have := h.fresh.lt e he
      omega

end LtranRegistry

/-! ## The invariant -/

/-- The `reg_state` after the last stage. -/
def RegStage.regState : Option RegStage → RequestType
  | none => .regProcMem
  | some .attach => .regProcAtt
  | some (.stack _) => .regThrdRing

namespace RegLedger

variable {config : LtranConfig} {s : RegLedger} {pid : Pid} {reg : LtranRegistry}

/-- The process is not registered, and nothing was taken. -/
structure Vacant (pid : Pid) (reg : LtranRegistry) (s : RegLedger) : Prop where
  /-- There is no instance. -/
  absent : s.reg.mgr.gazelleInstanceGetByPid pid = none
  /-- The stacks are those at the start. -/
  entries : s.reg.stackTable.entries = reg.stackTable.entries
  /-- They have addresses of their own. -/
  fresh : s.reg.stackTable.Fresh
  /-- The ledger is empty. -/
  ledger : s.reserved = [] ∧ s.unmapped = [] ∧ s.created = 0 ∧ s.freed = 0 ∧ s.stages = [] ∧
    s.detached = 0

/-- The process has the instance `inst` in slot `i` and the stacks `own`. -/
structure Registered (pid : Pid) (reg : LtranRegistry) (s : RegLedger)
    (i : Fin gazelleMaxInstanceNum) (inst : GazelleInstance) (own : List GazelleStack) : Prop where
  /-- The instance is found under the pid. -/
  getByPid : s.reg.mgr.gazelleInstanceGetByPid pid = some (i, inst)
  /-- `reg_state` is that of the last stage. -/
  regState : inst.regState = RegStage.regState s.stages.getLast?
  /-- The instance knows the area. -/
  area : removeVirtualArea inst.baseVirtaddr inst.socketSize = s.reserved
  /-- Every attach has unmapped it. -/
  unmapped : s.unmapped = (List.replicate (s.stages.count .attach) s.reserved).flatten
  /-- The stacks are in the table and in `stack_array`. -/
  hasStacks : LtranRegistry.HasStacks inst own reg.stackTable.entries s.reg.stackTable
  /-- They are those of the stages. -/
  tids : own.map (·.tid) = s.tids
  /-- One instance was allocated, and nothing was given back. -/
  ledger : s.created = 1 ∧ s.freed = 0 ∧ s.detached = 0

/-- The ledger of a process while requests are handled. -/
def LedgerInv (pid : Pid) (reg : LtranRegistry) (s : RegLedger) : Prop :=
  s.Vacant pid reg ∨ ∃ i inst own, s.Registered pid reg i inst own

/-- The condition on what `get_virtual_area` returns: `mmap` maps no empty area, and an area at
address zero is refused. -/
def AreaOk (r : RegRequest) : Prop :=
  ∀ addr size, r.env.virtualArea = some (addr, size) → addr ≠ 0 ∧ size ≠ 0

/-- The first request of a process. -/
theorem Vacant.procMem (h : s.Vacant pid reg) {r : RegRequest} {conf : ClientProcConf}
    (hmsg : r.msg = .procMem conf) (hpid : conf.pid = pid) (harea : AreaOk r) :
    (s.handle config r).LedgerInv pid reg := by
  subst hpid
  obtain ⟨hreserved, hunmapped, hcreated, hfreed, hstages, hdetached⟩ := h.ledger
  simp only [handle, hmsg]
  unfold LtranRegistry.reachesVirtualArea LtranRegistry.handleRegMsgProcMem
  by_cases hcheck : instanceInfoCheck config s.reg.mgr conf = true
  · rw [if_pos hcheck, hcheck, Bool.true_and]
    cases hadd : s.reg.mgr.gazelleInstanceAddByPid conf.pid r.env.calloc r.creator with
    | mk mgr found =>
      cases found with
      | none =>
        rw [if_neg (by simp)]
        obtain rfl := InstanceMgr.addByPid_none hadd
        exact .inl ⟨h.absent, h.entries, h.fresh, h.ledger⟩
      | some found =>
        obtain ⟨i, inst⟩ := found
        rw [if_pos (by simp)]
        obtain ⟨rfl, hget⟩ := InstanceMgr.addByPid_some h.absent hadd
        -- the new instance has no stacks, and its area is what was reserved
        have hregistered : ∀ {inst' : GazelleInstance} {area : List VirtualArea},
            inst'.pid = conf.pid → inst'.stackCnt = 0 → inst'.stackArray = (fun _ => none) →
            inst'.regState = .regProcMem →
            removeVirtualArea inst'.baseVirtaddr inst'.socketSize = area →
            ({ s with
                reg := { s.reg with mgr := mgr.setInstance i inst' }
                created := s.created + 1
                reserved := s.reserved ++ area } : RegLedger).LedgerInv conf.pid reg := by
          intro inst' area hpid hcnt harray hstate harea'
          refine .inr ⟨i, inst', [], InstanceMgr.getByPid_setInstance hget hpid, ?_, ?_, ?_, ?_, ?_,
            ?_, hfreed, hdetached⟩
          · show _ = RegStage.regState s.stages.getLast?
            rw [hstages, hstate]
            rfl
          · show _ = s.reserved ++ area
            rw [hreserved, harea']
            rfl
          · show s.unmapped = (List.replicate (s.stages.count .attach) _).flatten
            rw [hunmapped, hstages]
            rfl
          · exact ⟨h.entries, by rw [hcnt]; rfl, fun j => by rw [harray]; rfl,
              fun k hk => absurd hk (Nat.not_lt_zero k), Nat.zero_le _, h.fresh⟩
          · show [] = s.stages.filterMap _
            rw [hstages]
            rfl
          · show s.created + 1 = 1
            rw [hcreated]
        dsimp only
        cases hvirt : r.env.virtualArea with
        | none => exact hregistered rfl rfl rfl rfl rfl
        | some area =>
          obtain ⟨addr, size⟩ := area
          obtain ⟨haddr, hsize⟩ := harea addr size hvirt
          have harea' : removeVirtualArea addr size = [(addr, size)] := by
            unfold removeVirtualArea
            rw [if_neg fun h => h.elim hsize haddr]
          cases hcopied : r.env.copied with
          | false =>
            simp only [instanceInfoSet, Bool.false_eq_true, if_false]
            exact hregistered rfl rfl rfl rfl harea'
          | true =>
            simp only [instanceInfoSet, if_true]
            exact hregistered rfl rfl rfl rfl harea'
  · rw [if_neg hcheck, if_neg (by simp [hcheck])]
    exact .inl ⟨h.absent, h.entries, h.fresh, h.ledger⟩

/-- A process that is not registered stays so in all other requests. -/
theorem Vacant.other (h : s.Vacant pid reg) {r : RegRequest} (hpid : ∀ p ∈ r.msg.pid?, p = pid)
    (hmem : ∀ conf, r.msg ≠ .procMem conf) : (s.handle config r).LedgerInv pid reg := by
  left
  cases hmsg : r.msg with
  | procMem conf => exact absurd hmsg (hmem conf)
  | procAtt conf =>
    rw [hmsg] at hpid
    obtain rfl := hpid conf.pid rfl
    simp only [handle, hmsg, LtranRegistry.reachesAttach, LtranRegistry.handleRegMsgProcAtt,
      h.absent]
    exact ⟨h.absent, h.entries, h.fresh, h.ledger⟩
  | thrdRing conf =>
    rw [hmsg] at hpid
    obtain rfl := hpid conf.pid rfl
    have hreg : (s.reg.handleRegMsgThrdRing conf r.env).1 = s.reg := by
      unfold LtranRegistry.handleRegMsgThrdRing
      rw [h.absent]
      split <;> rfl
    have hreach : s.reg.reachesStackArray conf r.env = false := by
      unfold LtranRegistry.reachesStackArray
      rw [h.absent]
      split <;> rfl
    simp only [handle, hmsg, hreg, hreach, Bool.false_eq_true, if_false]
    exact ⟨h.absent, h.entries, h.fresh, h.ledger⟩
  | other =>
    simp only [handle, hmsg]
    exact h

section Registered

variable {i : Fin gazelleMaxInstanceNum} {inst : GazelleInstance} {own : List GazelleStack}

/-- A process that is registered is refused. -/
theorem Registered.procMem (h : s.Registered pid reg i inst own) {r : RegRequest}
    {conf : ClientProcConf} (hmsg : r.msg = .procMem conf) (hpid : conf.pid = pid) :
    (s.handle config r).Registered pid reg i inst own := by
  subst hpid
  have hcheck : instanceInfoCheck config s.reg.mgr conf = false := by
    by_contra htrue
    rw [Bool.not_eq_false] at htrue
    have hnone := LtranRegistry.getByPid_of_instanceInfoCheck htrue
    rw [h.getByPid] at hnone
    cases hnone
  have hreach : s.reg.reachesVirtualArea config conf r.env r.creator = false := by
    rw [LtranRegistry.reachesVirtualArea, hcheck]
    rfl
  simp only [handle, hmsg, LtranRegistry.handleRegMsgProcMem_refused hcheck, hreach,
    Bool.false_eq_true, if_false]
  exact h

/-- A stage more, with the instance and the stacks that it leaves. -/
theorem Registered.stage (h : s.Registered pid reg i inst own) {inst' : GazelleInstance}
    {own' : List GazelleStack} {reg' : LtranRegistry} {stage : RegStage}
    {unmapped : List VirtualArea}
    (hasStacks : LtranRegistry.HasStacks inst' own' reg.stackTable.entries reg'.stackTable)
    (hget : reg'.mgr.gazelleInstanceGetByPid pid = some (i, inst'))
    (harea : inst'.baseVirtaddr = inst.baseVirtaddr ∧ inst'.socketSize = inst.socketSize)
    (hstate : inst'.regState = RegStage.regState (some stage))
    (hunmapped : unmapped = s.unmapped ++ if stage = .attach then s.reserved else [])
    (htids : own'.map (·.tid) = own.map (·.tid) ++ stage.tid?.toList) :
    ({ s with reg := reg', unmapped := unmapped, stages := s.stages ++ [stage] } :
      RegLedger).Registered pid reg i inst' own' := by
  refine ⟨hget, ?_, ?_, ?_, hasStacks, ?_, h.ledger⟩
  · rw [hstate]
    exact congrArg _ (List.getLast?_concat ..).symm
  · rw [harea.1, harea.2]
    exact h.area
  · show unmapped = (List.replicate ((s.stages ++ [stage]).count .attach) s.reserved).flatten
    rw [List.count_append, hunmapped, h.unmapped]
    cases stage with
    | attach =>
      rw [if_pos rfl, List.count_singleton_self, List.replicate_succ', List.flatten_append]
      simp
    | stack tid => simp
  · rw [htids, h.tids]
    show s.tids ++ stage.tid?.toList = (s.stages ++ [stage]).filterMap RegStage.tid?
    rw [List.filterMap_append, RegLedger.tids]
    cases stage <;> rfl

/-- Every `RQT_REG_PROC_ATT` that comes to `rte_eal_sec_attach` has unmapped the area before. -/
theorem Registered.procAtt (h : s.Registered pid reg i inst own) {r : RegRequest}
    {conf : ClientProcConf} (hmsg : r.msg = .procAtt conf) (hpid : conf.pid = pid) :
    (s.handle config r).LedgerInv pid reg := by
  subst hpid
  have hpid := (InstanceMgr.gazelleInstanceGetByPid_some h.getByPid).2
  simp only [handle, hmsg, LtranRegistry.reachesAttach, LtranRegistry.handleRegMsgProcAtt,
    h.getByPid]
  by_cases hargc : conf.argc.toInt < 0 ∨ gazelleMaxRegArgs < conf.argc.toInt
  · rw [if_pos hargc, if_pos hargc]
    exact .inr ⟨i, inst, own, h⟩
  · rw [if_neg hargc, if_neg hargc]
    -- only `reg_state` and the tick of the instance change
    have hattached : ∀ {inst' : GazelleInstance}, inst'.stackCnt = inst.stackCnt →
        inst'.stackArray = inst.stackArray → inst'.pid = conf.pid →
        inst'.baseVirtaddr = inst.baseVirtaddr ∧ inst'.socketSize = inst.socketSize →
        inst'.regState = .regProcAtt →
        ({ s with
            reg := { s.reg with mgr := s.reg.mgr.setInstance i inst' }
            unmapped := s.unmapped ++ removeVirtualArea inst.baseVirtaddr inst.socketSize
            stages := s.stages ++ [.attach] } : RegLedger).LedgerInv conf.pid reg := by
      intro inst' hcnt harray hpid' harea hstate
      have hs := h.hasStacks
      have hs' : LtranRegistry.HasStacks inst' own reg.stackTable.entries s.reg.stackTable :=
        ⟨hs.entries, hcnt ▸ hs.cnt, harray ▸ hs.array, hs.index, hs.length_le, hs.fresh⟩
      refine .inr ⟨i, inst', own, h.stage hs' (InstanceMgr.getByPid_setInstance h.getByPid hpid')
        harea hstate ?_ (List.append_nil _).symm⟩
      rw [if_pos rfl, h.area]
    dsimp only
    split
    · exact hattached rfl rfl hpid ⟨rfl, rfl⟩ rfl
    · exact hattached rfl rfl hpid ⟨rfl, rfl⟩ rfl

/-- A `RQT_REG_THRD_RING` adds a stack or nothing. -/
theorem Registered.thrdRing (h : s.Registered pid reg i inst own) {r : RegRequest}
    {conf : ClientThrdConf} (hmsg : r.msg = .thrdRing conf) (hpid : conf.pid = pid) :
    (s.handle config r).LedgerInv pid reg := by
  subst hpid
  have hpid := (InstanceMgr.gazelleInstanceGetByPid_some h.getByPid).2
  have hs := h.hasStacks
  simp only [handle, hmsg]
  unfold LtranRegistry.reachesStackArray LtranRegistry.handleRegMsgThrdRing
  rw [h.getByPid]
  by_cases hexist : (s.reg.stackTable.gazelleStackGetByTid s.reg.mgr conf.tid).isSome
  · rw [if_pos hexist, if_pos hexist]
    exact .inr ⟨i, inst, own, h⟩
  rw [if_neg hexist, if_neg hexist]
  by_cases hfull : gazelleMaxInstanceNum - 1 < inst.stackCnt.toNat
  · simp only [if_pos hfull]
    exact .inr ⟨i, inst, own, h⟩
  simp only [if_neg hfull]
  cases hadd : s.reg.stackTable.gazelleStackAddByTid conf.tid r.env.calloc with
  | mk table found =>
    cases found with
    | none =>
      obtain rfl := StackTable.stackAdd_none hadd
      exact .inr ⟨i, inst, own, h⟩
    | some stack =>
      obtain ⟨hentries, -, haddr, htid⟩ := StackTable.stackAdd_some hadd
      cases hidx : LtranRegistry.gazelleGetFreeStackIdx inst with
      | none =>
        -- the stack leaves the table again
        exact .inr ⟨i, inst, own, h.getByPid, h.regState, h.area, h.unmapped, hs.refuse hadd,
          h.tids, h.ledger⟩
      | some idx =>
        have hrest : ∀ e ∈ s.reg.stackTable.entries, e.addr ≠ stack.addr := by
          intro e he heq
          have := hs.fresh.lt e he
          omega
        -- whatever its ticks are, the stack is at the head
        have hadded : ∀ {table' : StackTable} {stack' : GazelleStack},
            table'.entries = stack' :: s.reg.stackTable.entries → table'.nextAddr = table.nextAddr →
            stack'.addr = stack.addr → stack'.index = idx.val → stack'.tid = stack.tid →
            ({ s with
                reg :=
                  { mgr := s.reg.mgr.setInstance i
                      { inst with
                        stackArray := Function.update inst.stackArray idx (some stack.addr)
                        stackCnt := inst.stackCnt + 1
                        regState := .regThrdRing }
                    stackTable := table' }
                stages := s.stages ++ [.stack conf.tid] } : RegLedger).LedgerInv conf.pid reg := by
          intro table' stack' hentries' hnext' haddr' hindex' htid'
          refine .inr ⟨i, _, own ++ [stack'], h.stage
            (hs.add hadd hidx hentries' hnext' haddr' hindex' rfl rfl)
            (InstanceMgr.getByPid_setInstance h.getByPid hpid) ⟨rfl, rfl⟩ rfl ?_ ?_⟩
          · rw [if_neg (by simp), List.append_nil]
          · rw [List.map_append, List.map_singleton, htid', htid]
            rfl
        have hindexed := StackTable.entries_modify_head
          (f := fun e => { e with index := idx.val }) hentries hrest
        have hstamped := StackTable.entries_modify_head
          (f := fun e => { e with
            instanceRegTick := inst.instanceRegTick
            instanceCurTick := some inst.instanceCurTick }) hindexed hrest
        simp only [Option.isSome_some, Bool.and_self, if_true]
        cases r.env.responded with
        | true => exact hadded hstamped rfl rfl rfl rfl
        | false => exact hadded hindexed rfl rfl rfl rfl

/-- Any request of a registered process. -/
theorem Registered.handle (h : s.Registered pid reg i inst own) {r : RegRequest}
    (hpid : ∀ p ∈ r.msg.pid?, p = pid) : (s.handle config r).LedgerInv pid reg := by
  cases hmsg : r.msg with
  | procMem conf =>
    rw [hmsg] at hpid
    exact .inr ⟨i, inst, own, h.procMem hmsg (hpid _ rfl)⟩
  | procAtt conf =>
    rw [hmsg] at hpid
    exact h.procAtt hmsg (hpid _ rfl)
  | thrdRing conf =>
    rw [hmsg] at hpid
    exact h.thrdRing hmsg (hpid _ rfl)
  | other =>
    simp only [RegLedger.handle, hmsg]
    exact .inr ⟨i, inst, own, h⟩

end Registered

/-- Any request of the process keeps the invariant. -/
theorem LedgerInv.handle (h : s.LedgerInv pid reg) {r : RegRequest}
    (hpid : ∀ p ∈ r.msg.pid?, p = pid) (harea : AreaOk r) :
    (s.handle config r).LedgerInv pid reg := by
  rcases h with h | ⟨i, inst, own, h⟩
  · cases hmsg : r.msg with
    | procMem conf =>
      have hpid' := hpid conf.pid (by rw [hmsg]; rfl)
      exact h.procMem hmsg hpid' harea
    | procAtt conf => exact h.other hpid fun _ hmem => by rw [hmsg] at hmem; cases hmem
    | thrdRing conf => exact h.other hpid fun _ hmem => by rw [hmsg] at hmem; cases hmem
    | other => exact h.other hpid fun _ hmem => by rw [hmsg] at hmem; cases hmem
  · exact h.handle hpid

/-- The requests of the process keep the invariant. -/
theorem LedgerInv.requests (h : s.LedgerInv pid reg) {rs : List RegRequest}
    (hpid : ∀ r ∈ rs, ∀ p ∈ r.msg.pid?, p = pid) (harea : ∀ r ∈ rs, AreaOk r) :
    (rs.foldl (RegLedger.handle config) s).LedgerInv pid reg := by
  induction rs generalizing s with
  | nil => exact h
  | cons r rs ih =>
    rw [List.forall_mem_cons] at hpid harea
    exact ih (h.handle hpid.1 harea.1) hpid.2 harea.2

/-! ## The logout -/

/-- A list repeated is the list itself when it is empty or not repeated. -/
private theorem flatten_replicate_eq {α : Type*} {l : List α} {n : ℕ} :
    (List.replicate n l).flatten = l ↔ l = [] ∨ n = 1 := by
  constructor
  · intro h
    have hlen := congrArg List.length h
    rw [List.length_flatten, List.map_replicate, List.sum_replicate_nat] at hlen
    by_cases hl : l = []
    · exact .inl hl
    · exact .inr (Nat.eq_of_mul_eq_mul_right (List.length_pos_iff.2 hl) (by rw [hlen, Nat.one_mul]))
  · rintro (rfl | rfl)
    · simp
    · simp

section Logout

variable {i : Fin gazelleMaxInstanceNum} {inst : GazelleInstance} {own : List GazelleStack}
  (h : s.Registered pid reg i inst own)

include h

/-- The stack table after the logout. -/
private theorem Registered.stackTable_logout : (s.reg.handleInstanceLogout pid).stackTable =
    if inst.regState = .regThrdRing then
      LtranRegistry.handleInstLogoutForRegThrdRing inst s.reg.stackTable
    else s.reg.stackTable := by
  unfold LtranRegistry.handleInstanceLogout
  rw [h.getByPid]

/-- Only the stacks of others are left when none of its own is. -/
private theorem Registered.left_eq_nil {left : List GazelleStack} (hleft : ∀ e ∈ left, e ∈ own) :
    (∀ e ∈ left ++ reg.stackTable.entries, e ∈ reg.stackTable.entries) ↔ left = [] := by
  constructor
  · intro hall
    by_contra hne
    obtain ⟨e, he⟩ := List.exists_mem_of_ne_nil left hne
    have hnodup := h.hasStacks.fresh.nodup
    rw [h.hasStacks.entries, List.map_append, List.nodup_append] at hnodup
    exact hnodup.2.2 _ (List.mem_map_of_mem (List.mem_reverse.2 (hleft e he))) _
      (List.mem_map_of_mem (hall e (List.mem_append_left _ he))) rfl
  · rintro rfl
    exact fun e he => he

/-- A process that did no more than `RQT_REG_PROC_MEM`. -/
private theorem Registered.released_nil (hstages : s.stages = []) :
    (s.logout pid).Released reg ∧ s.InOrder := by
  obtain ⟨hcreated, hfreed, hdetached⟩ := h.ledger
  have hstate := h.regState
  rw [hstages] at hstate
  have htids : s.tids = [] := by rw [RegLedger.tids, hstages]; rfl
  have hown : own = [] := by
    have := h.tids
    rwa [htids, List.map_eq_nil_iff] at this
  refine ⟨?_, fun _ => ?_, fun hne => absurd htids hne⟩
  · unfold logout
    rw [h.getByPid]
    dsimp only
    rw [hstate]
    refine ⟨?_, ?_, ?_, ?_⟩
    · show s.unmapped ++ removeVirtualArea inst.baseVirtaddr inst.socketSize = s.reserved
      rw [h.unmapped, hstages, h.area]
      rfl
    · show s.detached = if .attach ∈ s.stages then 1 else 0
      rw [hstages, hdetached]
      rfl
    · show ∀ e ∈ (s.reg.handleInstanceLogout pid).stackTable.entries, _
      rw [h.stackTable_logout, hstate, if_neg (by decide), h.hasStacks.entries, hown]
      exact fun e he => he
    · show s.freed + 1 = s.created
      rw [hfreed, hcreated]
  · rw [hstages]
    exact Nat.zero_le _

/-- A process that did more, with the stacks `left` that stay in the table. -/
private theorem Registered.released_iff_of_detached {left : List GazelleStack}
    (hstate : inst.regState = .regThrdRing ∨ inst.regState = .regProcAtt)
    (hleft : ∀ e ∈ left, e ∈ own)
    (hentries : (s.reg.handleInstanceLogout pid).stackTable.entries =
      left ++ reg.stackTable.entries) :
    (s.logout pid).Released reg ↔
      (s.reserved = [] ∨ s.stages.count .attach = 1) ∧ .attach ∈ s.stages ∧ left = [] := by
  obtain ⟨hcreated, hfreed, hdetached⟩ := h.ledger
  have hlogout : s.logout pid =
      ({ s with
        reg := s.reg.handleInstanceLogout pid } : RegLedger).handleInstLogoutRegProcAtt := by
    unfold logout
    rw [h.getByPid]
    dsimp only
    rcases hstate with hstate | hstate <;> rw [hstate]
  rw [hlogout]
  have hunmapped : s.unmapped ++ removeVirtualArea 0 0 = s.reserved ↔
      s.reserved = [] ∨ s.stages.count .attach = 1 := by
    show s.unmapped ++ [] = s.reserved ↔ _
    rw [List.append_nil, h.unmapped, flatten_replicate_eq]
  have hdetach : s.detached + 1 = (if RegStage.attach ∈ s.stages then 1 else 0) ↔
      .attach ∈ s.stages := by
    rw [hdetached]
    split <;> simp_all
  have hstacks := h.left_eq_nil hleft
  rw [← hentries] at hstacks
  have hfree : s.freed + 1 = s.created := by rw [hfreed, hcreated]
  constructor
  · rintro ⟨hun, hde, hst, -⟩
    exact ⟨hunmapped.1 hun, hdetach.1 hde, hstacks.1 hst⟩
  · rintro ⟨hun, hde, hst⟩
    exact ⟨hunmapped.2 hun, hdetach.2 hde, hstacks.2 hst, hfree⟩

/-- Everything is given back exactly when the requests came in order. -/
theorem Registered.released_logout_iff : (s.logout pid).Released reg ↔ s.InOrder := by
  have hstate := h.regState
  have hcount : .attach ∈ s.stages ↔ 0 < s.stages.count .attach := List.count_pos_iff.symm
  have hreserved : (s.reserved = [] ∨ s.stages.count .attach = 1) ∧ .attach ∈ s.stages ↔
      (s.reserved ≠ [] → s.stages.count .attach ≤ 1) ∧ .attach ∈ s.stages := by
    by_cases hnil : s.reserved = []
    · simp [hnil]
    · simp only [hnil, false_or, ne_eq, not_false_eq_true, true_implies, hcount]
      omega
  cases hlast : s.stages.getLast? with
  | none =>
    obtain ⟨hrel, horder⟩ := h.released_nil (List.getLast?_eq_none_iff.1 hlast)
    exact ⟨fun _ => horder, fun _ => hrel⟩
  | some stage =>
    rw [hlast] at hstate
    have hmem : stage ∈ s.stages := List.mem_of_getLast? hlast
    cases stage with
    | attach =>
      -- the stacks stay
      have hentries : (s.reg.handleInstanceLogout pid).stackTable.entries =
          own.reverse ++ reg.stackTable.entries := by
        rw [h.stackTable_logout, hstate, if_neg (by decide), h.hasStacks.entries]
      rw [h.released_iff_of_detached (.inr hstate) (fun e he => List.mem_reverse.1 he) hentries,
        ← and_assoc, hreserved, List.reverse_eq_nil_iff]
      have hown : own = [] ↔ s.tids = [] := by rw [← h.tids, List.map_eq_nil_iff]
      constructor
      · rintro ⟨⟨hres, -⟩, hnil⟩
        exact ⟨hres, fun hne => absurd (hown.1 hnil) hne⟩
      · rintro ⟨hres, hord⟩
        refine ⟨⟨hres, hmem⟩, hown.2 ?_⟩
        by_contra hne
        obtain ⟨-, ⟨tid, htid⟩, -⟩ := hord hne
        rw [hlast] at htid
        cases htid
    | stack tid =>
      have hentries : (s.reg.handleInstanceLogout pid).stackTable.entries =
          own.foldl (List.eraseByKey (·.tid)) own.reverse ++ reg.stackTable.entries := by
        have hthrd : inst.regState = .regThrdRing := hstate
        rw [h.stackTable_logout, if_pos hthrd, h.hasStacks.logout]
      have hnodup : own.Nodup := by
        have hfresh := h.hasStacks.fresh.nodup
        rw [h.hasStacks.entries, List.map_append] at hfresh
        exact List.nodup_reverse.1 (List.Nodup.of_map _ (List.nodup_append.1 hfresh).1)
      have hsubset : ∀ e ∈ own.foldl (List.eraseByKey (·.tid)) own.reverse, e ∈ own :=
        fun e he => List.mem_reverse.1 (List.foldl_eraseByKey_subset _ he)
      have htids : s.tids ≠ [] := by
        intro hnil
        have : tid ∈ s.tids := List.mem_filterMap.2 ⟨_, hmem, rfl⟩
        rw [hnil] at this
        cases this
      rw [h.released_iff_of_detached (.inl hstate) hsubset hentries,
        List.foldl_eraseByKey_eq_nil _ hnodup, h.tids, ← and_assoc, hreserved]
      constructor
      · rintro ⟨⟨hres, hatt⟩, hdistinct⟩
        exact ⟨hres, fun _ => ⟨hatt, ⟨tid, hlast⟩, hdistinct⟩⟩
      · rintro ⟨hres, hord⟩
        obtain ⟨hatt, -, hdistinct⟩ := hord htids
        exact ⟨⟨hres, hatt⟩, hdistinct⟩

end Logout

/-- The requests of one process in any order, with whatever the calls outside ltran return, and the
logout of the process. All that was taken is given back exactly once if and only if the requests
came in order. -/
theorem released_iff (config : LtranConfig) {reg : LtranRegistry} {pid : Pid} {rs : List RegRequest}
    (hfresh : reg.stackTable.Fresh) (hpid : reg.mgr.gazelleInstanceGetByPid pid = none)
    (hrs : ∀ r ∈ rs, ∀ p ∈ r.msg.pid?, p = pid) (harea : ∀ r ∈ rs, AreaOk r) :
    ((rs.foldl (RegLedger.handle config) (start reg)).logout pid).Released reg ↔
      (rs.foldl (RegLedger.handle config) (start reg)).InOrder := by
  have hstart : (start reg).LedgerInv pid reg :=
    .inl ⟨hpid, rfl, hfresh, rfl, rfl, rfl, rfl, rfl, rfl⟩
  rcases hstart.requests hrs harea with h | ⟨i, inst, own, h⟩
  · obtain ⟨hreserved, hunmapped, hcreated, hfreed, hstages, hdetached⟩ := h.ledger
    refine ⟨fun _ => ⟨fun hne => absurd hreserved hne, fun hne => ?_⟩, fun _ => ?_⟩
    · rw [tids, hstages] at hne
      exact absurd rfl hne
    · unfold logout
      rw [h.absent]
      refine ⟨by rw [hunmapped, hreserved], by rw [hdetached, hstages]; rfl, ?_,
        by rw [hfreed, hcreated]⟩
      rw [h.entries]
      exact fun e he => he
  · exact h.released_logout_iff

/-- ltran with one subnet and one bond port. -/
private def oneSubnet : LtranConfig where
  ipv4NetMask := 0xff
  ipv4SubnetAddr := 0xc0a80100
  bondMac := [0x1]

/-- A process in this subnet. -/
private def oneProcess : ClientProcConf where
  pid := 7
  baseVirtaddr := 0
  socketSize := 0x1000
  filePrefix := "client"
  macAddr := 0x1
  ipv4 := 0x0a01a8c0
  argc := 0

/-- A message of this process when everything outside ltran succeeds. -/
private def request (msg : RegRequestMsg) : RegRequest where
  msg := msg
  fd := 5
  creator := 0
  env := ⟨true, some (0x1000, 0x2000), true, true, true⟩

/-- No process is registered. -/
private def emptyRegistry : LtranRegistry where
  mgr := ⟨0, 32, fun _ => 0, fun _ => none⟩
  stackTable := ⟨128, [], 0⟩

/-- The area of these messages is one that `mmap` can return. -/
private theorem request_areaOk (msg : RegRequestMsg) : AreaOk (request msg) := by
  rintro addr size h
  cases h
  exact ⟨by decide, by decide⟩

/-- The registration of a process with one stack. -/
private def inOrder : List RegRequest :=
  [request (.procMem oneProcess), request (.procAtt oneProcess), request (.thrdRing ⟨9, 7⟩)]

/-- A process that attaches a second time. -/
private def attachTwice : List RegRequest :=
  [request (.procMem oneProcess), request (.procAtt oneProcess), request (.procAtt oneProcess)]

/-- A process that registers in order gives everything back. -/
theorem released_inOrder :
    ((inOrder.foldl (RegLedger.handle oneSubnet) (start emptyRegistry)).logout 7).Released
      emptyRegistry := by
  have hfresh : emptyRegistry.stackTable.Fresh := ⟨List.nodup_nil, fun _ he => by cases he⟩
  refine (released_iff oneSubnet hfresh (by decide) ?_ ?_).2 ?_
  · intro r hr p hp
    simp only [inOrder, List.mem_cons, List.not_mem_nil, or_false] at hr
    rcases hr with rfl | rfl | rfl <;> cases hp <;> rfl
  · intro r hr
    simp only [inOrder, List.mem_cons, List.not_mem_nil, or_false] at hr
    rcases hr with rfl | rfl | rfl <;> exact request_areaOk _
  · exact ⟨fun _ => by decide, fun _ => ⟨by decide, ⟨9, by decide⟩, by decide⟩⟩

/-- The area of a process that attaches twice is unmapped twice. -/
theorem released_fails :
    ¬ ∀ rs : List RegRequest, (∀ r ∈ rs, ∀ p ∈ r.msg.pid?, p = 7) → (∀ r ∈ rs, AreaOk r) →
      ((rs.foldl (RegLedger.handle oneSubnet) (start emptyRegistry)).logout 7).Released
        emptyRegistry := by
  intro h
  have hpid : ∀ r ∈ attachTwice, ∀ p ∈ r.msg.pid?, p = 7 := by
    intro r hr p hp
    simp only [attachTwice, List.mem_cons, List.not_mem_nil, or_false] at hr
    rcases hr with rfl | rfl | rfl <;> cases hp <;> rfl
  have harea : ∀ r ∈ attachTwice, AreaOk r := by
    intro r hr
    simp only [attachTwice, List.mem_cons, List.not_mem_nil, or_false] at hr
    rcases hr with rfl | rfl | rfl <;> exact request_areaOk _
  have hunmapped := (h attachTwice hpid harea).1
  revert hunmapped
  decide

end RegLedger

end Gazelle
