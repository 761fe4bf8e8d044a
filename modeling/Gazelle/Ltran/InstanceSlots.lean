import Gazelle.Ltran.Instance
import Gazelle.Transition.System
import Mathlib.Data.Fintype.Card

/-!
# The slots of the instance manager

`gazelle_instance_add_by_pid` takes the first free slot of the whole array, while the loops of the
forwarding and statistics threads stop at `max_instance_num`, and in `stack_array` of an instance at
`stack_cnt`.

* `InstanceMgr.SlotsInv`: no slot from `max_instance_num` on is taken, and no place of a
  `stack_array` from `stack_cnt` on;
* `InstanceMgr.Kept`: what follows for the loops and for the searches;
* `LtranRegistry.instances_kept`: all of it, after any run of registrations and logouts.
-/

namespace Gazelle

/-- The first index with a property, in the order of the array. -/
theorem find?_finRange {n : ℕ} {p : Fin n → Bool} {i : Fin n}
    (h : (List.finRange n).find? p = some i) : p i = true ∧ ∀ j < i, p j = false := by
  refine ⟨List.find?_some h, fun j hj => ?_⟩
  obtain ⟨-, before, after, hsplit, hbefore⟩ := List.find?_eq_some_iff_append.1 h
  have hmem : j ∈ before ++ i :: after := hsplit ▸ List.mem_finRange j
  have hsorted := List.pairwise_lt_finRange n
  rw [hsplit, List.pairwise_append] at hsorted
  rcases List.mem_append.1 hmem with hin | hin
  · simpa using hbefore j hin
  · rcases List.mem_cons.1 hin with rfl | hin
    · exact absurd hj (lt_irrefl j)
    · exact absurd hj (lt_asymm ((List.pairwise_cons.1 hsorted.2.1).1 j hin))

/-- The places of `stack_array` that are taken are those below `stack_cnt`. -/
structure GazelleInstance.StacksInv (inst : GazelleInstance) : Prop where
  /-- There is room for the stacks. -/
  le : inst.stackCnt.toNat ≤ gazelleMaxInstanceNum
  /-- The stacks come first. -/
  taken : ∀ j, (inst.stackArray j).isSome = true ↔ j.val < inst.stackCnt.toNat

namespace InstanceMgr

variable (mgr : InstanceMgr)

/-- The slots that are taken. -/
def registered : Finset (Fin gazelleMaxInstanceNum) :=
  Finset.univ.filter fun i => (mgr.instances i).isSome

/-- The stacks that a loop bounded by `max_instance_num` and `stack_cnt` comes to, as that of
`flush_all_stack` and those of the statistics. -/
def loopStacks : List ℕ :=
  (List.range mgr.maxInstanceNum.toNat).flatMap fun i =>
    match if h : i < gazelleMaxInstanceNum then mgr.instances ⟨i, h⟩ else none with
    | none => []
    | some inst =>
      (List.range inst.stackCnt.toNat).filterMap fun j =>
        if h : j < gazelleMaxInstanceNum then inst.stackArray ⟨j, h⟩ else none

/-- The invariant of the slots. -/
structure SlotsInv : Prop where
  /-- The limit fits into the array. -/
  limit : 1 ≤ mgr.maxInstanceNum.toNat ∧ mgr.maxInstanceNum.toNat ≤ gazelleMaxInstanceNum
  /-- `cur_instance_num` is the number of instances. -/
  count : mgr.curInstanceNum.toNat = mgr.registered.card
  /-- Pids are unique. -/
  unique : ∀ i j inst inst', mgr.instances i = some inst → mgr.instances j = some inst' →
    inst.pid = inst'.pid → i = j
  /-- The slots that are taken are below the limit. -/
  below : ∀ i inst, mgr.instances i = some inst → i.val < mgr.maxInstanceNum.toNat
  /-- The stacks of the instances come first. -/
  stackArray : ∀ i inst, mgr.instances i = some inst → inst.StacksInv

/-- What the functions may rely on. -/
structure Kept : Prop extends SlotsInv mgr where
  /-- The loops come to every stack of every instance. -/
  loops : ∀ addr, addr ∈ mgr.loopStacks ↔
    ∃ i inst j, mgr.instances i = some inst ∧ inst.stackArray j = some addr
  /-- An instance is not added exactly when its pid is new and all instances are registered, or
  there is no memory. -/
  add : ∀ pid calloc creator, (mgr.gazelleInstanceAddByPid pid calloc creator).2 = none ↔
    (∀ i inst, mgr.instances i = some inst → inst.pid ≠ pid) ∧
      (mgr.registered.card = mgr.maxInstanceNum.toNat ∨ calloc = false)
  /-- The search finds exactly the registered pids. -/
  get : ∀ pid i inst, mgr.gazelleInstanceGetByPid pid = some (i, inst) ↔
    mgr.instances i = some inst ∧ inst.pid = pid

variable {mgr}

/-! ## What the invariant says -/

theorem mem_registered {i : Fin gazelleMaxInstanceNum} :
    i ∈ mgr.registered ↔ (mgr.instances i).isSome = true := by
  rw [registered, Finset.mem_filter]
  exact and_iff_right (Finset.mem_univ i)

/-- There are not more instances than the limit. -/
theorem SlotsInv.card_le (h : mgr.SlotsInv) :
    mgr.registered.card ≤ mgr.maxInstanceNum.toNat := by
  have hcard := Finset.card_le_card_of_injOn (s := mgr.registered)
    (t := Finset.range mgr.maxInstanceNum.toNat) (fun i => i.val)
    (fun i hi => by
      obtain ⟨inst, hinst⟩ := Option.isSome_iff_exists.1 (mem_registered.1 hi)
      exact Finset.mem_coe.2 (Finset.mem_range.2 (h.below i inst hinst)))
    (fun i _ j _ hij => Fin.ext hij)
  rwa [Finset.card_range] at hcard

/-- While there is room, the first free slot is below the limit. -/
theorem SlotsInv.freeSlot_lt (h : mgr.SlotsInv)
    (hroom : mgr.registered.card < mgr.maxInstanceNum.toNat) :
    ∃ i, mgr.freeSlot = some i ∧ mgr.instances i = none ∧ i.val < mgr.maxInstanceNum.toNat := by
  -- otherwise all slots below the limit are taken
  have hfull : ∀ m : ℕ, m ≤ mgr.maxInstanceNum.toNat →
      (∀ j : Fin gazelleMaxInstanceNum, j.val < m → (mgr.instances j).isSome = true) →
        m ≤ mgr.registered.card := by
    intro m hm hall
    have hcard := Finset.card_le_card_of_injOn (s := Finset.univ) (t := mgr.registered)
      (fun j : Fin m => (⟨j.val, by have := j.isLt; have := h.limit.2; omega⟩ :
        Fin gazelleMaxInstanceNum))
      (fun j _ => Finset.mem_coe.2 (mem_registered.2 (hall _ j.isLt)))
      (fun i _ j _ hij => Fin.ext (Fin.mk.inj hij))
    rwa [Finset.card_univ, Fintype.card_fin] at hcard
  cases hfree : mgr.freeSlot with
  | none =>
    have hnone := List.find?_eq_none.1 hfree
    have := hfull _ (Nat.le_refl _) fun j _ =>
      Option.isSome_iff_ne_none.2 (by simpa using hnone j (List.mem_finRange j))
    omega
  | some i =>
    obtain ⟨hi, hbefore⟩ := find?_finRange hfree
    refine ⟨i, rfl, by simpa using hi, ?_⟩
    by_contra hle
    have := hfull _ (Nat.le_refl _) fun j hj =>
      by simpa using hbefore j (Fin.lt_def.2 (by omega))
    omega

/-- The search finds exactly the registered pids. -/
theorem SlotsInv.get (h : mgr.SlotsInv) (pid : Pid) (i : Fin gazelleMaxInstanceNum)
    (inst : GazelleInstance) :
    mgr.gazelleInstanceGetByPid pid = some (i, inst) ↔
      mgr.instances i = some inst ∧ inst.pid = pid := by
  refine ⟨gazelleInstanceGetByPid_some, fun ⟨hinst, hpid⟩ => ?_⟩
  cases hget : mgr.gazelleInstanceGetByPid pid with
  | none =>
    refine absurd ?_ (gazelleInstanceGetByPid_none hget (i := i) (c := inst.creator))
    rw [owners, hinst, Option.map_some, hpid]
  | some found =>
    obtain ⟨j, inst'⟩ := found
    obtain ⟨hinst', hpid'⟩ := gazelleInstanceGetByPid_some hget
    obtain rfl := h.unique j i inst' inst hinst' hinst (hpid'.trans hpid.symm)
    rw [hinst] at hinst'
    rw [Option.some.inj hinst']

/-- A pid is not found exactly when it is new. -/
theorem SlotsInv.get_eq_none (h : mgr.SlotsInv) (pid : Pid) :
    mgr.gazelleInstanceGetByPid pid = none ↔
      ∀ i inst, mgr.instances i = some inst → inst.pid ≠ pid := by
  constructor
  · intro hget i inst hinst hpid
    have hsome := (h.get pid i inst).2 ⟨hinst, hpid⟩
    rw [hget] at hsome
    cases hsome
  · intro hnew
    by_contra hsome
    obtain ⟨⟨i, inst⟩, hget⟩ := Option.ne_none_iff_exists'.1 hsome
    obtain ⟨hinst, hpid⟩ := gazelleInstanceGetByPid_some hget
    exact hnew i inst hinst hpid

/-- When an instance is not added. -/
theorem SlotsInv.add_eq_none (h : mgr.SlotsInv) (pid : Pid) (calloc : Bool) (creator : ℕ) :
    (mgr.gazelleInstanceAddByPid pid calloc creator).2 = none ↔
      (∀ i inst, mgr.instances i = some inst → inst.pid ≠ pid) ∧
        (mgr.registered.card = mgr.maxInstanceNum.toNat ∨ calloc = false) := by
  rw [← h.get_eq_none]
  unfold gazelleInstanceAddByPid
  cases hget : mgr.gazelleInstanceGetByPid pid with
  | some found => exact iff_of_false (Option.some_ne_none found) fun hnone => nomatch hnone.1
  | none =>
    have hlimit : mgr.maxInstanceNum ≤ mgr.curInstanceNum ↔
        mgr.maxInstanceNum.toNat ≤ mgr.registered.card := by
      rw [BitVec.le_def, h.count]
    rw [and_iff_right rfl]
    dsimp only
    split
    · next hfull =>
      exact iff_of_true rfl (.inl (Nat.le_antisymm h.card_le (hlimit.1 hfull)))
    · next hroom =>
      rw [hlimit] at hroom
      obtain ⟨i, hfree, -⟩ := h.freeSlot_lt (Nat.not_le.1 hroom)
      rw [hfree]
      cases calloc with
      | false => exact iff_of_true rfl (.inr rfl)
      | true =>
        refine iff_of_false (Option.some_ne_none _) ?_
        rintro (heq | hfalse)
        · exact hroom (Nat.le_of_eq heq.symm)
        · cases hfalse

/-- The loops come to every stack. -/
theorem SlotsInv.mem_loopStacks (h : mgr.SlotsInv) (addr : ℕ) :
    addr ∈ mgr.loopStacks ↔
      ∃ i inst j, mgr.instances i = some inst ∧ inst.stackArray j = some addr := by
  unfold loopStacks
  rw [List.mem_flatMap]
  constructor
  · rintro ⟨i, -, hmem⟩
    split at hmem
    · cases hmem
    · next inst hinst =>
      split at hinst
      · next hi =>
        obtain ⟨j, -, hj⟩ := List.mem_filterMap.1 hmem
        split at hj
        · next hlt => exact ⟨⟨i, hi⟩, inst, ⟨j, hlt⟩, hinst, hj⟩
        · cases hj
      · cases hinst
  · rintro ⟨i, inst, j, hinst, hj⟩
    refine ⟨i.val, List.mem_range.2 (h.below i inst hinst), ?_⟩
    rw [dif_pos i.isLt, hinst]
    refine List.mem_filterMap.2 ⟨j.val, List.mem_range.2 ?_, ?_⟩
    · exact ((h.stackArray i inst hinst).taken j).1 (by rw [hj]; rfl)
    · rw [dif_pos j.isLt]
      exact hj

/-- All that the functions may rely on. -/
theorem SlotsInv.kept (h : mgr.SlotsInv) : mgr.Kept :=
  { h with loops := h.mem_loopStacks, add := h.add_eq_none, get := h.get }

/-! ## The steps -/

/-- One slot is written. -/
theorem SlotsInv.update (h : mgr.SlotsInv) {mgr' : InstanceMgr} {i : Fin gazelleMaxInstanceNum}
    {o : Option GazelleInstance} (hmax : mgr'.maxInstanceNum = mgr.maxInstanceNum)
    (hinstances : mgr'.instances = Function.update mgr.instances i o)
    (hcount : mgr'.curInstanceNum.toNat = mgr'.registered.card)
    (hnew : ∀ inst, o = some inst → i.val < mgr.maxInstanceNum.toNat ∧ inst.StacksInv ∧
      ∀ j x, j ≠ i → mgr.instances j = some x → x.pid ≠ inst.pid) : mgr'.SlotsInv := by
  have hcases : ∀ j x, mgr'.instances j = some x →
      (j = i ∧ o = some x) ∨ (j ≠ i ∧ mgr.instances j = some x) := by
    intro j x hx
    rw [hinstances] at hx
    by_cases hj : j = i
    · subst hj
      rw [Function.update_self] at hx
      exact .inl ⟨rfl, hx⟩
    · rw [Function.update_of_ne hj] at hx
      exact .inr ⟨hj, hx⟩
  refine ⟨hmax ▸ h.limit, hcount, fun j k x x' hx hx' heq => ?_, fun j x hx => ?_,
    fun j x hx => ?_⟩
  · rcases hcases j x hx with ⟨rfl, ho⟩ | ⟨hj, hold⟩ <;>
      rcases hcases k x' hx' with ⟨rfl, ho'⟩ | ⟨hk, hold'⟩
    · rfl
    · exact absurd heq.symm ((hnew x ho).2.2 k x' hk hold')
    · exact absurd heq ((hnew x' ho').2.2 j x hj hold)
    · exact h.unique j k x x' hold hold' heq
  · rw [hmax]
    rcases hcases j x hx with ⟨rfl, ho⟩ | ⟨-, hold⟩
    · exact (hnew x ho).1
    · exact h.below j x hold
  · rcases hcases j x hx with ⟨rfl, ho⟩ | ⟨-, hold⟩
    · exact (hnew x ho).2.1
    · exact h.stackArray j x hold

/-- The slots that are taken when one is written. -/
theorem registered_update {mgr' : InstanceMgr} {i : Fin gazelleMaxInstanceNum}
    {o : Option GazelleInstance} (hinstances : mgr'.instances = Function.update mgr.instances i o) :
    mgr'.registered = if o.isSome then insert i mgr.registered else mgr.registered.erase i := by
  ext j
  rw [mem_registered, hinstances]
  by_cases hj : j = i
  · subst hj
    rw [Function.update_self]
    split <;> simp_all
  · rw [Function.update_of_ne hj]
    split <;> simp [hj, mem_registered]

/-- An instance is written back. -/
theorem SlotsInv.setInstance (h : mgr.SlotsInv) {i : Fin gazelleMaxInstanceNum}
    {old inst : GazelleInstance} (hold : mgr.instances i = some old) (hpid : inst.pid = old.pid)
    (hstacks : inst.StacksInv) : (mgr.setInstance i inst).SlotsInv := by
  refine h.update (i := i) (o := some inst) rfl rfl ?_ fun x hx => ?_
  · have hmem : i ∈ mgr.registered := mem_registered.2 (by rw [hold]; rfl)
    rw [registered_update (i := i) (o := some inst) rfl, if_pos Option.isSome_some,
      Finset.insert_eq_of_mem hmem]
    exact h.count
  · obtain rfl := Option.some.inj hx
    refine ⟨h.below i old hold, hstacks, fun j y hj hy heq => hj ?_⟩
    exact h.unique j i y old hy hold (heq.trans hpid)

/-- A new instance has no stacks. -/
theorem stacksInv_newInstance (i : Fin gazelleMaxInstanceNum) (pid : Pid) (creator : ℕ) :
    (mgr.newInstance i pid creator).StacksInv :=
  ⟨Nat.zero_le _, fun _ => iff_of_false Bool.false_ne_true (Nat.not_lt_zero _)⟩

/-- A new pid gets the first free slot. -/
theorem SlotsInv.gazelleInstanceAddByPid (h : mgr.SlotsInv) {pid : Pid} {calloc : Bool}
    {creator : ℕ} (hnew : mgr.gazelleInstanceGetByPid pid = none) {mgr' : InstanceMgr}
    {found : Option (Fin gazelleMaxInstanceNum × GazelleInstance)}
    (hadd : mgr.gazelleInstanceAddByPid pid calloc creator = (mgr', found)) :
    mgr'.SlotsInv ∧ ∀ i inst, found = some (i, inst) →
      mgr'.instances i = some inst ∧ inst = mgr.newInstance i pid creator := by
  unfold InstanceMgr.gazelleInstanceAddByPid at hadd
  rw [hnew] at hadd
  dsimp only at hadd
  split at hadd
  · -- there is no room for another instance
    obtain ⟨rfl, rfl⟩ := Prod.mk.inj hadd
    exact ⟨h, fun _ _ hfound => nomatch hfound⟩
  · next hroom =>
    -- with room there is a free slot below the limit
    rw [BitVec.le_def, h.count] at hroom
    obtain ⟨i, hfree, hnone, hlt⟩ := h.freeSlot_lt (Nat.not_le.1 hroom)
    rw [hfree] at hadd
    dsimp only at hadd
    split at hadd
    · -- `calloc` has failed
      obtain ⟨rfl, rfl⟩ := Prod.mk.inj hadd
      exact ⟨h, fun _ _ hfound => nomatch hfound⟩
    · obtain ⟨rfl, rfl⟩ := Prod.mk.inj hadd
      refine ⟨?_, fun j inst hfound => ?_⟩
      · refine h.update (i := i) (o := some (mgr.newInstance i pid creator)) rfl rfl ?_
          fun x hx => ?_
        · -- the slot was free, so the number of instances grows by one, without a wrap
          have hnot : i ∉ mgr.registered := fun hmem => by
            rw [mem_registered, hnone] at hmem
            cases hmem
          have hsmall := h.limit.2
          have hone : (1 : BitVec 32).toNat = 1 := rfl
          rw [registered_update (i := i) (o := some (mgr.newInstance i pid creator))
            rfl, if_pos Option.isSome_some, Finset.card_insert_of_notMem hnot, ← h.count]
          dsimp only
          rw [BitVec.toNat_add, h.count, hone]
          exact Nat.mod_eq_of_lt (by omega)
        · obtain rfl := Option.some.inj hx
          -- no other instance has the new pid
          exact ⟨hlt, stacksInv_newInstance i pid creator, fun j y _ hy =>
            (h.get_eq_none pid).1 hnew j y hy⟩
      · obtain ⟨rfl, rfl⟩ := Prod.mk.inj (Option.some.inj hfound)
        exact ⟨Function.update_self .., rfl⟩

/-- The slot of a pid is cleared. -/
theorem SlotsInv.gazelleSetInstanceNullByPid (h : mgr.SlotsInv) (pid : Pid) :
    (mgr.gazelleSetInstanceNullByPid pid).SlotsInv := by
  unfold InstanceMgr.gazelleSetInstanceNullByPid
  cases hget : mgr.gazelleInstanceGetByPid pid with
  | none => exact h
  | some found =>
    obtain ⟨i, inst⟩ := found
    obtain ⟨hinst, -⟩ := gazelleInstanceGetByPid_some hget
    dsimp only
    refine h.update (i := i) (o := none) rfl rfl ?_ fun x hx => nomatch hx
    have hmem : i ∈ mgr.registered := mem_registered.2 (by rw [hinst]; rfl)
    have hpos := Finset.card_pos.2 ⟨i, hmem⟩
    have hone : (1 : BitVec 32).toNat = 1 := rfl
    rw [registered_update (i := i) (o := none) rfl, if_neg (by simp),
      Finset.card_erase_of_mem hmem, ← h.count]
    dsimp only
    rw [BitVec.toNat_sub_of_le (by rw [BitVec.le_def, h.count, hone]; exact hpos), hone]

end InstanceMgr

/-! ## The requests -/

namespace LtranRegistry

open InstanceMgr

variable {reg reg' : LtranRegistry} {ok : Bool}

/-- `handle_reg_msg_proc_mem` keeps the invariant. -/
theorem slotsInv_handleRegMsgProcMem (h : reg.mgr.SlotsInv) {config : LtranConfig} {fd : ℤ}
    {creator : ℕ} {conf : ClientProcConf} {env : RegEnv}
    (hstep : reg.handleRegMsgProcMem config fd creator conf env = (reg', ok)) :
    reg'.mgr.SlotsInv := by
  unfold handleRegMsgProcMem at hstep
  split at hstep
  · next hcheck =>
    have hnew := getByPid_of_instanceInfoCheck hcheck
    split at hstep
    · next mgr hadd =>
      obtain ⟨rfl, -⟩ := Prod.mk.inj hstep
      exact (h.gazelleInstanceAddByPid hnew hadd).1
    · next mgr i inst hadd =>
      obtain ⟨hmgr, hfound⟩ := h.gazelleInstanceAddByPid hnew hadd
      obtain ⟨hinst, hsame⟩ := hfound i inst rfl
      -- nothing that is written afterwards changes the pid or the stacks
      have hset : ∀ inst' : GazelleInstance, inst'.pid = conf.pid →
          inst'.stackCnt = 0 → inst'.stackArray = (fun _ => none) →
            (mgr.setInstance i inst').SlotsInv := by
        intro inst' hpid hcnt harray
        refine hmgr.setInstance hinst (by rw [hpid, hsame]; rfl) ⟨?_, fun j => ?_⟩
        · rw [hcnt]
          exact Nat.zero_le _
        · rw [hcnt, harray]
          exact iff_of_false Bool.false_ne_true (Nat.not_lt_zero _)
      subst hsame
      split at hstep
      · obtain ⟨rfl, -⟩ := Prod.mk.inj hstep
        exact hset _ rfl rfl rfl
      · cases hcopied : env.copied <;> simp only [instanceInfoSet, hcopied] at hstep <;>
          obtain ⟨rfl, -⟩ := Prod.mk.inj hstep <;> exact hset _ rfl rfl rfl
  · obtain ⟨rfl, -⟩ := Prod.mk.inj hstep
    exact h

/-- `handle_reg_msg_proc_att` keeps the invariant. -/
theorem slotsInv_handleRegMsgProcAtt (h : reg.mgr.SlotsInv) {conf : ClientProcConf} {env : RegEnv}
    (hstep : reg.handleRegMsgProcAtt conf env = (reg', ok)) : reg'.mgr.SlotsInv := by
  unfold handleRegMsgProcAtt at hstep
  split at hstep
  · obtain ⟨rfl, -⟩ := Prod.mk.inj hstep
    exact h
  · next i inst hget =>
    obtain ⟨hinst, -⟩ := gazelleInstanceGetByPid_some hget
    have hset : ∀ inst' : GazelleInstance, inst'.pid = inst.pid →
        inst'.stackCnt = inst.stackCnt → inst'.stackArray = inst.stackArray →
          (reg.mgr.setInstance i inst').SlotsInv := by
      intro inst' hpid hcnt harray
      have hstacks := h.stackArray i inst hinst
      refine h.setInstance hinst hpid ⟨?_, ?_⟩
      · rw [hcnt]
        exact hstacks.le
      · rw [hcnt, harray]
        exact hstacks.taken
    split at hstep
    · obtain ⟨rfl, -⟩ := Prod.mk.inj hstep
      exact h
    · split at hstep <;> obtain ⟨rfl, -⟩ := Prod.mk.inj hstep <;> exact hset _ rfl rfl rfl

/-- A stack takes the first free place, which is the one after those that are taken. -/
theorem stacksInv_addStack {inst inst' : GazelleInstance} (h : inst.StacksInv)
    {idx : Fin gazelleMaxInstanceNum} {addr : ℕ} (hidx : gazelleGetFreeStackIdx inst = some idx)
    (hcnt : inst'.stackCnt = inst.stackCnt + 1)
    (harray : inst'.stackArray = Function.update inst.stackArray idx (some addr)) :
    inst'.StacksInv := by
  obtain ⟨hfree, hbefore⟩ := find?_finRange hidx
  -- the places that are taken come first, so the free one is behind them
  have hge : inst.stackCnt.toNat ≤ idx.val := by
    by_contra hlt
    have hsome := (h.taken idx).2 (Nat.not_le.1 hlt)
    rw [Option.isNone_iff_eq_none.1 hfree] at hsome
    cases hsome
  -- and the search stops at the first
  have heq : idx.val = inst.stackCnt.toNat := by
    by_contra hne
    have hlt : inst.stackCnt.toNat < idx.val := Nat.lt_of_le_of_ne hge (Ne.symm hne)
    have hnone := hbefore ⟨inst.stackCnt.toNat, Nat.lt_trans hlt idx.isLt⟩ (Fin.lt_def.2 hlt)
    have htaken := (h.taken ⟨inst.stackCnt.toNat, Nat.lt_trans hlt idx.isLt⟩).1 (by
      simpa [Option.isSome_iff_ne_none] using hnone)
    exact Nat.lt_irrefl _ htaken
  have hlt := idx.isLt
  have hone : (1 : BitVec 32).toNat = 1 := rfl
  -- the counter does not wrap at 32 stacks
  have hnew : inst'.stackCnt.toNat = inst.stackCnt.toNat + 1 := by
    have hmax : gazelleMaxInstanceNum = 32 := rfl
    rw [hcnt, BitVec.toNat_add, hone]
    exact Nat.mod_eq_of_lt (by omega)
  refine ⟨by omega, fun j => ?_⟩
  rw [harray, hnew]
  by_cases hj : j = idx
  · subst hj
    rw [Function.update_self]
    exact iff_of_true rfl (by omega)
  · have hne : j.val ≠ idx.val := fun hval => hj (Fin.ext hval)
    rw [Function.update_of_ne hj, h.taken j]
    omega

/-- `handle_reg_msg_thrd_ring` keeps the invariant. -/
theorem slotsInv_handleRegMsgThrdRing (h : reg.mgr.SlotsInv) {conf : ClientThrdConf} {env : RegEnv}
    (hstep : reg.handleRegMsgThrdRing conf env = (reg', ok)) : reg'.mgr.SlotsInv := by
  unfold handleRegMsgThrdRing at hstep
  split at hstep
  · obtain ⟨rfl, -⟩ := Prod.mk.inj hstep
    exact h
  split at hstep
  · obtain ⟨rfl, -⟩ := Prod.mk.inj hstep
    exact h
  next i inst hget =>
  obtain ⟨hinst, -⟩ := gazelleInstanceGetByPid_some hget
  split at hstep
  · obtain ⟨rfl, -⟩ := Prod.mk.inj hstep
    exact h
  split at hstep
  · obtain ⟨rfl, -⟩ := Prod.mk.inj hstep
    exact h
  split at hstep
  · obtain ⟨rfl, -⟩ := Prod.mk.inj hstep
    exact h
  next idx hidx =>
  have hset : ∀ addr, (reg.mgr.setInstance i { inst with
      stackArray := Function.update inst.stackArray idx (some addr)
      stackCnt := inst.stackCnt + 1
      regState := .regThrdRing }).SlotsInv := fun addr =>
    h.setInstance hinst rfl (stacksInv_addStack (h.stackArray i inst hinst) hidx rfl rfl)
  split at hstep <;> obtain ⟨rfl, -⟩ := Prod.mk.inj hstep <;> exact hset _

/-- `handle_instance_logout` keeps the invariant. -/
theorem slotsInv_handleInstanceLogout (h : reg.mgr.SlotsInv) (pid : Pid) :
    (reg.handleInstanceLogout pid).mgr.SlotsInv := by
  unfold handleInstanceLogout
  split
  · exact h
  · next i inst hget =>
    -- the tick does not matter
    have htick : InstanceMgr.SlotsInv
        { reg.mgr with
          instanceCurTick := Function.update reg.mgr.instanceCurTick inst.instanceCurTick
            (reg.mgr.instanceCurTick inst.instanceCurTick + 1) } :=
      ⟨h.limit, h.count, h.unique, h.below, h.stackArray⟩
    exact htick.gazelleSetInstanceNullByPid pid

end LtranRegistry

/-! ## Runs -/

/-- The requests that change the manager. -/
inductive InstanceAct
  /-- `gazelle_instance_add_by_pid`. -/
  | addByPid (pid : Pid) (calloc : Bool) (creator : ℕ)
  /-- `handle_reg_msg_proc_mem`. -/
  | procMem (config : LtranConfig) (fd : ℤ) (creator : ℕ) (conf : ClientProcConf) (env : RegEnv)
  /-- `handle_reg_msg_proc_att`. -/
  | procAtt (conf : ClientProcConf) (env : RegEnv)
  /-- `handle_reg_msg_thrd_ring`. -/
  | thrdRing (conf : ClientThrdConf) (env : RegEnv)
  /-- `handle_instance_logout`. -/
  | logout (pid : Pid)

namespace LtranRegistry

/-- One request. -/
def instanceStep (reg : LtranRegistry) : InstanceAct → Option LtranRegistry
  | .addByPid pid calloc creator =>
    some { reg with mgr := (reg.mgr.gazelleInstanceAddByPid pid calloc creator).1 }
  | .procMem config fd creator conf env =>
    some (reg.handleRegMsgProcMem config fd creator conf env).1
  | .procAtt conf env => some (reg.handleRegMsgProcAtt conf env).1
  | .thrdRing conf env => some (reg.handleRegMsgThrdRing conf env).1
  | .logout pid => some (reg.handleInstanceLogout pid)

/-- A new manager, with a limit that fits into its array. -/
def instanceSystem : Transition.System LtranRegistry InstanceAct where
  Init reg := (∀ i, reg.mgr.instances i = none) ∧ reg.mgr.curInstanceNum = 0 ∧
    1 ≤ reg.mgr.maxInstanceNum.toNat ∧ reg.mgr.maxInstanceNum.toNat ≤ gazelleMaxInstanceNum
  step := instanceStep

/-- Every request keeps the invariant. -/
theorem slotsInv_instanceStep {reg reg' : LtranRegistry} {a : InstanceAct} (h : reg.mgr.SlotsInv)
    (hstep : reg.instanceStep a = some reg') : reg'.mgr.SlotsInv := by
  cases a with
  | addByPid pid calloc creator =>
    obtain rfl := Option.some.inj hstep
    cases hget : reg.mgr.gazelleInstanceGetByPid pid with
    | none => exact (h.gazelleInstanceAddByPid hget rfl).1
    | some found =>
      simp only [InstanceMgr.gazelleInstanceAddByPid, hget]
      exact h
  | procMem config fd creator conf env =>
    obtain rfl := Option.some.inj hstep
    exact slotsInv_handleRegMsgProcMem h rfl
  | procAtt conf env =>
    obtain rfl := Option.some.inj hstep
    exact slotsInv_handleRegMsgProcAtt h rfl
  | thrdRing conf env =>
    obtain rfl := Option.some.inj hstep
    exact slotsInv_handleRegMsgThrdRing h rfl
  | logout pid =>
    obtain rfl := Option.some.inj hstep
    exact slotsInv_handleInstanceLogout h pid

/-- After every run of requests the instances and their stacks are where the loops and the searches
look for them. -/
theorem instances_kept {reg : LtranRegistry} (hs : instanceSystem.Reachable reg) :
    reg.mgr.Kept := by
  refine InstanceMgr.SlotsInv.kept (Transition.System.invariant (I := fun reg => reg.mgr.SlotsInv)
    (fun reg hinit => ?_) (fun _ _ _ _ h hstep => slotsInv_instanceStep h hstep) hs)
  obtain ⟨hnone, hcur, hlimit⟩ := hinit
  have hempty : reg.mgr.registered = ∅ := by
    ext i
    rw [InstanceMgr.mem_registered, hnone i]
    simp
  refine ⟨hlimit, ?_, fun i j x y hx => ?_, fun i x hx => ?_, fun i x hx => ?_⟩
  · rw [hcur, hempty]
    rfl
  all_goals
    rw [hnone i] at hx
    cases hx

/-- A new registry for two instances. -/
def twoInstances : LtranRegistry where
  mgr := ⟨0, 2, fun _ => 0, fun _ => none⟩
  stackTable := ⟨32, [], 0⟩

/-- The first of two instances is logged out while the second has a stack, and another one takes
its slot. -/
theorem instances_kept_reused :
    ∃ reg, instanceSystem.Reachable reg ∧ reg.mgr.loopStacks = [0] ∧ reg.mgr.Kept := by
  have hrun : (instanceSystem.run twoInstances [.addByPid 7 true 0, .addByPid 8 true 1,
      .thrdRing ⟨80, 8⟩ ⟨true, none, true, true, true⟩, .logout 7, .addByPid 9 true 2]).any
        (fun reg => decide (reg.mgr.loopStacks = [0])) = true := by decide +kernel
  obtain ⟨reg, hreg, hloop⟩ := (Option.any_eq_true _ _).1 hrun
  have hinit : instanceSystem.Init twoInstances := ⟨fun _ => rfl, rfl, by decide, by decide⟩
  have hreach := Transition.System.reachable_of_run (.init hinit) hreg
  exact ⟨reg, hreach, of_decide_eq_true hloop, instances_kept hreach⟩

/-- Without memory the first instance is not added. -/
theorem instances_kept_no_memory :
    ¬ ∀ reg : LtranRegistry, instanceSystem.Reachable reg → ∀ pid calloc creator,
      (reg.mgr.gazelleInstanceAddByPid pid calloc creator).2 = none ↔
        (∀ i inst, reg.mgr.instances i = some inst → inst.pid ≠ pid) ∧
          reg.mgr.registered.card = reg.mgr.maxInstanceNum.toNat := by
  intro h
  have hadd := (h twoInstances (.init ⟨fun _ => rfl, rfl, by decide, by decide⟩) 7 false 0).1
    (by decide +kernel)
  exact absurd hadd.2 (by decide +kernel)

end LtranRegistry

end Gazelle
