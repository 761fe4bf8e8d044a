import Gazelle.Ltran.Instance

/-!
# What a request does to the instances

The cases of the two requests of a process (`ltran_instance.c`), each with all that it writes to
the slots of the instance manager and to their ticks.

* `LtranRegistry.handleRegMsgProcMem_cases`: a free slot is filled;
* `LtranRegistry.handleRegMsgProcAtt_cases`: an instance is turned on.
-/

namespace Gazelle

variable {reg reg' : LtranRegistry} {config : LtranConfig} {conf : ClientProcConf} {env : RegEnv}
  {ok : Bool}

/-- `gazelle_instance_add_by_pid` of a new pid fails, or fills a free slot and increments its
tick. -/
theorem InstanceMgr.addByPid_cases {mgr mgr' : InstanceMgr} {pid : Pid} {calloc : Bool}
    {creator : ℕ} {found : Option (Fin gazelleMaxInstanceNum × GazelleInstance)}
    (hnew : mgr.gazelleInstanceGetByPid pid = none)
    (h : mgr.gazelleInstanceAddByPid pid calloc creator = (mgr', found)) :
    (mgr' = mgr ∧ found = none) ∨ ∃ i, mgr.instances i = none ∧
      found = some (i, mgr.newInstance i pid creator) ∧
      mgr'.instanceCurTick =
        Function.update mgr.instanceCurTick i (mgr.instanceCurTick i + 1) ∧
      mgr'.instances = Function.update mgr.instances i (some (mgr.newInstance i pid creator)) := by
  unfold InstanceMgr.gazelleInstanceAddByPid at h
  rw [hnew] at h
  dsimp only at h
  split at h
  · obtain ⟨rfl, rfl⟩ := Prod.mk.inj h
    exact .inl ⟨rfl, rfl⟩
  split at h
  · obtain ⟨rfl, rfl⟩ := Prod.mk.inj h
    exact .inl ⟨rfl, rfl⟩
  next i hfree =>
  split at h <;> obtain ⟨rfl, rfl⟩ := Prod.mk.inj h
  · exact .inl ⟨rfl, rfl⟩
  · have hnone := List.find?_some hfree
    exact .inr ⟨i, Option.isNone_iff_eq_none.1 hnone, rfl, rfl, rfl⟩

/-- `handle_reg_msg_proc_mem` fails early, or fills a free slot with an instance of the new pid that
is off and has no stacks; when it succeeds, the instance has the socket of the request. -/
theorem LtranRegistry.handleRegMsgProcMem_cases {fd : ℤ} {creator : ℕ}
    (h : reg.handleRegMsgProcMem config fd creator conf env = (reg', ok)) :
    (reg'.mgr.instanceCurTick = reg.mgr.instanceCurTick ∧
        reg'.mgr.instances = reg.mgr.instances ∧ ok = false) ∨
      ∃ i inst, reg.mgr.instances i = none ∧
        reg'.mgr.instanceCurTick =
          Function.update reg.mgr.instanceCurTick i (reg.mgr.instanceCurTick i + 1) ∧
        reg'.mgr.instances = Function.update reg.mgr.instances i (some inst) ∧
        inst.instanceCurTick = i ∧ inst.instanceRegTick = reg.mgr.instanceCurTick i ∧
        (∀ j, inst.stackArray j = none) ∧ reg.mgr.gazelleInstanceGetByPid conf.pid = none ∧
        inst.pid = conf.pid ∧ (ok = true → inst.sockfd = fd) := by
  unfold LtranRegistry.handleRegMsgProcMem at h
  split at h
  case isFalse =>
    obtain ⟨rfl, rfl⟩ := Prod.mk.inj h
    exact .inl ⟨rfl, rfl, rfl⟩
  next hcheck =>
  have hnew := LtranRegistry.getByPid_of_instanceInfoCheck hcheck
  split at h
  · next mgr hadd =>
    obtain ⟨rfl, rfl⟩ := Prod.mk.inj h
    rcases InstanceMgr.addByPid_cases hnew hadd with ⟨rfl, -⟩ | ⟨i, -, hfound, -⟩
    · exact .inl ⟨rfl, rfl, rfl⟩
    · cases hfound
  next mgr i inst hadd =>
  rcases InstanceMgr.addByPid_cases hnew hadd with ⟨-, hfound⟩ | ⟨k, hfree, hfound, htick, hinsts⟩
  · cases hfound
  obtain ⟨rfl, rfl⟩ := Prod.mk.inj (Option.some.inj hfound)
  -- the slot is written again
  have hset : ∀ inst' : GazelleInstance,
      (mgr.setInstance i inst').instances = Function.update reg.mgr.instances i (some inst') := by
    intro inst'
    rw [InstanceMgr.setInstance, hinsts, Function.update_idem]
  right
  split at h
  · obtain ⟨rfl, rfl⟩ := Prod.mk.inj h
    exact ⟨i, _, hfree, htick, hset _, rfl, rfl, fun _ => rfl, hnew, rfl,
      fun hok => absurd hok Bool.false_ne_true⟩
  -- `sockfd` is written last, after the copies of `instance_info_set` that can fail
  · cases hcopied : env.copied <;> simp only [instanceInfoSet, hcopied] at h <;>
      obtain ⟨rfl, rfl⟩ := Prod.mk.inj h
    · exact ⟨i, _, hfree, htick, hset _, rfl, rfl, fun _ => rfl, hnew, rfl,
        fun hok => absurd hok Bool.false_ne_true⟩
    · exact ⟨i, _, hfree, htick, hset _, rfl, rfl, fun _ => rfl, hnew, rfl, fun _ => rfl⟩

/-- `handle_reg_msg_proc_att` fails early, or writes to the instance of the pid, whose tick it reads
when it succeeds. -/
theorem LtranRegistry.handleRegMsgProcAtt_cases
    (h : reg.handleRegMsgProcAtt conf env = (reg', ok)) :
    (reg' = reg ∧ ok = false) ∨ ∃ i inst inst',
      reg.mgr.gazelleInstanceGetByPid conf.pid = some (i, inst) ∧
      reg'.mgr = reg.mgr.setInstance i inst' ∧ inst'.instanceCurTick = inst.instanceCurTick ∧
      inst'.stackArray = inst.stackArray ∧ inst'.pid = inst.pid ∧ inst'.sockfd = inst.sockfd ∧
      (ok = false ∧ inst'.instanceRegTick = inst.instanceRegTick ∨
        ok = true ∧ inst'.instanceRegTick = reg.mgr.instanceCurTick inst.instanceCurTick) := by
  unfold LtranRegistry.handleRegMsgProcAtt at h
  split at h
  · obtain ⟨rfl, rfl⟩ := Prod.mk.inj h
    exact .inl ⟨rfl, rfl⟩
  next i inst hget =>
  split at h
  · obtain ⟨rfl, rfl⟩ := Prod.mk.inj h
    exact .inl ⟨rfl, rfl⟩
  split at h <;> obtain ⟨rfl, rfl⟩ := Prod.mk.inj h
  · exact .inr ⟨i, inst, _, hget, rfl, rfl, rfl, rfl, rfl, .inl ⟨rfl, rfl⟩⟩
  · exact .inr ⟨i, inst, _, hget, rfl, rfl, rfl, rfl, rfl, .inr ⟨rfl, rfl⟩⟩

end Gazelle
