import Gazelle.Rpc.Calls

/-!
# The messages of the remote calls

Where a message is: in its pool, with the thread that took it, in the queue, or with the stack
thread. A caller that waits has its message locked until the function has stored the result, and
only the thread that has a message writes to it.

* `RpcSys.RpcInv`: each message is in one place;
* `RpcSys.ResultsFit`: no result is cut off;
* `RpcSys.rpc_messages_safe`: as long as `stack_send` does not free its message, the calls are safe;
* `RpcSys.rpc_returns_early`: when it does, a call can return before its function was called.
-/

namespace Gazelle

namespace QueueSys

variable {ι ν : Type*} [DecidableEq ι] [DecidableEq ν] {s s' : QueueSys ι ν}

/-- What the call of a push does. -/
theorem push_spec {i : ι} {node : ν} (h : s.step (.push i node) = some s') :
    node ∉ s.busy ∧ s'.busy = node :: s.busy ∧
      s'.producer = Function.update s.producer i (.clear node) ∧ s'.consumer = s.consumer := by
  simp only [step] at h
  split at h
  · split at h
    · cases h
    · rename_i hbusy
      obtain rfl := Option.some.inj h
      exact ⟨hbusy, rfl, rfl, rfl⟩
  · cases h

/-- What an access of a producer does: it goes on with its node, or is done. -/
theorem producer_spec {i : ι} (h : s.step (.producer i) = some s') :
    s'.busy = s.busy ∧ s'.consumer = s.consumer ∧
      ∃ pc, s'.producer = Function.update s.producer i pc ∧
        (pc = .idle ∨ pc.node = (s.producer i).node) := by
  simp only [step, producerStep] at h
  split at h
  · cases h
  · rename_i hpc
    obtain rfl := Option.some.inj h
    exact ⟨rfl, rfl, _, rfl, .inr (by rw [hpc]; rfl)⟩
  · rename_i hpc
    obtain rfl := Option.some.inj h
    exact ⟨rfl, rfl, _, rfl, .inr (by rw [hpc]; rfl)⟩
  · obtain rfl := Option.some.inj h
    exact ⟨rfl, rfl, _, rfl, .inl rfl⟩

/-- What the call of a pop does. -/
theorem pop_spec (h : s.step .pop = some s') : s'.busy = s.busy ∧ s'.producer = s.producer := by
  simp only [step] at h
  split at h
  · obtain rfl := Option.some.inj h
    exact ⟨rfl, rfl⟩
  · cases h

/-- What an access of the consumer does, before it returns a node. -/
theorem consumer_spec_of_ne (h : s.step .consumer = some s')
    (hret : ∀ node, s.consumer ≠ .ret (some node)) :
    s'.producer = s.producer ∧ s'.busy = s.busy ∧
      (s.consumer = .ret none → s'.consumer = .idle) := by
  simp only [step, consumerStep] at h
  split at h
  case h_3 =>
    -- the load of `tail->next`
    rename_i hpc
    split at h
    · split at h
      · obtain rfl := Option.some.inj h
        exact ⟨rfl, rfl, by simp [hpc]⟩
      · obtain rfl := Option.some.inj h
        exact ⟨rfl, rfl, by simp [hpc]⟩
    · split at h
      · obtain rfl := Option.some.inj h
        exact ⟨rfl, rfl, by simp [hpc]⟩
      · obtain rfl := Option.some.inj h
        exact ⟨rfl, rfl, by simp [hpc]⟩
  case h_1 => cases h
  case h_12 =>
    obtain rfl := Option.some.inj h
    exact ⟨rfl, rfl, fun _ => rfl⟩
  case h_13 =>
    rename_i node hpc
    exact absurd hpc (hret node)
  case h_5 | h_7 | h_11 =>
    rename_i hpc
    split at h
    · obtain rfl := Option.some.inj h
      exact ⟨rfl, rfl, by simp [hpc]⟩
    · obtain rfl := Option.some.inj h
      exact ⟨rfl, rfl, by simp [hpc]⟩
  all_goals
    rename_i hpc
    obtain rfl := Option.some.inj h
    exact ⟨rfl, rfl, by simp [hpc]⟩

/-- The consumer returns a message, which then is not in the queue. -/
theorem consumer_spec_of_ret {m : ν} (h : s.step .consumer = some s')
    (hret : s.consumer = .ret (some (.msg m))) :
    s'.producer = s.producer ∧ s'.consumer = .idle ∧ ∀ n, n ∈ s'.busy ↔ n ∈ s.busy ∧ n ≠ m := by
  have hstep : s.consumerStep = some s' := h
  rw [consumerStep, hret] at hstep
  obtain rfl := Option.some.inj hstep
  refine ⟨rfl, rfl, fun n => ?_⟩
  simp only [List.mem_filter, decide_eq_true_eq, ne_eq, QueueNode.msg.injEq]
  exact and_congr_right fun _ => not_congr eq_comm

end QueueSys

/-- What a thread knows about a message that it has for itself. -/
def CallPc.Owns {ν : Type*} (msg : RpcMsg) (handled : Option (BitVec 64)) : CallPc ν → Prop
  | .idle => False
  | .init call _ field =>
    handled = none ∧ (2 ≤ field → msg.func = some call.func) ∧
      (field = 3 → msg.selfRelease = true) ∧
      (4 ≤ field → msg.selfRelease = call.isSync ∧ (call.isSync = true → msg.locked = true))
  | .pushing _ _ => False
  | .waiting _ => msg.locked = false ∧ handled = some msg.result
  | .result _ => handled = some msg.result
  | .free ret _ _ => ∃ result, handled = some result ∧ ret = result.setWidth 32

namespace RpcSys

variable {ι ν : Type*} [DecidableEq ι] [DecidableEq ν] {s s' : RpcSys ι ν} {m : ν} {i : ι}

/-! ## Where a message is -/

variable (s) in
/-- The thread `i` and no other one has the message. -/
def Only (i : ι) (m : ν) : Prop := ∀ j, (s.caller j).msg? = some m ↔ j = i

/-- A message whose caller waits. -/
def SyncMsg (f : ℕ) (msg : RpcMsg) : Prop :=
  msg.func = some (.handler f) ∧ msg.selfRelease = true ∧ msg.locked = true

variable (s) in
/-- Where a message is. -/
inductive Placed (m : ν) : Prop
  /-- In its pool. -/
  | pool (hpool : s.inPool m = true) (hqueue : m ∉ s.queue.busy) (hpoller : s.poller.msg? ≠ some m)
    (hcaller : ∀ j, (s.caller j).msg? ≠ some m)
  /-- With the thread that took it. -/
  | owned (i : ι) (hpool : s.inPool m = false) (hqueue : m ∉ s.queue.busy)
    (hpoller : s.poller.msg? ≠ some m) (honly : s.Only i m)
    (howns : (s.caller i).Owns (s.msg m) (s.handled m))
  /-- In the queue, with a caller that waits. -/
  | queuedSync (i : ι) (f : ℕ) (hpool : s.inPool m = false) (hqueue : m ∈ s.queue.busy)
    (hpoller : s.poller.msg? ≠ some m) (honly : s.Only i m)
    (hcaller : s.caller i = .pushing (.sync f) m ∨ s.caller i = .waiting m)
    (hmsg : SyncMsg f (s.msg m)) (hhandled : s.handled m = none)
  /-- In the queue, without a caller that waits. -/
  | queued (hpool : s.inPool m = false) (hqueue : m ∈ s.queue.busy)
    (hpoller : s.poller.msg? = some m →
      (s.poller = .requeue m ∨ s.poller = .test m) ∧ (s.msg m).func = some .stackSend)
    (hcaller : ∀ j, (s.caller j).msg? = some m →
      ∃ call : RpcCall, call.isSync = false ∧ s.caller j = .pushing call m)
    (hfunc : (s.msg m).func.isSome) (hrelease : (s.msg m).selfRelease = false)
  /-- With the stack thread, and a caller waits. -/
  | heldSync (i : ι) (f : ℕ) (hpool : s.inPool m = false) (hqueue : m ∉ s.queue.busy)
    (honly : s.Only i m) (hcaller : s.caller i = .waiting m) (hmsg : SyncMsg f (s.msg m))
    (hpoller : s.handled m = none ∧ (s.poller = .call m ∨ s.poller = .handler m (.handler f)) ∨
      s.handled m = some (s.msg m).result ∧
        (s.poller = .test m ∨ s.poller = .release m ∨ s.poller = .unlock m))
  /-- With the stack thread, and no caller waits. -/
  | held (hpool : s.inPool m = false) (hqueue : m ∉ s.queue.busy)
    (hcaller : ∀ j, (s.caller j).msg? ≠ some m)
    (hrelease : (s.msg m).selfRelease = false)
    (hpoller : s.poller = .call m ∧ (s.msg m).func.isSome ∨
      (∃ f, s.poller = .handler m f ∧ (s.msg m).func = some f) ∨
      (s.msg m).func ≠ some .stackSend ∧ s.poller = .test m ∨ s.poller = .release m ∨
      ∃ field, s.poller = .free m field)

variable (s) in
/-- The invariant. -/
structure RpcInv : Prop where
  /-- The queue. -/
  queue : QueueSys.QueueInv s.queue
  /-- A caller that pushes does so in the queue. -/
  producer : ∀ i m, (s.queue.producer (some i)).node = some m ↔ ∃ call, s.caller i = .pushing call m
  /-- So does the stack thread. -/
  requeue : ∀ m, (s.queue.producer none).node = some m ↔ s.poller = .requeue m
  /-- The stack thread pops only in `poll_rpc_msg`. -/
  consumer : s.queue.consumer ≠ .idle → s.poller = .popping
  /-- Each message is somewhere. -/
  placed : ∀ m, s.Placed m
  /-- The message of the stack thread is not returned yet. -/
  stale : s.poller.msg?.isSome → s.stale = false
  /-- What `rpc_sync_call` returned. -/
  returns : ∀ r ∈ s.returns, ∃ result, r.2 = some result ∧ r.1 = result.setWidth 32
  /-- The pools. -/
  once : ∀ m, s.gets m = s.puts m + if s.inPool m then 0 else 1
  /-- No message was accessed after it was returned. -/
  fresh : s.accessedStale = false

/-- Nothing has happened to a message. -/
structure SameAt (s s' : RpcSys ι ν) (m : ν) : Prop where
  /-- Its fields. -/
  msg : s'.msg m = s.msg m
  /-- What its function stored. -/
  handled : s'.handled m = s.handled m
  /-- Whether it is in its pool. -/
  inPool : s'.inPool m = s.inPool m
  /-- Whether it is in the queue. -/
  busy : m ∈ s'.queue.busy ↔ m ∈ s.queue.busy
  /-- The stack thread, if it has the message. -/
  poller : s.poller.msg? = some m ∨ s'.poller.msg? = some m → s'.poller = s.poller
  /-- The threads that have it. -/
  caller : ∀ j, (s.caller j).msg? = some m ∨ (s'.caller j).msg? = some m →
    s'.caller j = s.caller j

omit [DecidableEq ι] [DecidableEq ν] in
/-- A message to which nothing has happened stays where it was. -/
theorem Placed.congr (h : s.Placed m) (hsame : SameAt s s' m) : s'.Placed m := by
  obtain ⟨hmsg, hhandled, hinPool, hbusy, hpoller', hcaller'⟩ := hsame
  -- the program counters that have the message are the same on both sides
  have hhas : ∀ j, (s'.caller j).msg? = some m ↔ (s.caller j).msg? = some m := fun j =>
    ⟨fun h => hcaller' j (.inr h) ▸ h, fun h => (hcaller' j (.inl h)).symm ▸ h⟩
  have hhand : s'.poller.msg? = some m ↔ s.poller.msg? = some m :=
    ⟨fun h => hpoller' (.inr h) ▸ h, fun h => (hpoller' (.inl h)).symm ▸ h⟩
  have honly' : ∀ {i}, s.Only i m → s'.Only i m := fun h j => (hhas j).trans (h j)
  have heq : ∀ {i}, s.Only i m → s'.caller i = s.caller i := fun {i} h =>
    hcaller' i (.inl ((h i).2 rfl))
  have hheld : ∀ {pc : PollPc ν}, pc.msg? = some m → s.poller = pc → s'.poller = pc :=
    fun hpc h => (hpoller' (.inl (h ▸ hpc))).trans h
  -- in each place only what concerns this message is transported
  cases h with
  | pool hpool hqueue hpoller hcaller =>
    exact .pool (hinPool.trans hpool) (fun h => hqueue (hbusy.1 h)) (fun h => hpoller (hhand.1 h))
      fun j h => hcaller j ((hhas j).1 h)
  | owned i hpool hqueue hpoller honly howns =>
    refine .owned i (hinPool.trans hpool) (fun h => hqueue (hbusy.1 h))
      (fun h => hpoller (hhand.1 h)) (honly' honly) ?_
    rw [heq honly, hmsg, hhandled]
    exact howns
  | queuedSync i f hpool hqueue hpoller honly hcaller hsync hnone =>
    refine .queuedSync i f (hinPool.trans hpool) (hbusy.2 hqueue) (fun h => hpoller (hhand.1 h))
      (honly' honly) ?_ (hmsg ▸ hsync) (hhandled.trans hnone)
    rw [heq honly]
    exact hcaller
  | queued hpool hqueue hpoller hcaller hfunc hrelease =>
    refine .queued (hinPool.trans hpool) (hbusy.2 hqueue) (fun h => ?_) (fun j h => ?_)
      (hmsg ▸ hfunc) (hmsg ▸ hrelease)
    · rw [hpoller' (.inr h), hmsg]
      exact hpoller (hhand.1 h)
    · rw [hcaller' j (.inr h)]
      exact hcaller j ((hhas j).1 h)
  | heldSync i f hpool hqueue honly hcaller hsync hpoller =>
    refine .heldSync i f (hinPool.trans hpool) (fun h => hqueue (hbusy.1 h)) (honly' honly)
      ((heq honly).trans hcaller) (hmsg ▸ hsync) ?_
    rw [hhandled, hmsg]
    exact hpoller.imp (fun h => ⟨h.1, h.2.imp (hheld rfl) (hheld rfl)⟩)
      fun h => ⟨h.1, h.2.imp (hheld rfl) (Or.imp (hheld rfl) (hheld rfl))⟩
  | held hpool hqueue hcaller hrelease hpoller =>
    refine .held (hinPool.trans hpool) (fun h => hqueue (hbusy.1 h))
      (fun j h => hcaller j ((hhas j).1 h)) (hmsg ▸ hrelease) ?_
    rw [hmsg]
    rcases hpoller with ⟨h, hfunc⟩ | ⟨f, h, hfunc⟩ | ⟨hfunc, h⟩ | h | ⟨field, h⟩
    · exact .inl ⟨hheld rfl h, hfunc⟩
    · exact .inr (.inl ⟨f, hheld rfl h, hfunc⟩)
    · exact .inr (.inr (.inl ⟨hfunc, hheld rfl h⟩))
    · exact .inr (.inr (.inr (.inl (hheld rfl h))))
    · exact .inr (.inr (.inr (.inr ⟨field, hheld rfl h⟩)))

/-! ## The steps of a caller -/

omit [DecidableEq ι] [DecidableEq ν] in
/-- A message of a thread that does not push it and does not wait for it is with that thread. So is
the message of a thread that finds it unlocked. -/
theorem Placed.owned_of_caller (h : s.Placed m) (hhas : (s.caller i).msg? = some m)
    (hpush : ∀ call, s.caller i ≠ .pushing call m)
    (hwait : s.caller i = .waiting m → (s.msg m).locked = false) :
    s.inPool m = false ∧ m ∉ s.queue.busy ∧ s.poller.msg? ≠ some m ∧ s.Only i m ∧
      (s.caller i).Owns (s.msg m) (s.handled m) := by
  cases h with
  | pool hpool hqueue hpoller hcaller => exact absurd hhas (hcaller i)
  | owned j hpool hqueue hpoller honly howns =>
    obtain rfl := (honly i).1 hhas
    exact ⟨hpool, hqueue, hpoller, honly, howns⟩
  | queuedSync j f hpool hqueue hpoller honly hcaller hsync hnone =>
    obtain rfl := (honly i).1 hhas
    rcases hcaller with h | h
    · exact absurd h (hpush _)
    · exact absurd ((hwait h).symm.trans hsync.2.2) Bool.false_ne_true
  | queued hpool hqueue hpoller hcaller hfunc hrelease =>
    obtain ⟨call, -, h⟩ := hcaller i hhas
    exact absurd h (hpush call)
  | heldSync j f hpool hqueue honly hcaller hsync hpoller =>
    obtain rfl := (honly i).1 hhas
    exact absurd ((hwait hcaller).symm.trans hsync.2.2) Bool.false_ne_true
  | held hpool hqueue hcaller hrelease hpoller => exact absurd hhas (hcaller i)

omit [DecidableEq ν] in
/-- A thread that goes on with its message is still the only one to have it. -/
theorem Only.goto (h : s.Only i m) (pc : CallPc ν) (hpc : pc.msg? = some m) :
    (s.goto i pc).Only i m := by
  intro j
  by_cases hj : j = i
  · subst hj
    simp [RpcSys.goto, hpc]
  · simp only [RpcSys.goto, Function.update_of_ne hj]
    exact h j

omit [DecidableEq ν] in
/-- The other threads and their messages. -/
private theorem caller_goto_iff {pc : CallPc ν} {m m' : ν} (hhas : (s.caller i).msg? = some m)
    (hpc : pc.msg? = some m ∨ pc.msg? = none) (hne : m' ≠ m) (j : ι)
    (h : (s.caller j).msg? = some m' ∨ ((s.goto i pc).caller j).msg? = some m') :
    (s.goto i pc).caller j = s.caller j := by
  by_cases hj : j = i
  · subst hj
    exfalso
    simp only [goto, Function.update_self] at h
    rcases h with h | h
    · exact hne (Option.some.inj (h.symm.trans hhas))
    · rcases hpc with hpc | hpc
      · exact hne (Option.some.inj (h.symm.trans hpc))
      · rw [hpc] at h
        cases h
  · simp only [goto, Function.update_of_ne hj]

/-- A thread outside the queue goes on outside the queue. -/
private theorem RpcInv.producer_goto (h : s.RpcInv) {pc : CallPc ν}
    (hpush : ∀ call n, s.caller i ≠ .pushing call n) (hpush' : ∀ call n, pc ≠ .pushing call n)
    (j : ι) (n : ν) : (s.queue.producer (some j)).node = some n ↔
      ∃ call, (s.goto i pc).caller j = .pushing call n := by
  rw [h.producer j n]
  by_cases hj : j = i
  · subst hj
    simp [goto, hpush, hpush']
  · simp only [goto, Function.update_of_ne hj]

/-- A thread writes to a message that it has for itself. -/
theorem RpcInv.modify_goto (h : s.RpcInv) (hhas : (s.caller i).msg? = some m)
    (hpush : ∀ call n, s.caller i ≠ .pushing call n)
    (hwait : s.caller i = .waiting m → (s.msg m).locked = false) (pc : CallPc ν)
    (hpc : pc.msg? = some m) (hpush' : ∀ call n, pc ≠ .pushing call n) (f : RpcMsg → RpcMsg)
    (howns : (s.caller i).Owns (s.msg m) (s.handled m) → pc.Owns (f (s.msg m)) (s.handled m)) :
    ((s.modify m f).goto i pc).RpcInv := by
  obtain ⟨hpool, hqueue, hpoller, honly, hown⟩ :=
    (h.placed m).owned_of_caller hhas (fun call => hpush call m) hwait
  refine ⟨h.queue, h.producer_goto hpush hpush', h.requeue, h.consumer, fun m' => ?_, h.stale,
    h.returns, h.once, h.fresh⟩
  by_cases hne : m' = m
  · subst hne
    refine .owned i hpool hqueue hpoller
      ((show (s.modify m' f).Only i m' from honly).goto pc hpc) ?_
    simp only [goto, modify, Function.update_self]
    exact howns hown
  · refine (h.placed m').congr ⟨?_, rfl, rfl, Iff.rfl, fun _ => rfl, ?_⟩
    · simp only [goto, modify, Function.update_of_ne hne]
    · exact caller_goto_iff (s := s.modify m f) hhas (.inl hpc) hne

omit [DecidableEq ι] [DecidableEq ν] in
/-- A message outside its pool is with a thread or in the queue. -/
theorem Placed.kept (h : s.Placed m) (hpool : s.inPool m = false) :
    (∃ i, (s.caller i).msg? = some m) ∨ m ∈ s.queue.busy ∨ s.poller.msg? = some m := by
  cases h with
  | pool hin => exact absurd (hin.symm.trans hpool) (by decide)
  | owned i _ _ _ honly => exact .inl ⟨i, (honly i).2 rfl⟩
  | queuedSync _ _ _ hqueue => exact .inr (.inl hqueue)
  | queued _ hqueue => exact .inr (.inl hqueue)
  | heldSync i _ _ _ honly => exact .inl ⟨i, (honly i).2 rfl⟩
  | held _ _ _ _ hpoller =>
    refine .inr (.inr ?_)
    rcases hpoller with ⟨h, -⟩ | ⟨f, h, -⟩ | ⟨-, h⟩ | h | ⟨field, h⟩ <;> rw [h] <;> rfl

omit [DecidableEq ι] [DecidableEq ν] in
/-- A message in its pool is nowhere else. -/
theorem Placed.of_inPool (h : s.Placed m) (hpool : s.inPool m = true) :
    m ∉ s.queue.busy ∧ s.poller.msg? ≠ some m ∧ ∀ j, (s.caller j).msg? ≠ some m := by
  cases h with
  | pool _ hqueue hpoller hcaller => exact ⟨hqueue, hpoller, hcaller⟩
  | owned i hout => exact absurd (hpool.symm.trans hout) (by decide)
  | queuedSync i f hout => exact absurd (hpool.symm.trans hout) (by decide)
  | queued hout => exact absurd (hpool.symm.trans hout) (by decide)
  | heldSync i f hout => exact absurd (hpool.symm.trans hout) (by decide)
  | held hout => exact absurd (hpool.symm.trans hout) (by decide)

/-- A message is taken from its pool. -/
theorem RpcInv.rpcMsgAlloc (h : s.RpcInv) {poolOf : ν → ι} {call : RpcCall} {msg : Option ν}
    (hidle : s.caller i = .idle) (hs : s.rpcMsgAlloc poolOf i call msg = some s') : s'.RpcInv := by
  cases msg with
  | none => exact Option.some.inj hs ▸ h
  | some m =>
    simp only [RpcSys.rpcMsgAlloc] at hs
    split at hs
    · rename_i hget
      obtain rfl := Option.some.inj hs
      obtain ⟨hqueue, hpoller, hcaller⟩ := (h.placed m).of_inPool hget.1
      refine ⟨h.queue, h.producer_goto (by simp [hidle]) (by simp), h.requeue, h.consumer,
        fun m' => ?_, h.stale, h.returns, fun m' => ?_, h.fresh⟩
      · -- the message leaves the pool for its caller, the others stay
        by_cases hne : m' = m
        · subst hne
          refine .owned i (Function.update_self ..) hqueue hpoller (fun j => ?_) ?_
          · by_cases hj : j = i
            · subst hj
              simp [CallPc.msg?]
            · simp only [Function.update_of_ne hj, hj, iff_false]
              exact hcaller j
          · simp only [Function.update_self]
            exact ⟨rfl, fun h => absurd h (by decide), fun h => absurd h (by decide),
              fun h => absurd h (by decide)⟩
        · refine (h.placed m').congr ⟨rfl, ?_, ?_, Iff.rfl, fun _ => rfl, fun j hj => ?_⟩
          · simp only [Function.update_of_ne hne]
          · simp only [Function.update_of_ne hne]
          · by_cases hji : j = i
            · subst hji
              simp only [hidle, Function.update_self, CallPc.msg?] at hj
              rcases hj with hj | hj
              · cases hj
              · exact absurd (Option.some.inj hj).symm hne
            · simp only [Function.update_of_ne hji]
      · -- the count of gets goes up by one, and the message is not in the pool any more
        by_cases hne : m' = m
        · subst hne
          have honce := h.once m'
          simp only [hget.1, if_true] at honce
          simp only [Function.update_self, honce]
          rfl
        · simp only [Function.update_of_ne hne]
          exact h.once m'
    · cases hs

/-- A thread returns a message that it has for itself to its pool, and its call returns. -/
theorem RpcInv.put_goto (h : s.RpcInv) {ret : BitVec 32} {field : ℕ}
    (hpc : s.caller i = .free ret m field) :
    RpcInv { (s.put m).goto i .idle with returns := s.returns ++ [(ret, s.handled m)] } := by
  have hhas : (s.caller i).msg? = some m := by rw [hpc]; rfl
  -- while the caller has the message for itself it is not in the queue, and the poller has none of
  -- it
  obtain ⟨hpool, hqueue, hpoller, honly, hown⟩ :=
    (h.placed m).owned_of_caller hhas (by simp [hpc]) (by simp [hpc])
  rw [hpc] at hown
  have hown : ∃ result, s.handled m = some result ∧ ret = result.setWidth 32 := hown
  have hidle : ∀ j, ((s.goto i .idle).caller j).msg? ≠ some m := by
    intro j
    by_cases hj : j = i
    · subst hj
      simp [goto, CallPc.msg?]
    · simp only [goto, Function.update_of_ne hj]
      exact fun hhas => hj ((honly j).1 hhas)
  refine ⟨h.queue, h.producer_goto (by simp [hpc]) (by simp), h.requeue, h.consumer,
    fun m' => ?_, fun hsome => ?_, fun r hr => ?_, fun m' => ?_, h.fresh⟩
  · -- the message that is put back, then the others
    by_cases hne : m' = m
    · subst hne
      exact .pool (Function.update_self ..) hqueue hpoller hidle
    · refine (h.placed m').congr ⟨rfl, rfl, ?_, Iff.rfl, fun _ => rfl, ?_⟩
      · simp only [put, goto, Function.update_of_ne hne]
      · exact caller_goto_iff (s := s.put m) hhas (.inr rfl) hne
  · -- nobody reads a message that went back while the poller still has it
    have hstale := h.stale hsome
    simp only [goto, put, hstale, Bool.false_or, decide_eq_false_iff_not]
    exact hpoller
  · rcases List.mem_append.1 hr with hr | hr
    · exact h.returns r hr
    · obtain rfl := List.mem_singleton.1 hr
      exact hown
  · -- one more `get` has met its `put`
    by_cases hne : m' = m
    · subst hne
      have honce := h.once m'
      rw [hpool] at honce
      simp only [goto, put, Function.update_self, honce]
      rfl
    · simp only [goto, put, Function.update_of_ne hne]
      exact h.once m'

/-- A thread puts its message into the queue. -/
theorem RpcInv.push (h : s.RpcInv) {call : RpcCall} {field : ℕ} (hfield : 4 ≤ field)
    (hpc : s.caller i = .init call m field) {queue : QueueSys (Option ι) ν}
    (hq : s.queue.step (.push (some i) m) = some queue) :
    ({ s with queue }.goto i (.pushing call m)).RpcInv := by
  have hhas : (s.caller i).msg? = some m := by rw [hpc]; rfl
  -- before the push the message is with the caller alone
  obtain ⟨hpool, hqueue, hpoller, honly, hown⟩ :=
    (h.placed m).owned_of_caller hhas (by simp [hpc]) (by simp [hpc])
  rw [hpc] at hown
  obtain ⟨hhandled, hfunc, -, hrelease⟩ := hown
  obtain ⟨-, hbusy, hproducer, hconsumer⟩ := QueueSys.push_spec hq
  refine ⟨h.queue.step hq, fun j n => ?_, fun n => ?_, fun hne => h.consumer (hconsumer ▸ hne),
    fun m' => ?_, h.stale, h.returns, h.once, h.fresh⟩
  · -- the producers of the queue are the callers in a push
    show (queue.producer (some j)).node = some n ↔ _
    rw [hproducer]
    by_cases hj : j = i
    · subst hj
      simp [goto, PushPc.node]
    · rw [Function.update_of_ne (by simpa using hj), h.producer j n]
      simp only [goto, Function.update_of_ne hj]
  · show (queue.producer none).node = some n ↔ _
    rw [hproducer, Function.update_of_ne (by simp)]
    exact h.requeue n
  · -- where the message is now depends on whether its caller waits for it
    by_cases hne : m' = m
    · subst hne
      have hin : m' ∈ queue.busy := hbusy ▸ List.mem_cons_self
      have honly' := (show RpcSys.Only { s with queue } i m' from honly).goto
        (.pushing call m') rfl
      cases hsync : call.isSync with
      | true =>
        obtain ⟨f, rfl⟩ : ∃ f, call = .sync f := by
          cases call with
          | sync f => exact ⟨f, rfl⟩
          | arp => cases hsync
          | send => cases hsync
        refine .queuedSync i f hpool hin hpoller honly' (.inl (Function.update_self ..))
          ⟨hfunc (by omega), (hrelease hfield).1, (hrelease hfield).2 rfl⟩ hhandled
      | false =>
        refine .queued hpool hin (fun hhand => absurd hhand hpoller) (fun j hj => ?_) ?_ ?_
        · obtain rfl := (honly' j).1 hj
          -- nobody waits for this message, the caller only has its name
          exact ⟨call, hsync, Function.update_self ..⟩
        · show (s.msg m').func.isSome = true
          rw [hfunc (by omega)]
          rfl
        · exact (hrelease hfield).1.trans hsync
    · refine (h.placed m').congr ⟨rfl, rfl, rfl, ?_, fun _ => rfl, ?_⟩
      · show m' ∈ queue.busy ↔ _
        rw [hbusy, List.mem_cons]
        exact or_iff_right hne
      · exact caller_goto_iff (s := { s with queue }) hhas (.inl rfl) hne

omit [DecidableEq ι] [DecidableEq ν] in
/-- The message of a thread that pushes it is in the queue. -/
theorem Placed.of_pushing (h : s.Placed m) {call : RpcCall} (hpc : s.caller i = .pushing call m) :
    s.inPool m = false ∧ m ∈ s.queue.busy ∧
      ((∃ f, call = .sync f ∧ s.poller.msg? ≠ some m ∧ s.Only i m ∧ SyncMsg f (s.msg m) ∧
          s.handled m = none) ∨
        call.isSync = false ∧
          (s.poller.msg? = some m →
            (s.poller = .requeue m ∨ s.poller = .test m) ∧ (s.msg m).func = some .stackSend) ∧
          (∀ j, (s.caller j).msg? = some m →
            ∃ call : RpcCall, call.isSync = false ∧ s.caller j = .pushing call m) ∧
          (s.msg m).func.isSome ∧ (s.msg m).selfRelease = false) := by
  have hhas : (s.caller i).msg? = some m := by rw [hpc]; rfl
  cases h with
  | pool hpool hqueue hpoller hcaller => exact absurd hhas (hcaller i)
  | owned j hpool hqueue hpoller honly howns =>
    -- the callers that have a message for themselves are past the push
    obtain rfl := (honly i).1 hhas
    rw [hpc] at howns
    exact howns.elim
  | queuedSync j f hpool hqueue hpoller honly hcaller hsync hnone =>
    -- a caller that waits for the result is the only one with the message
    obtain rfl := (honly i).1 hhas
    rw [hpc] at hcaller
    refine ⟨hpool, hqueue, .inl ⟨f, ?_, hpoller, honly, hsync, hnone⟩⟩
    -- it pushes; one that waits for the lock has pushed already
    rcases hcaller with h | h
    · cases h
      rfl
    · cases h
  | queued hpool hqueue hpoller hcaller hfunc hrelease =>
    obtain ⟨call', hsync, h⟩ := hcaller i hhas
    rw [hpc] at h
    cases h
    exact ⟨hpool, hqueue, .inr ⟨hsync, hpoller, hcaller, hfunc, hrelease⟩⟩
  | heldSync j f hpool hqueue honly hcaller hsync hpoller =>
    obtain rfl := (honly i).1 hhas
    rw [hpc] at hcaller
    cases hcaller
  | held hpool hqueue hcaller hrelease hpoller => exact absurd hhas (hcaller i)

/-- A thread makes an access in `lockless_queue_mpsc_push`. -/
theorem RpcInv.pushing (h : s.RpcInv) {call : RpcCall} (hpc : s.caller i = .pushing call m)
    {queue : QueueSys (Option ι) ν} (hq : s.queue.step (.producer (some i)) = some queue) :
    RpcInv (if queue.producer (some i) = .idle then
      { s with queue }.goto i (if call.isSync then .waiting m else .idle)
      else { s with queue }) := by
  obtain ⟨hbusy, hconsumer, pc, hproducer, hnode⟩ := QueueSys.producer_spec hq
  have hnode_i : (s.queue.producer (some i)).node = some m := (h.producer i m).2 ⟨call, hpc⟩
  have hother : ∀ j, j ≠ i → queue.producer (some j) = s.queue.producer (some j) := by
    intro j hj
    rw [hproducer, Function.update_of_ne (by simpa using hj)]
  have hrequeue : queue.producer none = s.queue.producer none := by
    rw [hproducer, Function.update_of_ne (by simp)]
  have hhas : (s.caller i).msg? = some m := by rw [hpc]; rfl
  have hmem : ∀ n, n ∈ queue.busy ↔ n ∈ s.queue.busy := fun n => by rw [hbusy]
  by_cases hidle : queue.producer (some i) = .idle
  · -- the message is in the queue
    rw [if_pos hidle]
    refine ⟨h.queue.step hq, fun j n => ?_, fun n => ?_, fun hne => h.consumer (hconsumer ▸ hne),
      fun m' => ?_, h.stale, h.returns, h.once, h.fresh⟩
    · show (queue.producer (some j)).node = some n ↔ _
      by_cases hj : j = i
      · subst hj
        rw [hidle]
        cases call.isSync
        · simp [goto, PushPc.node]
        · simp [goto, PushPc.node]
      · rw [hother j hj, h.producer j n]
        simp only [goto, Function.update_of_ne hj]
    · show (queue.producer none).node = some n ↔ _
      rw [hrequeue]
      exact h.requeue n
    · by_cases hne : m' = m
      · subst hne
        obtain ⟨hpool, hqueue, ⟨f, rfl, hpoller, honly, hsync, hnone⟩ |
          ⟨hsync, hpoller, hcaller, hfunc, hrelease⟩⟩ := (h.placed m').of_pushing hpc
        · exact .queuedSync i f hpool ((hmem m').2 hqueue) hpoller
            ((show RpcSys.Only { s with queue } i m' from honly).goto _ rfl)
            (.inr (Function.update_self ..)) hsync hnone
        · rw [hsync]
          refine .queued hpool ((hmem m').2 hqueue) hpoller (fun j hj => ?_) hfunc hrelease
          by_cases hji : j = i
          · subst hji
            simp [goto, CallPc.msg?] at hj
          · simp only [goto, Bool.false_eq_true, if_false, Function.update_of_ne hji] at hj ⊢
            exact hcaller j hj
      · refine (h.placed m').congr ⟨rfl, rfl, rfl, hmem m', fun _ => rfl, ?_⟩
        refine caller_goto_iff (s := { s with queue }) hhas ?_ hne
        cases call.isSync
        · exact .inr rfl
        · exact .inl rfl
  · rw [if_neg hidle]
    refine ⟨h.queue.step hq, fun j n => ?_, fun n => ?_, fun hne => h.consumer (hconsumer ▸ hne),
      fun m' => ?_, h.stale, h.returns, h.once, h.fresh⟩
    · show (queue.producer (some j)).node = some n ↔ _
      by_cases hj : j = i
      · subst hj
        rw [hproducer, Function.update_self] at hidle ⊢
        rw [hnode.resolve_left hidle]
        exact h.producer j n
      · rw [hother j hj]
        exact h.producer j n
    · show (queue.producer none).node = some n ↔ _
      rw [hrequeue]
      exact h.requeue n
    · exact (h.placed m').congr ⟨rfl, rfl, rfl, hmem m', fun _ => rfl, fun _ _ => rfl⟩

/-- A caller makes an access. -/
theorem RpcInv.callerStep (h : s.RpcInv) (hs : s.callerStep i = some s') : s'.RpcInv := by
  cases hpc : s.caller i with
  | idle =>
    rw [RpcSys.callerStep, hpc] at hs
    cases hs
  | init call m field =>
    have hhas : (s.caller i).msg? = some m := by rw [hpc]; rfl
    have hstep := h.modify_goto hhas (by simp [hpc]) (by simp [hpc])
    rw [RpcSys.callerStep, hpc] at hs
    rw [hpc] at hstep
    dsimp only at hs
    split at hs
    · -- the first stores say nothing about the message yet, the later ones set what the handler
      -- reads
      obtain rfl := Option.some.inj hs
      exact hstep _ rfl (by simp) _ fun hown => ⟨hown.1, fun hle => absurd hle (by decide),
        fun heq => absurd heq (by decide), fun hle => absurd hle (by decide)⟩
    · obtain rfl := Option.some.inj hs
      exact hstep _ rfl (by simp) _ fun hown => ⟨hown.1, fun _ => rfl,
        fun heq => absurd heq (by decide), fun hle => absurd hle (by decide)⟩
    · obtain rfl := Option.some.inj hs
      exact hstep _ rfl (by simp) _ fun hown =>
        ⟨hown.1, fun _ => hown.2.1 (by decide), fun _ => rfl,
        fun hle => absurd hle (by decide)⟩
    · split at hs
      · rename_i hsync
        obtain rfl := Option.some.inj hs
        exact hstep _ rfl (by simp) _ fun hown => ⟨hown.1, fun _ => hown.2.1 (by decide),
          fun heq => absurd heq (by decide), fun _ => ⟨(hown.2.2.1 rfl).trans hsync.symm,
            fun _ => rfl⟩⟩
      · rename_i hsync
        obtain rfl := Option.some.inj hs
        exact hstep _ rfl (by simp) _ fun hown => ⟨hown.1, fun _ => hown.2.1 (by decide),
          fun heq => absurd heq (by decide), fun _ => ⟨(Bool.not_eq_true _ ▸ hsync).symm,
            fun hsync' => absurd hsync' hsync⟩⟩
    · -- all fields are stored, and the message goes into the queue
      rename_i h0 h1 h2 h3
      obtain ⟨queue, hq, rfl⟩ := Option.map_eq_some_iff.1 hs
      have hfield : 4 ≤ field := by
        by_contra hlt
        have : field = 0 ∨ field = 1 ∨ field = 2 ∨ field = 3 := by omega
        rcases this with rfl | rfl | rfl | rfl
        · exact h0 rfl
        · exact h1 rfl
        · exact h2 rfl
        · exact h3 rfl
      exact h.push hfield hpc hq
  | pushing call m =>
    rw [RpcSys.callerStep, hpc] at hs
    obtain ⟨queue, hq, rfl⟩ := Option.map_eq_some_iff.1 hs
    exact h.pushing hpc hq
  | waiting m =>
    have hhas : (s.caller i).msg? = some m := by rw [hpc]; rfl
    rw [RpcSys.callerStep, hpc] at hs
    dsimp only at hs
    split at hs
    · cases hs
    · -- the lock is open, so that the handler has run and the result stays
      rename_i hlocked
      obtain rfl := Option.some.inj hs
      refine h.modify_goto hhas (by simp [hpc]) (fun _ => by simpa using hlocked) _ rfl (by simp) _
        ?_
      rw [hpc]
      exact fun hown => hown.2
  | result m =>
    have hhas : (s.caller i).msg? = some m := by rw [hpc]; rfl
    rw [RpcSys.callerStep, hpc] at hs
    -- here the result is cut to an `int32_t`
    obtain rfl := Option.some.inj hs
    have hstep := h.modify_goto hhas (by simp [hpc]) (by simp [hpc])
      (.free ((s.msg m).result.setWidth 32) m 0) rfl (by simp) id
      (by rw [hpc]; exact fun hown => ⟨_, hown, rfl⟩)
    rwa [modify, id, Function.update_eq_self] at hstep
  | free ret m field =>
    have hhas : (s.caller i).msg? = some m := by rw [hpc]; rfl
    rw [RpcSys.callerStep, hpc] at hs
    dsimp only at hs
    split at hs
    · obtain rfl := Option.some.inj hs
      have hstep := h.modify_goto hhas (by simp [hpc]) (by simp [hpc])
        (.free ret m 1) rfl (by simp) id (by rw [hpc]; exact fun hown => hown)
      rwa [modify, id, Function.update_eq_self] at hstep
    · obtain rfl := Option.some.inj hs
      refine h.modify_goto hhas (by simp [hpc]) (by simp [hpc]) _ rfl (by simp) _ ?_
      rw [hpc]
      exact fun hown => hown
    · obtain rfl := Option.some.inj hs
      -- with the last access the message returns to its pool
      exact h.put_goto hpc

/-! ## The steps of the stack thread -/

/-- The stack thread makes an access to its message. -/
structure Touches (s s' : RpcSys ι ν) (m : ν) : Prop where
  /-- The queue. -/
  queue : s'.queue = s.queue
  /-- The callers. -/
  caller : s'.caller = s.caller
  /-- The pools. -/
  inPool : s'.inPool = s.inPool
  /-- What was taken from the pools. -/
  gets : s'.gets = s.gets
  /-- What was returned to the pools. -/
  puts : s'.puts = s.puts
  /-- What the calls returned. -/
  returns : s'.returns = s.returns
  /-- The other messages. -/
  msg : ∀ n, n ≠ m → s'.msg n = s.msg n
  /-- What the functions of the other messages stored. -/
  handled : ∀ n, n ≠ m → s'.handled n = s.handled n
  /-- The stack thread has no other message afterwards. -/
  poller : ∀ n, s'.poller.msg? = some n → n = m
  /-- It is not in the queue afterwards. -/
  requeue : ∀ n, s'.poller ≠ .requeue n
  /-- The message is not returned. -/
  stale : s'.stale = s.stale
  /-- The access. -/
  accessedStale : s'.accessedStale = (s.accessedStale || s.stale)

omit [DecidableEq ι] in
/-- While the stack thread has a message, it is outside the pop. -/
theorem RpcInv.consumer_idle (h : s.RpcInv) (hhas : s.poller.msg? = some m) :
    s.queue.consumer = .idle := by
  by_contra hne
  rw [h.consumer hne] at hhas
  cases hhas

omit [DecidableEq ι] in
/-- An access to its message keeps the invariant, if the message is somewhere afterwards. -/
theorem RpcInv.touches (h : s.RpcInv) (hhas : s.poller.msg? = some m)
    (hreq : ∀ n, s.poller ≠ .requeue n) (ht : Touches s s' m) (hplaced : s'.Placed m) :
    s'.RpcInv := by
  have hstale : s.stale = false := h.stale (by rw [hhas]; rfl)
  refine ⟨ht.queue ▸ h.queue, fun i n => ?_, fun n => ?_, fun hne => ?_, fun n => ?_,
    fun _ => ht.stale.trans hstale, fun r hr => h.returns r (ht.returns ▸ hr), fun n => ?_, ?_⟩
  · rw [ht.queue, ht.caller]
    exact h.producer i n
  · rw [ht.queue, h.requeue n]
    exact iff_of_false (hreq n) (ht.requeue n)
  · rw [ht.queue] at hne
    exact absurd (h.consumer_idle hhas) hne
  · by_cases hne : n = m
    · exact hne ▸ hplaced
    · refine (h.placed n).congr ⟨ht.msg n hne, ht.handled n hne, congrFun ht.inPool n, ?_, ?_, ?_⟩
      · rw [ht.queue]
      · rintro (hn | hn)
        · exact absurd (Option.some.inj (hn.symm.trans hhas)) hne
        · exact absurd (ht.poller n hn) hne
      · exact fun j _ => congrFun ht.caller j
  · rw [ht.gets, ht.puts, ht.inPool]
    exact h.once n
  · rw [ht.accessedStale, h.fresh, hstale]
    rfl

omit [DecidableEq ι] [DecidableEq ν] in
/-- The message of the stack thread is not in the queue before the function is called and after
`func` was read again. -/
theorem Placed.of_held (h : s.Placed m) (hhas : s.poller.msg? = some m)
    (hreq : s.poller ≠ .requeue m) (htest : s.poller ≠ .test m) :
    s.inPool m = false ∧ m ∉ s.queue.busy ∧
      ((∃ i f, s.Only i m ∧ s.caller i = .waiting m ∧ SyncMsg f (s.msg m) ∧
          (s.handled m = none ∧ (s.poller = .call m ∨ s.poller = .handler m (.handler f)) ∨
            s.handled m = some (s.msg m).result ∧
              (s.poller = .release m ∨ s.poller = .unlock m))) ∨
        (∀ j, (s.caller j).msg? ≠ some m) ∧ (s.msg m).selfRelease = false ∧
          (s.poller = .call m ∧ (s.msg m).func.isSome ∨
            (∃ f, s.poller = .handler m f ∧ (s.msg m).func = some f) ∨
            s.poller = .release m ∨ ∃ field, s.poller = .free m field)) := by
  cases h with
  | pool hpool hqueue hpoller hcaller => exact absurd hhas hpoller
  | owned i hpool hqueue hpoller honly howns => exact absurd hhas hpoller
  | queuedSync i f hpool hqueue hpoller honly hcaller hsync hnone => exact absurd hhas hpoller
  | queued hpool hqueue hpoller hcaller hfunc hrelease =>
    rcases (hpoller hhas).1 with h | h
    · exact absurd h hreq
    · exact absurd h htest
  | heldSync i f hpool hqueue honly hcaller hsync hpoller =>
    refine ⟨hpool, hqueue, .inl ⟨i, f, honly, hcaller, hsync, hpoller.imp_right ?_⟩⟩
    exact fun h => ⟨h.1, h.2.resolve_left htest⟩
  | held hpool hqueue hcaller hrelease hpoller =>
    refine ⟨hpool, hqueue, .inr ⟨hcaller, hrelease, ?_⟩⟩
    rcases hpoller with h | h | ⟨-, h⟩ | h
    · exact .inl h
    · exact .inr (.inl h)
    · exact absurd h htest
    · exact .inr (.inr h)

/-- The stack thread reads which function it has to call. -/
theorem RpcInv.call (h : s.RpcInv) (hpc : s.poller = .call m) (env : HandlerEnv)
    (hs : s.pollerStep env = some s') : s'.RpcInv := by
  have hhas : s.poller.msg? = some m := by rw [hpc]; rfl
  obtain ⟨hpool, hqueue, ⟨i, f, honly, hcaller, hsync, hnone⟩ | ⟨hcaller, hrelease, hfunc⟩⟩ :=
    (h.placed m).of_held hhas (by simp [hpc]) (by simp [hpc])
  · have hfun : (s.msg m).func = some (.handler f) := hsync.1
    have hnone : s.handled m = none := by simpa [hpc] using hnone
    rw [pollerStep, hpc] at hs
    dsimp only at hs
    rw [hfun] at hs
    obtain rfl := Option.some.inj hs
    refine h.touches hhas (by simp [hpc]) ⟨rfl, rfl, rfl, rfl, rfl, rfl, fun _ _ => rfl,
      fun _ _ => rfl, fun n hn => (Option.some.inj hn).symm, by simp, rfl, rfl⟩ ?_
    exact .heldSync i f hpool hqueue honly hcaller hsync (.inl ⟨hnone, .inr rfl⟩)
  · have hfunc : (s.msg m).func.isSome := by simpa [hpc] using hfunc
    obtain ⟨f, hfun⟩ := Option.isSome_iff_exists.1 hfunc
    rw [pollerStep, hpc] at hs
    dsimp only at hs
    rw [hfun] at hs
    obtain rfl := Option.some.inj hs
    refine h.touches hhas (by simp [hpc]) ⟨rfl, rfl, rfl, rfl, rfl, rfl, fun _ _ => rfl,
      fun _ _ => rfl, fun n hn => (Option.some.inj hn).symm, by simp, rfl, rfl⟩ ?_
    exact .held hpool hqueue hcaller hrelease (.inr (.inl ⟨f, rfl, hfun⟩))

/-- A function of a waiting caller, or one that only reads its message, has finished. -/
theorem RpcInv.handler (h : s.RpcInv) {func : RpcFunc} (hpc : s.poller = .handler m func)
    (hfunc : func ≠ .stackSend) (env : HandlerEnv) (hs : s.handlerStep env m func = some s') :
    s'.RpcInv := by
  have hhas : s.poller.msg? = some m := by rw [hpc]; rfl
  obtain ⟨hpool, hqueue, hheld⟩ := (h.placed m).of_held hhas (by simp [hpc]) (by simp [hpc])
  cases func with
  | stackSend => exact absurd rfl hfunc
  | handler f =>
    obtain rfl := Option.some.inj hs
    -- the function of a waiting caller stores a result, which only that caller reads
    refine h.touches hhas (by simp [hpc]) ⟨rfl, rfl, rfl, rfl, rfl, rfl, fun n hn => ?_,
      fun n hn => ?_, fun n hn => (Option.some.inj hn).symm, by simp, rfl, rfl⟩ ?_
    · simp only [modify, access, Function.update_of_ne hn]
    · simp only [Function.update_of_ne hn]
    · rcases hheld with ⟨i, f', honly, hcaller, hsync, -⟩ | ⟨hcaller, hrelease, hf⟩
      · refine .heldSync i f' hpool hqueue honly hcaller ?_ (.inr ⟨?_, .inl rfl⟩)
        · simp only [modify, access, Function.update_self]
          exact hsync
        · simp only [modify, access, Function.update_self]
      · have hf : (s.msg m).func = some (.handler f) := by simpa [hpc] using hf
        refine .held hpool hqueue hcaller ?_ (.inr (.inr (.inl ⟨?_, rfl⟩)))
        · simp only [modify, access, Function.update_self]
          exact hrelease
        · simp [modify, access, hf]
  | stackArp =>
    obtain rfl := Option.some.inj hs
    refine h.touches hhas (by simp [hpc]) ⟨rfl, rfl, rfl, rfl, rfl, rfl, fun _ _ => rfl,
      fun _ _ => rfl, fun n hn => (Option.some.inj hn).symm, by simp, rfl, rfl⟩ ?_
    rcases hheld with ⟨i, f, honly, hcaller, hsync, hf⟩ | ⟨hcaller, hrelease, hf⟩
    · -- `stackArp` answers nobody, so nobody waits for it
      simp [hpc] at hf
    · have hf : (s.msg m).func = some .stackArp := by simpa [hpc] using hf
      refine .held hpool hqueue hcaller hrelease (.inr (.inr (.inl ⟨?_, rfl⟩)))
      show (s.msg m).func ≠ _
      rw [hf]
      decide

/-- `stack_send` puts its message into the queue. -/
theorem RpcInv.stackSend_push (h : s.RpcInv) (hpc : s.poller = .handler m .stackSend)
    {queue : QueueSys (Option ι) ν} (hq : s.queue.step (.push none m) = some queue) :
    RpcInv { s.access with queue, poller := .requeue m } := by
  have hhas : s.poller.msg? = some m := by rw [hpc]; rfl
  have hstale : s.stale = false := h.stale (by rw [hhas]; rfl)
  -- the message of `stack_send` is one that nobody waits for
  obtain ⟨hpool, hqueue, ⟨i, f, -, -, -, hf⟩ | ⟨hcaller, hrelease, hf⟩⟩ :=
    (h.placed m).of_held hhas (by simp [hpc]) (by simp [hpc])
  · simp [hpc] at hf
  have hfunc : (s.msg m).func = some .stackSend := by simpa [hpc] using hf
  obtain ⟨-, hbusy, hproducer, hconsumer⟩ := QueueSys.push_spec hq
  refine ⟨h.queue.step hq, fun i n => ?_, fun n => ?_, fun hne => ?_, fun n => ?_,
    fun _ => hstale, h.returns, h.once, ?_⟩
  · show (queue.producer (some i)).node = some n ↔ _
    rw [hproducer, Function.update_of_ne (by simp)]
    exact h.producer i n
  · show (queue.producer none).node = some n ↔ _
    rw [hproducer, Function.update_self]
    simp [PushPc.node]
  · have hne : queue.consumer ≠ .idle := hne
    rw [hconsumer] at hne
    exact absurd (h.consumer_idle hhas) hne
  · -- the message is in the queue again and still in the hands of the stack thread
    by_cases hne : n = m
    · subst hne
      refine .queued hpool ?_ (fun _ => ⟨.inl rfl, hfunc⟩) (fun j hj => absurd hj (hcaller j)) ?_
        hrelease
      · show n ∈ queue.busy
        rw [hbusy]
        exact List.mem_cons_self
      · show (s.msg n).func.isSome = true
        rw [hfunc]
        rfl
    · refine (h.placed n).congr ⟨rfl, rfl, rfl, ?_, ?_, fun _ _ => rfl⟩
      · show n ∈ queue.busy ↔ _
        rw [hbusy, List.mem_cons]
        exact or_iff_right hne
      · rintro (hn | hn)
        · exact absurd (Option.some.inj (hn.symm.trans hhas)) hne
        · exact absurd (Option.some.inj hn).symm hne
  · -- the access was to a message that is in no pool
    show (s.accessedStale || s.stale) = false
    rw [h.fresh, hstale]
    rfl

omit [DecidableEq ι] [DecidableEq ν] in
/-- The message that the stack thread puts into the queue has no caller that waits. -/
theorem Placed.of_requeue (h : s.Placed m) (hpc : s.poller = .requeue m) :
    s.inPool m = false ∧ m ∈ s.queue.busy ∧
      (∀ j, (s.caller j).msg? = some m →
        ∃ call : RpcCall, call.isSync = false ∧ s.caller j = .pushing call m) ∧
      (s.msg m).func = some .stackSend ∧ (s.msg m).selfRelease = false := by
  have hhas : s.poller.msg? = some m := by rw [hpc]; rfl
  cases h with
  | pool hpool hqueue hpoller hcaller => exact absurd hhas hpoller
  | owned i hpool hqueue hpoller honly howns => exact absurd hhas hpoller
  | queuedSync i f hpool hqueue hpoller honly hcaller hsync hnone => exact absurd hhas hpoller
  | queued hpool hqueue hpoller hcaller hfunc hrelease =>
    exact ⟨hpool, hqueue, hcaller, (hpoller hhas).2, hrelease⟩
  | heldSync i f hpool hqueue honly hcaller hsync hpoller => simp [hpc] at hpoller
  | held hpool hqueue hcaller hrelease hpoller => simp [hpc] at hpoller

/-- The stack thread makes an access in `lockless_queue_mpsc_push`. -/
theorem RpcInv.requeueing (h : s.RpcInv) (hpc : s.poller = .requeue m)
    {queue : QueueSys (Option ι) ν} (hq : s.queue.step (.producer none) = some queue) :
    RpcInv (if queue.producer none = .idle then { s.access with queue, poller := .test m }
      else { s.access with queue }) := by
  have hhas : s.poller.msg? = some m := by rw [hpc]; rfl
  have hstale : s.stale = false := h.stale (by rw [hhas]; rfl)
  have hfresh : (s.accessedStale || s.stale) = false := by rw [h.fresh, hstale]; rfl
  obtain ⟨hpool, hqueue, hcaller, hfunc, hrelease⟩ := (h.placed m).of_requeue hpc
  obtain ⟨hbusy, hconsumer, pc, hproducer, hnode⟩ := QueueSys.producer_spec hq
  have hmem : ∀ n, n ∈ queue.busy ↔ n ∈ s.queue.busy := fun n => by rw [hbusy]
  have hother : ∀ i n, (queue.producer (some i)).node = some n ↔
      ∃ call, s.caller i = .pushing call n := by
    intro i n
    rw [hproducer, Function.update_of_ne (by simp)]
    exact h.producer i n
  have hout : queue.consumer = .idle := hconsumer.trans (h.consumer_idle hhas)
  split
  · -- the message is in the queue
    rename_i hidle
    refine ⟨h.queue.step hq, hother, fun n => ?_, fun hne => absurd hout hne, fun n => ?_,
      fun _ => hstale, h.returns, h.once, hfresh⟩
    · show (queue.producer none).node = some n ↔ _
      rw [hidle]
      simp [PushPc.node]
    · by_cases hne : n = m
      · subst hne
        exact .queued hpool ((hmem n).2 hqueue) (fun _ => ⟨.inr rfl, hfunc⟩) hcaller
          (Option.isSome_iff_exists.2 ⟨_, hfunc⟩) hrelease
      · refine (h.placed n).congr ⟨rfl, rfl, rfl, hmem n, ?_, fun _ _ => rfl⟩
        rintro (hn | hn)
        · exact absurd (Option.some.inj (hn.symm.trans hhas)) hne
        · exact absurd (Option.some.inj hn).symm hne
  · rename_i hidle
    refine ⟨h.queue.step hq, hother, fun n => ?_, fun hne => absurd hout hne, fun n => ?_,
      fun _ => hstale, h.returns, h.once, hfresh⟩
    · show (queue.producer none).node = some n ↔ _
      rw [hproducer, Function.update_self] at hidle ⊢
      rw [hnode.resolve_left hidle]
      exact h.requeue n
    · exact (h.placed n).congr ⟨rfl, rfl, rfl, hmem n, fun _ => rfl, fun _ _ => rfl⟩

/-- The stack thread reads `func` again: the message of `stack_send` is in the queue, and any other
one is still with the stack thread. -/
theorem RpcInv.test (h : s.RpcInv) (hpc : s.poller = .test m) (env : HandlerEnv)
    (hs : s.pollerStep env = some s') : s'.RpcInv := by
  have hhas : s.poller.msg? = some m := by rw [hpc]; rfl
  rw [pollerStep, hpc] at hs
  dsimp only at hs
  have hplaced := h.placed m
  split at hs
  · -- the message is freed or its caller is woken
    rename_i hfunc
    obtain rfl := Option.some.inj hs
    refine h.touches hhas (by simp [hpc]) ⟨rfl, rfl, rfl, rfl, rfl, rfl, fun _ _ => rfl,
      fun _ _ => rfl, fun n hn => (Option.some.inj hn).symm, by simp, rfl, rfl⟩ ?_
    -- what the stack thread has in its hands is held
    cases hplaced with
    | pool hpool hqueue hpoller hcaller => exact absurd hhas hpoller
    | owned i hpool hqueue hpoller honly howns => exact absurd hhas hpoller
    | queuedSync i f hpool hqueue hpoller honly hcaller hsync hnone => exact absurd hhas hpoller
    | queued hpool hqueue hpoller hcaller hsome hrelease =>
      exact absurd (hpoller hhas).2 hfunc
    | heldSync i f hpool hqueue honly hcaller hsync hpoller =>
      -- the handler has stored the result before it came here
      have hdone : s.handled m = some (s.msg m).result := by
        rcases hpoller with ⟨-, h⟩ | ⟨h, -⟩
        · simp [hpc] at h
        · exact h
      exact .heldSync i f hpool hqueue honly hcaller hsync (.inr ⟨hdone, .inr (.inl rfl)⟩)
    | held hpool hqueue hcaller hrelease hpoller =>
      exact .held hpool hqueue hcaller hrelease (.inr (.inr (.inr (.inl rfl))))
  · -- the message was put into the queue again, so that it is left alone
    rename_i hfunc
    have hfunc : (s.msg m).func = some .stackSend := not_not.1 hfunc
    obtain rfl := Option.some.inj hs
    refine h.touches hhas (by simp [hpc]) ⟨rfl, rfl, rfl, rfl, rfl, rfl, fun _ _ => rfl,
      fun _ _ => rfl, fun n hn => by simp [PollPc.msg?] at hn, by simp, rfl, rfl⟩ ?_
    cases hplaced with
    | pool hpool hqueue hpoller hcaller => exact absurd hhas hpoller
    | owned i hpool hqueue hpoller honly howns => exact absurd hhas hpoller
    | queuedSync i f hpool hqueue hpoller honly hcaller hsync hnone => exact absurd hhas hpoller
    | queued hpool hqueue hpoller hcaller hsome hrelease =>
      exact .queued hpool hqueue (fun hn => by simp [PollPc.msg?] at hn) hcaller hsome hrelease
    | heldSync i f hpool hqueue honly hcaller hsync hpoller =>
      -- a message that a caller waits for does not have this function
      rw [hsync.1] at hfunc
      cases hfunc
    | held hpool hqueue hcaller hrelease hpoller => simp [hpc, hfunc] at hpoller

/-- The stack thread reads `self_release`. -/
theorem RpcInv.release (h : s.RpcInv) (hpc : s.poller = .release m) (env : HandlerEnv)
    (hs : s.pollerStep env = some s') : s'.RpcInv := by
  have hhas : s.poller.msg? = some m := by rw [hpc]; rfl
  obtain ⟨hpool, hqueue, ⟨i, f, honly, hcaller, hsync, hdone⟩ | ⟨hcaller, hrelease, -⟩⟩ :=
    (h.placed m).of_held hhas (by simp [hpc]) (by simp [hpc])
  · have hdone : s.handled m = some (s.msg m).result := by simpa [hpc] using hdone
    rw [pollerStep, hpc] at hs
    dsimp only at hs
    rw [if_pos hsync.2.1] at hs
    obtain rfl := Option.some.inj hs
    refine h.touches hhas (by simp [hpc]) ⟨rfl, rfl, rfl, rfl, rfl, rfl, fun _ _ => rfl,
      fun _ _ => rfl, fun n hn => (Option.some.inj hn).symm, by simp, rfl, rfl⟩ ?_
    exact .heldSync i f hpool hqueue honly hcaller hsync (.inr ⟨hdone, .inr (.inr rfl)⟩)
  · rw [pollerStep, hpc] at hs
    dsimp only at hs
    rw [if_neg (by simp [hrelease])] at hs
    obtain rfl := Option.some.inj hs
    refine h.touches hhas (by simp [hpc]) ⟨rfl, rfl, rfl, rfl, rfl, rfl, fun _ _ => rfl,
      fun _ _ => rfl, fun n hn => (Option.some.inj hn).symm, by simp, rfl, rfl⟩ ?_
    exact .held hpool hqueue hcaller hrelease (.inr (.inr (.inr (.inr ⟨0, rfl⟩))))

/-- The stack thread lets the caller go on. -/
theorem RpcInv.unlock (h : s.RpcInv) (hpc : s.poller = .unlock m) (env : HandlerEnv)
    (hs : s.pollerStep env = some s') : s'.RpcInv := by
  have hhas : s.poller.msg? = some m := by rw [hpc]; rfl
  obtain ⟨hpool, hqueue, ⟨i, f, honly, hcaller, hsync, hdone⟩ | ⟨-, -, hf⟩⟩ :=
    (h.placed m).of_held hhas (by simp [hpc]) (by simp [hpc])
  · have hdone : s.handled m = some (s.msg m).result := by simpa [hpc] using hdone
    rw [pollerStep, hpc] at hs
    obtain rfl := Option.some.inj hs
    refine h.touches hhas (by simp [hpc]) ⟨rfl, rfl, rfl, rfl, rfl, rfl, fun n hn => ?_,
      fun _ _ => rfl, fun n hn => by simp [PollPc.msg?] at hn, by simp, rfl, rfl⟩ ?_
    · simp only [modify, access, Function.update_of_ne hn]
    · refine .owned i hpool hqueue (by simp [PollPc.msg?]) honly ?_
      show (s.caller i).Owns _ (s.handled m)
      rw [hcaller]
      simp only [modify, access, Function.update_self]
      exact ⟨rfl, hdone⟩
  · simp [hpc] at hf

/-- The stack thread returns a message for which no caller waits. -/
theorem RpcInv.free (h : s.RpcInv) {field : ℕ} (hpc : s.poller = .free m field)
    (env : HandlerEnv) (hs : s.pollerStep env = some s') : s'.RpcInv := by
  have hhas : s.poller.msg? = some m := by rw [hpc]; rfl
  have hstale : s.stale = false := h.stale (by rw [hhas]; rfl)
  obtain ⟨hpool, hqueue, ⟨i, f, -, -, -, hf⟩ | ⟨hcaller, hrelease, -⟩⟩ :=
    (h.placed m).of_held hhas (by simp [hpc]) (by simp [hpc])
  · simp [hpc] at hf
  rw [pollerStep, hpc] at hs
  dsimp only at hs
  split at hs
  · obtain rfl := Option.some.inj hs
    refine h.touches hhas (by simp [hpc]) ⟨rfl, rfl, rfl, rfl, rfl, rfl, fun _ _ => rfl,
      fun _ _ => rfl, fun n hn => (Option.some.inj hn).symm, by simp, rfl, rfl⟩ ?_
    exact .held hpool hqueue hcaller hrelease (.inr (.inr (.inr (.inr ⟨1, rfl⟩))))
  · obtain rfl := Option.some.inj hs
    refine h.touches hhas (by simp [hpc]) ⟨rfl, rfl, rfl, rfl, rfl, rfl, fun n hn => ?_,
      fun _ _ => rfl, fun n hn => (Option.some.inj hn).symm, by simp, rfl, rfl⟩ ?_
    · simp only [modify, access, Function.update_of_ne hn]
    · refine .held hpool hqueue hcaller ?_ (.inr (.inr (.inr (.inr ⟨2, rfl⟩))))
      simp only [modify, access, Function.update_self]
  · -- the message goes back to its pool, and the stack thread turns to the next one
    obtain rfl := Option.some.inj hs
    refine ⟨h.queue, h.producer, fun n => ?_, fun hne => ?_, fun n => ?_,
      fun hsome => by simp [PollPc.msg?] at hsome, h.returns, fun n => ?_, ?_⟩
    · exact (h.requeue n).trans (iff_of_false (by simp [hpc]) (by simp))
    · exact absurd (h.consumer_idle hhas) hne
    · by_cases hne : n = m
      · subst hne
        exact .pool (Function.update_self ..) hqueue (by simp [PollPc.msg?]) hcaller
      · refine (h.placed n).congr ⟨rfl, rfl, Function.update_of_ne hne .., Iff.rfl, ?_,
          fun _ _ => rfl⟩
        rintro (hn | hn)
        · exact absurd (Option.some.inj (hn.symm.trans hhas)) hne
        · simp [PollPc.msg?] at hn
    · by_cases hne : n = m
      · subst hne
        have honce := h.once n
        rw [hpool] at honce
        simp only [put, access, Function.update_self, honce]
        rfl
      · simp only [put, access, Function.update_of_ne hne]
        exact h.once n
    · show (s.accessedStale || s.stale) = false
      rw [h.fresh, hstale]
      rfl

/-- The pop goes on, or has found no message. -/
theorem RpcInv.pop_access (h : s.RpcInv) (hpc : s.poller = .popping)
    {queue : QueueSys (Option ι) ν} (hq : s.queue.step .consumer = some queue)
    (hret : ∀ node, s.queue.consumer ≠ .ret (some node)) {pc : PollPc ν} (hnone : pc.msg? = none)
    (hpop : queue.consumer ≠ .idle → pc = .popping) : RpcInv { s with queue, poller := pc } := by
  obtain ⟨hproducer, hbusy, -⟩ := QueueSys.consumer_spec_of_ne hq hret
  refine ⟨h.queue.step hq, fun i n => ?_, fun n => ?_, hpop, fun n => ?_, fun hsome => ?_,
    h.returns, h.once, h.fresh⟩
  · show (queue.producer (some i)).node = some n ↔ _
    rw [hproducer]
    exact h.producer i n
  · show (queue.producer none).node = some n ↔ pc = _
    rw [hproducer, h.requeue n]
    refine iff_of_false (by simp [hpc]) fun hreq => ?_
    rw [hreq] at hnone
    cases hnone
  · -- the stack thread has no message, neither before nor afterwards
    refine (h.placed n).congr ⟨rfl, rfl, rfl, ?_, ?_, fun _ _ => rfl⟩
    · show n ∈ queue.busy ↔ _
      rw [hbusy]
    · rintro (hn | hn)
      · rw [hpc] at hn
        cases hn
      · rw [show pc.msg? = some n from hn] at hnone
        cases hnone
  · have hsome : pc.msg?.isSome := hsome
    rw [hnone] at hsome
    cases hsome

/-- The pop returns a message: it was in the queue, and no thread is pushing it. -/
theorem RpcInv.popped (h : s.RpcInv) (hpc : s.poller = .popping) {queue : QueueSys (Option ι) ν}
    (hq : s.queue.step .consumer = some queue) (hret : s.queue.consumer = .ret (some (.msg m))) :
    RpcInv { s with queue, poller := .call m, stale := false } := by
  obtain ⟨hproducer, hidle, hbusy⟩ := QueueSys.consumer_spec_of_ret hq hret
  have hcons := h.queue.consumer
  rw [hret] at hcons
  obtain ⟨n, hn, hmem, -, hfree⟩ := hcons
  obtain rfl := QueueNode.msg.inj hn
  -- a message leaves the queue after its push has ended
  have hpush : ∀ i call, s.caller i ≠ .pushing call m := fun i call hi =>
    hfree (some i) ((h.producer i m).2 ⟨call, hi⟩)
  have hout : m ∉ queue.busy := fun hin => ((hbusy m).1 hin).2 rfl
  refine ⟨h.queue.step hq, fun i n => ?_, fun n => ?_, fun hne => absurd hidle hne, fun n => ?_,
    fun _ => rfl, h.returns, h.once, h.fresh⟩
  · show (queue.producer (some i)).node = some n ↔ _
    rw [hproducer]
    exact h.producer i n
  · show (queue.producer none).node = some n ↔ _
    rw [hproducer, h.requeue n]
    exact iff_of_false (by simp [hpc]) (by simp)
  · -- the message that was popped was waited for or sent; it is with the stack thread now
    by_cases hne : n = m
    · subst hne
      cases h.placed n with
      | pool hpool hqueue hpoller hcaller => exact absurd hmem hqueue
      | owned i hpool hqueue hpoller honly howns => exact absurd hmem hqueue
      | queuedSync i f hpool hqueue hpoller honly hcaller hsync hnone =>
        exact .heldSync i f hpool hout honly (hcaller.resolve_left (hpush i _)) hsync
          (.inl ⟨hnone, .inl rfl⟩)
      | queued hpool hqueue hpoller hcaller hfunc hrelease =>
        refine .held hpool hout (fun j hj => ?_) hrelease (.inl ⟨rfl, hfunc⟩)
        obtain ⟨call, -, hj⟩ := hcaller j hj
        exact hpush j call hj
      | heldSync i f hpool hqueue honly hcaller hsync hpoller => exact absurd hmem hqueue
      | held hpool hqueue hcaller hrelease hpoller => exact absurd hmem hqueue
    · refine (h.placed n).congr ⟨rfl, rfl, rfl, ?_, ?_, fun _ _ => rfl⟩
      · exact (hbusy n).trans (and_iff_left hne)
      · rintro (hn | hn)
        · rw [hpc] at hn
          cases hn
        · exact absurd (Option.some.inj hn).symm hne

/-- The stack thread makes an access in `lockless_queue_mpsc_pop`. -/
theorem RpcInv.popStep (h : s.RpcInv) (hpc : s.poller = .popping) (env : HandlerEnv)
    (hs : s.pollerStep env = some s') : s'.RpcInv := by
  rw [pollerStep, hpc] at hs
  dsimp only at hs
  split at hs
  · rename_i hret
    obtain ⟨queue, hq, rfl⟩ := Option.map_eq_some_iff.1 hs
    refine h.pop_access hpc hq (by simp [hret]) rfl fun hne => absurd ?_ hne
    exact (QueueSys.consumer_spec_of_ne hq (by simp [hret])).2.2 hret
  · rename_i m hret
    obtain ⟨queue, hq, rfl⟩ := Option.map_eq_some_iff.1 hs
    exact h.popped hpc hq hret
  · cases hs
  · rename_i hnone hmsg hstub
    obtain ⟨queue, hq, rfl⟩ := Option.map_eq_some_iff.1 hs
    have hret : ∀ node, s.queue.consumer ≠ .ret (some node) := by
      rintro (_ | node)
      · exact hstub
      · exact hmsg node
    exact h.pop_access hpc hq hret rfl fun _ => rfl

/-- The stack thread makes an access in `poll_rpc_msg`. -/
theorem RpcInv.pollerStep (h : s.RpcInv) {env : HandlerEnv}
    (hkeeps : ∀ m func, s.poller = .handler m func → HandlerMeets env func)
    (hs : s.pollerStep env = some s') : s'.RpcInv := by
  cases hpc : s.poller with
  | idle =>
    rw [RpcSys.pollerStep, hpc] at hs
    cases hs
  | popping => exact h.popStep hpc env hs
  | call m => exact h.call hpc env hs
  | handler m func =>
    have hstep := hs
    rw [RpcSys.pollerStep, hpc] at hstep
    -- only `stack_send` pushes its message again; the other functions keep it
    by_cases hfunc : func = .stackSend
    · subst hfunc
      have hrequeues : requeues env = true := hkeeps m _ hpc
      simp only [handlerStep, hrequeues, if_true] at hstep
      obtain ⟨queue, hq, rfl⟩ := Option.map_eq_some_iff.1 hstep
      exact h.stackSend_push hpc hq
    · exact h.handler hpc hfunc env hstep
  | requeue m =>
    rw [RpcSys.pollerStep, hpc] at hs
    obtain ⟨queue, hq, rfl⟩ := Option.map_eq_some_iff.1 hs
    exact h.requeueing hpc hq
  | sendFree m field =>
    have hhas : s.poller.msg? = some m := by rw [hpc]; rfl
    -- the function of `stack_send` does not free its message here
    obtain ⟨-, -, ⟨i, f, -, -, -, hf⟩ | ⟨-, -, hf⟩⟩ :=
      (h.placed m).of_held hhas (by simp [hpc]) (by simp [hpc])
    · simp [hpc] at hf
    · simp [hpc] at hf
  | test m => exact h.test hpc env hs
  | release m => exact h.release hpc env hs
  | unlock m => exact h.unlock hpc env hs
  | free m field => exact h.free hpc env hs

/-! ## The calls -/

omit [DecidableEq ι] in
/-- The invariant holds at the beginning. -/
theorem RpcInv.create (next : QueueNode ν → Option (QueueNode ν)) (msg : ν → RpcMsg) :
    (create next msg : RpcSys ι ν).RpcInv where
  queue := .create next
  producer i m := by simp [RpcSys.create, QueueSys.create, PushPc.node]
  requeue m := by simp [RpcSys.create, QueueSys.create, PushPc.node]
  consumer hne := absurd rfl hne
  placed m := .pool rfl (by simp [RpcSys.create, QueueSys.create])
    (by simp [RpcSys.create, PollPc.msg?]) (by simp [RpcSys.create, CallPc.msg?])
  stale _ := rfl
  returns r hr := by simp [RpcSys.create] at hr
  once m := by simp [RpcSys.create]
  fresh := rfl

/-- A step keeps the invariant, unless `stack_send` frees its message. -/
theorem RpcInv.step (h : s.RpcInv) {poolOf : ν → ι} {a : RpcAct ι ν} (hkeeps : KeepsMsg s a)
    (hs : s.step poolOf a = some s') : s'.RpcInv := by
  cases a with
  | call i call msg =>
    cases hpc : s.caller i with
    | idle =>
      rw [RpcSys.step, hpc] at hs
      exact h.rpcMsgAlloc hpc hs
    | _ =>
      rw [RpcSys.step, hpc] at hs
      cases hs
  | caller i => exact h.callerStep hs
  | poll =>
    cases hpc : s.poller with
    | idle =>
      rw [RpcSys.step, hpc] at hs
      obtain ⟨queue, hq, rfl⟩ := Option.map_eq_some_iff.1 hs
      -- the pop begins, and nothing has left the queue yet
      obtain ⟨hbusy, hproducer⟩ := QueueSys.pop_spec hq
      refine ⟨h.queue.step hq, fun i n => ?_, fun n => ?_, fun _ => rfl, fun n => ?_,
        fun hsome => by simp [PollPc.msg?] at hsome, h.returns, h.once, h.fresh⟩
      · show (queue.producer (some i)).node = some n ↔ _
        rw [hproducer]
        exact h.producer i n
      · show (queue.producer none).node = some n ↔ _
        rw [hproducer, h.requeue n]
        exact iff_of_false (by simp [hpc]) (by simp)
      · refine (h.placed n).congr ⟨rfl, rfl, rfl, ?_, ?_, fun _ _ => rfl⟩
        · show n ∈ queue.busy ↔ _
          rw [hbusy]
        · rintro (hn | hn)
          · rw [hpc] at hn
            cases hn
          · cases hn
    | _ =>
      rw [RpcSys.step, hpc] at hs
      cases hs
  | poller env => exact h.pollerStep hkeeps hs

/-! ## The results -/

/-- The results that the functions have stored are in the range of `int32_t`. -/
structure ResultsFit (s : RpcSys ι ν) : Prop where
  /-- Those of the messages that are in use. -/
  handled : ∀ m result, s.handled m = some result → FitsInt32 result
  /-- Those of the calls that have returned. -/
  returned : ∀ r ∈ s.returns, ∀ result, r.2 = some result → FitsInt32 result

/-- A result that fits is not cut off. -/
theorem FitsInt32.toInt_setWidth {result : BitVec 64} (h : FitsInt32 result) :
    (result.setWidth 32).toInt = result.toInt := by
  obtain ⟨hlow, hhigh⟩ := h
  have hlt := result.isLt
  rw [BitVec.toInt_setWidth, Int.bmod_def]
  rw [BitVec.toInt_eq_toNat_cond] at hlow hhigh ⊢
  split at hlow <;> split <;> omega

/-- A caller stores no result, and what it returns with is that of its message. -/
theorem history_of_callerStep (hs : s.callerStep i = some s') :
    s'.handled = s.handled ∧
      (s'.returns = s.returns ∨ ∃ ret m, s'.returns = s.returns ++ [(ret, s.handled m)]) := by
  unfold RpcSys.callerStep at hs
  split at hs
  case h_1 => cases hs
  case h_2 call m field hpc =>
    split at hs
    case h_4 => split at hs <;> exact Option.some.inj hs ▸ ⟨rfl, .inl rfl⟩
    case h_5 =>
      obtain ⟨queue, -, rfl⟩ := Option.map_eq_some_iff.1 hs
      exact ⟨rfl, .inl rfl⟩
    all_goals exact Option.some.inj hs ▸ ⟨rfl, .inl rfl⟩
  case h_3 call m hpc =>
    obtain ⟨queue, -, rfl⟩ := Option.map_eq_some_iff.1 hs
    split <;> exact ⟨rfl, .inl rfl⟩
  case h_4 m hpc =>
    split at hs
    · cases hs
    · exact Option.some.inj hs ▸ ⟨rfl, .inl rfl⟩
  case h_5 m hpc => exact Option.some.inj hs ▸ ⟨rfl, .inl rfl⟩
  case h_6 ret m field hpc =>
    split at hs
    case h_3 => exact Option.some.inj hs ▸ ⟨rfl, .inr ⟨ret, m, rfl⟩⟩
    all_goals exact Option.some.inj hs ▸ ⟨rfl, .inl rfl⟩

/-- The stack thread returns from no call, and stores the result of a function that it has
called. -/
theorem history_of_pollerStep {env : HandlerEnv} (hs : s.pollerStep env = some s') :
    s'.returns = s.returns ∧
      (s'.handled = s.handled ∨ ∃ m f, s.poller = .handler m (.handler f) ∧
        s'.handled = Function.update s.handled m (some env.result)) := by
  unfold RpcSys.pollerStep at hs
  split at hs
  case h_1 => cases hs
  case h_2 hpc =>
    split at hs
    case h_3 => cases hs
    all_goals
      obtain ⟨queue, -, rfl⟩ := Option.map_eq_some_iff.1 hs
      exact ⟨rfl, .inl rfl⟩
  case h_4 m func hpc =>
    cases func with
    | handler f => exact Option.some.inj hs ▸ ⟨rfl, .inr ⟨m, f, hpc, rfl⟩⟩
    | stackArp => exact Option.some.inj hs ▸ ⟨rfl, .inl rfl⟩
    | stackSend =>
      rw [handlerStep] at hs
      split at hs
      · obtain ⟨queue, -, rfl⟩ := Option.map_eq_some_iff.1 hs
        exact ⟨rfl, .inl rfl⟩
      · exact Option.some.inj hs ▸ ⟨rfl, .inl rfl⟩
  case h_5 m hpc =>
    obtain ⟨queue, -, rfl⟩ := Option.map_eq_some_iff.1 hs
    split <;> exact ⟨rfl, .inl rfl⟩
  case h_9 m hpc => exact Option.some.inj hs ▸ ⟨rfl, .inl rfl⟩
  all_goals split at hs <;> exact Option.some.inj hs ▸ ⟨rfl, .inl rfl⟩

/-- The results of the functions that are called fit. -/
theorem ResultsFit.step (h : s.ResultsFit) {poolOf : ν → ι} {a : RpcAct ι ν} (hkeeps : KeepsMsg s a)
    (hs : s.step poolOf a = some s') : s'.ResultsFit := by
  cases a with
  | call i call msg =>
    simp only [RpcSys.step] at hs
    split at hs
    · cases msg with
      | none => exact Option.some.inj hs ▸ h
      | some m =>
        simp only [rpcMsgAlloc, Option.ite_none_right_eq_some] at hs
        obtain ⟨-, hs⟩ := hs
        obtain rfl := Option.some.inj hs
        -- a new message has no result
        refine ⟨fun n result hn => ?_, h.returned⟩
        by_cases hne : n = m
        · subst hne
          simp only [Function.update_self] at hn
          cases hn
        · simp only [Function.update_of_ne hne] at hn
          exact h.handled n result hn
    · cases hs
  | caller i =>
    obtain ⟨hhandled, hreturns⟩ := history_of_callerStep hs
    -- what a call returns was stored in its message
    refine ⟨hhandled ▸ h.handled, fun r hr result hresult => ?_⟩
    rcases hreturns with heq | ⟨ret, m, heq⟩
    · exact h.returned r (heq ▸ hr) result hresult
    · rw [heq, List.mem_append, List.mem_singleton] at hr
      rcases hr with hr | rfl
      · exact h.returned r hr result hresult
      · exact h.handled m result hresult
  | poll =>
    simp only [RpcSys.step] at hs
    split at hs
    · obtain ⟨queue, -, rfl⟩ := Option.map_eq_some_iff.1 hs
      exact ⟨h.handled, h.returned⟩
    · cases hs
  | poller env =>
    obtain ⟨hreturns, hhandled⟩ := history_of_pollerStep hs
    -- only a handler that is called stores a result, and the condition bounds it
    refine ⟨fun n result hn => ?_, hreturns ▸ h.returned⟩
    rcases hhandled with heq | ⟨m, f, hpc, heq⟩
    · exact h.handled n result (heq ▸ hn)
    · rw [heq] at hn
      by_cases hne : n = m
      · rw [hne, Function.update_self] at hn
        exact Option.some.inj hn ▸ hkeeps m _ hpc
      · rw [Function.update_of_ne hne] at hn
        exact h.handled n result hn

omit [DecidableEq ι] in
/-- The calls are safe when the invariants hold. -/
theorem RpcInv.safe (h : s.RpcInv) (hfit : s.ResultsFit) : s.Safe where
  returns r hr := by
    obtain ⟨result, hresult, hret⟩ := h.returns r hr
    exact ⟨result, hresult, hret ▸ (hfit.returned r hr result hresult).toInt_setWidth⟩
  once := h.once
  kept m hpool := (h.placed m).kept hpool
  unqueued m hpool := ((h.placed m).of_inPool hpool).1
  fresh := h.fresh

/-- As long as `stack_send` puts each of its messages into the queue again, and the functions store
results that are not cut off, the calls are safe in every interleaving of the threads. -/
theorem rpc_messages_safe {poolOf : ν → ι} (hs : (system poolOf).ReachableUnder KeepsMsg s) :
    s.Safe := by
  have h : s.RpcInv ∧ s.ResultsFit := by
    refine Transition.System.invariant_under (I := fun s => s.RpcInv ∧ s.ResultsFit) ?_ ?_ hs
    · rintro _ ⟨next, msg, rfl⟩
      refine ⟨RpcInv.create next msg, fun m result hm => ?_, fun r hr => ?_⟩
      · cases hm
      · exact absurd hr List.not_mem_nil
    · exact fun s a s' h hkeeps hstep => ⟨h.1.step hkeeps hstep, h.2.step hkeeps hstep⟩
  exact h.1.safe h.2

/-- What a function finds when `stack_send` has more to do. -/
private def moreToSend (result : BitVec 64) : HandlerEnv := ⟨result, true, true, false, 0⟩

/-- What a function finds when `stack_send` has sent everything. -/
private def allSent : HandlerEnv := ⟨7, true, false, false, 0⟩

section

variable {ι ν : Type} [DecidableEq ι] [DecidableEq ν]

/-- A thread takes the message and puts it into the queue. -/
private def callRun (i : ι) (m : ν) (call : RpcCall) : List (RpcAct ι ν) :=
  .call i call (some m) :: List.replicate 8 (.caller i)

/-- The stack thread takes the first message out of the queue and handles it, in `n` accesses. -/
private def pollRun (env : HandlerEnv) (n : ℕ) : List (RpcAct ι ν) :=
  .poll :: List.replicate n (.poller env)

/-- The threads before the first call. -/
private def noCalls : RpcSys ι ν := create (fun _ => none) fun _ => ⟨false, false, 0, none⟩

private theorem noCalls_init {poolOf : ν → ι} : (system poolOf).Init noCalls := ⟨_, _, rfl⟩

end

/-- Two threads have their messages in the queue at once, and each call returns what its own
stored. -/
theorem rpc_messages_safe_two :
    ∃ s : RpcSys Bool Bool, (system id).ReachableUnder KeepsMsg s ∧
      s.returns = [(7, some 7), (8, some 8)] ∧ s.Safe := by
  let acts : List (RpcAct Bool Bool) :=
    callRun false false (.sync 0) ++ callRun true true (.sync 0) ++ pollRun (moreToSend 7) 11 ++
      pollRun (moreToSend 8) 14 ++ List.replicate 5 (.caller false) ++
      List.replicate 5 (.caller true)
  have hrun : ((system id).run noCalls acts).any (fun s =>
      s.returns = [(7, some 7), (8, some 8)]) = true := by
    decide +kernel
  obtain ⟨s, hs, hreturns⟩ := (Option.any_eq_true _ _).1 hrun
  have hmeet : (system id).stepsMeet KeepsMsg noCalls acts := by
    refine Transition.System.stepsMeet_of_forall (fun a ha t => ?_) noCalls
    cases a with
    | poller env =>
      have henv : env = moreToSend 7 ∨ env = moreToSend 8 := by
        simpa [acts, callRun, pollRun] using ha
      intro m func _
      cases func with
      | stackSend => rcases henv with rfl | rfl <;> rfl
      | stackArp => trivial
      | handler f => rcases henv with rfl | rfl <;> exact ⟨by decide, by decide⟩
    | _ => trivial
  have hreach := Transition.System.reachableUnder_of_run (.init noCalls_init) hs hmeet
  exact ⟨s, hreach, of_decide_eq_true hreturns, rpc_messages_safe hreach⟩

/-- `stack_send` returns its message to the pool. The thread takes the message for a call that
waits, the stack thread reads `func` and `self_release` of that call, and unlocks the message. The
call returns before its function is called. -/
theorem rpc_returns_early :
    ¬ ∀ s : RpcSys Unit Unit, (system fun _ => ()).Reachable s → s.Safe := by
  intro hclaim
  have hrun : ((system fun _ => ()).run noCalls
      (callRun () () .send ++ pollRun allSent 16 ++ callRun () () (.sync 0) ++
        List.replicate 3 (.poller allSent) ++ List.replicate 5 (.caller ()))).any (fun s =>
          s.returns = [(0, none)]) = true := by
    decide +kernel
  obtain ⟨s, hs, hreturns⟩ := (Option.any_eq_true _ _).1 hrun
  have hreach := Transition.System.reachable_of_run (.init noCalls_init) hs
  obtain ⟨result, hresult, -⟩ :=
    (hclaim s hreach).returns (0, none) (by simp [of_decide_eq_true hreturns])
  cases hresult

end RpcSys

end Gazelle
