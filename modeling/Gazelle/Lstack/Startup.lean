import Gazelle.Config.StackArrays
import Gazelle.Transition.Completion
import Mathlib.Algebra.BigOperators.Fin
import Mathlib.Algebra.Order.BigOperators.Group.Finset

/-!
# The start of lstack

`gazelle_network_init` starts a stack thread for every queue, and each of these starts a thread for
the events of the kernel. The threads tell one another by semaphores how far they are: the main
thread frees the parameters of the threads after `thread_phase1` was posted twice for every stack,
and ends the start after `all_init` was posted once for every stack. Nobody takes from these
semaphores, so a wait is over when the value is high enough (`wait_sem_value`).

* `Startup.system`: all orders of the steps, with all failures;
* `Startup.startup_success`: when the start has succeeded, all stack threads poll;
* `Startup.startup_params`: no thread reads parameters that were freed, unless a stack thread posts
  `thread_phase1` a third time;
* `Startup.startup_completes`: the start comes to an end, unless the listen thread gives up.
-/

namespace Gazelle

/-! ## The threads -/

/-- What becomes of the calls of a step. -/
inductive StartOutcome
  /-- They succeed. -/
  | done
  /-- One of them fails. -/
  | failed
  /-- `pthread_create` succeeds, and then `pthread_setname_np` fails. -/
  | unnamed
  deriving DecidableEq

/-- Where the main thread stands in `gazelle_network_init`. -/
inductive MainStart
  /-- `init_protocol_sem` and `create_pktmbuf_mempool`. -/
  | init
  /-- The loop of `init_protocol_stack`, before thread `i`. -/
  | create (i : ℕ)
  /-- It waits for `thread_phase1`. -/
  | waitPhase1
  /-- It frees the parameters. -/
  | freeParams
  /-- It starts the listen thread. -/
  | createListen
  /-- It waits for `sem_listen_thread`. -/
  | waitListen
  /-- `get_init_fail` at the end of `init_protocol_stack`. -/
  | checkFail
  /-- `init_dpdk_ethdev`. -/
  | initEthdev
  /-- It waits for `all_init`. -/
  | waitAll
  /-- It reads `g_init_fail`. -/
  | checkAll
  /-- `set_process_start_flag`. -/
  | setFlag
  /-- `gazelle_network_init` has returned, and calls go to lstack. -/
  | success
  /-- `LSTACK_EXIT`. -/
  | exited
  deriving DecidableEq

/-- Where a stack thread stands. -/
inductive StackStart
  /-- It is not created yet. -/
  | absent
  /-- `gazelle_stack_thread` before it reads its parameters. -/
  | start
  /-- `stack_thread_init` before `calloc`. -/
  | alloc
  /-- `init_stack_value`, which reads the parameters. -/
  | initValue
  /-- `init_stack_numa_cpuset`. -/
  | numa
  /-- `create_affiliate_thread`, which reads the parameters. -/
  | affiliate
  /-- `thread_affinity_init`. -/
  | affinity
  /-- `hugepage_init` and `tcpip_init`. -/
  | hugepage
  /-- `client_reg_thrd_ring`. -/
  | register
  /-- Before it posts `thread_phase1`. -/
  | postPhase1
  /-- It waits for `ethdev_init`. -/
  | waitEthdev
  /-- `ethdev_init`. -/
  | ethdev
  /-- `init_listen_and_user_ports`. -/
  | initPorts
  /-- Before it posts `all_init`. -/
  | postAll
  /-- The loop of `gazelle_stack_thread`. -/
  | polling
  /-- `END2`, with whether there is a stack to free. -/
  | end2 (stack : Bool)
  /-- `END1`. -/
  | end1 (stack : Bool)
  /-- `END1` before it frees the stack. -/
  | freeStack (stack : Bool)
  /-- Before `set_init_fail`. -/
  | setFail
  /-- After it, before `all_init` is posted. -/
  | postFail
  /-- `gazelle_stack_thread` has returned. -/
  | returned
  deriving DecidableEq

/-- Where the thread for the events of the kernel stands. -/
inductive KernelStart
  /-- It is not created yet. -/
  | absent
  /-- `gazelle_kernelevent_thread` before it reads its parameters. -/
  | start
  /-- Before it posts `thread_phase1`. -/
  | postPhase1
  /-- `bind_to_stack_numa`. -/
  | bind
  /-- Its loop. -/
  | polling
  deriving DecidableEq

/-- Where the listen thread stands. -/
inductive ListenStart
  /-- It is not created yet. -/
  | absent
  /-- `recv_pkts_from_other_process` before its socket listens. -/
  | setup
  /-- After it has posted `sem_listen_thread`. -/
  | accepting
  /-- It has returned before. -/
  | ended
  deriving DecidableEq

/-- What the start depends on. -/
structure StartConf where
  /-- `stack_num`, which is `num_queue`. -/
  stackNum : ℕ
  /-- `use_ltran`. -/
  useLtran : Bool
  /-- `process_idx`. -/
  processIdx : ℕ

/-- lstack while it starts. -/
structure Startup (n : ℕ) where
  /-- The main thread. -/
  main : MainStart
  /-- The stack threads. -/
  stack : Fin n → StackStart
  /-- The threads for the events of the kernel. -/
  kernel : Fin n → KernelStart
  /-- The listen thread. -/
  listen : ListenStart
  /-- `thread_phase1`. -/
  phase1 : ℕ
  /-- `ethdev_init`. -/
  ethdevInit : ℕ
  /-- `all_init`. -/
  allInit : ℕ
  /-- `sem_listen_thread`. -/
  semListen : ℕ
  /-- `g_init_fail`. -/
  initFail : Bool
  /-- The parameters of so many threads are freed. -/
  paramsFreed : ℕ
  /-- The stacks that are freed. -/
  stackFreed : Fin n → Bool

/-- The steps. -/
inductive StartAct (n : ℕ)
  /-- The main thread goes on. -/
  | main (r : StartOutcome)
  /-- A stack thread goes on. -/
  | stack (i : Fin n) (r : StartOutcome)
  /-- A thread for the events of the kernel goes on. -/
  | kernel (i : Fin n)
  /-- The listen thread goes on. -/
  | listen (r : StartOutcome)

namespace Startup

variable (conf : StartConf)

/-- `queue_id` of a thread. -/
def queueId (i : ℕ) : ℕ := conf.processIdx * conf.stackNum + i

/-- `create_thread`: whether the thread was created, and whether `0` is returned. -/
def createThread (queueId : ℕ) (r : StartOutcome) : Bool × Bool :=
  if StackArrays.protocolStackMax ≤ queueId then (false, false)
  else
    -- a thread whose name could not be set runs, but `-1` is returned
    match r with
    | .done => (true, true)
    | .failed => (false, false)
    | .unnamed => (true, false)

variable (s : Startup conf.stackNum)

/-- A call succeeds or fails. -/
def next {P : Type} (r : StartOutcome) (ok fail : P) : P := if r = .done then ok else fail

/-- The main thread goes on. -/
def mainStep (r : StartOutcome) : Option (Startup conf.stackNum) :=
  match s.main with
  | .init => some { s with main := next r (.create 0) .exited }
  | .create i =>
    if h : i < conf.stackNum then
      let (created, ok) := createThread (queueId conf i) r
      some { s with
        stack := if created then Function.update s.stack ⟨i, h⟩ .start else s.stack
        main := if ok then .create (i + 1) else .exited }
    else some { s with main := .waitPhase1 }
  | .waitPhase1 =>
    -- two posts for each stack: its own and that of its thread for the events of the kernel
    if conf.stackNum * 2 ≤ s.phase1 then some { s with main := .freeParams } else none
  | .freeParams =>
    if s.paramsFreed < conf.stackNum then some { s with paramsFreed := s.paramsFreed + 1 }
    -- ltran listens for the processes that use it, so they have no listen thread
    else some { s with main := if conf.useLtran then .checkFail else .createListen }
  | .createListen => some { s with listen := .setup, main := .waitListen }
  | .waitListen =>
    if 0 < s.semListen then some { s with semListen := s.semListen - 1, main := .checkFail }
    else none
  | .checkFail =>
    some { s with
      main := if s.initFail then .exited else if conf.useLtran then .waitAll else .initEthdev }
  | .initEthdev =>
    some (next r { s with ethdevInit := s.ethdevInit + 1, main := .waitAll }
      { s with main := .exited })
  | .waitAll => if conf.stackNum ≤ s.allInit then some { s with main := .checkAll } else none
  | .checkAll => some { s with main := if s.initFail then .exited else .setFlag }
  | .setFlag => some { s with main := next r .success .exited }
  | .success | .exited => none

/-- A stack thread is at another place. -/
def setStack (i : Fin conf.stackNum) (pc : StackStart) : Startup conf.stackNum :=
  { s with stack := Function.update s.stack i pc }

/-- A stack thread goes on. -/
def stackStep (i : Fin conf.stackNum) (r : StartOutcome) : Option (Startup conf.stackNum) :=
  match s.stack i with
  | .absent | .polling | .returned => none
  | .start => some (setStack conf s i .alloc)
  -- without memory there is no stack to free
  | .alloc => some (setStack conf s i (next r .initValue (.end2 false)))
  | .initValue => some (setStack conf s i (next r .numa (.end2 true)))
  | .numa => some (setStack conf s i (next r .affiliate (.end2 true)))
  | .affiliate =>
    let (created, ok) := createThread (queueId conf i) r
    some { setStack conf s i (if ok then .affinity else .end2 true) with
      kernel := if created then Function.update s.kernel i .start else s.kernel }
  -- from here on the thread for the events of the kernel posts for the stack, too
  | .affinity => some (setStack conf s i (next r .hugepage (.end1 true)))
  | .hugepage =>
    some (setStack conf s i
      (next r (if conf.useLtran then .register else .postPhase1) (.end1 true)))
  | .register => some (setStack conf s i (next r .postPhase1 (.end1 true)))
  | .postPhase1 =>
    some { setStack conf s i (if conf.useLtran then .ethdev else .waitEthdev) with
      phase1 := s.phase1 + 1 }
  -- the main thread starts the device after all stacks have posted `thread_phase1`
  | .waitEthdev => if 1 ≤ s.ethdevInit then some (setStack conf s i .ethdev) else none
  -- `END1` posts `thread_phase1`, which this stack has posted before
  | .ethdev =>
    some (setStack conf s i (next r
      (if !conf.useLtran ∧ queueId conf i = 0 then .initPorts else .postAll) (.end1 true)))
  | .initPorts => some (setStack conf s i .postAll)
  | .postAll => some { setStack conf s i .polling with allInit := s.allInit + 1 }
  -- `END2` posts for the thread that was not created and falls through to `END1`
  | .end2 stack => some { setStack conf s i (.end1 stack) with phase1 := s.phase1 + 1 }
  | .end1 stack => some { setStack conf s i (.freeStack stack) with phase1 := s.phase1 + 1 }
  | .freeStack stack =>
    some { setStack conf s i .setFail with
      stackFreed := if stack then Function.update s.stackFreed i true else s.stackFreed }
  | .setFail => some { setStack conf s i .postFail with initFail := true }
  -- so the main thread does not wait for ever, and finds `g_init_fail`
  | .postFail => some { setStack conf s i .returned with allInit := s.allInit + 1 }

/-- A thread for the events of the kernel goes on. -/
def kernelStep (i : Fin conf.stackNum) : Option (Startup conf.stackNum) :=
  match s.kernel i with
  | .absent | .polling => none
  | .start => some { s with kernel := Function.update s.kernel i .postPhase1 }
  | .postPhase1 =>
    some { s with kernel := Function.update s.kernel i .bind, phase1 := s.phase1 + 1 }
  | .bind => some { s with kernel := Function.update s.kernel i .polling }

/-- The listen thread goes on. -/
def listenStep (r : StartOutcome) : Option (Startup conf.stackNum) :=
  match s.listen with
  | .setup =>
    some (next r { s with listen := .accepting, semListen := s.semListen + 1 }
      { s with listen := .ended })
  | _ => none

/-- One step; there is none after the process has exited. -/
def step (a : StartAct conf.stackNum) : Option (Startup conf.stackNum) :=
  if s.main = .exited then none
  else
    match a with
    | .main r => mainStep conf s r
    | .stack i r => stackStep conf s i r
    | .kernel i => kernelStep conf s i
    | .listen r => listenStep conf s r

/-- Before `init_protocol_stack`. -/
def start : Startup conf.stackNum where
  main := .init
  stack _ := .absent
  kernel _ := .absent
  listen := .absent
  phase1 := 0
  ethdevInit := 0
  allInit := 0
  semListen := 0
  initFail := false
  paramsFreed := 0
  stackFreed _ := false

/-- All orders of steps. -/
def system : Transition.System (Startup conf.stackNum) (StartAct conf.stackNum) where
  Init s := s = start conf
  step := step conf

/-! ## The invariant -/

end Startup

/-- A thread for the events of the kernel has posted `thread_phase1`. -/
def KernelStart.posts : KernelStart → ℕ
  | .bind | .polling => 1
  | _ => 0

/-- How often a stack thread and its thread for the events of the kernel have posted
`thread_phase1`, at least. -/
def StackStart.posts (t : StackStart) (k : KernelStart) : ℕ :=
  k.posts +
    match t with
    | .waitEthdev | .ethdev | .initPorts | .postAll | .polling => 1
    | .end1 _ => if k = .absent then 1 else 0
    | .freeStack _ | .setFail | .postFail | .returned => if k = .absent then 2 else 1
    | _ => 0

/-- A stack thread has posted `all_init`. -/
def StackStart.allPosts : StackStart → ℕ
  | .polling | .returned => 1
  | _ => 0

/-- A stack thread has set `g_init_fail`. -/
def StackStart.hasFailed : StackStart → Bool
  | .postFail | .returned => true
  | _ => false

/-- A stack thread may have freed its stack. -/
def StackStart.afterFree : StackStart → Bool
  | .setFail | .postFail | .returned => true
  | _ => false

/-- The thread for the events of the kernel exists when its stack thread has created it, which it
has when it got further than `create_affiliate_thread`. -/
def StackStart.Placed (t : StackStart) (k : KernelStart) : Prop :=
  match t with
  | .absent | .start | .alloc | .initValue | .numa | .affiliate => k = .absent
  | .end2 _ | .end1 _ | .freeStack _ | .setFail | .postFail | .returned => True
  | _ => k ≠ .absent

/-- Whether the threads of a stack are where they can be is decidable. -/
instance (t : StackStart) (k : KernelStart) : Decidable (t.Placed k) := by
  unfold StackStart.Placed
  split <;> infer_instance

/-- The threads of `init_protocol_stack` that are created, of `n`. -/
def MainStart.creates (n : ℕ) : MainStart → ℕ
  | .init | .exited => 0
  | .create i => i
  | _ => n

namespace Startup

variable {conf : StartConf} {s s' : Startup conf.stackNum}

/-- `create_thread` succeeds, fails with its thread created, or fails without one. -/
theorem createThread_cases (queueId : ℕ) (r : StartOutcome) :
    createThread queueId r = (true, true) ∨ createThread queueId r = (true, false) ∨
      createThread queueId r = (false, false) := by
  unfold createThread
  split
  · exact .inr (.inr rfl)
  · cases r
    · exact .inl rfl
    · exact .inr (.inr rfl)
    · exact .inr (.inl rfl)

/-- A number for each stack, summed over the stacks. -/
def perStack (s : Startup conf.stackNum) (f : StackStart → KernelStart → ℕ) : ℕ :=
  ∑ i, f (s.stack i) (s.kernel i)

/-- The two threads of one stack go on. -/
theorem perStack_update {f : StackStart → KernelStart → ℕ} {i : Fin conf.stackNum} {t : StackStart}
    {k : KernelStart} (hstack : s'.stack = Function.update s.stack i t)
    (hkernel : s'.kernel = Function.update s.kernel i k) :
    s'.perStack f + f (s.stack i) (s.kernel i) = s.perStack f + f t k := by
  have hupdate : (fun j => f (s'.stack j) (s'.kernel j)) =
      Function.update (fun j => f (s.stack j) (s.kernel j)) i (f t k) := by
    funext j
    rw [hstack, hkernel]
    by_cases hj : j = i
    · subst hj
      simp only [Function.update_self]
    · simp only [Function.update_of_ne hj]
  unfold perStack
  rw [hupdate, Finset.sum_update_of_mem (Finset.mem_univ i),
    ← Finset.add_sum_erase _ _ (Finset.mem_univ i), Finset.sdiff_singleton_eq_erase]
  omega

/-- The threads and their semaphores. -/
structure ThreadInv (s : Startup conf.stackNum) : Prop where
  /-- The threads for the events of the kernel are there where they have to be. -/
  placed : ∀ i, (s.stack i).Placed (s.kernel i)
  /-- `thread_phase1` was posted that often. -/
  phase1 : s.perStack StackStart.posts ≤ s.phase1
  /-- `all_init` counts the stack threads that are ready or have failed. -/
  allInit : s.allInit = s.perStack fun t _ => t.allPosts
  /-- `g_init_fail` is set before. -/
  failed : ∀ i, (s.stack i).hasFailed = true → s.initFail = true
  /-- Without ltran a stack thread waits for the device. -/
  waits : ∀ i, s.stack i = .waitEthdev → conf.useLtran = false
  /-- A stack is freed when its thread is about to return. -/
  freed : ∀ i, s.stackFreed i = true → (s.stack i).afterFree = true

/-- What the main thread knows. -/
structure MainInv (s : Startup conf.stackNum) : Prop where
  /-- The stack threads that it has created. -/
  created : s.main ≠ .exited → ∀ i, i.val < s.main.creates conf.stackNum ↔ s.stack i ≠ .absent
  /-- Without ltran the device is ready at the end. -/
  ethdev : s.main = .waitAll → conf.useLtran = false → 1 ≤ s.ethdevInit
  /-- The listen thread is there while it is waited for. -/
  listen : s.main = .waitListen →
    s.listen ≠ .absent ∧ (s.listen = .accepting → 0 < s.semListen)
  /-- All stack threads have posted `all_init`. -/
  checked : s.main = .checkAll → conf.stackNum ≤ s.allInit
  /-- None of them has failed. -/
  ok : s.main = .setFlag ∨ s.main = .success → ∀ i, s.stack i = .polling

/-- The two threads of one stack go on. -/
theorem ThreadInv.move (h : ThreadInv s) {i : Fin conf.stackNum} {t : StackStart} {k : KernelStart}
    (dp da : ℕ) (hstack : s'.stack = Function.update s.stack i t)
    (hkernel : s'.kernel = Function.update s.kernel i k) (hphase1 : s'.phase1 = s.phase1 + dp)
    (hallInit : s'.allInit = s.allInit + da) (hfail : s.initFail = true → s'.initFail = true)
    (hfreed : ∀ j, s'.stackFreed j = true → s.stackFreed j = true ∨ j = i ∧ t.afterFree = true)
    (hplaced : t.Placed k) (hposts : t.posts k ≤ (s.stack i).posts (s.kernel i) + dp)
    (hall : t.allPosts = (s.stack i).allPosts + da)
    (hfailed : t.hasFailed = true → s'.initFail = true)
    (hwaits : t = .waitEthdev → conf.useLtran = false)
    (hafter : (s.stack i).afterFree = true → t.afterFree = true) : ThreadInv s' := by
  -- the posts are sums over the stacks, in which only the summand of this one changes
  have hposts' := perStack_update (f := StackStart.posts) hstack hkernel
  have hall' := perStack_update (f := fun t _ => t.allPosts) hstack hkernel
  -- of each fact the stack that moved is one case, the others are the second
  have hcases : ∀ j, j = i ∧ s'.stack j = t ∧ s'.kernel j = k ∨
      j ≠ i ∧ s'.stack j = s.stack j ∧ s'.kernel j = s.kernel j := by
    intro j
    rw [hstack, hkernel]
    by_cases hj : j = i
    · subst hj
      exact .inl ⟨rfl, Function.update_self .., Function.update_self ..⟩
    · exact .inr ⟨hj, Function.update_of_ne hj .., Function.update_of_ne hj ..⟩
  have hphase := h.phase1
  have hcount := h.allInit
  refine ⟨fun j => ?_, by omega, by omega, fun j hj => ?_, fun j hj => ?_, fun j hj => ?_⟩
  all_goals rcases hcases j with ⟨rfl, ht, hk⟩ | ⟨hne, ht, hk⟩
  · rw [ht, hk]
    exact hplaced
  · rw [ht, hk]
    exact h.placed j
  · exact hfailed (ht ▸ hj)
  · exact hfail (h.failed j (ht ▸ hj))
  · exact hwaits (ht ▸ hj)
  · exact h.waits j (ht ▸ hj)
  · rw [ht]
    rcases hfreed j hj with hold | ⟨-, hnew⟩
    · exact hafter (h.freed j hold)
    · exact hnew
  · rw [ht]
    exact h.freed j ((hfreed j hj).resolve_right fun hand => hne hand.1)

/-- A stack thread goes on, and nothing but `g_init_fail` and its stack is written. -/
theorem ThreadInv.setStack (h : ThreadInv s) {i : Fin conf.stackNum} {t : StackStart}
    (dp da : ℕ) (hstack : s'.stack = Function.update s.stack i t) (hkernel : s'.kernel = s.kernel)
    (hphase1 : s'.phase1 = s.phase1 + dp) (hallInit : s'.allInit = s.allInit + da)
    (hfail : s.initFail = true → s'.initFail = true)
    (hfreed : ∀ j, s'.stackFreed j = true → s.stackFreed j = true ∨ j = i ∧ t.afterFree = true)
    (hplaced : t.Placed (s.kernel i))
    (hposts : t.posts (s.kernel i) ≤ (s.stack i).posts (s.kernel i) + dp)
    (hall : t.allPosts = (s.stack i).allPosts + da)
    (hfailed : t.hasFailed = true → s'.initFail = true)
    (hwaits : t = .waitEthdev → conf.useLtran = false)
    (hafter : (s.stack i).afterFree = true → t.afterFree = true) : ThreadInv s' :=
  h.move dp da hstack (hkernel.trans (Function.update_eq_self i s.kernel).symm) hphase1 hallInit
    hfail hfreed hplaced hposts hall hfailed hwaits hafter

/-- A stack thread goes on. -/
theorem ThreadInv.stackStep (h : ThreadInv s) {i : Fin conf.stackNum} {r : StartOutcome}
    (hs : stackStep conf s i r = some s') : ThreadInv s' := by
  have hplaced := h.placed i
  unfold Startup.stackStep at hs
  cases hpc : s.stack i <;> simp only [hpc, reduceCtorEq, Option.some.injEq] at hs
  all_goals rw [hpc] at hplaced
  -- the only place where the other thread of the stack changes
  case affiliate =>
    rcases createThread_cases (queueId conf i) r with hcreate | hcreate | hcreate <;>
      rw [hcreate] at hs <;> subst hs
    -- it was not created
    case inr.inr =>
      refine h.setStack 0 0 rfl rfl rfl rfl id (fun _ => .inl) ?_ ?_ ?_ ?_ ?_ ?_ <;>
        simp_all [StackStart.Placed, StackStart.posts, StackStart.allPosts, StackStart.hasFailed,
          StackStart.afterFree]
    all_goals
      refine h.move 0 0 rfl rfl rfl rfl id (fun _ => .inl) ?_ ?_ ?_ ?_ ?_ ?_ <;>
        simp_all [StackStart.Placed, StackStart.posts, KernelStart.posts, StackStart.allPosts,
          StackStart.hasFailed, StackStart.afterFree]
  case waitEthdev =>
    split at hs
    · obtain rfl := Option.some.inj hs
      refine h.setStack 0 0 rfl rfl rfl rfl id (fun _ => .inl) ?_ ?_ ?_ ?_ ?_ ?_ <;>
        simp_all [StackStart.Placed, StackStart.posts, StackStart.allPosts, StackStart.hasFailed,
          StackStart.afterFree]
    · cases hs
  all_goals subst hs
  -- nothing is posted and no flag is set
  case start | alloc | initValue | numa | affinity | register | initPorts =>
    refine h.setStack 0 0 rfl rfl rfl rfl id (fun _ => .inl) ?_ ?_ ?_ ?_ ?_ ?_ <;> cases r <;>
      simp_all [StackStart.Placed, StackStart.posts, StackStart.allPosts, StackStart.hasFailed,
        StackStart.afterFree, next]
  -- here the next place depends on the configuration
  case hugepage | ethdev =>
    refine h.setStack 0 0 rfl rfl rfl rfl id (fun _ => .inl) ?_ ?_ ?_ ?_ ?_ ?_ <;> cases r <;>
      simp only [next, reduceCtorEq, if_true, if_false] <;> (try split) <;>
      simp_all [StackStart.Placed, StackStart.posts, StackStart.allPosts, StackStart.hasFailed,
        StackStart.afterFree]
  -- one post of `thread_phase1`
  case postPhase1 =>
    refine h.setStack 1 0 rfl rfl rfl rfl id (fun _ => .inl) ?_ ?_ ?_ ?_ ?_ ?_ <;>
      (try split) <;>
      simp_all [StackStart.Placed, StackStart.posts, StackStart.allPosts, StackStart.hasFailed,
        StackStart.afterFree]
  case end2 | end1 =>
    refine h.setStack 1 0 rfl rfl rfl rfl id (fun _ => .inl) ?_ ?_ ?_ ?_ ?_ ?_ <;>
      simp_all [StackStart.Placed, StackStart.posts, StackStart.allPosts, StackStart.hasFailed,
        StackStart.afterFree]
    -- whether the stack thread owes a post for the other thread
    split <;> omega
  case setFail =>
    refine h.setStack 0 0 rfl rfl rfl rfl (fun _ => rfl) (fun _ => .inl) ?_ ?_ ?_ ?_ ?_ ?_ <;>
      simp_all [StackStart.Placed, StackStart.posts, StackStart.allPosts, StackStart.hasFailed,
        StackStart.afterFree]
  case postAll =>
    refine h.setStack 0 1 rfl rfl rfl rfl id (fun _ => .inl) ?_ ?_ ?_ ?_ ?_ ?_ <;>
      simp_all [StackStart.Placed, StackStart.posts, StackStart.allPosts, StackStart.hasFailed,
        StackStart.afterFree]
  -- `g_init_fail` was set before and stays set
  case postFail =>
    have hfail : s.initFail = true := h.failed i (by rw [hpc]; rfl)
    refine h.setStack 0 1 rfl rfl rfl rfl id (fun _ => .inl) ?_ ?_ ?_ (fun _ => hfail) ?_ ?_ <;>
      simp_all [StackStart.Placed, StackStart.posts, StackStart.allPosts, StackStart.afterFree]
  case freeStack stack =>
    refine h.setStack 0 0 rfl rfl rfl rfl id (fun j hj => ?_) ?_ ?_ ?_ ?_ ?_ ?_
    case refine_1 =>
      dsimp only at hj
      split at hj
      · by_cases hji : j = i
        · exact .inr ⟨hji, rfl⟩
        · rw [Function.update_of_ne hji] at hj
          exact .inl hj
      · exact .inl hj
    all_goals simp_all [StackStart.Placed, StackStart.posts, StackStart.allPosts,
      StackStart.hasFailed, StackStart.afterFree]

/-- A thread for the events of the kernel goes on. -/
theorem ThreadInv.kernelStep (h : ThreadInv s) {i : Fin conf.stackNum}
    (hs : kernelStep conf s i = some s') : ThreadInv s' := by
  have hplaced := h.placed i
  have hsame : s.stack = Function.update s.stack i (s.stack i) :=
    (Function.update_eq_self i s.stack).symm
  -- the stack thread has created it
  have hmove : ∀ k dp, k ≠ .absent → s.kernel i ≠ .absent → k.posts = (s.kernel i).posts + dp →
      (s.stack i).Placed k ∧ (s.stack i).posts k ≤ (s.stack i).posts (s.kernel i) + dp := by
    intro k dp hk hki hposts
    constructor
    · cases hpc : s.stack i <;> rw [hpc] at hplaced <;>
        simp_all [StackStart.Placed]
    · unfold StackStart.posts
      rw [if_neg hk, if_neg hk, if_neg hki, if_neg hki, hposts]
      omega
  unfold Startup.kernelStep at hs
  cases hpc : s.kernel i <;> simp only [hpc, reduceCtorEq, Option.some.injEq] at hs <;> subst hs
  case start =>
    obtain ⟨hplaced', hposts⟩ := hmove .postPhase1 0 (by simp) (by simp [hpc]) (by rw [hpc]; rfl)
    exact h.move 0 0 hsame rfl rfl rfl id (fun _ => .inl) hplaced' hposts rfl (h.failed i)
      (h.waits i) id
  case postPhase1 =>
    obtain ⟨hplaced', hposts⟩ := hmove .bind 1 (by simp) (by simp [hpc]) (by rw [hpc]; rfl)
    exact h.move 1 0 hsame rfl rfl rfl id (fun _ => .inl) hplaced' hposts rfl (h.failed i)
      (h.waits i) id
  case bind =>
    obtain ⟨hplaced', hposts⟩ := hmove .polling 0 (by simp) (by simp [hpc]) (by rw [hpc]; rfl)
    exact h.move 0 0 hsame rfl rfl rfl id (fun _ => .inl) hplaced' hposts rfl (h.failed i)
      (h.waits i) id

/-- What a stack thread leaves alone. -/
theorem stackStep_frame {i : Fin conf.stackNum} {r : StartOutcome}
    (hs : stackStep conf s i r = some s') :
    (s'.main = s.main ∧ s'.listen = s.listen ∧ s'.semListen = s.semListen ∧
      s'.ethdevInit = s.ethdevInit ∧ s'.paramsFreed = s.paramsFreed) ∧
      s.allInit ≤ s'.allInit ∧ s.stack i ≠ .absent ∧ s.stack i ≠ .polling ∧
      ∃ t, t ≠ .absent ∧ s'.stack = Function.update s.stack i t := by
  unfold Startup.stackStep at hs
  cases hpc : s.stack i <;> simp only [hpc, reduceCtorEq, Option.some.injEq] at hs
  case waitEthdev =>
    split at hs
    · obtain rfl := Option.some.inj hs
      exact ⟨⟨rfl, rfl, rfl, rfl, rfl⟩, le_rfl, by simp, by simp, _, by simp, rfl⟩
    · cases hs
  all_goals subst hs
  all_goals refine ⟨⟨rfl, rfl, rfl, rfl, rfl⟩, ?_, by simp, by simp, _, ?_, rfl⟩
  all_goals first | exact le_rfl | exact Nat.le_succ _ | try simp only [next]
  all_goals repeat' split
  all_goals exact StackStart.noConfusion

/-- Nor does a thread for the events of the kernel write anything else. -/
theorem kernelStep_frame {i : Fin conf.stackNum} (hs : kernelStep conf s i = some s') :
    s'.main = s.main ∧ s'.listen = s.listen ∧ s'.semListen = s.semListen ∧
      s'.ethdevInit = s.ethdevInit ∧ s'.paramsFreed = s.paramsFreed ∧ s'.allInit = s.allInit ∧
      s'.stack = s.stack := by
  unfold Startup.kernelStep at hs
  cases hpc : s.kernel i <;> simp only [hpc, reduceCtorEq, Option.some.injEq] at hs <;> subst hs <;>
    exact ⟨rfl, rfl, rfl, rfl, rfl, rfl, rfl⟩

/-- Another thread than the main thread goes on. -/
theorem MainInv.congr (h : MainInv s) (hmain : s'.main = s.main)
    (hlisten : s.main = .waitListen →
      s.listen ≠ .absent ∧ (s.listen = .accepting → 0 < s.semListen) →
      s'.listen ≠ .absent ∧ (s'.listen = .accepting → 0 < s'.semListen))
    (hethdev : s'.ethdevInit = s.ethdevInit) (hallInit : s.allInit ≤ s'.allInit)
    (habsent : ∀ i, s'.stack i = .absent ↔ s.stack i = .absent)
    (hpolling : ∀ i, s.stack i = .polling → s'.stack i = .polling) : MainInv s' := by
  refine ⟨fun hexited i => ?_, fun heq hltran => ?_, fun heq => ?_, fun heq => ?_,
    fun heq i => ?_⟩
  all_goals rw [hmain] at *
  · rw [Ne, habsent]
    exact h.created hexited i
  · rw [hethdev]
    exact h.ethdev heq hltran
  · exact hlisten heq (h.listen heq)
  · exact (h.checked heq).trans hallInit
  · exact hpolling i (h.ok heq i)

/-- A stack thread goes on: it does not disappear, nor does it leave its loop. -/
theorem MainInv.stackStep (h : MainInv s) {i : Fin conf.stackNum} {r : StartOutcome}
    (hs : stackStep conf s i r = some s') : MainInv s' := by
  obtain ⟨⟨hmain, hlisten, hsem, hethdev, -⟩, hall, habsent, hpolling, t, ht, hstack⟩ :=
    stackStep_frame hs
  refine h.congr hmain (fun _ hand => by rwa [hlisten, hsem]) hethdev hall (fun j => ?_)
    fun j hj => ?_
  all_goals
    rw [hstack]
    by_cases hji : j = i
    · subst hji
      simp_all
    · simp_all

/-- A thread for the events of the kernel goes on. -/
theorem MainInv.kernelStep (h : MainInv s) {i : Fin conf.stackNum}
    (hs : kernelStep conf s i = some s') : MainInv s' := by
  obtain ⟨hmain, hlisten, hsem, hethdev, -, hall, hstack⟩ := kernelStep_frame hs
  exact h.congr hmain (fun _ hand => by rwa [hlisten, hsem]) hethdev hall.ge
    (fun j => by rw [hstack]) fun j hj => by rwa [hstack]

/-- The listen thread writes nothing else. -/
theorem listenStep_cases {r : StartOutcome} (hs : listenStep conf s r = some s') :
    s.listen = .setup ∧
      (r = .done ∧ s' = { s with listen := .accepting, semListen := s.semListen + 1 } ∨
        r ≠ .done ∧ s' = { s with listen := .ended }) := by
  unfold Startup.listenStep at hs
  split at hs
  · next hpc =>
    obtain rfl := Option.some.inj hs
    unfold next
    split
    · next hr => exact ⟨hpc, .inl ⟨hr, rfl⟩⟩
    · next hr => exact ⟨hpc, .inr ⟨hr, rfl⟩⟩
  · cases hs

/-- The stack threads do not depend on the listen thread. -/
theorem ThreadInv.listenStep (h : ThreadInv s) {r : StartOutcome}
    (hs : listenStep conf s r = some s') : ThreadInv s' := by
  obtain ⟨-, ⟨-, rfl⟩ | ⟨-, rfl⟩⟩ := listenStep_cases hs
  all_goals exact ⟨h.placed, h.phase1, h.allInit, h.failed, h.waits, h.freed⟩

/-- The listen thread goes on: it posts `sem_listen_thread` before it accepts. -/
theorem MainInv.listenStep (h : MainInv s) {r : StartOutcome}
    (hs : listenStep conf s r = some s') : MainInv s' := by
  obtain ⟨-, ⟨-, rfl⟩ | ⟨-, rfl⟩⟩ := listenStep_cases hs
  · exact h.congr rfl (fun _ _ => ⟨ListenStart.noConfusion, fun _ => Nat.succ_pos _⟩) rfl le_rfl
      (fun _ => Iff.rfl) fun _ => id
  · exact h.congr rfl (fun _ _ => ⟨ListenStart.noConfusion, fun heq => ListenStart.noConfusion heq⟩)
      rfl le_rfl (fun _ => Iff.rfl) fun _ => id

/-- Some stack is below the average. -/
theorem exists_lt_of_perStack_lt {f : StackStart → KernelStart → ℕ} {c : ℕ}
    (h : s.perStack f < conf.stackNum * c) : ∃ i, f (s.stack i) (s.kernel i) < c := by
  have hsum : ∑ i, f (s.stack i) (s.kernel i) < ∑ _i : Fin conf.stackNum, c := by
    rw [Finset.sum_const, Finset.card_univ, Fintype.card_fin, smul_eq_mul]
    exact h
  obtain ⟨i, -, hi⟩ := Finset.exists_lt_of_sum_lt hsum
  exact ⟨i, hi⟩

/-- No stack is below when the sum is as great as it can be. -/
theorem le_of_le_perStack {f : StackStart → KernelStart → ℕ} {c : ℕ} (hle : ∀ t k, f t k ≤ c)
    (h : conf.stackNum * c ≤ s.perStack f) (i : Fin conf.stackNum) :
    c ≤ f (s.stack i) (s.kernel i) := by
  by_contra hlt
  have hsum : ∑ j, f (s.stack j) (s.kernel j) < ∑ _j : Fin conf.stackNum, c :=
    Finset.sum_lt_sum (fun j _ => hle _ _) ⟨i, Finset.mem_univ i, Nat.lt_of_not_le hlt⟩
  rw [Finset.sum_const, Finset.card_univ, Fintype.card_fin, smul_eq_mul] at hsum
  exact Nat.lt_irrefl _ (hsum.trans_le h)

/-- When `all_init` has the value that is waited for and no stack thread has failed, all of them
poll. -/
theorem ThreadInv.polling (h : ThreadInv s) (hall : conf.stackNum ≤ s.allInit)
    (hfail : s.initFail = false) (i : Fin conf.stackNum) : s.stack i = .polling := by
  rw [h.allInit] at hall
  have hle : ∀ (t : StackStart) (_ : KernelStart), t.allPosts ≤ 1 := fun t _ => by
    cases t <;> simp [StackStart.allPosts]
  have hone := le_of_le_perStack (s := s) hle (by omega) i
  have hfailed := h.failed i
  cases hpc : s.stack i <;> rw [hpc] at hone hfailed <;>
    simp_all [StackStart.allPosts, StackStart.hasFailed]

/-- The main thread writes nothing that the other threads depend on. -/
theorem ThreadInv.congr (h : ThreadInv s) (hstack : s'.stack = s.stack)
    (hkernel : s'.kernel = s.kernel) (hphase1 : s'.phase1 = s.phase1)
    (hallInit : s'.allInit = s.allInit) (hfail : s'.initFail = s.initFail)
    (hfreed : s'.stackFreed = s.stackFreed) : ThreadInv s' := by
  have hsum : ∀ f, s'.perStack f = s.perStack f := fun f => by rw [perStack, hstack, hkernel]; rfl
  refine ⟨?_, ?_, ?_, ?_, ?_, ?_⟩
  · rw [hstack, hkernel]
    exact h.placed
  · rw [hsum, hphase1]
    exact h.phase1
  · rw [hsum, hallInit]
    exact h.allInit
  · rw [hstack, hfail]
    exact h.failed
  · rw [hstack]
    exact h.waits
  · rw [hstack, hfreed]
    exact h.freed

/-- The main thread creates a stack thread. -/
theorem mainStep_create {r : StartOutcome} {i : ℕ} (hpc : s.main = .create i)
    (hi : i < conf.stackNum) (hs : mainStep conf s r = some s') :
    (s' = { s with stack := Function.update s.stack ⟨i, hi⟩ .start, main := .create (i + 1) } ∨
      s' = { s with stack := Function.update s.stack ⟨i, hi⟩ .start, main := .exited }) ∨
      s' = { s with main := .exited } := by
  simp only [mainStep, hpc, dif_pos hi] at hs
  rcases createThread_cases (queueId conf i) r with hcreate | hcreate | hcreate <;>
    rw [hcreate] at hs <;> obtain rfl := Option.some.inj hs
  · exact .inl (.inl rfl)
  · exact .inl (.inr rfl)
  · exact .inr rfl

/-- The main thread writes to nothing but its own variables, but when it creates a stack thread. -/
theorem mainStep_frame {r : StartOutcome} (hcreate : ∀ i < conf.stackNum, s.main ≠ .create i)
    (hs : mainStep conf s r = some s') :
    s'.stack = s.stack ∧ s'.kernel = s.kernel ∧ s'.phase1 = s.phase1 ∧ s'.allInit = s.allInit ∧
      s'.initFail = s.initFail ∧ s'.stackFreed = s.stackFreed := by
  unfold mainStep at hs
  cases hpc : s.main <;> simp only [hpc, reduceCtorEq, Option.some.injEq] at hs
  case create i =>
    rw [dif_neg fun hi => hcreate i hi hpc] at hs
    obtain rfl := Option.some.inj hs
    exact ⟨rfl, rfl, rfl, rfl, rfl, rfl⟩
  case waitPhase1 | freeParams | waitListen | waitAll =>
    split at hs <;> cases hs <;> exact ⟨rfl, rfl, rfl, rfl, rfl, rfl⟩
  case initEthdev =>
    unfold next at hs
    split at hs <;> subst hs <;> exact ⟨rfl, rfl, rfl, rfl, rfl, rfl⟩
  all_goals subst hs; exact ⟨rfl, rfl, rfl, rfl, rfl, rfl⟩

/-- The stack thread that is created next is not there. -/
theorem MainInv.absent (h : MainInv s) {i : ℕ} (hpc : s.main = .create i) (hi : i < conf.stackNum) :
    s.stack ⟨i, hi⟩ = .absent := by
  by_contra habsent
  have hlt := (h.created (by rw [hpc]; exact MainStart.noConfusion) ⟨i, hi⟩).2 habsent
  rw [hpc] at hlt
  exact Nat.lt_irrefl _ hlt

/-- The main thread goes on, as far as the other threads are concerned. -/
theorem ThreadInv.mainStep (h : ThreadInv s) (hmain : MainInv s) {r : StartOutcome}
    (hs : mainStep conf s r = some s') : ThreadInv s' := by
  by_cases hcreate : ∃ i < conf.stackNum, s.main = .create i
  · obtain ⟨i, hi, hpc⟩ := hcreate
    have habsent := hmain.absent hpc hi
    have hkernel : s.kernel ⟨i, hi⟩ = .absent := by
      have hplaced := h.placed ⟨i, hi⟩
      rwa [habsent] at hplaced
    have hcreated : ∀ main, ThreadInv
        { s with stack := Function.update s.stack ⟨i, hi⟩ .start, main := main } := fun main =>
      h.setStack 0 0 rfl rfl rfl rfl id (fun _ => .inl) hkernel
        (by rw [hkernel]; exact Nat.zero_le _) (by rw [habsent]; rfl)
        (fun heq => absurd heq Bool.false_ne_true) (fun heq => absurd heq StackStart.noConfusion)
        (fun heq => by rw [habsent] at heq; cases heq)
    rcases mainStep_create hpc hi hs with (rfl | rfl) | rfl
    · exact hcreated _
    · exact hcreated _
    · exact h.congr rfl rfl rfl rfl rfl rfl
  · have hframe := mainStep_frame (fun i hi hpc => hcreate ⟨i, hi, hpc⟩) hs
    obtain ⟨hstack, hkernel, hphase1, hall, hfail, hfreed⟩ := hframe
    exact h.congr hstack hkernel hphase1 hall hfail hfreed

/-- The process has exited. -/
theorem MainInv.of_exited (hmain : s.main = .exited) : MainInv s := by
  refine ⟨fun hne => absurd hmain hne, ?_, ?_, ?_, ?_⟩ <;> rw [hmain] <;> simp

/-- The main thread goes to a place that asks for little. -/
theorem MainInv.goto (h : MainInv s) (hmain : s.main ≠ .exited) (hstack : s'.stack = s.stack)
    (hcreates : s'.main.creates conf.stackNum = s.main.creates conf.stackNum)
    (hethdev : s'.main = .waitAll → conf.useLtran = false → 1 ≤ s'.ethdevInit)
    (hlisten : s'.main = .waitListen →
      s'.listen ≠ .absent ∧ (s'.listen = .accepting → 0 < s'.semListen))
    (hchecked : s'.main = .checkAll → conf.stackNum ≤ s'.allInit)
    (hok : s'.main = .setFlag ∨ s'.main = .success → ∀ i, s.stack i = .polling) : MainInv s' := by
  refine ⟨fun _ i => ?_, hethdev, hlisten, hchecked, fun heq => ?_⟩
  · rw [hcreates, hstack]
    exact h.created hmain i
  · rw [hstack]
    exact hok heq

/-- The main thread goes on: what it waits for holds at its next place. -/
theorem MainInv.mainStep (h : MainInv s) (hthreads : ThreadInv s) {r : StartOutcome}
    (hs : mainStep conf s r = some s') : MainInv s' := by
  -- a process that has exited is asked for nothing
  by_cases hexited : s'.main = .exited
  · exact .of_exited hexited
  unfold Startup.mainStep at hs
  cases hpc : s.main <;> simp only [hpc, reduceCtorEq, Option.some.injEq] at hs
  case create i =>
    split at hs
    · -- one more stack is created, or the process exits
      next hi =>
      have hs' : Startup.mainStep conf s r = some s' := by
        simp only [Startup.mainStep, hpc, dif_pos hi]
        exact hs
      rcases mainStep_create hpc hi hs' with (rfl | rfl) | rfl
      · refine ⟨fun _ j => ?_, by simp, by simp, by simp, by simp⟩
        have hj := h.created (by rw [hpc]; exact MainStart.noConfusion) j
        rw [hpc] at hj
        simp only [MainStart.creates] at hj ⊢
        by_cases hji : j = ⟨i, hi⟩
        · subst hji
          simp
        · have hne : j.val ≠ i := fun heq => hji (Fin.ext heq)
          rw [Function.update_of_ne hji, ← hj]
          omega
      · exact absurd rfl hexited
      · exact absurd rfl hexited
    · -- all stacks are created, none is left that is absent
      next hi =>
      obtain rfl := Option.some.inj hs
      refine ⟨fun _ j => ?_, by simp, by simp, by simp, by simp⟩
      have hj := h.created (by rw [hpc]; exact MainStart.noConfusion) j
      rw [hpc] at hj
      simp only [MainStart.creates] at hj ⊢
      rw [← hj]
      omega
  case init =>
    subst hs
    -- the initialisation went well
    cases r with
    | done =>
      exact h.goto (by simp [hpc]) rfl (by rw [hpc]; rfl) (by simp [next]) (by simp [next])
        (by simp [next]) (by simp [next])
    | failed | unnamed => exact absurd rfl hexited
  -- the two places that read what the threads have posted
  case waitPhase1 | freeParams =>
    split at hs <;> cases hs
    all_goals
      refine h.goto (by simp [hpc]) rfl ?_ ?_ ?_ ?_ ?_ <;> dsimp only <;> (try split) <;>
        simp [hpc, MainStart.creates]
  case createListen =>
    subst hs
    exact h.goto (by simp [hpc]) rfl (by rw [hpc]; rfl) (by simp) (by simp) (by simp) (by simp)
  case waitListen =>
    split at hs <;> cases hs
    exact h.goto (by simp [hpc]) rfl (by rw [hpc]; rfl) (by simp) (by simp) (by simp) (by simp)
  -- the listen thread has run, and `init_fail` is read
  case checkFail =>
    subst hs
    dsimp only at hexited
    cases hfail : s.initFail
    · cases hltran : conf.useLtran <;>
        refine h.goto (by simp [hpc]) rfl ?_ ?_ ?_ ?_ ?_ <;>
          simp [hltran, hpc, MainStart.creates]
    · rw [hfail] at hexited
      exact absurd rfl hexited
  case initEthdev =>
    subst hs
    -- the device is there for the stacks that wait for it
    cases r with
    | done =>
      exact h.goto (by simp [hpc]) rfl (by rw [hpc]; rfl) (fun _ _ => Nat.succ_pos _)
        (by simp [next]) (by simp [next]) (by simp [next])
    | failed | unnamed => exact absurd rfl hexited
  case waitAll =>
    split at hs <;> cases hs
    -- all stacks have posted
    next hall =>
    exact h.goto (by simp [hpc]) rfl (by rw [hpc]; rfl) (by simp) (by simp) (fun _ => hall)
      (by simp)
  case checkAll =>
    subst hs
    dsimp only at hexited
    cases hfail : s.initFail
    · refine h.goto (by simp [hpc]) rfl (by simp [hpc, MainStart.creates]) (by simp)
        (by simp) (by simp) fun _ => ?_
      -- every stack has posted and none has failed, so all of them poll
      exact hthreads.polling (h.checked hpc) hfail
    · rw [hfail] at hexited
      exact absurd rfl hexited
  case setFlag =>
    subst hs
    cases r with
    | done =>
      -- the last step before the success
      exact h.goto (by simp [hpc]) rfl (by rw [hpc]; rfl) (by simp [next]) (by simp [next])
        (by simp [next]) fun _ => h.ok (.inl hpc)
    | failed | unnamed => exact absurd rfl hexited

/-- Every step keeps the two invariants. -/
theorem inv_step (hthreads : ThreadInv s) (hmain : MainInv s) {a : StartAct conf.stackNum}
    (hs : step conf s a = some s') : ThreadInv s' ∧ MainInv s' := by
  unfold Startup.step at hs
  split at hs
  · cases hs
  · cases a with
    | main r => exact ⟨hthreads.mainStep hmain hs, hmain.mainStep hthreads hs⟩
    | stack i r => exact ⟨hthreads.stackStep hs, hmain.stackStep hs⟩
    | kernel i => exact ⟨hthreads.kernelStep hs, hmain.kernelStep hs⟩
    | listen r => exact ⟨hthreads.listenStep hs, hmain.listenStep hs⟩

/-- They hold at first. -/
theorem inv_start : ThreadInv (start conf) ∧ MainInv (start conf) := by
  refine ⟨⟨fun _ => rfl, ?_, ?_, ?_, ?_, ?_⟩, ⟨fun _ i => ?_, ?_, ?_, ?_, ?_⟩⟩ <;>
    simp [start, perStack, StackStart.posts, KernelStart.posts, StackStart.allPosts,
      StackStart.hasFailed, MainStart.creates]

theorem inv_of_reachable (hs : (system conf).Reachable s) : ThreadInv s ∧ MainInv s :=
  Transition.System.invariant (M := system conf) (I := fun s => ThreadInv s ∧ MainInv s)
    (fun _ hinit => hinit ▸ inv_start) (fun _ _ _ _ h hstep => inv_step h.1 h.2 hstep) hs

/-! ## Success -/

/-- When `gazelle_network_init` has returned, every stack thread has come to its loop with its
stack, the threads for the events of the kernel exist, and nothing has failed. -/
theorem startup_success (hs : (system conf).Reachable s) (hsuccess : s.main = .success)
    (i : Fin conf.stackNum) :
    s.stack i = .polling ∧ s.stackFreed i = false ∧ s.kernel i ≠ .absent := by
  obtain ⟨hthreads, hmain⟩ := inv_of_reachable hs
  have hpoll := hmain.ok (.inr hsuccess) i
  have hfreed := hthreads.freed i
  have hplaced := hthreads.placed i
  rw [hpoll] at hfreed hplaced
  exact ⟨hpoll, by simpa [StackStart.afterFree] using hfreed, hplaced⟩

/-- One stack without ltran. -/
private abbrev oneStack : StartConf := ⟨1, false, 0⟩

/-- Two stacks without ltran. -/
private abbrev twoStacks : StartConf := ⟨2, false, 0⟩

/-- The steps of a stack thread up to the post of `thread_phase1`, and those of its thread for the
events of the kernel. -/
private def upToPhase1 {n : ℕ} (i : Fin n) (steps : ℕ) : List (StartAct n) :=
  List.replicate steps (.stack i .done) ++ List.replicate 3 (.kernel i)

/-- A start of two stacks. -/
theorem startup_success_two : ∃ s, (system twoStacks).Reachable s ∧ s.main = .success ∧
    ∀ i, s.stack i = .polling ∧ s.stackFreed i = false ∧ s.kernel i ≠ .absent := by
  have hrun : ((system twoStacks).run (start twoStacks)
      (List.replicate 4 (.main .done) ++ upToPhase1 0 8 ++ upToPhase1 1 8 ++
        List.replicate 5 (.main .done) ++ [.listen .done] ++ List.replicate 3 (.main .done) ++
        List.replicate 4 (.stack 0 .done) ++ List.replicate 3 (.stack 1 .done) ++
        List.replicate 3 (.main .done))).any (fun s => decide (s.main = .success)) = true := by
    decide +kernel
  obtain ⟨s, hs, hmain⟩ := (Option.any_eq_true _ _).1 hrun
  have hreach := Transition.System.reachable_of_run (M := system twoStacks) (.init rfl) hs
  have hsuccess := of_decide_eq_true hmain
  exact ⟨s, hreach, hsuccess, startup_success hreach hsuccess⟩

/-! ## Completion -/

end Startup

/-- A bound for the steps that the main thread has before it, apart from its loops; the listen
thread that it starts has one. -/
def MainStart.work : MainStart → ℕ
  | .init => 13
  | .create _ => 12
  | .waitPhase1 => 11
  | .freeParams => 10
  | .createListen => 9
  | .waitListen => 7
  | .checkFail => 6
  | .initEthdev => 5
  | .waitAll => 4
  | .checkAll => 3
  | .setFlag => 2
  | .success => 1
  | .exited => 0

/-- The stack threads that are left to create, of `n`. -/
def MainStart.toCreate (n : ℕ) : MainStart → ℕ
  | .init => n
  | .create i => n - i
  | _ => 0

/-- A bound for the steps that a stack thread has before it. -/
def StackStart.work : StackStart → ℕ
  | .absent => 20
  | .start => 19
  | .alloc => 18
  | .initValue => 17
  | .numa => 16
  | .affiliate => 15
  | .affinity => 14
  | .hugepage => 13
  | .register => 12
  | .postPhase1 => 11
  | .waitEthdev => 10
  | .ethdev => 9
  | .initPorts => 8
  | .postAll => 7
  | .end2 _ => 6
  | .end1 _ => 5
  | .freeStack _ => 4
  | .setFail => 3
  | .postFail => 2
  | .polling | .returned => 1

/-- The steps that a thread for the events of the kernel has before it. -/
def KernelStart.work : KernelStart → ℕ
  | .absent => 4
  | .start => 3
  | .postPhase1 => 2
  | .bind => 1
  | .polling => 0

/-- The steps that the listen thread has before it. -/
def ListenStart.work : ListenStart → ℕ
  | .setup => 1
  | _ => 0

namespace Startup

variable {conf : StartConf} {s s' : Startup conf.stackNum}

/-- A bound for the steps that are left. -/
def work (s : Startup conf.stackNum) : ℕ :=
  s.main.work + s.main.toCreate conf.stackNum + (conf.stackNum - s.paramsFreed) + s.listen.work +
    s.perStack fun t k => t.work + k.work

/-- A call leaves less to do, whether it succeeds or fails. -/
theorem work_next_lt {r : StartOutcome} {t u : StackStart} {n : ℕ} (ht : t.work < n)
    (hu : u.work < n) : (next r t u).work < n := by
  unfold next
  split
  · exact ht
  · exact hu

/-- A step of a stack thread leaves less to do, also when it creates another thread. -/
theorem work_stackStep {i : Fin conf.stackNum} {r : StartOutcome}
    (hplaced : (s.stack i).Placed (s.kernel i)) (hs : stackStep conf s i r = some s') :
    s'.work < s.work := by
  obtain ⟨⟨hmain, hlisten, -, -, hfreed⟩, -⟩ := stackStep_frame hs
  have hdec : ∃ t k, s'.stack = Function.update s.stack i t ∧
      s'.kernel = Function.update s.kernel i k ∧
      t.work + k.work < (s.stack i).work + (s.kernel i).work := by
    unfold stackStep at hs
    cases hpc : s.stack i <;> simp only [hpc, reduceCtorEq, Option.some.injEq] at hs
    -- the new thread has less to do than the creation of it
    case affiliate =>
      rw [hpc] at hplaced
      have hkernel : s.kernel i = .absent := hplaced
      rcases createThread_cases (queueId conf i) r with hcreate | hcreate | hcreate <;>
        rw [hcreate] at hs <;> subst hs
      · exact ⟨_, _, rfl, rfl, by rw [hkernel]; decide⟩
      · exact ⟨_, _, rfl, rfl, by rw [hkernel]; decide⟩
      · exact ⟨_, s.kernel i, rfl, (Function.update_eq_self ..).symm,
          Nat.add_lt_add_right (by decide) _⟩
    -- the wait ends once the device is there
    case waitEthdev =>
      split at hs <;> cases hs
      exact ⟨_, s.kernel i, rfl, (Function.update_eq_self ..).symm,
        Nat.add_lt_add_right (by decide) _⟩
    -- at the other places the thread goes on to the next one, or fails
    all_goals subst hs
    all_goals
      refine ⟨_, s.kernel i, rfl, (Function.update_eq_self ..).symm, Nat.add_lt_add_right ?_ _⟩
    case hugepage | ethdev =>
      apply work_next_lt
      · split <;> decide
      · decide
    case postPhase1 => split <;> decide
    all_goals first | decide | exact Nat.lt_succ_self _ | (apply work_next_lt <;> decide)
  obtain ⟨t, k, hstack, hkernel, hlt⟩ := hdec
  have hsum := perStack_update (f := fun t k => t.work + k.work) hstack hkernel
  unfold work
  rw [hmain, hlisten, hfreed]
  omega

/-- So does one of a thread for the events of the kernel. -/
theorem work_kernelStep {i : Fin conf.stackNum} (hs : kernelStep conf s i = some s') :
    s'.work < s.work := by
  obtain ⟨hmain, hlisten, -, -, hfreed, -, hstack⟩ := kernelStep_frame hs
  have hdec : ∃ k, s'.kernel = Function.update s.kernel i k ∧ k.work < (s.kernel i).work := by
    unfold kernelStep at hs
    cases hpc : s.kernel i <;> simp only [hpc, reduceCtorEq, Option.some.injEq] at hs <;>
      subst hs <;> exact ⟨_, rfl, by decide⟩
  obtain ⟨k, hkernel, hlt⟩ := hdec
  have hsum := perStack_update (f := fun t k => t.work + k.work)
    (hstack.trans (Function.update_eq_self i s.stack).symm) hkernel
  unfold work
  rw [hmain, hlisten, hfreed]
  omega

/-- So does the one of the listen thread. -/
theorem work_listenStep {r : StartOutcome} (hs : listenStep conf s r = some s') :
    s'.work < s.work := by
  obtain ⟨hsetup, ⟨-, rfl⟩ | ⟨-, rfl⟩⟩ := listenStep_cases hs
  all_goals
    simp only [work, hsetup, ListenStart.work]
    exact Nat.add_lt_add_right (Nat.lt_succ_self _) _

/-- So does one of the main thread, which creates the stack threads. -/
theorem work_mainStep (h : MainInv s) {r : StartOutcome} (hs : mainStep conf s r = some s') :
    s'.work < s.work := by
  -- creating a stack is the only step of the main thread that writes a thread
  by_cases hcreate : ∃ i < conf.stackNum, s.main = .create i
  · obtain ⟨i, hi, hpc⟩ := hcreate
    have habsent := h.absent hpc hi
    -- a thread created has more to do than one that is absent, by the step that creates it
    have hsum : ∀ main, perStack { s with
        stack := Function.update s.stack ⟨i, hi⟩ .start, main := main }
          (fun t k => t.work + k.work) + 1 = s.perStack fun t k => t.work + k.work := by
      intro main
      generalize hs₁ : ({ s with
        stack := Function.update s.stack ⟨i, hi⟩ .start, main := main } :
          Startup conf.stackNum) = s₁
      have hupdate := perStack_update (f := fun t k => t.work + k.work)
        (congrArg stack hs₁.symm) ((congrArg kernel hs₁.symm).trans
          (Function.update_eq_self (⟨i, hi⟩ : Fin conf.stackNum) s.kernel).symm)
      have hwork : StackStart.absent.work = StackStart.start.work + 1 := rfl
      rw [habsent] at hupdate
      omega
    rcases mainStep_create hpc hi hs with (rfl | rfl) | rfl
    · -- it counts for what the main thread no longer has to do
      have hsum := hsum (.create (i + 1))
      simp only [work, hpc, MainStart.work, MainStart.toCreate]
      omega
    · -- the process exits
      have hsum := hsum .exited
      simp only [work, hpc, MainStart.work, MainStart.toCreate]
      omega
    · have hsame : perStack { s with main := .exited } (fun t k => t.work + k.work) =
        s.perStack fun t k => t.work + k.work := rfl
      simp only [work, hpc, MainStart.work, MainStart.toCreate, hsame]
      omega
  · -- the other steps leave the threads as they are
    obtain ⟨hstack, hkernel, -⟩ := mainStep_frame (fun i hi hpc => hcreate ⟨i, hi, hpc⟩) hs
    have hsum : s'.perStack (fun t k => t.work + k.work) =
        s.perStack fun t k => t.work + k.work := by rw [perStack, hstack, hkernel]; rfl
    -- and the main thread is further on, or frees one more parameter
    have hlt : s'.main.work + s'.main.toCreate conf.stackNum +
        (conf.stackNum - s'.paramsFreed) + s'.listen.work <
      s.main.work + s.main.toCreate conf.stackNum + (conf.stackNum - s.paramsFreed) +
        s.listen.work := by
      unfold mainStep at hs
      cases hpc : s.main <;> simp only [hpc, reduceCtorEq, Option.some.injEq] at hs
      case create i =>
        rw [dif_neg fun hi => hcreate ⟨i, hi, hpc⟩] at hs
        obtain rfl := Option.some.inj hs
        simp only [MainStart.work, MainStart.toCreate]
        omega
      case freeParams =>
        split at hs <;> cases hs
        · simp only [MainStart.work, MainStart.toCreate]
          omega
        · cases conf.useLtran <;>
            simp only [Bool.false_eq_true, if_true, if_false, MainStart.work,
              MainStart.toCreate] <;> omega
      case waitPhase1 | waitListen | waitAll =>
        split at hs <;> cases hs
        simp only [MainStart.work, MainStart.toCreate]
        omega
      case createListen =>
        subst hs
        simp only [MainStart.work, MainStart.toCreate, ListenStart.work]
        omega
      case init | initEthdev | setFlag =>
        subst hs
        cases r <;> simp only [next, reduceCtorEq, if_true, if_false, MainStart.work,
          MainStart.toCreate] <;> omega
      case checkFail | checkAll =>
        subst hs
        cases s.initFail <;> cases conf.useLtran <;>
          simp only [Bool.false_eq_true, if_true, if_false, MainStart.work,
            MainStart.toCreate] <;> omega
    unfold work
    omega

/-- A stack thread that is neither ready nor waiting goes on. -/
theorem stackStep_ne_none {i : Fin conf.stackNum} (habsent : s.stack i ≠ .absent)
    (hpolling : s.stack i ≠ .polling) (hreturned : s.stack i ≠ .returned)
    (hwait : s.stack i = .waitEthdev → 1 ≤ s.ethdevInit) : stackStep conf s i .done ≠ none := by
  unfold stackStep
  cases hpc : s.stack i <;> simp_all

/-- So does a thread for the events of the kernel. -/
theorem kernelStep_ne_none {i : Fin conf.stackNum} (habsent : s.kernel i ≠ .absent)
    (hpolling : s.kernel i ≠ .polling) : kernelStep conf s i ≠ none := by
  unfold kernelStep
  cases hpc : s.kernel i <;> simp_all

/-- As long as `thread_phase1` was not posted twice for a stack, one of its threads does not
wait. -/
theorem busy_of_posts_lt {t : StackStart} {k : KernelStart} (hplaced : t.Placed k)
    (habsent : t ≠ .absent) (hlt : t.posts k < 2) :
    t ≠ .polling ∧ t ≠ .returned ∧ t ≠ .waitEthdev ∨ k ≠ .absent ∧ k ≠ .polling := by
  cases t <;> cases k <;>
    simp_all [StackStart.Placed, StackStart.posts, KernelStart.posts]

/-- The listen thread does not give up. -/
def ListenUp {n : ℕ} : StartAct n → Prop
  | .listen r => r = .done
  | _ => True

/-- The start is over. -/
def Over (s : Startup conf.stackNum) : Prop := s.main = .success ∨ s.main = .exited

/-- Before the start is over, some thread goes on. -/
theorem exists_step (hthreads : ThreadInv s) (hmain : MainInv s) (hlisten : s.listen ≠ .ended)
    (hover : ¬ s.Over) : ∃ a, ListenUp a ∧ step conf s a ≠ none := by
  have hexited : s.main ≠ .exited := fun heq => hover (.inr heq)
  -- in a process that runs every thread may take its step
  have hstep : ∀ a, step conf s a = match a with
      | .main r => mainStep conf s r
      | .stack i r => stackStep conf s i r
      | .kernel i => kernelStep conf s i
      | .listen r => listenStep conf s r := fun a => if_neg hexited
  have hmainStep : mainStep conf s .done ≠ none → ∃ a, ListenUp a ∧ step conf s a ≠ none :=
    fun hne => ⟨.main .done, trivial, by rw [hstep]; exact hne⟩
  -- behind the creation every stack thread is there
  have hcreated : s.main.creates conf.stackNum = conf.stackNum → ∀ i, s.stack i ≠ .absent :=
    fun heq i => (hmain.created hexited i).1 (by rw [heq]; exact i.isLt)
  cases hpc : s.main with
  | waitPhase1 =>
    by_cases hphase1 : conf.stackNum * 2 ≤ s.phase1
    · exact hmainStep (by simp [mainStep, hpc, hphase1])
    · -- a post is missing, so some stack or its kernel event thread has not posted
      have hlt := hthreads.phase1
      obtain ⟨i, hi⟩ :=
        exists_lt_of_perStack_lt (s := s) (f := StackStart.posts) (c := 2) (by omega)
      have habsent := hcreated (by rw [hpc]; rfl) i
      rcases busy_of_posts_lt (hthreads.placed i) habsent hi with
        ⟨hpolling, hreturned, hwait⟩ | ⟨hkernel, hpolling⟩
      · -- it does not wait for the device, which comes later
        exact ⟨.stack i .done, trivial, by
          rw [hstep]
          exact stackStep_ne_none habsent hpolling hreturned fun heq => absurd heq hwait⟩
      · exact ⟨.kernel i, trivial, by rw [hstep]; exact kernelStep_ne_none hkernel hpolling⟩
  | waitListen =>
    -- the listen thread is up, or gets there by its own steps
    obtain ⟨habsent, haccepting⟩ := hmain.listen hpc
    cases hl : s.listen with
    | absent => exact absurd hl habsent
    | ended => exact absurd hl hlisten
    | setup => exact ⟨.listen .done, rfl, by rw [hstep]; simp [listenStep, hl]⟩
    | accepting => exact hmainStep (by simp [mainStep, hpc, haccepting hl])
  | waitAll =>
    by_cases hall : conf.stackNum ≤ s.allInit
    · exact hmainStep (by simp [mainStep, hpc, hall])
    · -- a post is missing, so some stack is not initialised and does not poll
      rw [hthreads.allInit] at hall
      obtain ⟨i, hi⟩ := exists_lt_of_perStack_lt (s := s) (f := fun t _ => t.allPosts) (c := 1)
        (by omega)
      have habsent := hcreated (by rw [hpc]; rfl) i
      -- the device is already there, so it does not wait
      refine ⟨.stack i .done, trivial, ?_⟩
      rw [hstep]
      refine stackStep_ne_none habsent (fun heq => ?_) (fun heq => ?_)
        fun heq => hmain.ethdev hpc (hthreads.waits i heq)
      all_goals
        rw [heq] at hi
        exact absurd hi (by decide)
  | success => exact absurd (.inl hpc) hover
  | exited => exact absurd hpc hexited
  | create i =>
    -- the other places of the main thread wait for nothing
    refine hmainStep ?_
    unfold mainStep
    rw [hpc]
    dsimp only
    split <;> exact Option.some_ne_none _
  | freeParams =>
    refine hmainStep ?_
    unfold mainStep
    rw [hpc]
    dsimp only
    split <;> exact Option.some_ne_none _
  | init | createListen | checkFail | initEthdev | checkAll | setFlag =>
    exact hmainStep (by simp [mainStep, hpc])

/-- Every step leaves less to do. -/
theorem work_step (hthreads : ThreadInv s) (hmain : MainInv s) {a : StartAct conf.stackNum}
    (hs : step conf s a = some s') : s'.work < s.work := by
  unfold step at hs
  split at hs
  · cases hs
  · cases a with
    | main r => exact work_mainStep hmain hs
    | stack i r => exact work_stackStep (hthreads.placed i) hs
    | kernel i => exact work_kernelStep hs
    | listen r => exact work_listenStep hs

/-- What there is to do at first. -/
theorem work_start : (start conf).work = 26 * conf.stackNum + 13 := by
  simp only [work, start, MainStart.work, MainStart.toCreate, ListenStart.work, perStack,
    StackStart.work, KernelStart.work, Finset.sum_const, Finset.card_univ, Fintype.card_fin,
    smul_eq_mul]
  omega

/-- The main thread writes to the listen thread only when it creates it. -/
theorem mainStep_listen {r : StartOutcome} (hcreate : s.main ≠ .createListen)
    (hs : mainStep conf s r = some s') : s'.listen = s.listen := by
  unfold mainStep at hs
  cases hpc : s.main <;> simp only [hpc, reduceCtorEq, Option.some.injEq] at hs
  case createListen => exact absurd hpc hcreate
  case create | waitPhase1 | freeParams | waitListen | waitAll =>
    split at hs <;> cases hs <;> rfl
  case initEthdev =>
    unfold next at hs
    split at hs <;> subst hs <;> rfl
  all_goals subst hs; rfl

/-- The listen thread is up as long as it does not give up. -/
theorem listen_step (hlisten : s.listen ≠ .ended) {a : StartAct conf.stackNum} (hup : ListenUp a)
    (hs : step conf s a = some s') : s'.listen ≠ .ended := by
  unfold step at hs
  split at hs
  · cases hs
  cases a with
  | main r =>
    by_cases hpc : s.main = .createListen
    · simp only [mainStep, hpc, Option.some.injEq] at hs
      subst hs
      exact ListenStart.noConfusion
    · rwa [mainStep_listen hpc hs]
  | stack i r => rwa [(stackStep_frame hs).1.2.1]
  | kernel i => rwa [(kernelStep_frame hs).2.1]
  | listen r =>
    obtain ⟨-, ⟨-, rfl⟩ | ⟨hr, -⟩⟩ := listenStep_cases hs
    · exact ListenStart.noConfusion
    · exact absurd hup hr

/-- The start of lstack comes to an end in a number of steps that is linear in the number of stacks,
with success or with the exit of the process: no thread waits for ever for a semaphore. -/
theorem startup_completes : (system conf).CompletesIn (fun _ a => ListenUp a) Over
    (26 * conf.stackNum + 13) (start conf) := by
  have hcompletes := Transition.System.CompletesIn.of_measure (M := system conf) (μ := work)
    (C := fun _ a => ListenUp a) (I := fun s => (ThreadInv s ∧ MainInv s) ∧ s.listen ≠ .ended)
    (F := Over) (fun s a s' h hup hs => ⟨inv_step h.1.1 h.1.2 hs, listen_step h.2 hup hs⟩)
    (fun s a s' h hs => work_step h.1.1 h.1.2 hs)
    (fun s h hover => exists_step h.1.1 h.1.2 h.2 hover)
    ⟨inv_start, ListenStart.noConfusion⟩
  rwa [work_start] at hcompletes

/-- When the listen thread gives up before it posts `sem_listen_thread`, the main thread waits for
it for ever. -/
theorem startup_waits_for_listen (n : ℕ) :
    ¬ (system oneStack).CompletesIn (fun _ _ => True) Over n (start oneStack) := by
  intro h
  let acts : List (StartAct oneStack.stackNum) :=
    List.replicate 3 (.main .done) ++ upToPhase1 0 8 ++ List.replicate 4 (.main .done) ++
      [.listen .failed]
  have hrun : ((system oneStack).run (start oneStack) acts).any (fun s => decide
      ((s.main = .waitListen ∧ s.semListen = 0 ∧ s.listen = .ended ∧ s.ethdevInit = 0) ∧
        ∀ i, s.stack i = .waitEthdev ∧ s.kernel i = .polling)) = true := by
    decide +kernel
  obtain ⟨s, hs, hstuck⟩ := (Option.any_eq_true _ _).1 hrun
  obtain ⟨⟨hmain, hsem, hlisten, hethdev⟩, hthreads⟩ := of_decide_eq_true hstuck
  have hover := h.final acts s hs
    (Transition.System.stepsMeet_of_forall (fun _ _ _ => trivial) _) fun a _ => by
      cases a <;> simp [system, step, mainStep, stackStep, kernelStep, listenStep, hmain, hsem,
        hlisten, hethdev, hthreads]
  rcases hover with heq | heq <;> rw [hmain] at heq <;> cases heq

/-! ## The parameters -/

end Startup

/-- One of the two threads of a stack has yet to read its parameters. -/
def StackStart.needsParams (t : StackStart) (k : KernelStart) : Bool :=
  (match t with
    | .start | .alloc | .initValue | .numa | .affiliate => true
    | _ => false) || k = .start

/-- The main thread has not seen that all stacks are ready. -/
def MainStart.early : MainStart → Bool
  | .init | .create _ | .waitPhase1 => true
  | _ => false

namespace Startup

variable {conf : StartConf} {s s' : Startup conf.stackNum}

/-- The condition on a step of a stack thread, with which its stack posts `thread_phase1` no third
time before the device is there. `create_affiliate_thread` does not fail when its thread was created
all the same, because `pthread_setname_np` fails: then `END2` and `END1` post beside that thread.
And with ltran `ethdev_init` does not fail: then `END1` posts again. -/
def PostsTwice (s : Startup conf.stackNum) : StartAct conf.stackNum → Prop
  | .stack i r =>
    (s.stack i = .affiliate → createThread (queueId conf i) r ≠ (true, false)) ∧
      (s.stack i = .ethdev → conf.useLtran = true → r = .done)
  | _ => True

/-- The condition on a step is decidable. -/
instance (s : Startup conf.stackNum) : (a : StartAct conf.stackNum) → Decidable (s.PostsTwice a)
  | .stack .. => inferInstanceAs (Decidable (_ ∧ _))
  | .main _ | .kernel _ | .listen _ => inferInstanceAs (Decidable True)

/-- The invariant of the runs that meet the condition. -/
structure ParamsInv (s : Startup conf.stackNum) : Prop where
  /-- At first `thread_phase1` has exactly the value that the threads have made it. -/
  exact : s.main.early = true →
    s.ethdevInit = 0 ∧ s.paramsFreed = 0 ∧ s.phase1 = s.perStack StackStart.posts
  /-- At `END2` there is no thread for the events of the kernel. -/
  alone : ∀ i b, s.stack i = .end2 b → s.kernel i = .absent
  /-- Without ltran a stack thread waits for the device. -/
  device : ∀ i, s.stack i = .ethdev → conf.useLtran = true ∨ 1 ≤ s.ethdevInit
  /-- Then the parameters are not needed any more. -/
  late : s.main.early = false → s.main ≠ .exited →
    ∀ i, (s.stack i).needsParams (s.kernel i) = false
  /-- Nor are they when some are freed. -/
  freed : 0 < s.paramsFreed → ∀ i, (s.stack i).needsParams (s.kernel i) = false

/-- The two threads of one stack go on, as far as their posts and parameters are concerned. -/
structure StackMove (s s' : Startup conf.stackNum) (i : Fin conf.stackNum) (t : StackStart)
    (k : KernelStart) : Prop where
  /-- The stack thread is at another place. -/
  stack : s'.stack = Function.update s.stack i t
  /-- So is the thread for the events of the kernel. -/
  kernel : s'.kernel = Function.update s.kernel i k
  /-- Before the device is there, what they post is counted. -/
  posts : s.ethdevInit = 0 → s'.phase1 + (s.stack i).posts (s.kernel i) = s.phase1 + t.posts k
  /-- `END2` is for a stack without a thread for the events of the kernel. -/
  alone : ∀ b, t = .end2 b → k = .absent
  /-- Without ltran the device is there at `ethdev_init`. -/
  device : t = .ethdev → conf.useLtran = true ∨ 1 ≤ s.ethdevInit
  /-- They do not need their parameters again. -/
  needs : (s.stack i).needsParams (s.kernel i) = false → t.needsParams k = false

/-- Only the stack thread goes on, to a place where it has posted `n` times more. -/
theorem StackMove.of_stack {i : Fin conf.stackNum} {t : StackStart} {n : ℕ}
    (hstack : s'.stack = Function.update s.stack i t) (hkernel : s'.kernel = s.kernel)
    (hphase1 : s'.phase1 = s.phase1 + n)
    (hposts : s.ethdevInit = 0 → t.posts (s.kernel i) = (s.stack i).posts (s.kernel i) + n)
    (halone : ∀ b, t = .end2 b → s.kernel i = .absent)
    (hdevice : t = .ethdev → conf.useLtran = true ∨ 1 ≤ s.ethdevInit)
    (hneeds : (s.stack i).needsParams (s.kernel i) = false → t.needsParams (s.kernel i) = false) :
    StackMove s s' i t (s.kernel i) where
  stack := hstack
  kernel := hkernel.trans (Function.update_eq_self i s.kernel).symm
  posts hzero := by
    rw [hphase1, hposts hzero]
    omega
  alone := halone
  device := hdevice
  needs := hneeds

/-- A call of a step succeeds, or it fails. -/
theorem next_cases {P : Type} (r : StartOutcome) (ok fail : P) :
    r = .done ∧ next r ok fail = ok ∨ r ≠ .done ∧ next r ok fail = fail := by
  unfold next
  split
  · next hr => exact .inl ⟨hr, rfl⟩
  · next hr => exact .inr ⟨hr, rfl⟩

/-- A place before the thread for the events of the kernel is created. -/
theorem StackMove.early {i : Fin conf.stackNum} {t : StackStart}
    (hpc : s.stack i = .start ∨ s.stack i = .alloc ∨ s.stack i = .initValue ∨ s.stack i = .numa)
    (habsent : s.kernel i = .absent)
    (ht : t = .alloc ∨ t = .initValue ∨ t = .numa ∨ t = .affiliate ∨ ∃ b, t = .end2 b) :
    StackMove s (setStack conf s i t) i t (s.kernel i) := by
  refine .of_stack rfl rfl (Nat.add_zero _).symm (fun _ => ?_) (fun _ _ => habsent)
    (fun heq => ?_) fun hneeds => ?_
  · rw [habsent]
    rcases hpc with hpc | hpc | hpc | hpc <;> rw [hpc] <;>
      rcases ht with rfl | rfl | rfl | rfl | ⟨b, rfl⟩ <;> rfl
  · rw [heq] at ht
    simp at ht
  · -- here the parameters are needed
    rcases hpc with hpc | hpc | hpc | hpc <;> rw [hpc] at hneeds <;> cases hneeds

/-- A place after it was created and before the stack thread posts. -/
theorem StackMove.late {i : Fin conf.stackNum} {t : StackStart}
    (hpc : s.stack i = .affinity ∨ s.stack i = .hugepage ∨ s.stack i = .register)
    (hexists : s.kernel i ≠ .absent)
    (ht : t = .hugepage ∨ t = .register ∨ t = .postPhase1 ∨ t = .end1 true) :
    StackMove s (setStack conf s i t) i t (s.kernel i) := by
  have hposts : t.posts (s.kernel i) = (s.kernel i).posts := by
    rcases ht with rfl | rfl | rfl | rfl
    · rfl
    · rfl
    · rfl
    · rw [StackStart.posts, if_neg hexists, Nat.add_zero]
  have hneeds : t.needsParams (s.kernel i) = decide (s.kernel i = .start) := by
    rcases ht with rfl | rfl | rfl | rfl <;> rfl
  refine .of_stack rfl rfl (Nat.add_zero _).symm (fun _ => ?_) (fun b heq => ?_) (fun heq => ?_)
    fun hno => ?_
  · rw [hposts]
    rcases hpc with hpc | hpc | hpc <;> rw [hpc] <;> rfl
  · rw [heq] at ht
    simp at ht
  · rw [heq] at ht
    simp at ht
  · rw [hneeds]
    rcases hpc with hpc | hpc | hpc <;> rw [hpc] at hno <;> exact hno

/-- `create_affiliate_thread`: the thread for the events of the kernel is there and has posted
nothing, or the stack thread posts in its place. -/
theorem stackStep_affiliate {i : Fin conf.stackNum} {r : StartOutcome}
    (hpc : s.stack i = .affiliate)
    (habsent : s.kernel i = .absent) (hc : s.PostsTwice (.stack i r))
    (hs : stackStep conf s i r = some s') : ∃ t k, StackMove s s' i t k := by
  simp only [stackStep, hpc, Option.some.injEq] at hs
  have hneeds : (s.stack i).needsParams (s.kernel i) = true := by rw [hpc]; rfl
  rcases createThread_cases (queueId conf i) r with hcreate | hcreate | hcreate
  · rw [hcreate] at hs
    subst hs
    refine ⟨.affinity, .start, rfl, rfl, fun _ => ?_, fun b heq => ?_, fun heq => ?_, fun hno => ?_⟩
    · rw [hpc, habsent]
      rfl
    · cases heq
    · cases heq
    · rw [hneeds] at hno
      cases hno
  · -- the thread is there and the function fails: this the condition excludes
    exact absurd hcreate (hc.1 hpc)
  · rw [hcreate] at hs
    subst hs
    refine ⟨.end2 true, _, .of_stack rfl rfl (Nat.add_zero _).symm (fun _ => ?_)
      (fun _ _ => habsent) (fun heq => ?_) fun hno => ?_⟩
    · rw [hpc, habsent]
      rfl
    · cases heq
    · rw [hneeds] at hno
      cases hno

/-- The post of `thread_phase1` by a stack thread that has done its part. -/
theorem stackStep_postPhase1 {i : Fin conf.stackNum} {r : StartOutcome}
    (hpc : s.stack i = .postPhase1) (hs : stackStep conf s i r = some s') :
    ∃ t k, StackMove s s' i t k := by
  simp only [stackStep, hpc, Option.some.injEq] at hs
  subst hs
  refine ⟨_, _, .of_stack rfl rfl rfl (fun _ => ?_) (fun b heq => ?_) (fun heq => ?_) fun hno => ?_⟩
  · rw [hpc]
    split <;> rfl
  · split at heq <;> cases heq
  · by_cases hltran : conf.useLtran = true
    · exact .inl hltran
    · rw [if_neg hltran] at heq
      cases heq
  · rw [hpc] at hno
    split <;> exact hno

/-- `ethdev_init`. -/
theorem stackStep_ethdev (h : ParamsInv s) {i : Fin conf.stackNum} {r : StartOutcome}
    (hpc : s.stack i = .ethdev) (hc : s.PostsTwice (.stack i r))
    (hs : stackStep conf s i r = some s') : ∃ t k, StackMove s s' i t k := by
  simp only [stackStep, hpc, Option.some.injEq] at hs
  rcases next_cases r (if !conf.useLtran ∧ queueId conf i = 0 then StackStart.initPorts
    else .postAll) (.end1 true) with ⟨-, hnext⟩ | ⟨hfails, hnext⟩ <;> rw [hnext] at hs <;>
    subst hs <;>
    refine ⟨_, _, .of_stack rfl rfl (Nat.add_zero _).symm (fun hzero => ?_) (fun b heq => ?_)
      (fun heq => ?_) fun hno => ?_⟩
  · rw [hpc]
    split <;> rfl
  · split at heq <;> cases heq
  · split at heq <;> cases heq
  · rw [hpc] at hno
    split <;> exact hno
  · -- without ltran the device is there, and with it `ethdev_init` does not fail
    rcases h.device i hpc with hltran | hone
    · exact absurd (hc.2 hpc hltran) hfails
    · omega
  · cases heq
  · cases heq
  · rw [hpc] at hno
    exact hno

/-- A step on the way out or to the polling, with `n` posts. The parameters were read before. -/
theorem StackMove.behind {i : Fin conf.stackNum} {t : StackStart} {n : ℕ}
    (hstack : s'.stack = Function.update s.stack i t) (hkernel : s'.kernel = s.kernel)
    (hphase1 : s'.phase1 = s.phase1 + n)
    (hposts : t.posts (s.kernel i) = (s.stack i).posts (s.kernel i) + n)
    (hneeds : t.needsParams (s.kernel i) = (s.stack i).needsParams (s.kernel i))
    (ht : (∀ b, t ≠ .end2 b) ∧ t ≠ .ethdev) : StackMove s s' i t (s.kernel i) :=
  .of_stack hstack hkernel hphase1 (fun _ => hposts) (fun b heq => absurd heq (ht.1 b))
    (fun heq => absurd heq ht.2) hneeds.trans

/-- What a step of a stack thread that meets the condition does to the two threads of the stack. -/
theorem stackStep_posts (h : ParamsInv s) {i : Fin conf.stackNum} {r : StartOutcome}
    (hplaced : (s.stack i).Placed (s.kernel i)) (hc : s.PostsTwice (.stack i r))
    (hs : stackStep conf s i r = some s') : ∃ t k, StackMove s s' i t k := by
  cases hpc : s.stack i with
  | absent | polling | returned => simp [stackStep, hpc] at hs
  | start =>
    simp only [stackStep, hpc, Option.some.injEq] at hs
    rw [hpc] at hplaced
    exact hs ▸ ⟨_, _, .early (.inl hpc) hplaced (.inl rfl)⟩
  | alloc =>
    simp only [stackStep, hpc, Option.some.injEq] at hs
    rw [hpc] at hplaced
    rcases next_cases r StackStart.initValue (.end2 false) with ⟨-, hnext⟩ | ⟨-, hnext⟩ <;>
      rw [hnext] at hs <;>
      exact hs ▸ ⟨_, _, .early (.inr (.inl hpc)) hplaced (by simp)⟩
  | initValue =>
    simp only [stackStep, hpc, Option.some.injEq] at hs
    rw [hpc] at hplaced
    rcases next_cases r StackStart.numa (.end2 true) with ⟨-, hnext⟩ | ⟨-, hnext⟩ <;>
      rw [hnext] at hs <;>
      exact hs ▸ ⟨_, _, .early (.inr (.inr (.inl hpc))) hplaced (by simp)⟩
  | numa =>
    simp only [stackStep, hpc, Option.some.injEq] at hs
    rw [hpc] at hplaced
    rcases next_cases r StackStart.affiliate (.end2 true) with ⟨-, hnext⟩ | ⟨-, hnext⟩ <;>
      rw [hnext] at hs <;>
      exact hs ▸ ⟨_, _, .early (.inr (.inr (.inr hpc))) hplaced (by simp)⟩
  | affiliate =>
    rw [hpc] at hplaced
    exact stackStep_affiliate hpc hplaced hc hs
  | affinity =>
    simp only [stackStep, hpc, Option.some.injEq] at hs
    rw [hpc] at hplaced
    rcases next_cases r StackStart.hugepage (.end1 true) with ⟨-, hnext⟩ | ⟨-, hnext⟩ <;>
      rw [hnext] at hs <;>
      exact hs ▸ ⟨_, _, .late (.inl hpc) hplaced (by simp)⟩
  | hugepage =>
    simp only [stackStep, hpc, Option.some.injEq] at hs
    rw [hpc] at hplaced
    rcases next_cases r (if conf.useLtran then StackStart.register else .postPhase1) (.end1 true)
      with ⟨-, hnext⟩ | ⟨-, hnext⟩ <;> rw [hnext] at hs <;>
      refine hs ▸ ⟨_, _, .late (.inr (.inl hpc)) hplaced ?_⟩
    · split <;> simp
    · simp
  | register =>
    simp only [stackStep, hpc, Option.some.injEq] at hs
    rw [hpc] at hplaced
    rcases next_cases r StackStart.postPhase1 (.end1 true) with ⟨-, hnext⟩ | ⟨-, hnext⟩ <;>
      rw [hnext] at hs <;>
      exact hs ▸ ⟨_, _, .late (.inr (.inr hpc)) hplaced (by simp)⟩
  | postPhase1 => exact stackStep_postPhase1 hpc hs
  | waitEthdev =>
    simp only [stackStep, hpc] at hs
    split at hs
    · next hready =>
      obtain rfl := Option.some.inj hs
      refine ⟨.ethdev, _, .of_stack rfl rfl (Nat.add_zero _).symm (fun _ => ?_) (fun b heq => ?_)
        (fun _ => .inr hready) fun hno => ?_⟩
      · rw [hpc]
        rfl
      · cases heq
      · rw [hpc] at hno
        exact hno
    · cases hs
  | ethdev => exact stackStep_ethdev h hpc hc hs
  | initPorts =>
    simp only [stackStep, hpc, Option.some.injEq] at hs
    subst hs
    exact ⟨.postAll, _, .behind rfl rfl (Nat.add_zero _).symm (by rw [hpc]; rfl) (by rw [hpc]; rfl)
      (by simp)⟩
  | postAll =>
    simp only [stackStep, hpc, Option.some.injEq] at hs
    subst hs
    exact ⟨.polling, _, .behind rfl rfl (Nat.add_zero _).symm (by rw [hpc]; rfl) (by rw [hpc]; rfl)
      (by simp)⟩
  | end2 b =>
    -- this post is for the thread that was not created
    have habsent := h.alone i b hpc
    simp only [stackStep, hpc, Option.some.injEq] at hs
    subst hs
    exact ⟨.end1 b, _, .behind rfl rfl rfl (by rw [hpc, habsent]; rfl) (by rw [hpc]; rfl) (by simp)⟩
  | end1 b =>
    have hposts : (StackStart.freeStack b).posts (s.kernel i) =
        (StackStart.end1 b).posts (s.kernel i) + 1 := by
      rw [StackStart.posts, StackStart.posts]
      split <;> rfl
    simp only [stackStep, hpc, Option.some.injEq] at hs
    subst hs
    exact ⟨.freeStack b, _, .behind rfl rfl rfl (by rw [hpc, hposts]) (by rw [hpc]; rfl) (by simp)⟩
  | freeStack b =>
    simp only [stackStep, hpc, Option.some.injEq] at hs
    subst hs
    exact ⟨.setFail, _, .behind rfl rfl (Nat.add_zero _).symm (by rw [hpc]; rfl) (by rw [hpc]; rfl)
      (by simp)⟩
  | setFail =>
    simp only [stackStep, hpc, Option.some.injEq] at hs
    subst hs
    exact ⟨.postFail, _, .behind rfl rfl (Nat.add_zero _).symm (by rw [hpc]; rfl) (by rw [hpc]; rfl)
      (by simp)⟩
  | postFail =>
    simp only [stackStep, hpc, Option.some.injEq] at hs
    subst hs
    exact ⟨.returned, _, .behind rfl rfl (Nat.add_zero _).symm (by rw [hpc]; rfl) (by rw [hpc]; rfl)
      (by simp)⟩

/-- What a step of a thread for the events of the kernel does to them. -/
theorem kernelStep_posts (h : ParamsInv s) {i : Fin conf.stackNum}
    (hs : kernelStep conf s i = some s') : ∃ k, StackMove s s' i (s.stack i) k := by
  obtain ⟨-, -, -, -, -, -, hstack⟩ := kernelStep_frame hs
  have hsame := hstack.trans (Function.update_eq_self i s.stack).symm
  have halone : s.kernel i ≠ .absent → ∀ b, s.stack i ≠ .end2 b := fun hne b heq =>
    hne (h.alone i b heq)
  unfold kernelStep at hs
  -- a thread that waits for events does nothing here
  cases hpc : s.kernel i with
  | absent | polling => simp [hpc] at hs
  | start =>
    -- its start and its last post are counted, and the stack thread is past its creation
    simp only [hpc, Option.some.injEq] at hs
    subst hs
    refine ⟨.postPhase1, hsame, rfl, fun _ => ?_, ?_, h.device i, fun hno => ?_⟩
    · rw [hpc]
      rfl
    · exact fun b heq => absurd heq (halone (by simp [hpc]) b)
    · rw [hpc] at hno
      cases hcase : s.stack i <;> rw [hcase] at hno <;> cases hno
  | postPhase1 =>
    simp only [hpc, Option.some.injEq] at hs
    subst hs
    refine ⟨.bind, hsame, rfl, fun _ => ?_, ?_, h.device i, fun hno => ?_⟩
    · rw [hpc]
      simp only [StackStart.posts, KernelStart.posts, reduceCtorEq, if_false]
      omega
    · exact fun b heq => absurd heq (halone (by simp [hpc]) b)
    · rwa [hpc] at hno
  | bind =>
    simp only [hpc, Option.some.injEq] at hs
    subst hs
    refine ⟨.polling, hsame, rfl, fun _ => ?_, ?_, h.device i, fun hno => ?_⟩
    · rw [hpc]
      rfl
    · exact fun b heq => absurd heq (halone (by simp [hpc]) b)
    · rwa [hpc] at hno

/-- The two threads of one stack go on. -/
theorem ParamsInv.move (h : ParamsInv s) {i : Fin conf.stackNum} {t : StackStart} {k : KernelStart}
    (hmain : s'.main = s.main) (hethdev : s'.ethdevInit = s.ethdevInit)
    (hparams : s'.paramsFreed = s.paramsFreed) (hmove : StackMove s s' i t k) : ParamsInv s' := by
  have hsum := perStack_update (f := StackStart.posts) hmove.stack hmove.kernel
  have hcases : ∀ j, j = i ∧ s'.stack j = t ∧ s'.kernel j = k ∨
      s'.stack j = s.stack j ∧ s'.kernel j = s.kernel j := by
    intro j
    rw [hmove.stack, hmove.kernel]
    by_cases hj : j = i
    · subst hj
      exact .inl ⟨rfl, Function.update_self .., Function.update_self ..⟩
    · exact .inr ⟨Function.update_of_ne hj .., Function.update_of_ne hj ..⟩
  -- nobody else begins to need the parameters
  have hneeds' : (∀ j, (s.stack j).needsParams (s.kernel j) = false) →
      ∀ j, (s'.stack j).needsParams (s'.kernel j) = false := by
    intro hall j
    rcases hcases j with ⟨rfl, ht, hk⟩ | ⟨ht, hk⟩ <;> rw [ht, hk]
    · exact hmove.needs (hall j)
    · exact hall j
  refine ⟨fun hearly => ?_, fun j b hj => ?_, fun j hj => ?_, fun hearly hexited => ?_,
    fun hfreed => ?_⟩
  · rw [hmain] at hearly
    obtain ⟨hzero, hnone, hexact⟩ := h.exact hearly
    have hposts := hmove.posts hzero
    exact ⟨hethdev.trans hzero, hparams.trans hnone, by omega⟩
  · -- at `END2` the stack has no thread for the events of the kernel
    rcases hcases j with ⟨rfl, ht, hk⟩ | ⟨ht, hk⟩
    · rw [hk]
      exact hmove.alone b (ht ▸ hj)
    · rw [hk]
      exact h.alone j b (ht ▸ hj)
  · rw [hethdev]
    rcases hcases j with ⟨rfl, ht, -⟩ | ⟨ht, -⟩
    · exact hmove.device (ht ▸ hj)
    · exact h.device j (ht ▸ hj)
  · -- the parameters are freed when nobody needs them, and the step keeps it so
    rw [hmain] at hearly hexited
    exact hneeds' (h.late hearly hexited)
  · rw [hparams] at hfreed
    exact hneeds' (h.freed hfreed)

/-- A thread for the events of the kernel posts once. -/
theorem KernelStart.posts_le (k : KernelStart) : k.posts ≤ 1 := by
  cases k <;> decide

/-- No stack is counted more than twice. -/
theorem posts_le (t : StackStart) (k : KernelStart) : t.posts k ≤ 2 := by
  have hk := KernelStart.posts_le k
  by_cases habsent : k = .absent
  · subst habsent
    cases t <;> decide +revert
  · unfold StackStart.posts
    rw [if_neg habsent, if_neg habsent]
    split <;> omega

/-- One whose threads need their parameters is counted once at most. -/
theorem posts_of_needs {t : StackStart} {k : KernelStart} (hplaced : t.Placed k)
    (hneeds : t.needsParams k = true) : t.posts k < 2 := by
  unfold StackStart.needsParams at hneeds
  rcases Bool.or_eq_true_iff.1 hneeds with ht | hk
  · cases t <;> simp only [reduceCtorEq] at ht <;>
      (have hk : k = .absent := hplaced; subst hk; decide)
  · obtain rfl := of_decide_eq_true hk
    cases t <;> decide +revert

/-- When `thread_phase1` has the value that is waited for, no thread needs its parameters. -/
theorem ParamsInv.not_needs (h : ParamsInv s) (hthreads : ThreadInv s)
    (hearly : s.main.early = true) (hphase1 : conf.stackNum * 2 ≤ s.phase1)
    (i : Fin conf.stackNum) : (s.stack i).needsParams (s.kernel i) = false := by
  obtain ⟨-, -, hexact⟩ := h.exact hearly
  have htwo := le_of_le_perStack (s := s) posts_le (hexact ▸ hphase1) i
  by_contra hneeds
  have hlt := posts_of_needs (hthreads.placed i) (Bool.eq_true_of_not_eq_false hneeds)
  exact absurd htwo (Nat.not_le.2 hlt)

/-- The main thread creates no stack thread. -/
theorem ParamsInv.goto (h : ParamsInv s) (hstack : s'.stack = s.stack)
    (hkernel : s'.kernel = s.kernel) (hphase1 : s'.phase1 = s.phase1)
    (hearly : s'.main.early = true → s.main.early = true ∧ s'.ethdevInit = s.ethdevInit ∧
      s'.paramsFreed = s.paramsFreed)
    (hethdev : s.ethdevInit ≤ s'.ethdevInit)
    (hneeds : s'.main.early = false → s'.main ≠ .exited →
      ∀ i, (s.stack i).needsParams (s.kernel i) = false)
    (hfreed : 0 < s'.paramsFreed → ∀ i, (s.stack i).needsParams (s.kernel i) = false) :
    ParamsInv s' := by
  refine ⟨fun hs' => ?_, ?_, fun i hi => ?_, ?_, ?_⟩
  · obtain ⟨hs, hsame, hparams⟩ := hearly hs'
    obtain ⟨hzero, hnone, hexact⟩ := h.exact hs
    refine ⟨hsame.trans hzero, hparams.trans hnone, ?_⟩
    rw [hphase1, hexact, perStack, perStack, hstack, hkernel]
  · rw [hstack, hkernel]
    exact h.alone
  · rw [hstack] at hi
    exact (h.device i hi).imp id fun hle => hle.trans hethdev
  · rw [hstack, hkernel]
    exact hneeds
  · rw [hstack, hkernel]
    exact hfreed

/-- The main thread creates one. -/
theorem ParamsInv.create (h : ParamsInv s) {i : Fin conf.stackNum} (habsent : s.stack i = .absent)
    (hplaced : (s.stack i).Placed (s.kernel i)) (hearly : s.main.early = true) (main : MainStart)
    (hmain : main = .create (i + 1) ∨ main = .exited) :
    ParamsInv { s with stack := Function.update s.stack i .start, main := main } := by
  obtain ⟨hzero, hnone, hexact⟩ := h.exact hearly
  have hkernel : s.kernel i = .absent := by rwa [habsent] at hplaced
  generalize hs' : ({ s with stack := Function.update s.stack i .start, main := main } :
    Startup conf.stackNum) = s'
  have hsum := perStack_update (f := StackStart.posts) (congrArg stack hs'.symm)
    ((congrArg kernel hs'.symm).trans (Function.update_eq_self i s.kernel).symm)
  rw [habsent, hkernel] at hsum
  subst hs'
  have hother : ∀ j t, Function.update s.stack i .start j = t → t ≠ .start → s.stack j = t := by
    intro j t hj ht
    by_cases hji : j = i
    · subst hji
      rw [Function.update_self] at hj
      exact absurd hj.symm ht
    · rwa [Function.update_of_ne hji] at hj
  refine ⟨fun _ => ⟨hzero, hnone, ?_⟩, fun j b hj => ?_, fun j hj => ?_, fun hlate hexited => ?_,
    fun hfreed => ?_⟩
  · dsimp only
    rw [hexact]
    exact (Nat.add_right_cancel hsum).symm
  · exact h.alone j b (hother j _ hj StackStart.noConfusion)
  · exact h.device j (hother j _ hj StackStart.noConfusion)
  · rcases hmain with rfl | rfl
    · cases hlate
    · exact absurd rfl hexited
  · dsimp only at hfreed
    rw [hnone] at hfreed
    exact absurd hfreed (Nat.lt_irrefl _)

/-- When the main thread has gone on after `thread_phase1`, it does not go back. -/
theorem mainStep_late {r : StartOutcome} (hearly : s.main.early = false)
    (hs : mainStep conf s r = some s') :
    s'.main.early = false ∧ s.ethdevInit ≤ s'.ethdevInit ∧ s.main ≠ .exited := by
  unfold mainStep at hs
  cases hpc : s.main <;> simp only [hpc, reduceCtorEq, Option.some.injEq] at hs
  case init | create | waitPhase1 =>
    rw [hpc] at hearly
    cases hearly
  case freeParams =>
    split at hs <;> cases hs
    · exact ⟨rfl, le_rfl, by simp⟩
    · exact ⟨by cases conf.useLtran <;> rfl, le_rfl, by simp⟩
  case waitListen | waitAll =>
    split at hs <;> cases hs
    exact ⟨rfl, le_rfl, by simp⟩
  case checkFail | checkAll =>
    subst hs
    exact ⟨by cases s.initFail <;> cases conf.useLtran <;> rfl, le_rfl, by simp⟩
  case initEthdev =>
    subst hs
    cases r with
    | done => exact ⟨rfl, Nat.le_succ _, by simp⟩
    | failed | unnamed => exact ⟨rfl, le_rfl, by simp⟩
  case createListen =>
    subst hs
    exact ⟨rfl, le_rfl, by simp⟩
  case setFlag =>
    subst hs
    exact ⟨by cases r <;> rfl, le_rfl, by simp⟩

/-- The main thread goes on. -/
theorem ParamsInv.mainStep (h : ParamsInv s) (hthreads : ThreadInv s) (hmain : MainInv s)
    {r : StartOutcome} (hs : mainStep conf s r = some s') : ParamsInv s' := by
  -- the creation of a stack gives it its parameters
  by_cases hcreate : ∃ i < conf.stackNum, s.main = .create i
  · obtain ⟨i, hi, hpc⟩ := hcreate
    have hearly : s.main.early = true := by rw [hpc]; rfl
    have hcreated := fun main =>
      h.create (hmain.absent hpc hi) (hthreads.placed ⟨i, hi⟩) hearly main
    rcases mainStep_create hpc hi hs with (rfl | rfl) | rfl
    · exact hcreated _ (.inl rfl)
    · exact hcreated _ (.inr rfl)
    · -- the process exits, nothing is freed
      exact h.goto rfl rfl rfl (fun heq => absurd heq Bool.false_ne_true) le_rfl
        (fun _ hne => absurd rfl hne) h.freed
  · obtain ⟨hstack, hkernel, hphase1, -⟩ :=
      mainStep_frame (fun i hi hpc => hcreate ⟨i, hi, hpc⟩) hs
    cases hearly : s.main.early with
    | false =>
      -- behind the first wait the parameters are not read any more
      obtain ⟨hlate, hethdev, hexited⟩ := mainStep_late hearly hs
      have hneeds := h.late hearly hexited
      exact h.goto hstack hkernel hphase1 (fun heq => by rw [hlate] at heq; cases heq) hethdev
        (fun _ _ => hneeds) fun _ => hneeds
    | true =>
      -- before it the main thread frees nothing
      unfold Startup.mainStep at hs
      cases hpc : s.main with
      | init =>
        simp only [hpc, Option.some.injEq] at hs
        subst hs
        cases r with
        | done =>
          exact h.goto rfl rfl rfl (fun _ => ⟨by rw [hpc]; rfl, rfl, rfl⟩) le_rfl
            (fun heq => absurd heq (Ne.symm Bool.false_ne_true)) h.freed
        | failed | unnamed =>
          exact h.goto rfl rfl rfl (fun heq => absurd heq Bool.false_ne_true) le_rfl
            (fun _ hne => absurd rfl hne) h.freed
      | create i =>
        rw [hpc] at hs
        dsimp only at hs
        -- the last stack is created
        rw [dif_neg fun hi => hcreate ⟨i, hi, hpc⟩] at hs
        obtain rfl := Option.some.inj hs
        exact h.goto rfl rfl rfl (fun _ => ⟨by rw [hpc]; rfl, rfl, rfl⟩) le_rfl
          (fun heq => absurd heq (Ne.symm Bool.false_ne_true)) h.freed
      | waitPhase1 =>
        rw [hpc] at hs
        dsimp only at hs
        -- the count was reached, so each thread has read its parameters
        by_cases hvalue : conf.stackNum * 2 ≤ s.phase1
        · rw [if_pos hvalue] at hs
          obtain rfl := Option.some.inj hs
          exact h.goto rfl rfl rfl (fun heq => absurd heq Bool.false_ne_true) le_rfl
            (fun _ _ => h.not_needs hthreads (by rw [hpc]; rfl) hvalue) h.freed
        · rw [if_neg hvalue] at hs
          cases hs
      -- these places are behind the first wait
      | freeParams | createListen | waitListen | checkFail | initEthdev | waitAll | checkAll
      | setFlag | success | exited =>
        rw [hpc] at hearly
        cases hearly

/-- While the steps of the stack threads meet the condition, the invariant is kept. -/
theorem ParamsInv.step (h : ParamsInv s) (hthreads : ThreadInv s) (hmain : MainInv s)
    {a : StartAct conf.stackNum} (hc : s.PostsTwice a) (hs : step conf s a = some s') :
    ParamsInv s' := by
  unfold Startup.step at hs
  split at hs
  · cases hs
  cases a with
  | main r => exact h.mainStep hthreads hmain hs
  | stack i r =>
    obtain ⟨⟨hmain, -, -, hethdev, hparams⟩, -⟩ := stackStep_frame hs
    obtain ⟨t, k, hmove⟩ := stackStep_posts h (hthreads.placed i) hc hs
    exact h.move hmain hethdev hparams hmove
  | kernel i =>
    obtain ⟨hmain, -, -, hethdev, hparams, -, -⟩ := kernelStep_frame hs
    obtain ⟨k, hmove⟩ := kernelStep_posts h hs
    exact h.move hmain hethdev hparams hmove
  | listen r =>
    obtain ⟨-, ⟨-, rfl⟩ | ⟨-, rfl⟩⟩ := listenStep_cases hs
    all_goals exact ⟨h.exact, h.alone, h.device, h.late, h.freed⟩

/-- The parameters of a thread are freed only when neither a stack thread nor a thread for the
events of the kernel is going to read them, as long as no stack posts `thread_phase1` a third time:
`create_affiliate_thread` does not fail with its thread created, and with ltran `ethdev_init` does
not fail. -/
theorem startup_params (hs : (system conf).ReachableUnder PostsTwice s)
    (hfreed : 0 < s.paramsFreed) (i : Fin conf.stackNum) :
    (s.stack i).needsParams (s.kernel i) = false := by
  have hinv := Transition.System.invariant_under (M := system conf) (C := PostsTwice)
    (I := fun s => (ThreadInv s ∧ MainInv s) ∧ ParamsInv s)
    (fun s hinit => by
      subst hinit
      refine ⟨inv_start, fun _ => ⟨rfl, rfl, ?_⟩, ?_, ?_, ?_, ?_⟩ <;>
        simp [start, perStack, StackStart.posts, KernelStart.posts, MainStart.early])
    (fun s a s' h hc hstep =>
      ⟨inv_step h.1.1 h.1.2 hstep, h.2.step h.1.1 h.1.2 hc hstep⟩) hs
  exact hinv.2.freed hfreed i

/-- In the start of two stacks the parameters are freed. -/
theorem startup_params_two : ∃ s, (system twoStacks).ReachableUnder PostsTwice s ∧
    0 < s.paramsFreed ∧ ∀ i, (s.stack i).needsParams (s.kernel i) = false := by
  let acts : List (StartAct twoStacks.stackNum) := List.replicate 4 (.main .done) ++
    upToPhase1 0 8 ++ upToPhase1 1 8 ++ List.replicate 2 (.main .done)
  have hmeet : (system twoStacks).stepsMeet PostsTwice (start twoStacks) acts := by decide +kernel
  have hrun : ((system twoStacks).run (start twoStacks) acts).any
      (fun s => decide (0 < s.paramsFreed)) = true := by
    decide +kernel
  obtain ⟨s, hs, hfreed⟩ := (Option.any_eq_true _ _).1 hrun
  have hreach :=
    Transition.System.reachableUnder_of_run (M := system twoStacks) (.init rfl) hs hmeet
  exact ⟨s, hreach, of_decide_eq_true hfreed, startup_params hreach (of_decide_eq_true hfreed)⟩

/-- With ltran and two stacks: the first one fails after it has posted `thread_phase1` and posts it
again, and the parameters of the second one are freed before its thread for the events of the kernel
has read them. -/
theorem startup_params_too_early :
    ¬ ∀ s, (system ⟨2, true, 0⟩).Reachable s → 0 < s.paramsFreed →
      ∀ i, (s.stack i).needsParams (s.kernel i) = false := by
  intro h
  have hrun : ((system ⟨2, true, 0⟩).run (start ⟨2, true, 0⟩)
      (List.replicate 4 (.main .done) ++ upToPhase1 0 9 ++
        [.stack 0 .failed, .stack 0 .done] ++ List.replicate 9 (.stack 1 .done) ++
        List.replicate 3 (.main .done))).any
      (fun s => decide (0 < s.paramsFreed ∧ s.kernel 1 = .start)) = true := by
    decide +kernel
  obtain ⟨s, hs, hand⟩ := (Option.any_eq_true _ _).1 hrun
  obtain ⟨hfreed, hstart⟩ := of_decide_eq_true hand
  have hreach := Transition.System.reachable_of_run (M := system ⟨2, true, 0⟩) (.init rfl) hs
  have hneeds := h s hreach hfreed 1
  rw [hstart] at hneeds
  simp [StackStart.needsParams] at hneeds

end Startup

end Gazelle
